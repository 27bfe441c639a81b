import MacHPSDR.Foundations.Transition
import Mathlib

/-!
# The frames of a protocol 1 radio

`process_ozy_byte` takes a frame apart byte by byte: three sync bytes, five control bytes, and then
groups of one I/Q pair for each receiver and one microphone sample. What it hands on (the control
bytes to `process_control_bytes`, the pairs to the receivers or to PureSignal, the microphone
samples to the transmitter) is its output.
-/

namespace MacHPSDR.Protocol1

/-- `SYNC` -/
def sync : UInt8 := 0x7F

/-- `MAX_RECEIVERS` -/
def maxReceivers : ℕ := 8

/-- Where the parser is in a frame. -/
inductive OzyState
  | sync0
  | sync1
  | sync2
  /-- `CONTROL_0` to `CONTROL_4` -/
  | control (i : Fin 5)
  | leftSampleHi
  | leftSampleMid
  | leftSampleLow
  | rightSampleHi
  | rightSampleMid
  | rightSampleLow
  | micSampleHi
  | micSampleLow
  deriving DecidableEq

/-- What the parser reads of the radio. -/
structure OzyRadio where
  /-- The slots of `radio->receiver` that are not empty. -/
  receiver : Fin maxReceivers → Bool
  supportedReceivers : ℕ
  supported_le : supportedReceivers ≤ maxReceivers
  receivers : ℕ
  receivers_le : receivers ≤ maxReceivers
  localMicrophone : Bool
  micSampleDivisor : ℕ
  transmitting : Bool
  puresignal : Bool
  psTxFdbkChan : ℤ

/-- What the parser hands on. Samples are integers: the scale factors are the consumer's. -/
inductive Output
  /-- `process_control_bytes` -/
  | control (controlIn : Fin 5 → UInt8)
  /-- `add_iq_samples` on the receiver of a slot. -/
  | iq (slot : Fin maxReceivers) (left right : ℤ)
  /-- `add_ps_iq_samples` -/
  | ps (left right fbkLeft fbkRight : ℤ)
  /-- `add_mic_sample` -/
  | mic (sample : ℤ)
  deriving DecidableEq

structure Ozy where
  state : OzyState
  controlIn : Fin 5 → UInt8
  nreceiver : ℕ
  nsamples : ℕ
  iqSamples : ℕ
  leftSample : BitVec 32
  rightSample : BitVec 32
  fbkLeft : ℤ
  fbkRight : ℤ
  micSample : BitVec 16
  micSamples : ℕ

/-- `(int)(signed char)b*65536` -/
def sampleHi (b : UInt8) : BitVec 32 := b.toBitVec.signExtend 32 * 65536

/-- `sample|(((unsigned char)b<<8)&0xFF00)` -/
def sampleMid (sample : BitVec 32) (b : UInt8) : BitVec 32 :=
  sample ||| (b.toBitVec.setWidth 32 <<< 8 &&& 0xFF00)

/-- `sample|((unsigned char)b&0xFF)` -/
def sampleLow (sample : BitVec 32) (b : UInt8) : BitVec 32 :=
  sample ||| (b.toBitVec.setWidth 32 &&& 0xFF)

namespace OzyRadio

variable (r : OzyRadio)

/-- The search for the receiver `n`: `i` live slots have been passed. -/
def findReceiverLoop (n : ℕ) : ℕ → List (Fin maxReceivers) → Option (Fin maxReceivers)
  | _, [] => none
  | i, j :: js =>
    if r.receiver j then
      if i = n then some j else findReceiverLoop n (i + 1) js
    else findReceiverLoop n i js

/-- The slots that are searched. -/
def slots : List (Fin maxReceivers) :=
  (List.finRange maxReceivers).filter fun j => j < r.supportedReceivers

/-- The slot of the receiver `n`. -/
def findReceiver (n : ℕ) : Option (Fin maxReceivers) := r.findReceiverLoop n 0 r.slots

/-- The pair `n` is one of PureSignal's. -/
def FeedsPs (n : ℕ) : Prop :=
  r.transmitting ∧ r.puresignal ∧ ((n : ℤ) = r.psTxFdbkChan ∨ (n : ℤ) = r.psTxFdbkChan - 1)

instance (n : ℕ) : Decidable (r.FeedsPs n) := inferInstanceAs (Decidable (_ ∧ _ ∧ _))

/-- `(512-8)/((radio->receivers*6)+2)` -/
def groups : ℕ := (512 - 8) / (r.receivers * 6 + 2)

theorem groups_bounds : 0 < r.groups ∧ r.groups ≤ 252 := by
  have hr : r.receivers ≤ 8 := r.receivers_le
  unfold groups
  constructor
  · exact Nat.div_pos (by omega) (by omega)
  · exact Nat.div_le_of_le_mul (by omega)

end OzyRadio

namespace Ozy

/-- A pair is complete. -/
def deliver (r : OzyRadio) (s : Ozy) : Ozy × List Output :=
  let left := s.leftSample.toInt
  let right := s.rightSample.toInt
  if r.FeedsPs s.nreceiver then
    if (s.nreceiver : ℤ) = r.psTxFdbkChan - 1 then
      ({ s with fbkLeft := left, fbkRight := right }, [])
    else (s, [.ps left right s.fbkLeft s.fbkRight])
  else
    match r.findReceiver s.nreceiver with
    | some j => (s, [.iq j left right])
    | none => (s, [])

/-- A microphone sample is complete. -/
def deliverMic (r : OzyRadio) (s : Ozy) : Ozy × List Output :=
  if r.localMicrophone then (s, [])
  else if s.micSamples + 1 ≥ r.micSampleDivisor then
    ({ s with micSamples := 0 }, [.mic s.micSample.toInt])
  else ({ s with micSamples := s.micSamples + 1 }, [])

/-- `process_ozy_byte` -/
def processOzyByte (r : OzyRadio) (s : Ozy) (b : UInt8) : Ozy × List Output :=
  match s.state with
  | .sync0 => (if b = sync then { s with state := .sync1 } else s, [])
  | .sync1 => (if b = sync then { s with state := .sync2 } else s, [])
  | .sync2 => (if b = sync then { s with state := .control 0 } else s, [])
  | .control i =>
    let controlIn := Function.update s.controlIn i b
    if i = 4 then
      ({ s with
          state := .leftSampleHi
          controlIn := controlIn
          nreceiver := 0
          nsamples := 0
          iqSamples := r.groups }, [.control controlIn])
    else ({ s with state := .control (i + 1), controlIn := controlIn }, [])
  | .leftSampleHi => ({ s with state := .leftSampleMid, leftSample := sampleHi b }, [])
  | .leftSampleMid =>
    ({ s with state := .leftSampleLow, leftSample := sampleMid s.leftSample b }, [])
  | .leftSampleLow =>
    ({ s with state := .rightSampleHi, leftSample := sampleLow s.leftSample b }, [])
  | .rightSampleHi => ({ s with state := .rightSampleMid, rightSample := sampleHi b }, [])
  | .rightSampleMid =>
    ({ s with state := .rightSampleLow, rightSample := sampleMid s.rightSample b }, [])
  | .rightSampleLow =>
    let (t, out) := { s with rightSample := sampleLow s.rightSample b }.deliver r
    ({ t with
        nreceiver := t.nreceiver + 1
        state := if t.nreceiver + 1 = r.receivers then .micSampleHi else .leftSampleHi }, out)
  | .micSampleHi =>
    ({ s with state := .micSampleLow, micSample := b.toBitVec.setWidth 16 <<< 8 }, [])
  | .micSampleLow =>
    let (t, out) := { s with
      micSample := s.micSample ||| (b.toBitVec.setWidth 16 &&& 0xFF) }.deliverMic r
    if t.nsamples + 1 = t.iqSamples then
      ({ t with nsamples := t.nsamples + 1, state := .sync0 }, out)
    else ({ t with nsamples := t.nsamples + 1, nreceiver := 0, state := .leftSampleHi }, out)

/-- The parser at the start of the program. -/
def start : Ozy where
  state := .sync0
  controlIn := fun _ => 0
  nreceiver := 0
  nsamples := 0
  iqSamples := 0
  leftSample := 0
  rightSample := 0
  fbkLeft := 0
  fbkRight := 0
  micSample := 0
  micSamples := 0

end Ozy

/-- A radio with live receivers in its first slots. -/
def radioWith (receivers : ℕ) (h : receivers ≤ maxReceivers) : OzyRadio where
  receiver j := j < receivers
  supportedReceivers := maxReceivers
  supported_le := le_refl maxReceivers
  receivers := receivers
  receivers_le := h
  localMicrophone := false
  micSampleDivisor := 1
  transmitting := false
  puresignal := false
  psTxFdbkChan := 1

theorem two_le_maxReceivers : 2 ≤ maxReceivers := by decide

end MacHPSDR.Protocol1
