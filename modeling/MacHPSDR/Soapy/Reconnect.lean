import MacHPSDR.Foundations.SlotRow
import MacHPSDR.Foundations.Transition
import Mathlib

/-!
# Opening a SoapySDR device again

When the link is lost the device is given up and opened again for one receiver, whose ADC gets its
stream and its threads back, and the transmitter its stream if it belongs to this receiver. The
stream of another ADC stays on the device that has been given up. So the reconnect is complete
exactly where no other ADC is in use and the transmitter is this receiver's
(`reconnect_complete_iff`).
-/

namespace MacHPSDR.Soapy

/-- `MAX_CHANNELS` -/
abbrev maxChannels : ℕ := 2

/-- `MAX_ADC_RECEIVERS` -/
abbrev maxAdcReceivers : ℕ := 4

theorem maxAdcReceivers_pos : 0 < maxAdcReceivers := by decide

/-- What does not change while the radio runs. A receiver with an ADC that has no stream slot is
never created. -/
structure Rig (ρ : Type*) where
  adc : ρ → Fin maxChannels
  canTransmit : Bool
  txGainMin : ℚ
  /-- The transmit gain of a device that has just been opened. -/
  txGainOpen : ℚ

/-- The state of `soapy_protocol.c`. Devices are numbered as they are opened, and a stream is named
by the device on which it is set up. -/
structure Link (ρ : Type*) where
  soapyDevice : Option ℕ
  /-- How many devices have been opened. -/
  opened : ℕ
  adcSlot : Fin maxChannels → SlotRow maxAdcReceivers ρ
  rxStream : Fin maxChannels → Option ℕ
  receiveThread : Fin maxChannels → Bool
  dspThread : Fin maxChannels → Bool
  rxStreamActive : Bool
  txStream : Option ℕ
  txStreamActive : Bool
  /-- The transmit gain of the device. -/
  txGain : ℚ
  dacGain : ℚ
  /-- `radio->transmitter->rx` -/
  transmitter : Option ρ

/-- What the driver answers; `true` is success. -/
structure Answers where
  make : Bool
  setupTx : Bool
  setupRx : Bool
  activate : Bool

/-- The device is there again, and takes everything. -/
def Answers.ok : Answers := ⟨true, true, true, true⟩

namespace Link

variable {ρ : Type*} [DecidableEq ρ] (rig : Rig ρ) (s : Link ρ)

/-- `slot_is_owner` -/
def slotIsOwner (rx : ρ) : Bool :=
  (s.adcSlot (rig.adc rx) ⟨0, maxAdcReceivers_pos⟩).all fun r => r = rx

theorem slotIsOwner_eq (rx : ρ) :
    s.slotIsOwner rig rx = (s.adcSlot (rig.adc rx) 0).all fun r => r = rx := rfl

/-- `soapy_tx_hold_safe` -/
def holdSafe : Link ρ :=
  if s.soapyDevice.isNone || !rig.canTransmit then s else { s with txGain := rig.txGainMin }

/-- `soapy_protocol_set_tx_gain`, after `dac->gain` is set -/
def setTxGain (gain : ℚ) : Link ρ :=
  { s with dacGain := gain, txGain := if s.txStreamActive then gain else rig.txGainMin }

/-- `soapy_create_transmitter` -/
def createTransmitter (setup : Bool) : Option (Link ρ) :=
  let s := s.holdSafe rig
  match s.soapyDevice, setup with
  | some device, true => some { s with txStream := some device }
  | _, _ => none

/-- `soapy_create_receiver`; what it fails with ends the program. -/
def createReceiver (rx : ρ) (setup : Bool) : Option (Link ρ) :=
  let ch := rig.adc rx
  let row := (s.adcSlot ch).add (fun r => r = rx) rx
  if row.2.isNone then none
  else
    let s := { s with adcSlot := Function.update s.adcSlot ch row.1 }
    if !s.slotIsOwner rig rx then some s
    else
      match s.soapyDevice, setup with
      | some device, true =>
        some { s with rxStream := Function.update s.rxStream ch (some device) }
      | _, _ => none

/-- `soapy_start_receiver`; what it fails with ends the program. -/
def startReceiver (rx : ρ) (activate : Bool) : Option (Link ρ) :=
  if !s.slotIsOwner rig rx then some s
  else if !activate then none
  else
    let ch := rig.adc rx
    some { s with
      rxStreamActive := true
      dspThread := Function.update s.dspThread ch true
      receiveThread := Function.update s.receiveThread ch true }

/-- `soapy_protocol_stop_receiver`, of a live receiver -/
def stopReceiver (rx : ρ) : Link ρ :=
  let ch := rig.adc rx
  let row := (s.adcSlot ch).remove fun r => r = rx
  let s := { s with adcSlot := Function.update s.adcSlot ch row }
  if row.entries ≠ [] || !s.receiveThread ch then s
  else
    { s with
      receiveThread := Function.update s.receiveThread ch false
      dspThread := Function.update s.dspThread ch false
      rxStream :=
        if s.soapyDevice.isSome then Function.update s.rxStream ch none else s.rxStream }

/-- `soapy_protocol_activate_tx` with its gain -/
def activateTx (gain : ℚ) (activate : Bool) : Link ρ :=
  if s.soapyDevice.isNone || s.txStream.isNone || s.txStreamActive then s
  else
    let s := { s with dacGain := gain, txGain := gain }
    if !activate then s.holdSafe rig else { s with txStreamActive := true }

/-- `soapy_protocol_deactivate_tx` -/
def deactivateTx : Link ρ :=
  if s.soapyDevice.isNone || !s.txStreamActive then s
  else { s.holdSafe rig with txStreamActive := false }

/-- `soapy_protocol_rx_pause` -/
def rxPause : Link ρ :=
  if s.soapyDevice.isNone || !s.rxStreamActive then s else { s with rxStreamActive := false }

/-- `soapy_protocol_rx_resume`: all streams are set up again. -/
def rxResume (setup : Fin maxChannels → Bool) : Link ρ :=
  if s.soapyDevice.isNone || s.rxStreamActive then s
  else
    { s with
      rxStream := fun ch =>
        if (s.rxStream ch).isSome then (if setup ch then s.soapyDevice else none) else none
      rxStreamActive := true }

/-- The first half of `soapy_protocol_reconnect`: the threads of the receiver's ADC are stopped, its
stream and the transmitter's are closed, and the device is given up. -/
def tearDown (rx : ρ) : Link ρ :=
  let ch := rig.adc rx
  let s := { s with
    receiveThread := Function.update s.receiveThread ch false
    dspThread := Function.update s.dspThread ch false }
  let s :=
    if s.soapyDevice.isSome then
      { s with
        rxStream := Function.update s.rxStream ch none
        txStream := none
        soapyDevice := none }
    else s
  { s with txStreamActive := false }

/-- `SoapySDRDevice_make`, when the device is there -/
def makeDevice : Link ρ :=
  { s with soapyDevice := some s.opened, opened := s.opened + 1, txGain := rig.txGainOpen }

/-- `soapy_protocol_reconnect`: the transmitter is set up again if it belongs to the receiver. -/
def recreateTransmitter (rx : ρ) (setup : Bool) : Option (Link ρ) :=
  if rig.canTransmit && s.transmitter = some rx then
    (s.createTransmitter rig setup).map fun s => s.setTxGain rig s.dacGain
  else some s

/-- `soapy_protocol_reconnect`, with what it returns -/
def reconnect (rx : ρ) (answers : Answers) : Option (Link ρ × Bool) :=
  let s := s.tearDown rig rx
  if !answers.make then some (s, false)
  else
    let s := (s.makeDevice rig).holdSafe rig
    (s.recreateTransmitter rig rx answers.setupTx).bind fun s =>
    (s.createReceiver rig rx answers.setupRx).bind fun s =>
    (s.startReceiver rig rx answers.activate).map fun s => (s, true)

end Link

/-- What happens to the link. -/
inductive LinkEvent (ρ : Type*)
  | createReceiver (rx : ρ) (setup : Bool)
  | startReceiver (rx : ρ) (activate : Bool)
  | stopReceiver (rx : ρ)
  | createTransmitter (setup : Bool)
  /-- The transmitter is given to a receiver. -/
  | assign (rx : ρ)
  | setTxGain (gain : ℚ)
  | activateTx (gain : ℚ) (activate : Bool)
  | deactivateTx
  | rxPause
  | rxResume (setup : Fin maxChannels → Bool)
  | reconnect (rx : ρ) (answers : Answers)

namespace Link

variable {ρ : Type*} [DecidableEq ρ] (rig : Rig ρ) (s : Link ρ)

def step : LinkEvent ρ → Option (Link ρ)
  | .createReceiver rx setup => s.createReceiver rig rx setup
  | .startReceiver rx activate => s.startReceiver rig rx activate
  | .stopReceiver rx => some (s.stopReceiver rig rx)
  | .createTransmitter setup => s.createTransmitter rig setup
  | .assign rx => some { s with transmitter := some rx }
  | .setTxGain gain => some (s.setTxGain rig gain)
  | .activateTx gain activate => some (s.activateTx rig gain activate)
  | .deactivateTx => some (s.deactivateTx rig)
  | .rxPause => some s.rxPause
  | .rxResume setup => some (s.rxResume setup)
  | .reconnect rx answers => (s.reconnect rig rx answers).map Prod.fst

/-- The radio when `soapy_protocol_init` returns. -/
def atInit : Link ρ :=
  holdSafe rig {
    soapyDevice := some 0
    opened := 1
    adcSlot := fun _ _ => none
    rxStream := fun _ => none
    receiveThread := fun _ => false
    dspThread := fun _ => false
    rxStreamActive := true
    txStream := none
    txStreamActive := false
    txGain := rig.txGainOpen
    dacGain := 0
    transmitter := none }

end Link

/-- The link, whatever happens to it. -/
def link {ρ : Type*} [DecidableEq ρ] (rig : Rig ρ) : System (Link ρ) (LinkEvent ρ) where
  init := .atInit rig
  step s := s.step rig

namespace Link

variable {ρ : Type*} {rig : Rig ρ} {s t : Link ρ}

/-! ## What holds of every link -/

/-- Streams are set up on devices that have been opened, and that of the transmitter on the one that
is open. -/
structure Inv (s : Link ρ) : Prop where
  device : ∀ d, s.soapyDevice = some d → d < s.opened
  receive : ∀ ch d, s.rxStream ch = some d → d < s.opened
  transmit : ∀ d, s.txStream = some d → s.soapyDevice = some d

theorem Inv.congr (h : s.Inv) (hdevice : t.soapyDevice = s.soapyDevice)
    (hopened : t.opened = s.opened)
    (hrx : ∀ ch d, t.rxStream ch = some d → d < s.opened) (htx : t.txStream = s.txStream) :
    t.Inv :=
  ⟨by rw [hdevice, hopened]; exact h.device, by rw [hopened]; exact hrx,
    by rw [htx, hdevice]; exact h.transmit⟩

theorem inv_atInit : (atInit rig : Link ρ).Inv := by
  have h0 : ∀ d, some 0 = some d → d < 1 := fun d hd => by simp_all
  unfold atInit holdSafe
  split
  · exact ⟨h0, fun _ _ h => (nomatch h), fun _ h => (nomatch h)⟩
  · exact ⟨h0, fun _ _ h => (nomatch h), fun _ h => (nomatch h)⟩

theorem Inv.holdSafe (h : s.Inv) : (s.holdSafe rig).Inv := by
  unfold Link.holdSafe
  split
  · exact h
  · exact h.congr rfl rfl h.receive rfl

theorem Inv.createTransmitter (h : s.Inv) {setup : Bool}
    (ht : s.createTransmitter rig setup = some t) : t.Inv := by
  have hheld : (s.holdSafe rig).Inv := h.holdSafe
  unfold Link.createTransmitter at ht
  dsimp only at ht
  split at ht
  · rename_i device hdevice
    obtain rfl := Option.some.inj ht
    exact ⟨hheld.device, hheld.receive, fun d hd => hdevice.trans hd⟩
  · cases ht

/-- A stream is set up, or taken away, on one ADC. -/
theorem Inv.update (h : s.Inv) (ch : Fin maxChannels) {stream : Option ℕ}
    (hstream : ∀ d, stream = some d → d < s.opened) :
    ∀ c d, Function.update s.rxStream ch stream c = some d → d < s.opened := by
  intro c d hd
  rcases eq_or_ne c ch with rfl | hne
  · exact hstream d (by simpa using hd)
  · exact h.receive c d (by simpa [hne] using hd)

theorem Inv.activateTx (h : s.Inv) (gain : ℚ) (activate : Bool) :
    (s.activateTx rig gain activate).Inv := by
  unfold Link.activateTx
  dsimp only
  split
  · exact h
  · split
    · exact Inv.holdSafe (h.congr rfl rfl h.receive rfl)
    · exact h.congr rfl rfl h.receive rfl

theorem Inv.deactivateTx (h : s.Inv) : (s.deactivateTx rig).Inv := by
  unfold Link.deactivateTx
  split
  · exact h
  · exact h.holdSafe.congr rfl rfl h.holdSafe.receive rfl

theorem Inv.rxPause (h : s.Inv) : s.rxPause.Inv := by
  unfold Link.rxPause
  split
  · exact h
  · exact h.congr rfl rfl h.receive rfl

theorem Inv.rxResume (h : s.Inv) (setup : Fin maxChannels → Bool) : (s.rxResume setup).Inv := by
  unfold Link.rxResume
  split
  · exact h
  · refine h.congr rfl rfl (fun ch d hd => ?_) rfl
    dsimp only at hd
    split at hd
    · split at hd
      · exact h.device d hd
      · cases hd
    · cases hd

theorem Inv.tearDown (h : s.Inv) (rx : ρ) : (s.tearDown rig rx).Inv := by
  unfold Link.tearDown
  dsimp only
  split
  · exact ⟨fun _ hd => (nomatch hd), h.update (rig.adc rx) fun _ hd => (nomatch hd),
      fun _ hd => (nomatch hd)⟩
  · exact h.congr rfl rfl h.receive rfl

/-- A device is opened when the last one has been given up. -/
theorem Inv.makeDevice (h : s.Inv) (hgone : s.soapyDevice = none) : (s.makeDevice rig).Inv where
  device d hd := by
    obtain rfl := Option.some.inj hd
    exact Nat.lt_succ_self _
  receive ch d hd := (h.receive ch d hd).trans (Nat.lt_succ_self _)
  transmit d hd := absurd (h.transmit d hd) (by simp [hgone])

theorem tearDown_soapyDevice (rx : ρ) : (s.tearDown rig rx).soapyDevice = none := by
  unfold tearDown
  dsimp only
  split
  · rfl
  · rename_i hgone
    simpa using hgone

variable [DecidableEq ρ]

theorem Inv.createReceiver (h : s.Inv) {rx : ρ} {setup : Bool}
    (ht : s.createReceiver rig rx setup = some t) : t.Inv := by
  unfold Link.createReceiver at ht
  dsimp only at ht
  split at ht
  · cases ht
  · split at ht
    · obtain rfl := Option.some.inj ht
      exact h.congr rfl rfl h.receive rfl
    · split at ht
      · rename_i device hdevice
        obtain rfl := Option.some.inj ht
        exact h.congr rfl rfl (h.update _ fun d hd => h.device d (hdevice.trans hd)) rfl
      · cases ht

theorem Inv.startReceiver (h : s.Inv) {rx : ρ} {activate : Bool}
    (ht : s.startReceiver rig rx activate = some t) : t.Inv := by
  unfold Link.startReceiver at ht
  split at ht
  · obtain rfl := Option.some.inj ht
    exact h
  · split at ht
    · cases ht
    · obtain rfl := Option.some.inj ht
      exact h.congr rfl rfl h.receive rfl

theorem Inv.stopReceiver (h : s.Inv) (rx : ρ) : (s.stopReceiver rig rx).Inv := by
  unfold Link.stopReceiver
  dsimp only
  split
  · exact h.congr rfl rfl h.receive rfl
  · refine h.congr rfl rfl (fun ch d => ?_) rfl
    dsimp only
    split
    · exact h.update (rig.adc rx) (by simp) ch d
    · exact h.receive ch d

theorem Inv.recreateTransmitter (h : s.Inv) {rx : ρ} {setup : Bool}
    (ht : s.recreateTransmitter rig rx setup = some t) : t.Inv := by
  unfold Link.recreateTransmitter at ht
  split at ht
  · obtain ⟨u, hu, rfl⟩ := Option.map_eq_some_iff.1 ht
    have hcreated := h.createTransmitter hu
    exact hcreated.congr rfl rfl hcreated.receive rfl
  · obtain rfl := Option.some.inj ht
    exact h

/-- A reconnect gives the device up, and if there is one to be opened again, it goes on with that.
-/
theorem reconnect_cases {rx : ρ} {answers : Answers} {ok : Bool}
    (ht : s.reconnect rig rx answers = some (t, ok)) :
    (ok = false ∧ t = s.tearDown rig rx) ∨
      ok = true ∧ ∃ u v,
        (((s.tearDown rig rx).makeDevice rig).holdSafe rig).recreateTransmitter rig rx
          answers.setupTx = some u ∧
        u.createReceiver rig rx answers.setupRx = some v ∧
        v.startReceiver rig rx answers.activate = some t := by
  unfold reconnect at ht
  dsimp only at ht
  split at ht
  · obtain ⟨rfl, rfl⟩ := Prod.mk.inj (Option.some.inj ht)
    exact .inl ⟨rfl, rfl⟩
  · obtain ⟨u, hu, ht⟩ := Option.bind_eq_some_iff.1 ht
    obtain ⟨v, hv, ht⟩ := Option.bind_eq_some_iff.1 ht
    obtain ⟨w, hw, ht⟩ := Option.map_eq_some_iff.1 ht
    obtain ⟨rfl, rfl⟩ := Prod.mk.inj ht
    exact .inr ⟨rfl, u, v, hu, hv, hw⟩

theorem Inv.reconnect (h : s.Inv) {rx : ρ} {answers : Answers} {ok : Bool}
    (ht : s.reconnect rig rx answers = some (t, ok)) : t.Inv := by
  rcases reconnect_cases ht with ⟨-, rfl⟩ | ⟨-, u, v, hu, hv, hw⟩
  · exact h.tearDown rx
  · have hmade : ((s.tearDown rig rx).makeDevice rig).Inv :=
      (h.tearDown rx).makeDevice (tearDown_soapyDevice rx)
    exact ((hmade.holdSafe.recreateTransmitter hu).createReceiver hv).startReceiver hw

theorem Inv.step (h : s.Inv) {a : LinkEvent ρ} (ht : s.step rig a = some t) : t.Inv := by
  cases a with
  | createReceiver rx setup => exact h.createReceiver ht
  | startReceiver rx activate => exact h.startReceiver ht
  | stopReceiver rx =>
    obtain rfl := Option.some.inj ht
    exact h.stopReceiver rx
  | createTransmitter setup => exact h.createTransmitter ht
  | assign rx =>
    obtain rfl := Option.some.inj ht
    exact h.congr rfl rfl h.receive rfl
  | setTxGain gain =>
    obtain rfl := Option.some.inj ht
    exact h.congr rfl rfl h.receive rfl
  | activateTx gain activate =>
    obtain rfl := Option.some.inj ht
    exact h.activateTx gain activate
  | deactivateTx =>
    obtain rfl := Option.some.inj ht
    exact h.deactivateTx
  | rxPause =>
    obtain rfl := Option.some.inj ht
    exact h.rxPause
  | rxResume setup =>
    obtain rfl := Option.some.inj ht
    exact h.rxResume setup
  | reconnect rx answers =>
    obtain ⟨⟨u, ok⟩, hu, rfl⟩ := Option.map_eq_some_iff.1 ht
    exact h.reconnect hu

theorem inv_reachable (h : (link rig).Reachable s) : s.Inv :=
  System.Reachable.induction (M := link rig) (I := Inv) inv_atInit
    (fun _ _ _ hs ht => hs.step ht) h

end Link

namespace Link

variable {ρ : Type*} {rig : Rig ρ} {s t : Link ρ}

/-! ## Held at the lowest gain -/

/-- The transmitter is off the air. -/
structure Held (rig : Rig ρ) (s : Link ρ) : Prop where
  inactive : s.txStreamActive = false
  gain : s.txGain = rig.txGainMin

theorem Held.congr (h : Held rig s) (hactive : t.txStreamActive = s.txStreamActive)
    (hgain : t.txGain = s.txGain) : Held rig t :=
  ⟨hactive.trans h.inactive, hgain.trans h.gain⟩

theorem Held.holdSafe (h : Held rig s) : Held rig (s.holdSafe rig) := by
  unfold Link.holdSafe
  split
  · exact h
  · exact ⟨h.inactive, rfl⟩

theorem Held.setTxGain (h : Held rig s) (gain : ℚ) : Held rig (s.setTxGain rig gain) :=
  ⟨h.inactive, by simp [Link.setTxGain, h.inactive]⟩

theorem Held.createTransmitter (h : Held rig s) {setup : Bool}
    (ht : s.createTransmitter rig setup = some t) : Held rig t := by
  unfold Link.createTransmitter at ht
  dsimp only at ht
  split at ht
  · obtain rfl := Option.some.inj ht
    exact h.holdSafe.congr rfl rfl
  · cases ht

/-- A device that has just been opened is held at once. -/
theorem held_makeDevice (htx : rig.canTransmit = true) (hinactive : s.txStreamActive = false) :
    Held rig ((s.makeDevice rig).holdSafe rig) := by
  constructor <;> simp [holdSafe, makeDevice, htx, hinactive]

theorem tearDown_txStreamActive (rx : ρ) : (s.tearDown rig rx).txStreamActive = false := rfl

/-- The device has just been opened again: the stream of the receiver's ADC is gone, and that of the
transmitter. -/
structure Reopened (rig : Rig ρ) (s : Link ρ) (rx : ρ) (u : Link ρ) : Prop where
  device : u.soapyDevice = some s.opened
  slots : u.adcSlot = s.adcSlot
  rxStream : ∀ stream, Function.update u.rxStream (rig.adc rx) stream =
    Function.update s.rxStream (rig.adc rx) stream
  receiveThread : u.receiveThread = Function.update s.receiveThread (rig.adc rx) false
  dspThread : u.dspThread = Function.update s.dspThread (rig.adc rx) false
  txStream : u.txStream = none
  transmitter : u.transmitter = s.transmitter

theorem reopened (rig : Rig ρ) (h : s.Inv) (rx : ρ) :
    Reopened rig s rx (((s.tearDown rig rx).makeDevice rig).holdSafe rig) := by
  have htx : s.soapyDevice.isSome = false → s.txStream = none := by
    intro hgone
    refine Option.eq_none_iff_forall_ne_some.2 fun d hd => ?_
    simp [h.transmit d hd] at hgone
  obtain ⟨soapyDevice, opened, adcSlot, rxStream, receiveThread, dspThread, rxStreamActive,
    txStream, txStreamActive, txGain, dacGain, transmitter⟩ := s
  cases soapyDevice with
  | none =>
    obtain rfl : txStream = none := htx rfl
    constructor <;> cases hcan : rig.canTransmit <;> simp [tearDown, makeDevice, holdSafe, hcan]
  | some device =>
    constructor <;> cases hcan : rig.canTransmit <;> simp [tearDown, makeDevice, holdSafe, hcan]

variable [DecidableEq ρ]

/-- Creating a receiver touches its ADC alone. -/
theorem createReceiver_eq {rx : ρ} {setup : Bool} (ht : s.createReceiver rig rx setup = some t) :
    ∃ row stream, t = { s with
      adcSlot := Function.update s.adcSlot (rig.adc rx) row
      rxStream := stream } := by
  unfold createReceiver at ht
  dsimp only at ht
  split at ht
  · cases ht
  · split at ht
    · exact ⟨_, _, (Option.some.inj ht).symm⟩
    · split at ht
      · exact ⟨_, _, (Option.some.inj ht).symm⟩
      · cases ht

/-- Starting a receiver starts its threads. -/
theorem startReceiver_eq {rx : ρ} {activate : Bool}
    (ht : s.startReceiver rig rx activate = some t) :
    ∃ active dsp receive, t = { s with
      rxStreamActive := active
      dspThread := dsp
      receiveThread := receive } := by
  unfold startReceiver at ht
  split at ht
  · exact ⟨_, _, _, (Option.some.inj ht).symm⟩
  · split at ht
    · cases ht
    · exact ⟨_, _, _, (Option.some.inj ht).symm⟩

theorem Held.recreateTransmitter (h : Held rig s) {rx : ρ} {setup : Bool}
    (ht : s.recreateTransmitter rig rx setup = some t) : Held rig t := by
  unfold Link.recreateTransmitter at ht
  split at ht
  · obtain ⟨u, hu, rfl⟩ := Option.map_eq_some_iff.1 ht
    exact (h.createTransmitter hu).setTxGain _
  · obtain rfl := Option.some.inj ht
    exact h

theorem Held.createReceiver (h : Held rig s) {rx : ρ} {setup : Bool}
    (ht : s.createReceiver rig rx setup = some t) : Held rig t := by
  obtain ⟨row, stream, rfl⟩ := createReceiver_eq ht
  exact h.congr rfl rfl

theorem Held.startReceiver (h : Held rig s) {rx : ρ} {activate : Bool}
    (ht : s.startReceiver rig rx activate = some t) : Held rig t := by
  obtain ⟨active, dsp, receive, rfl⟩ := startReceiver_eq ht
  exact h.congr rfl rfl

/-- Whatever the state of the key, a reconnect leaves the transmitter held, if it finds the device.
-/
theorem held_reconnect (htx : rig.canTransmit = true) {rx : ρ} {answers : Answers}
    (ht : s.reconnect rig rx answers = some (t, true)) : Held rig t := by
  rcases reconnect_cases ht with ⟨hok, -⟩ | ⟨-, u, v, hu, hv, hw⟩
  · cases hok
  · have hheld := held_makeDevice (s := s.tearDown rig rx) htx (tearDown_txStreamActive rx)
    exact ((hheld.recreateTransmitter hu).createReceiver hv).startReceiver hw

/-- Nothing but a key takes the transmitter off its lowest gain. -/
theorem Held.step (htx : rig.canTransmit = true) (h : Held rig s) {a : LinkEvent ρ}
    (ha : ∀ gain activate, a ≠ .activateTx gain activate) (ht : s.step rig a = some t) :
    Held rig t := by
  cases a with
  | createReceiver rx setup => exact h.createReceiver ht
  | startReceiver rx activate => exact h.startReceiver ht
  | stopReceiver rx =>
    obtain rfl := Option.some.inj ht
    unfold stopReceiver
    dsimp only
    split <;> exact h.congr rfl rfl
  | createTransmitter setup => exact h.createTransmitter ht
  | assign rx =>
    obtain rfl := Option.some.inj ht
    exact h.congr rfl rfl
  | setTxGain gain =>
    obtain rfl := Option.some.inj ht
    exact h.setTxGain gain
  | activateTx gain activate => exact absurd rfl (ha gain activate)
  | deactivateTx =>
    obtain rfl := Option.some.inj ht
    simpa [deactivateTx, h.inactive] using h
  | rxPause =>
    obtain rfl := Option.some.inj ht
    unfold rxPause
    split <;> exact h.congr rfl rfl
  | rxResume setup =>
    obtain rfl := Option.some.inj ht
    unfold rxResume
    split <;> exact h.congr rfl rfl
  | reconnect rx answers =>
    obtain ⟨⟨u, ok⟩, hu, rfl⟩ := Option.map_eq_some_iff.1 ht
    cases ok with
    | true => exact held_reconnect htx hu
    | false =>
      rcases reconnect_cases hu with ⟨-, rfl⟩ | ⟨hok, -⟩
      · refine ⟨tearDown_txStreamActive rx, ?_⟩
        unfold tearDown
        dsimp only
        split <;> exact h.gain
      · cases hok

/-! ## What a reconnect leaves -/

/-- The link after a reconnect for `rx`. -/
structure Rebuilt (rig : Rig ρ) (s : Link ρ) (rx : ρ) (t : Link ρ) : Prop where
  device : t.soapyDevice = some s.opened
  slots : ∀ ch, ch ≠ rig.adc rx → t.adcSlot ch = s.adcSlot ch
  rxStream : t.rxStream = Function.update s.rxStream (rig.adc rx) (some s.opened)
  receiveThread : t.receiveThread = Function.update s.receiveThread (rig.adc rx) true
  dspThread : t.dspThread = Function.update s.dspThread (rig.adc rx) true
  txStream : t.txStream =
    if rig.canTransmit = true ∧ s.transmitter = some rx then some s.opened else none

/-- The receiver that owns its ADC gets its stream. -/
theorem createReceiver_owner (s : Link ρ) {rx : ρ} {device : ℕ}
    (howns : s.slotIsOwner rig rx = true) (hdevice : s.soapyDevice = some device) :
    ∃ row, (row 0).all (fun r => r = rx) = true ∧
      s.createReceiver rig rx true = some { s with
        adcSlot := Function.update s.adcSlot (rig.adc rx) row
        rxStream := Function.update s.rxStream (rig.adc rx) (some device) } := by
  rw [slotIsOwner_eq] at howns
  have hrow := SlotRow.add_all (a := rx) (decide_eq_true (rfl : rx = rx)) howns
  have hsome := SlotRow.add_isSome_of_all (a := rx) howns
  refine ⟨_, hrow, ?_⟩
  rw [Option.isSome_iff_ne_none] at hsome
  simp [createReceiver, slotIsOwner_eq, hsome, hrow, hdevice]

theorem startReceiver_owner (s : Link ρ) {rx : ρ} (howns : s.slotIsOwner rig rx = true) :
    s.startReceiver rig rx true = some { s with
      rxStreamActive := true
      dspThread := Function.update s.dspThread (rig.adc rx) true
      receiveThread := Function.update s.receiveThread (rig.adc rx) true } := by
  simp [startReceiver, howns]

/-- The transmitter gets its stream if it belongs to the receiver. -/
theorem recreateTransmitter_ok (rig : Rig ρ) (s : Link ρ) (rx : ρ) {device : ℕ}
    (hdevice : s.soapyDevice = some device) :
    ∃ gain dacGain, s.recreateTransmitter rig rx true = some { s with
      txStream :=
        if rig.canTransmit = true ∧ s.transmitter = some rx then some device else s.txStream
      txGain := gain
      dacGain := dacGain } := by
  by_cases hmine : rig.canTransmit = true ∧ s.transmitter = some rx
  · simp [recreateTransmitter, createTransmitter, holdSafe, setTxGain, hmine.1, hmine.2, hdevice]
  · have hother : (rig.canTransmit && decide (s.transmitter = some rx)) = false := by
      simpa using hmine
    refine ⟨s.txGain, s.dacGain, ?_⟩
    rw [recreateTransmitter, hother, if_neg hmine]
    rfl

/-- **What a reconnect does for a receiver that owns its ADC.** -/
theorem rebuilt (h : s.Inv) {rx : ρ} (howns : s.slotIsOwner rig rx = true) :
    ∃ t, s.reconnect rig rx .ok = some (t, true) ∧ Rebuilt rig s rx t := by
  have hopen := reopened rig h rx
  unfold reconnect
  dsimp only [Answers.ok]
  generalize ((s.tearDown rig rx).makeDevice rig).holdSafe rig = u at hopen
  obtain ⟨gain, dacGain, hu⟩ := recreateTransmitter_ok rig u rx hopen.device
  have hslots : u.slotIsOwner rig rx = true := by simpa [slotIsOwner_eq, hopen.slots] using howns
  rw [hu, Option.bind_some]
  obtain ⟨row, hrow, hv⟩ := createReceiver_owner { u with
    txStream :=
      if rig.canTransmit = true ∧ u.transmitter = some rx then some s.opened else u.txStream
    txGain := gain
    dacGain := dacGain } hslots hopen.device
  rw [hv, Option.bind_some, startReceiver_owner _ (by simpa [slotIsOwner_eq] using hrow)]
  refine ⟨_, rfl, hopen.device, fun ch hch => ?_, hopen.rxStream _, ?_, ?_, ?_⟩
  · simp [hch, hopen.slots]
  · simp [hopen.receiveThread]
  · simp [hopen.dspThread]
  · simp [hopen.txStream, hopen.transmitter]

/-! ## Whether a reconnect is complete -/

/-- Everything is on the new device. A thread is on the device on which its stream is set up. -/
structure Complete (rig : Rig ρ) (t : Link ρ) : Prop where
  receive : ∀ ch, (t.adcSlot ch 0).isSome = true →
    ((t.rxStream ch).isSome = true ∧ t.rxStream ch = t.soapyDevice) ∧
      t.receiveThread ch = true ∧ t.dspThread ch = true
  /-- Nothing refers to a device that has been given up. -/
  unmade : (∀ ch d, t.rxStream ch = some d → t.soapyDevice = some d) ∧
    ∀ d, t.txStream = some d → t.soapyDevice = some d
  transmit : rig.canTransmit = true → (t.txStream.isSome = true ∧ t.txStream = t.soapyDevice)
  /-- Until it is keyed, the transmitter is held. -/
  held : rig.canTransmit = true → ∀ as u, (link rig).exec t as = some u →
    (∀ a ∈ as, ∀ gain activate, a ≠ .activateTx gain activate) → u.txGain = rig.txGainMin

/-- No other ADC is in use, and a transmitter is the receiver's. -/
structure Sole (rig : Rig ρ) (s : Link ρ) (rx : ρ) : Prop where
  slot : ∀ ch, ch ≠ rig.adc rx → s.adcSlot ch 0 = none
  rxStream : ∀ ch, ch ≠ rig.adc rx → s.rxStream ch = none
  transmitter : rig.canTransmit = true → s.transmitter = some rx

theorem Held.exec (htx : rig.canTransmit = true) (h : Held rig s) {as : List (LinkEvent ρ)}
    (ht : (link rig).exec s as = some t)
    (has : ∀ a ∈ as, ∀ gain activate, a ≠ .activateTx gain activate) : Held rig t := by
  induction as generalizing s with
  | nil =>
    obtain rfl := Option.some.inj ht
    exact h
  | cons a as ih =>
    obtain ⟨u, hu, ht⟩ := (link rig).exec_cons.1 ht
    exact ih (h.step htx (has a List.mem_cons_self) hu) ht
      fun b hb => has b (List.mem_cons_of_mem a hb)

/-- The stream of another ADC is where it was. -/
theorem Rebuilt.rxStream_other {rx : ρ} (hr : Rebuilt rig s rx t) {ch : Fin maxChannels}
    (hch : ch ≠ rig.adc rx) : t.rxStream ch = s.rxStream ch := by
  rw [hr.rxStream, Function.update_of_ne hch]

/-- What is complete leaves no other ADC in use. -/
theorem Rebuilt.sole {rx : ρ} (h : s.Inv) (hr : Rebuilt rig s rx t) (hc : Complete rig t) :
    Sole rig s rx where
  slot ch hch := by
    by_contra hslot
    have hisSome : (t.adcSlot ch 0).isSome = true := by
      rw [hr.slots ch hch]
      exact Option.isSome_iff_ne_none.2 hslot
    have hnew := (hc.receive ch hisSome).1.2
    rw [hr.rxStream_other hch, hr.device] at hnew
    exact absurd (h.receive ch _ hnew) (lt_irrefl _)
  rxStream ch hch := by
    refine Option.eq_none_iff_forall_ne_some.2 fun d hd => ?_
    have hnew := hc.unmade.1 ch d ((hr.rxStream_other hch).trans hd)
    obtain rfl : s.opened = d := Option.some.inj (hr.device.symm.trans hnew)
    exact absurd (h.receive ch _ hd) (lt_irrefl _)
  transmitter htx := by
    by_contra hother
    have hsome := (hc.transmit htx).1
    rw [hr.txStream, if_neg fun hmine => hother hmine.2] at hsome
    cases hsome

/-- Where no other ADC is in use, everything is there again. -/
theorem Rebuilt.complete {rx : ρ} (hr : Rebuilt rig s rx t) (hs : Sole rig s rx)
    (hheld : rig.canTransmit = true → Held rig t) : Complete rig t where
  receive ch hslot := by
    obtain rfl : ch = rig.adc rx := by
      by_contra hch
      rw [hr.slots ch hch, hs.slot ch hch] at hslot
      cases hslot
    simp [hr.rxStream, hr.receiveThread, hr.dspThread, hr.device]
  unmade := by
    constructor
    · intro ch d hd
      rcases eq_or_ne ch (rig.adc rx) with rfl | hch
      · rw [hr.device, ← hd, hr.rxStream, Function.update_self]
      · rw [hr.rxStream_other hch, hs.rxStream ch hch] at hd
        cases hd
    · intro d hd
      rw [hr.txStream] at hd
      split at hd
      · rw [hr.device, hd]
      · cases hd
  transmit htx := by simp [hr.txStream, hr.device, htx, hs.transmitter htx]
  held htx as u hu has := ((hheld htx).exec htx hu has).gain

/-- **A reconnect for a receiver that owns its ADC is complete exactly where no other ADC is in use
and a transmitter is this receiver's.** -/
theorem reconnect_complete_iff {rx : ρ} (h : (link rig).Reachable s)
    (howns : s.slotIsOwner rig rx = true) :
    ∃ t, s.reconnect rig rx .ok = some (t, true) ∧ (Complete rig t ↔ Sole rig s rx) := by
  obtain ⟨t, ht, hr⟩ := rebuilt (inv_reachable h) howns
  exact ⟨t, ht, hr.sole (inv_reachable h), fun hs =>
    hr.complete hs fun htx => held_reconnect htx ht⟩

/-- A device with two ADCs; the receivers are on one each. -/
def twoAdcs : Rig Bool where
  adc rx := if rx then ⟨1, Nat.one_lt_two⟩ else ⟨0, Nat.two_pos⟩
  canTransmit := true
  txGainMin := 0
  txGainOpen := 40

/-- A receiver is set up, to which the transmitter is assigned. -/
def oneReceiver : List (LinkEvent Bool) :=
  [.createReceiver false true, .createTransmitter true, .assign false, .startReceiver false true]

theorem reconnect_complete_iff_oneReceiver :
    ∃ s, (link twoAdcs).exec (atInit twoAdcs) oneReceiver = some s ∧
      ∃ t, s.reconnect twoAdcs false .ok = some (t, true) ∧ Complete twoAdcs t := by
  obtain ⟨s, hs, howns, hslot, hstream, htx⟩ : ∃ s,
      (link twoAdcs).exec (atInit twoAdcs) oneReceiver = some s ∧
        s.slotIsOwner twoAdcs false = true ∧ s.adcSlot 1 0 = none ∧ s.rxStream 1 = none ∧
          s.transmitter = some false :=
    (link twoAdcs).exists_exec (by decide)
  obtain ⟨t, ht, hiff⟩ := reconnect_complete_iff ⟨_, hs⟩ howns
  have hone : ∀ ch, ch ≠ twoAdcs.adc false → ch = 1 := by decide
  exact ⟨s, hs, t, ht, hiff.2
    ⟨fun ch hch => hone ch hch ▸ hslot, fun ch hch => hone ch hch ▸ hstream, fun _ => htx⟩⟩

/-- A reconnect is not complete for every receiver that owns its ADC. -/
theorem not_reconnect_complete : ¬ ∀ (s : Link Bool) (rx : Bool), (link twoAdcs).Reachable s →
    s.slotIsOwner twoAdcs rx = true →
      ∃ t, s.reconnect twoAdcs rx .ok = some (t, true) ∧ Complete twoAdcs t := by
  intro h
  obtain ⟨s, hs, howns, hslot⟩ : ∃ s, (link twoAdcs).exec (atInit twoAdcs)
      (oneReceiver ++ [.createReceiver true true, .startReceiver true true]) = some s ∧
        s.slotIsOwner twoAdcs false = true ∧ s.adcSlot 1 0 = some true :=
    (link twoAdcs).exists_exec (by decide)
  have hinv := inv_reachable ⟨_, hs⟩
  obtain ⟨t, ht, hc⟩ := h s false ⟨_, hs⟩ howns
  obtain ⟨t', ht', hr⟩ := rebuilt hinv howns
  obtain rfl : t = t' := by simpa using ht.symm.trans ht'
  rw [(hr.sole hinv hc).slot 1 (by decide)] at hslot
  cases hslot

end Link

end MacHPSDR.Soapy
