import MacHPSDR.Foundations.Transition

/-!
# The HFDL framer

`hfdl_framer_push` takes one recovered symbol at a time. It searches for the preamble (the
A sequence twice), reads from the M1 field how the frame is modulated, skips M2, trains the
equalizer on nine T blocks, collects the data symbols of the segments, which have a T block
between them, and hands them to `hfdl_frame_decode_data`.

The BPSK slicer, the equalizer and the decision of the M1 correlator are those of `Dsp`; a
correlation is an exact rational instead of a float. Of the decoding, the sizes are modelled: how
many symbols the deinterleaver takes and how many bits come out.
-/

namespace MacHPSDR.Hfdl

/-! ## Frame configurations -/

/-- `hfdl_params`. -/
structure Params where
  /-- Bits for each symbol. -/
  scheme : ℕ
  dataSegmentCnt : ℕ
  codeRate : ℕ
  deinterleaverPushColumnShift : ℕ

/-- `HFDL_DATA_FRAME_LEN`. -/
def dataFrameLen : ℕ := 30

/-- `hfdl_frame_params`. -/
def frameParams : Fin 8 → Params :=
  ![⟨1, 72, 4, 17⟩, ⟨1, 72, 2, 17⟩, ⟨2, 72, 2, 17⟩, ⟨3, 72, 2, 17⟩,
    ⟨1, 168, 4, 23⟩, ⟨1, 168, 2, 23⟩, ⟨2, 168, 2, 23⟩, ⟨3, 168, 2, 23⟩]

/-- `DEINTERLEAVER_ROW_CNT`. -/
def deinterleaverRowCnt : ℕ := 40

/-- The columns that `deinterleaver_create` makes. -/
def columnCnt (p : Params) : ℕ := p.dataSegmentCnt * dataFrameLen * p.scheme / deinterleaverRowCnt

/-- `deinterleaver_table_size`. -/
def deinterleaverTableSize (p : Params) : ℕ := columnCnt p * deinterleaverRowCnt

/-- The bits that `hfdl_frame_decode_data` decodes from `nsym` symbols, or `none` for `-1`. -/
def frameDecodeBits (nsym : ℕ) (p : Params) : Option ℕ :=
  let numEncodedBits := nsym * p.scheme
  if numEncodedBits ≠ deinterleaverTableSize p then none
  else
    let vinLen := if p.codeRate = 4 then numEncodedBits / 2 else numEncodedBits
    some (vinLen / 2)

/-! ## Correlators -/

/-- `HFDL_A_LEN`. -/
def aLen : ℕ := 127

/-- `hfdl_A_octets`. -/
def aOctets : List ℕ :=
  [0x5b, 0xbc, 0x74, 0x57, 0x03, 0xd9, 0x89, 0x39,
   0xf2, 0x08, 0xd5, 0x36, 0x94, 0x2c, 0x32, 0xfe]

/-- The A sequence: the octets from the high bit down, as many as there are. -/
def aBits : List Bool :=
  (aOctets.flatMap fun octet => (List.range 8).map fun i => octet.testBit (7 - i)).take aLen

/-- `bsequence_push`: the oldest bit leaves the window. -/
def pushBit (win : List Bool) (bit : Bool) : List Bool := win.tail ++ [bit]

/-- `bsequence_correlate`: the number of places in which two sequences agree. -/
def correlate (ref win : List Bool) : ℕ := (List.zipWith (· == ·) ref win).count true

/-- What `hfdl_preamble_push` returns, for a window. -/
def preambleCorr (win : List Bool) : ℚ := 2 * (correlate aBits win : ℚ) / (aLen : ℚ) - 1

/-- `hfdl_M1_bits`. -/
def m1Bits : List Bool :=
  [0,1,1,1,0,1,1,0,1,1,1,1,0,1,0,0,0,1,0,1,1,0,0,
   1,0,1,1,1,1,1,0,0,0,1,0,0,0,0,0,0,1,1,0,0,1,1,0,1,1,
   0,0,0,1,1,1,0,0,1,1,1,0,1,0,1,1,1,0,0,0,0,1,0,0,1,1,
   0,0,0,0,0,1,0,1,0,1,0,1,1,0,1,0,0,1,0,0,1,0,1,0,0,1,
   1,1,1,0,0,1,0,0,0,1,1,0,1,0,1,0,0,0,0,1,1,1,1,1,1,1].map (· == 1)

/-- `hfdl_M_shifts`. -/
def mShifts : List ℕ := [72, 82, 113, 123, 61, 103, 93, 9]

/-- The template of a frame configuration: `hfdl_M1_bits` turned by its shift. -/
def modeTemplate (shift : ℕ) : List Bool := m1Bits.rotate shift

/-- `HFDL_M1_LEN`. -/
def m1Len : ℕ := 127

/-- How well a window matches the template of a frame configuration, up to its sign. -/
def modeCorr (shift : Fin 8) (win : List Bool) : ℚ :=
  |2 * (correlate (modeTemplate (mShifts.getD shift 0)) win : ℚ) / (m1Len : ℚ) - 1|

/-- `HFDL_CORR_THRESHOLD_M1`. -/
def corrThresholdM1 : ℚ := 30 / 100

/-- `hfdl_mode_match`, the first of the best templates, and the test of its correlation. -/
def modeMatch (win : List Bool) : Option (Fin 8) :=
  let best : ℚ × Option (Fin 8) := (List.finRange 8).foldl
    (fun best shift =>
      if modeCorr shift win > best.1 then (modeCorr shift win, some shift) else best) (0, none)
  if best.1 > corrThresholdM1 then best.2 else none

/-- `HFDL_CORR_THRESHOLD_A1`. -/
def corrThresholdA1 : ℚ := 36 / 100

/-- `HFDL_A2_THRESH`. -/
def a2Thresh : ℚ := 30 / 100

/-- `HFDL_M2_LEN`. -/
def m2Len : ℕ := 15

/-- `HFDL_T_LEN`. -/
def tLen : ℕ := 15

/-- `HFDL_MAX_SEARCH_RETRIES`. -/
def maxSearchRetries : ℕ := 3

/-- `HFDL_DATA_SYM_MAX`. -/
def dataSymMax : ℕ := 168 * dataFrameLen

/-- `hfdl_T_seq`, for an upright carrier and for an inverted one. -/
def tSeq (bitmask : Bool) (i : ℕ) : ℤ :=
  let t : List ℤ := [1, 1, 1, -1, 1, 1, -1, -1, 1, -1, 1, -1, -1, -1, -1]
  if bitmask then -t.getD i 0 else t.getD i 0

/-! ## The state machine -/

/-- The signal processing that the framer calls: symbols `ς`, equalizers `ε`. -/
structure Dsp (ς ε : Type*) where
  /-- `modem_demodulate` with the BPSK modem. -/
  slice : ς → Bool
  /-- The equalizer that `hfdl_framer_create` makes. -/
  eqCreate : ε
  /-- `eqlms_cccf_reset`. -/
  eqReset : ε → ε
  /-- `eqlms_cccf_push` and `eqlms_cccf_execute`. -/
  eqPush : ε → ς → ε × ς
  /-- `eqlms_cccf_step`. -/
  eqStep : ε → ℤ → ς → ε
  /-- The decision about the M1 field, which is `modeMatch` up to rounding. -/
  modeMatch : List Bool → Option (Fin 8)

/-- A channel without noise on which the symbols of a BPSK carrier arrive. -/
def noiseless : Dsp Bool Unit where
  slice := id
  eqCreate := ()
  eqReset := id
  eqPush e x := (e, x)
  eqStep e _ _ := e
  modeMatch := Hfdl.modeMatch

/-- The states of the framer. -/
inductive FrState
  | a1
  | a2
  | m1
  | m2Skip
  | eqTrain
  | data1
  | data2
  deriving DecidableEq

/-- What happens to each symbol. -/
inductive Sampler
  | bits
  | symbols
  | skip
  deriving DecidableEq

/-- `hfdl_framer`. -/
structure Framer (ς ε : Type*) where
  /-- The window of the A correlator. -/
  preWin : List Bool
  /-- The window of the M1 correlator. -/
  modeWin : List Bool
  eq : ε
  tIdx : ℕ
  state : FrState
  sampler : Sampler
  bitmask : Bool
  symbolsWanted : ℕ
  mShift : Option (Fin 8)
  dataArity : ℕ
  dataSegmentCnt : ℕ
  eqTrainSeqCnt : ℕ
  searchRetries : ℕ
  lastCorr : ℚ
  collectingData : Bool
  /-- The array of collected symbols; the first `dataN` count. -/
  dataSym : ℕ → ς
  dataN : ℕ

/-- A frame that is handed to `hfdl_frame_decode_data`. -/
structure Handed (ς : Type*) where
  dataSym : ℕ → ς
  dataN : ℕ
  mShift : Option (Fin 8)
  bitmask : Bool

/-- The symbols that are handed over. -/
def Handed.symbols {ς : Type*} (h : Handed ς) : List ς := (List.range h.dataN).map h.dataSym

namespace Framer

variable {ς ε : Type*} (D : Dsp ς ε)

/-- `framer_reset`. -/
def reset (f : Framer ς ε) : Framer ς ε :=
  { f with state := .a1, sampler := .bits, symbolsWanted := 1, searchRetries := 0, mShift := none,
           dataN := 0, tIdx := 0, collectingData := false, eq := D.eqReset f.eq }

/-- `hfdl_framer_create`; the array holds zeros. -/
def create (zero : ς) : Framer ς ε :=
  reset D
    { preWin := List.replicate aLen false, modeWin := List.replicate m1Len false, eq := D.eqCreate,
      tIdx := 0, state := .a1, sampler := .bits, bitmask := false, symbolsWanted := 0,
      mShift := none, dataArity := 0, dataSegmentCnt := 0, eqTrainSeqCnt := 0, searchRetries := 0,
      lastCorr := 0, collectingData := false, dataSym := fun _ => zero, dataN := 0 }

/-- The first part of `hfdl_framer_push`: the symbol is sliced, equalized or skipped. -/
def sample (f : Framer ς ε) (x : ς) : Framer ς ε :=
  match f.sampler with
  | .bits =>
    let bit := D.slice x ^^ f.bitmask
    { f with preWin := pushBit f.preWin bit, lastCorr := preambleCorr (pushBit f.preWin bit),
             modeWin := pushBit f.modeWin bit }
  | .symbols =>
    let (eq, s) := D.eqPush f.eq x
    if f.collectingData then
      if f.dataN < dataSymMax then
        { f with eq := eq, dataSym := Function.update f.dataSym f.dataN s, dataN := f.dataN + 1 }
      else { f with eq := eq }
    else if f.tIdx < tLen then
      { f with eq := D.eqStep eq (tSeq f.bitmask f.tIdx) s, tIdx := f.tIdx + 1 }
    else { f with eq := eq }
  | .skip => f

/-- The switch of `hfdl_framer_push`, at the end of a slot. -/
def advance (f : Framer ς ε) : Framer ς ε × Option (Handed ς) :=
  match f.state with
  | .a1 =>
    if |f.lastCorr| > corrThresholdA1 then
      ({ f with bitmask := !decide (f.lastCorr > 0), symbolsWanted := aLen, state := .a2 }, none)
    else (f, none)
  | .a2 =>
    if |f.lastCorr| > a2Thresh then
      ({ f with symbolsWanted := m1Len, searchRetries := 0, state := .m1 }, none)
    else if f.searchRetries + 1 ≥ maxSearchRetries then (reset D f, none)
    else ({ f with searchRetries := f.searchRetries + 1 }, none)
  | .m1 =>
    match D.modeMatch f.modeWin with
    | some shift =>
      ({ f with mShift := some shift, dataSegmentCnt := (frameParams shift).dataSegmentCnt,
                dataArity := (frameParams shift).scheme, symbolsWanted := m2Len, state := .m2Skip,
                sampler := .skip }, none)
    | none => (reset D f, none)
  | .m2Skip =>
    ({ f with symbolsWanted := tLen, eqTrainSeqCnt := 9, state := .eqTrain, sampler := .symbols,
              collectingData := false, tIdx := 0 }, none)
  | .eqTrain =>
    if f.eqTrainSeqCnt > 1 then
      ({ f with eqTrainSeqCnt := f.eqTrainSeqCnt - 1, symbolsWanted := tLen, tIdx := 0 }, none)
    else if f.dataSegmentCnt > 0 then
      ({ f with symbolsWanted := dataFrameLen / 2, state := .data1, collectingData := true }, none)
    else (reset D f, some ⟨f.dataSym, f.dataN, f.mShift, f.bitmask⟩)
  | .data1 => ({ f with symbolsWanted := dataFrameLen / 2, state := .data2 }, none)
  | .data2 =>
    ({ f with dataSegmentCnt := f.dataSegmentCnt - 1, symbolsWanted := tLen, state := .eqTrain,
              eqTrainSeqCnt := 1, collectingData := false, tIdx := 0 }, none)

/-- `hfdl_framer_push`, and the frame that it hands over if it does. -/
def push (f : Framer ς ε) (x : ς) : Framer ς ε × Option (Handed ς) :=
  let f := sample D f x
  if f.symbolsWanted > 1 then ({ f with symbolsWanted := f.symbolsWanted - 1 }, none)
  else advance D f

section Sample

variable (f : Framer ς ε) (x : ς)

@[simp] theorem state_sample : (sample D f x).state = f.state := by
  unfold sample
  repeat' split
  all_goals rfl

@[simp] theorem sampler_sample : (sample D f x).sampler = f.sampler := by
  unfold sample
  repeat' split
  all_goals rfl

@[simp] theorem bitmask_sample : (sample D f x).bitmask = f.bitmask := by
  unfold sample
  repeat' split
  all_goals rfl

@[simp] theorem symbolsWanted_sample : (sample D f x).symbolsWanted = f.symbolsWanted := by
  unfold sample
  repeat' split
  all_goals rfl

@[simp] theorem mShift_sample : (sample D f x).mShift = f.mShift := by
  unfold sample
  repeat' split
  all_goals rfl

@[simp] theorem dataSegmentCnt_sample : (sample D f x).dataSegmentCnt = f.dataSegmentCnt := by
  unfold sample
  repeat' split
  all_goals rfl

@[simp] theorem eqTrainSeqCnt_sample : (sample D f x).eqTrainSeqCnt = f.eqTrainSeqCnt := by
  unfold sample
  repeat' split
  all_goals rfl

@[simp] theorem collectingData_sample : (sample D f x).collectingData = f.collectingData := by
  unfold sample
  repeat' split
  all_goals rfl

end Sample

end Framer

end MacHPSDR.Hfdl
