import MacHPSDR.Hfdl.Framer

/-!
# The symbols of a frame

After the M1 field a frame has a fixed layout (`frameLayout`): the M2 symbols, nine T blocks, and
then segments of data, each followed by a T block. The framer counts its way through the layout
with the symbols that are still wanted in the slot, the T blocks that are still to come and the
segments that are still to come. `remaining` reads these counters as the rest of a layout, and one
symbol takes its head off (`remaining_push`): so at every moment the counters stand at the symbol
that is due, and the array holds the data symbols so far (`Reception.Inv`).

When a frame is handed over, its symbols are those at the data positions, and as many as the
deinterleaver of the mode takes (`symbol_accounting`).
-/

namespace MacHPSDR.Hfdl

/-! ## The layout of a frame -/

/-- What a symbol of a frame is, after the M1 field. -/
inductive Kind
  | m2
  | training
  | data
  deriving DecidableEq

/-- Segments of data, a T block after each. -/
def segments (n : ℕ) : List Kind :=
  (List.replicate n (List.replicate dataFrameLen .data ++ List.replicate tLen .training)).flatten

/-- The T blocks before the first segment. -/
def leadingBlocks : ℕ := 9

/-- A frame of `n` segments, after the M1 field. -/
def frameLayout (n : ℕ) : List Kind :=
  List.replicate m2Len .m2 ++ (List.replicate (leadingBlocks * tLen) .training ++ segments n)

theorem segments_succ (n : ℕ) : segments (n + 1) =
    List.replicate dataFrameLen .data ++ (List.replicate tLen .training ++ segments n) := by
  rw [segments, List.replicate_succ, List.flatten_cons, List.append_assoc]
  rfl

theorem count_data_segments (n : ℕ) : (segments n).count .data = n * dataFrameLen := by
  induction n with
  | zero => simp [segments]
  | succ n ih =>
    rw [segments_succ, List.count_append, List.count_append, ih, List.count_replicate_self,
      List.count_replicate]
    simp only [beq_iff_eq, reduceCtorEq, if_false]
    ring

theorem count_data_frameLayout (n : ℕ) : (frameLayout n).count .data = n * dataFrameLen := by
  rw [frameLayout, List.count_append, List.count_append, count_data_segments,
    List.count_replicate, List.count_replicate]
  simp

theorem length_frameLayout (n : ℕ) : (frameLayout n).length =
    m2Len + (leadingBlocks * tLen + n * (dataFrameLen + tLen)) := by
  simp [frameLayout, segments]

/-- The symbols at the data positions, in their order. -/
def dataAt {ς : Type*} (layout : List Kind) (frame : List ς) : List ς :=
  ((layout.zip frame).filter fun p => p.1 = .data).map Prod.snd

section DataAt

variable {ς : Type*} {layout rest : List Kind} {frame : List ς} {k : Kind}

/-- One more symbol of the frame. -/
theorem dataAt_concat (h : layout.drop frame.length = k :: rest) (s : ς) :
    dataAt layout (frame ++ [s]) = dataAt layout frame ++ if k = .data then [s] else [] := by
  have hlen : frame.length < layout.length := by
    by_contra hge
    rw [List.drop_eq_nil_of_le (not_lt.1 hge)] at h
    cases h
  have htake : (layout.take frame.length).length = frame.length := by
    rw [List.length_take, Nat.min_eq_left hlen.le]
  have hsplit : layout = layout.take frame.length ++ k :: rest := by
    rw [← h, List.take_append_drop]
  have hzip (more : List ς) : layout.zip (frame ++ more) =
      (layout.take frame.length).zip frame ++ (k :: rest).zip more := by
    conv_lhs => rw [hsplit]
    exact List.zip_append htake
  have hnow := hzip []
  rw [List.append_nil, List.zip_nil_right, List.append_nil] at hnow
  unfold dataAt
  rw [hnow, hzip, List.filter_append, List.map_append]
  by_cases hk : k = .data <;> simp [hk]

theorem length_dataAt (h : frame.length ≤ layout.length) :
    (dataAt layout frame).length = (layout.take frame.length).count .data := by
  induction frame generalizing layout with
  | nil => simp [dataAt]
  | cons s frame ih =>
    cases layout with
    | nil => simp at h
    | cons k layout =>
      have hrest := ih (Nat.le_of_succ_le_succ h)
      simp only [dataAt, List.length_map] at hrest
      by_cases hk : k = .data
      · simp [dataAt, hk, hrest]
      · simp [dataAt, hk, hrest]

/-- There is room for every data symbol that is due. -/
theorem length_dataAt_lt (h : layout.drop frame.length = .data :: rest) :
    (dataAt layout frame).length < layout.count .data := by
  have hlen : frame.length ≤ layout.length := by
    by_contra hge
    rw [List.drop_eq_nil_of_le (not_le.1 hge).le] at h
    cases h
  have hsplit : layout = layout.take frame.length ++ .data :: rest := by
    rw [← h, List.take_append_drop]
  have hcount : layout.count .data =
      (layout.take frame.length).count .data + (rest.count .data + 1) := by
    conv_lhs => rw [hsplit]
    rw [List.count_append, List.count_cons_self]
  rw [length_dataAt hlen, hcount]
  omega

end DataAt

/-! ## The counters as the rest of a layout -/

/-- The M1 field has been read. -/
@[simp] def FrState.PastM1 : FrState → Prop
  | .a1 | .a2 | .m1 => False
  | .m2Skip | .eqTrain | .data1 | .data2 => True

/-- What the next symbol is taken for. -/
def FrState.kind : FrState → Kind
  | .data1 | .data2 => .data
  | .eqTrain => .training
  | .a1 | .a2 | .m1 | .m2Skip => .m2

namespace Framer

variable {ς ε : Type*} {D : Dsp ς ε}

/-- The symbols that have been collected. -/
def collected (f : Framer ς ε) : List ς := (List.range f.dataN).map f.dataSym

/-- What the counters say is still to come. -/
def remaining (f : Framer ς ε) : List Kind :=
  match f.state with
  | .a1 | .a2 | .m1 => []
  | .m2Skip => List.replicate f.symbolsWanted .m2 ++
      (List.replicate (leadingBlocks * tLen) .training ++ segments f.dataSegmentCnt)
  | .eqTrain => List.replicate (f.symbolsWanted + (f.eqTrainSeqCnt - 1) * tLen) .training ++
      segments f.dataSegmentCnt
  | .data1 => List.replicate (f.symbolsWanted + dataFrameLen / 2) .data ++
      (List.replicate tLen .training ++ segments (f.dataSegmentCnt - 1))
  | .data2 => List.replicate f.symbolsWanted .data ++
      (List.replicate tLen .training ++ segments (f.dataSegmentCnt - 1))

/-- How the fields go together in each state. -/
structure Shape (f : Framer ς ε) : Prop where
  searching : ¬ f.state.PastM1 → f.sampler = .bits ∧ f.dataN = 0
  skipping : f.state = .m2Skip → f.sampler = .skip ∧ f.dataN = 0 ∧ 1 ≤ f.symbolsWanted
  training : f.state = .eqTrain → f.sampler = .symbols ∧ f.collectingData = false ∧
    1 ≤ f.symbolsWanted ∧ f.tIdx + f.symbolsWanted = tLen ∧ 1 ≤ f.eqTrainSeqCnt
  collecting : f.state = .data1 ∨ f.state = .data2 → f.sampler = .symbols ∧
    f.collectingData = true ∧ 1 ≤ f.symbolsWanted ∧ 1 ≤ f.dataSegmentCnt

section Shape

variable {f : Framer ς ε}

theorem shape_search (hs : ¬ f.state.PastM1) (h : f.sampler = .bits ∧ f.dataN = 0) : f.Shape where
  searching _ := h
  skipping hstate := by simp [hstate] at hs
  training hstate := by simp [hstate] at hs
  collecting hstate := by rcases hstate with hstate | hstate <;> simp [hstate] at hs

theorem shape_m2Skip (hs : f.state = .m2Skip)
    (h : f.sampler = .skip ∧ f.dataN = 0 ∧ 1 ≤ f.symbolsWanted) : f.Shape where
  searching hstate := by simp [hs] at hstate
  skipping _ := h
  training hstate := by simp [hs] at hstate
  collecting hstate := by simp [hs] at hstate

theorem shape_eqTrain (hs : f.state = .eqTrain)
    (h : f.sampler = .symbols ∧ f.collectingData = false ∧ 1 ≤ f.symbolsWanted ∧
      f.tIdx + f.symbolsWanted = tLen ∧ 1 ≤ f.eqTrainSeqCnt) : f.Shape where
  searching hstate := by simp [hs] at hstate
  skipping hstate := by simp [hs] at hstate
  training _ := h
  collecting hstate := by simp [hs] at hstate

theorem shape_data (hs : f.state = .data1 ∨ f.state = .data2)
    (h : f.sampler = .symbols ∧ f.collectingData = true ∧ 1 ≤ f.symbolsWanted ∧
      1 ≤ f.dataSegmentCnt) : f.Shape where
  searching hstate := by rcases hs with hs | hs <;> simp [hs] at hstate
  skipping hstate := by rcases hs with hs | hs <;> simp [hs] at hstate
  training hstate := by rcases hs with hs | hs <;> simp [hs] at hstate
  collecting _ := h

theorem shape_reset (f : Framer ς ε) : (reset D f).Shape :=
  shape_search (by simp [reset]) ⟨rfl, rfl⟩

end Shape

/-- The symbol that `push` works on: behind the equalizer once this runs. -/
def output (D : Dsp ς ε) (f : Framer ς ε) (x : ς) : ς :=
  match f.sampler with
  | .symbols => (D.eqPush f.eq x).2
  | .bits | .skip => x

/-- Outside the data segments nothing is collected. -/
theorem collected_sample {f : Framer ς ε} (h : f.sampler = .symbols → f.collectingData = false)
    (x : ς) : (sample D f x).collected = f.collected ∧ (sample D f x).dataN = f.dataN := by
  unfold sample collected
  cases hs : f.sampler with
  | bits | skip => exact ⟨rfl, rfl⟩
  | symbols =>
    by_cases ht : f.tIdx < tLen <;> simp [h hs, ht]

/-- In a data segment the symbol is collected. -/
theorem collected_sample_data {f : Framer ς ε} (hs : f.sampler = .symbols)
    (hc : f.collectingData = true) (hroom : f.dataN < dataSymMax) (x : ς) :
    (sample D f x).collected = f.collected ++ [output D f x] := by
  simp only [sample, collected, output, hs, hc, hroom, if_true, List.range_succ, List.map_append,
    List.map_cons, List.map_nil, Function.update_self]
  congr 1
  refine List.map_congr_left fun i hi => ?_
  exact Function.update_of_ne (List.mem_range.1 hi).ne _ _

@[simp] theorem length_collected (f : Framer ς ε) : f.collected.length = f.dataN := by
  simp [collected]

theorem tIdx_sample {f : Framer ς ε} (hs : f.sampler = .symbols) (hc : f.collectingData = false)
    (ht : f.tIdx < tLen) (x : ς) : (sample D f x).tIdx = f.tIdx + 1 := by
  simp [sample, hs, hc, ht]

/-- One symbol of the frame has been worked off. -/
structure Proceeds (D : Dsp ς ε) (f : Framer ς ε) (x : ς) : Prop where
  handed : (push D f x).2 = none
  pastM1 : (push D f x).1.state.PastM1
  shape : (push D f x).1.Shape
  mShift : (push D f x).1.mShift = f.mShift
  collected : (push D f x).1.collected = (sample D f x).collected
  remaining : f.remaining = f.state.kind :: (push D f x).1.remaining

theorem Proceeds.of_push {f f' : Framer ς ε} {x : ς} (hpush : push D f x = (f', none))
    (hpast : f'.state.PastM1) (hshape : f'.Shape) (hm : f'.mShift = f.mShift)
    (hcoll : f'.collected = (sample D f x).collected)
    (hrem : f.remaining = f.state.kind :: f'.remaining) : Proceeds D f x := by
  have hfst : (push D f x).1 = f' := by rw [hpush]
  refine ⟨by rw [hpush], ?_, ?_, ?_, ?_, ?_⟩ <;> rw [hfst] <;> assumption

/-- Inside a slot. -/
theorem push_inSlot {f : Framer ς ε} {x : ς} (hw : f.symbolsWanted > 1) :
    push D f x = ({ sample D f x with symbolsWanted := f.symbolsWanted - 1 }, none) := by
  simp [push, hw]

/-- The end of a slot. -/
theorem push_slotEnd {f : Framer ς ε} {x : ς} (hw : ¬ f.symbolsWanted > 1) :
    push D f x = advance D (sample D f x) := by
  simp [push, hw]

/-- The search collects nothing, and it ends at the start of a layout. -/
theorem push_search {f : Framer ς ε} (h : f.Shape) (hs : ¬ f.state.PastM1) (x : ς) :
    (push D f x).2 = none ∧ (push D f x).1.Shape ∧
      ((push D f x).1.state.PastM1 → ∃ m, (push D f x).1.mShift = some m ∧
        (push D f x).1.dataN = 0 ∧
        (push D f x).1.remaining = frameLayout (frameParams m).dataSegmentCnt) := by
  obtain ⟨hsamp, hn⟩ := h.searching hs
  have hn' : (sample D f x).dataN = 0 := by
    rw [(collected_sample (D := D) (f := f) (by simp [hsamp]) x).2, hn]
  by_cases hw : f.symbolsWanted > 1
  · rw [push_inSlot hw]
    refine ⟨rfl, shape_search (by simpa using hs) ⟨by simpa using hsamp, hn'⟩, fun hp => ?_⟩
    exact absurd (by simpa using hp) hs
  · rw [push_slotEnd hw]
    cases hstate : f.state with
    | m2Skip | eqTrain | data1 | data2 => simp [hstate] at hs
    | a1 =>
      by_cases hcorr : |(sample D f x).lastCorr| > corrThresholdA1
      · simp only [advance, state_sample, hstate, hcorr, if_true]
        exact ⟨trivial, shape_search (by simp) ⟨by simpa using hsamp, hn'⟩, by simp⟩
      · simp only [advance, state_sample, hstate, hcorr, if_false]
        exact ⟨trivial, shape_search (by simp [hstate]) ⟨by simpa using hsamp, hn'⟩,
          by simp⟩
    | a2 =>
      by_cases hcorr : |(sample D f x).lastCorr| > a2Thresh
      · simp only [advance, state_sample, hstate, hcorr, if_true]
        exact ⟨trivial, shape_search (by simp) ⟨by simpa using hsamp, hn'⟩, by simp⟩
      · by_cases hretries : (sample D f x).searchRetries + 1 ≥ maxSearchRetries
        · simp only [advance, state_sample, hstate, hcorr, hretries, if_true, if_false]
          exact ⟨trivial, shape_reset _, by simp [reset]⟩
        · simp only [advance, state_sample, hstate, hcorr, hretries, if_false]
          exact ⟨trivial, shape_search (by simp) ⟨by simpa using hsamp, hn'⟩, by simp⟩
    | m1 =>
      cases hmatch : D.modeMatch (sample D f x).modeWin with
      | none =>
        simp only [advance, state_sample, hstate, hmatch]
        exact ⟨trivial, shape_reset _, by simp [reset]⟩
      | some m =>
        simp only [advance, state_sample, hstate, hmatch]
        exact ⟨trivial, shape_m2Skip rfl ⟨rfl, hn', by simp [m2Len]⟩, fun _ => ⟨m, rfl, hn', rfl⟩⟩

/-- A symbol inside a slot. -/
theorem proceeds_inSlot {f : Framer ς ε} (h : f.Shape) (hs : f.state.PastM1) (x : ς)
    (hw : f.symbolsWanted > 1) : Proceeds D f x := by
  obtain ⟨w, hw'⟩ : ∃ w, f.symbolsWanted = w + 2 := ⟨f.symbolsWanted - 2, by omega⟩
  have hpush : push D f x = ({ sample D f x with symbolsWanted := w + 1 }, none) := by
    rw [push_inSlot hw, hw']
    rfl
  refine .of_push hpush (by simpa using hs) ?_ (by simp) rfl ?_
  · cases hstate : f.state with
    | a1 | a2 | m1 => simp [hstate] at hs
    | m2Skip =>
      obtain ⟨hsamp, hn, -⟩ := h.skipping hstate
      have hn' := (collected_sample (D := D) (f := f) (by simp [hsamp]) x).2
      exact shape_m2Skip (by simpa using hstate) ⟨by simpa using hsamp, by simpa [hn'] using hn,
        by simp⟩
    | eqTrain =>
      obtain ⟨hsamp, hcoll, -, ht, hcnt⟩ := h.training hstate
      have ht' : (sample D f x).tIdx = f.tIdx + 1 := tIdx_sample hsamp hcoll (by omega) x
      refine shape_eqTrain (by simpa using hstate) ⟨by simpa using hsamp, by simpa using hcoll,
        by simp, ?_, by simpa using hcnt⟩
      simp only [ht']
      omega
    | data1 | data2 =>
      obtain ⟨hsamp, hcoll, -, hseg⟩ := h.collecting (by simp [hstate])
      exact shape_data (by simp [hstate]) ⟨by simpa using hsamp, by simpa using hcoll, by simp,
        by simpa using hseg⟩
  · cases hstate : f.state with
    | a1 | a2 | m1 => simp [hstate] at hs
    | m2Skip => simp [remaining, hstate, FrState.kind, hw', List.replicate_succ]
    | eqTrain =>
      simp [remaining, hstate, FrState.kind, hw', Nat.add_right_comm, List.replicate_succ]
    | data1 =>
      have hsucc : w + 2 + dataFrameLen / 2 = w + 1 + dataFrameLen / 2 + 1 := by omega
      simp [remaining, hstate, FrState.kind, hw', hsucc, List.replicate_succ]
    | data2 => simp [remaining, hstate, FrState.kind, hw', List.replicate_succ]

/-- The last M2 symbol. -/
theorem proceeds_m2Skip {f : Framer ς ε} (h : f.Shape) (hstate : f.state = .m2Skip) (x : ς)
    (hw : ¬ f.symbolsWanted > 1) : Proceeds D f x := by
  obtain ⟨-, -, hpos⟩ := h.skipping hstate
  have hone : f.symbolsWanted = 1 := by omega
  have hpush := push_slotEnd (D := D) (x := x) hw
  simp only [advance, state_sample, hstate] at hpush
  refine .of_push hpush trivial ?_ (by simp) rfl ?_
  · exact shape_eqTrain rfl (by simp [tLen])
  · simp [remaining, hstate, FrState.kind, hone, leadingBlocks, tLen]

/-- The last symbol of the first half of a segment. -/
theorem proceeds_data1 {f : Framer ς ε} (h : f.Shape) (hstate : f.state = .data1) (x : ς)
    (hw : ¬ f.symbolsWanted > 1) : Proceeds D f x := by
  obtain ⟨hsamp, hcoll, hpos, hseg⟩ := h.collecting (.inl hstate)
  have hone : f.symbolsWanted = 1 := by omega
  have hpush := push_slotEnd (D := D) (x := x) hw
  simp only [advance, state_sample, hstate] at hpush
  refine .of_push hpush trivial ?_ (by simp) rfl ?_
  · exact shape_data (.inr rfl) ⟨by simpa using hsamp, by simpa using hcoll, by simp [dataFrameLen],
      by simpa using hseg⟩
  · simp [remaining, hstate, FrState.kind, hone, Nat.add_comm 1, List.replicate_succ]

/-- The last symbol of a segment. -/
theorem proceeds_data2 {f : Framer ς ε} (h : f.Shape) (hstate : f.state = .data2) (x : ς)
    (hw : ¬ f.symbolsWanted > 1) : Proceeds D f x := by
  obtain ⟨hsamp, -, hpos, -⟩ := h.collecting (.inr hstate)
  have hone : f.symbolsWanted = 1 := by omega
  have hpush := push_slotEnd (D := D) (x := x) hw
  simp only [advance, state_sample, hstate] at hpush
  refine .of_push hpush trivial ?_ (by simp) rfl ?_
  · exact shape_eqTrain rfl ⟨by simpa using hsamp, rfl, by simp [tLen], by simp, le_rfl⟩
  · simp [remaining, hstate, FrState.kind, hone]

/-- The last symbol of a T block, unless the frame ends with it. -/
theorem proceeds_eqTrain {f : Framer ς ε} (h : f.Shape) (hstate : f.state = .eqTrain) (x : ς)
    (hw : ¬ f.symbolsWanted > 1) (hmore : f.eqTrainSeqCnt > 1 ∨ f.dataSegmentCnt > 0) :
    Proceeds D f x := by
  obtain ⟨hsamp, hcoll, hpos, ht, hcnt⟩ := h.training hstate
  have hone : f.symbolsWanted = 1 := by omega
  have hpush := push_slotEnd (D := D) (x := x) hw
  by_cases hblocks : f.eqTrainSeqCnt > 1
  · obtain ⟨n, hn⟩ : ∃ n, f.eqTrainSeqCnt = n + 2 := ⟨f.eqTrainSeqCnt - 2, by omega⟩
    have hsucc : 1 + (n + 1) * tLen = tLen + n * tLen + 1 := by ring
    simp only [advance, state_sample, hstate, eqTrainSeqCnt_sample, hblocks, if_true] at hpush
    refine .of_push hpush trivial ?_ (by simp) rfl ?_
    · exact shape_eqTrain rfl ⟨by simpa using hsamp, by simpa using hcoll, by simp [tLen], by simp,
        by simp [hn]⟩
    · simp [remaining, hstate, FrState.kind, hone, hn, hsucc, List.replicate_succ]
  · have hlast : f.eqTrainSeqCnt = 1 := by omega
    have hseg : f.dataSegmentCnt > 0 := hmore.resolve_left hblocks
    obtain ⟨n, hn⟩ : ∃ n, f.dataSegmentCnt = n + 1 := ⟨f.dataSegmentCnt - 1, by omega⟩
    simp only [advance, state_sample, hstate, eqTrainSeqCnt_sample, hblocks, if_false,
      dataSegmentCnt_sample, hseg, if_true] at hpush
    refine .of_push hpush trivial ?_ (by simp) rfl ?_
    · exact shape_data (.inl rfl) ⟨by simpa using hsamp, rfl, by simp [dataFrameLen],
        Nat.succ_le_of_lt (by simpa using hseg)⟩
    · simp [remaining, hstate, FrState.kind, hone, hlast, hn, segments_succ, dataFrameLen]

/-- **One symbol of a frame.** It takes the head off the layout that the counters stand for; the
frame is handed over with its last symbol. -/
theorem remaining_push {f : Framer ς ε} (h : f.Shape) (hs : f.state.PastM1) (x : ς) :
    Proceeds D f x ∨
      (f.remaining = [f.state.kind] ∧ f.state.kind = .training ∧
        (push D f x).1 = reset D (sample D f x) ∧ (push D f x).2 =
          some ⟨(sample D f x).dataSym, (sample D f x).dataN, f.mShift, f.bitmask⟩) := by
  by_cases hw : f.symbolsWanted > 1
  · exact .inl (proceeds_inSlot h hs x hw)
  · cases hstate : f.state with
    | a1 | a2 | m1 => simp [hstate] at hs
    | m2Skip => exact .inl (proceeds_m2Skip h hstate x hw)
    | data1 => exact .inl (proceeds_data1 h hstate x hw)
    | data2 => exact .inl (proceeds_data2 h hstate x hw)
    | eqTrain =>
      by_cases hmore : f.eqTrainSeqCnt > 1 ∨ f.dataSegmentCnt > 0
      · exact .inl (proceeds_eqTrain h hstate x hw hmore)
      · obtain ⟨-, -, hpos, -, hcnt⟩ := h.training hstate
        obtain ⟨hblocks, hseg⟩ := not_or.1 hmore
        have hpush := push_slotEnd (D := D) (x := x) hw
        simp only [advance, state_sample, hstate, eqTrainSeqCnt_sample, hblocks,
          dataSegmentCnt_sample, hseg, if_false] at hpush
        refine .inr ⟨?_, rfl, by rw [hpush], by simp [hpush]⟩
        have hone : f.symbolsWanted = 1 := by omega
        have hlast : f.eqTrainSeqCnt = 1 := by omega
        have hzero : f.dataSegmentCnt = 0 := by omega
        simp [remaining, hstate, hone, hlast, hzero, segments, FrState.kind]

end Framer

/-! ## Every symbol stream -/

/-- A framer together with the symbols since the M1 field, as they came out of the equalizer. -/
structure Reception (ς ε : Type*) where
  framer : Framer ς ε
  frame : List ς

namespace Reception

variable {ς ε : Type*} (D : Dsp ς ε)

/-- One symbol arrives. -/
def receive (c : Reception ς ε) (x : ς) : Reception ς ε where
  framer := (c.framer.push D x).1
  frame :=
    match c.framer.state with
    | .a1 | .a2 | .m1 => []
    | .m2Skip | .eqTrain | .data1 | .data2 => c.frame ++ [c.framer.output D x]

/-- A framer to which symbols arrive. -/
def system (zero : ς) : System (Reception ς ε) ς where
  init := ⟨Framer.create D zero, []⟩
  step c x := some (c.receive D x)

/-- The symbols that a frame of this configuration has after the M1 field. -/
abbrev layout (m : Fin 8) : List Kind := frameLayout (frameParams m).dataSegmentCnt

/-- What holds at all times. -/
structure Inv (c : Reception ς ε) : Prop where
  shape : c.framer.Shape
  /-- The counters stand at the symbol that is due, and the data symbols so far are collected. -/
  due : c.framer.state.PastM1 → ∃ m, c.framer.mShift = some m ∧
    c.framer.remaining = (layout m).drop c.frame.length ∧
    c.framer.collected = dataAt (layout m) c.frame

theorem inv_init (zero : ς) : Inv (system D zero).init where
  shape := Framer.shape_reset _
  due h := by simp [system, Framer.create, Framer.reset] at h

variable {D}

theorem frame_receive {c : Reception ς ε} (hs : c.framer.state.PastM1) (x : ς) :
    (c.receive D x).frame = c.frame ++ [c.framer.output D x] := by
  cases hstate : c.framer.state with
  | a1 | a2 | m1 => simp [hstate] at hs
  | m2Skip | eqTrain | data1 | data2 => simp [receive, hstate]

/-- The array is never full when a symbol is to be collected. -/
theorem Inv.room {c : Reception ς ε} (h : Inv c)
    (hs : c.framer.state = .data1 ∨ c.framer.state = .data2) : c.framer.dataN < dataSymMax := by
  have hpast : c.framer.state.PastM1 := by rcases hs with hs | hs <;> simp [hs]
  obtain ⟨m, -, hrem, hcoll⟩ := h.due hpast
  obtain ⟨-, -, hpos, -⟩ := h.shape.collecting hs
  obtain ⟨rest, hrest⟩ : ∃ rest, c.framer.remaining = .data :: rest := by
    obtain ⟨w, hw⟩ : ∃ w, c.framer.symbolsWanted = w + 1 := ⟨c.framer.symbolsWanted - 1, by omega⟩
    rcases hs with hs | hs
    · have hsucc : w + 1 + dataFrameLen / 2 = w + dataFrameLen / 2 + 1 := by omega
      simp [Framer.remaining, hs, hw, hsucc, List.replicate_succ]
    · simp [Framer.remaining, hs, hw, List.replicate_succ]
  have hlt := length_dataAt_lt (hrem.symm.trans hrest)
  rw [← hcoll, Framer.length_collected, count_data_frameLayout] at hlt
  have hmax : ∀ m, (frameParams m).dataSegmentCnt * dataFrameLen ≤ dataSymMax := by decide
  exact lt_of_lt_of_le hlt (hmax m)

/-- The array after one more symbol of the frame. -/
theorem Inv.collected_sample {c : Reception ς ε} (h : Inv c) (hs : c.framer.state.PastM1) (x : ς) :
    (c.framer.sample D x).collected = c.framer.collected ++
      if c.framer.state.kind = .data then [c.framer.output D x] else [] := by
  cases hstate : c.framer.state with
  | a1 | a2 | m1 => simp [hstate] at hs
  | m2Skip =>
    obtain ⟨hsamp, -, -⟩ := h.shape.skipping hstate
    rw [(Framer.collected_sample (by simp [hsamp]) x).1]
    simp [FrState.kind]
  | eqTrain =>
    obtain ⟨-, hcoll, -⟩ := h.shape.training hstate
    rw [(Framer.collected_sample (fun _ => hcoll) x).1]
    simp [FrState.kind]
  | data1 | data2 =>
    obtain ⟨hsamp, hcoll, -, -⟩ := h.shape.collecting (by simp [hstate])
    rw [Framer.collected_sample_data hsamp hcoll (h.room (by simp [hstate])) x]
    simp [FrState.kind]

theorem inv_step (zero : ς) (c : Reception ς ε) (x : ς) (c' : Reception ς ε) (h : Inv c)
    (hs : (system D zero).step c x = some c') : Inv c' := by
  obtain rfl := Option.some.inj hs
  by_cases hpast : c.framer.state.PastM1
  · obtain ⟨m, hm, hrem, hcoll⟩ := h.due hpast
    have hsample := h.collected_sample (D := D) hpast x
    rcases Framer.remaining_push (D := D) h.shape hpast x with hp | ⟨-, -, hreset, -⟩
    · refine ⟨hp.shape, fun _ => ⟨m, hp.mShift.trans hm, ?_, ?_⟩⟩
      · have hhead := hp.remaining.symm.trans hrem
        rw [frame_receive hpast, List.length_append, List.length_singleton, ← List.tail_drop,
          ← hhead]
        rfl
      · have hdue := hrem.symm.trans hp.remaining
        rw [frame_receive hpast, dataAt_concat hdue, ← hcoll, ← hsample]
        exact hp.collected
    · have hframer : (c.receive D x).framer = Framer.reset D (c.framer.sample D x) := hreset
      refine ⟨by rw [hframer]; exact Framer.shape_reset _, fun hp => ?_⟩
      rw [hframer] at hp
      simp [Framer.reset] at hp
  · obtain ⟨-, hshape, hstart⟩ := Framer.push_search (D := D) h.shape hpast x
    refine ⟨hshape, fun hp => ?_⟩
    obtain ⟨m, hm, hn, hrem⟩ := hstart hp
    have hframe : (c.receive D x).frame = [] := by
      cases hstate : c.framer.state with
      | a1 | a2 | m1 => simp [receive, hstate]
      | m2Skip | eqTrain | data1 | data2 => simp [hstate] at hpast
    refine ⟨m, hm, ?_, ?_⟩
    · rw [hframe]
      exact hrem
    · rw [hframe]
      refine List.eq_nil_of_length_eq_zero ?_
      rw [Framer.length_collected]
      exact hn

/-- **The symbols of a frame.** In every state that a symbol stream leads to:

* a training symbol is compared with an entry of the training sequence;
* nothing is left in the array while the next frame is searched for;
* a frame that is handed over with the next symbol has a configuration; it holds as many symbols as
  that has, which is what its deinterleaver takes; and they are those at the data positions of the
  layout, which the frame fills. -/
theorem symbol_accounting (D : Dsp ς ε) (zero : ς) (xs : List ς) (c : Reception ς ε)
    (hrun : (system D zero).exec (system D zero).init xs = some c) :
    (c.framer.sampler = .symbols → c.framer.collectingData = false → c.framer.tIdx < tLen) ∧
    (¬ c.framer.state.PastM1 → c.framer.dataN = 0) ∧
    ∀ x h, (c.framer.push D x).2 = some h → ∃ m, h.mShift = some m ∧
      h.dataN = (frameParams m).dataSegmentCnt * dataFrameLen ∧
      h.dataN * (frameParams m).scheme = deinterleaverTableSize (frameParams m) ∧
      (frameDecodeBits h.dataN (frameParams m)).isSome ∧
      (c.receive D x).frame.length = (layout m).length ∧
      h.symbols = dataAt (layout m) (c.receive D x).frame := by
  have hinv : Inv c := System.exec_induction _ (inv_step zero) (inv_init D zero) hrun
  refine ⟨fun hsamp hcoll => ?_, fun hs => (hinv.shape.searching hs).2, fun x h hh => ?_⟩
  · cases hstate : c.framer.state with
    | a1 | a2 | m1 =>
      have hbits := (hinv.shape.searching (by simp [hstate])).1
      rw [hsamp] at hbits
      cases hbits
    | m2Skip =>
      have hskip := (hinv.shape.skipping hstate).1
      rw [hsamp] at hskip
      cases hskip
    | eqTrain =>
      obtain ⟨-, -, hpos, ht, -⟩ := hinv.shape.training hstate
      omega
    | data1 | data2 =>
      have htrue := (hinv.shape.collecting (by simp [hstate])).2.1
      rw [hcoll] at htrue
      cases htrue
  · by_cases hpast : c.framer.state.PastM1
    · obtain ⟨m, hm, hrem, hcoll⟩ := hinv.due hpast
      rcases Framer.remaining_push (D := D) hinv.shape hpast x with hp | ⟨hlast, hkind, -, hhand⟩
      · rw [hp.handed] at hh
        cases hh
      · obtain rfl := Option.some.inj (hhand.symm.trans hh)
        have hdue := hrem.symm.trans hlast
        have hlen : (c.receive D x).frame.length = (layout m).length := by
          have hone := congrArg List.length hdue
          rw [List.length_drop, List.length_singleton] at hone
          rw [frame_receive hpast, List.length_append, List.length_singleton]
          omega
        have hsym : (c.framer.sample D x).collected =
            dataAt (layout m) (c.receive D x).frame := by
          rw [frame_receive hpast, dataAt_concat hdue, ← hcoll]
          exact hinv.collected_sample hpast x
        have hn : (c.framer.sample D x).dataN = (frameParams m).dataSegmentCnt * dataFrameLen := by
          rw [← Framer.length_collected, hsym, length_dataAt hlen.le, hlen, List.take_length,
            count_data_frameLayout]
        have hsize : ∀ m, (frameParams m).dataSegmentCnt * dataFrameLen * (frameParams m).scheme =
            deinterleaverTableSize (frameParams m) := by decide
        have hdec : ∀ m, (frameDecodeBits ((frameParams m).dataSegmentCnt * dataFrameLen)
            (frameParams m)).isSome := by decide
        exact ⟨m, hm, hn, by rw [hn]; exact hsize m, by rw [hn]; exact hdec m, hlen, hsym⟩
    · rw [(Framer.push_search hinv.shape hpast x).1] at hh
      cases hh

/-- A frame is handed over when all its symbols have arrived. -/
theorem handed_of_length_remaining (zero : ς) (xs : List ς) (x : ς) (c : Reception ς ε)
    (h : Inv c) (hs : c.framer.state.PastM1) (hlen : c.framer.remaining.length = xs.length + 1) :
    ∃ c', (system D zero).exec c xs = some c' ∧ (c'.framer.push D x).2.isSome := by
  induction xs generalizing c with
  | nil =>
    refine ⟨c, rfl, ?_⟩
    rcases Framer.remaining_push (D := D) h.shape hs x with hp | ⟨-, -, -, hhand⟩
    · -- the frame would go on, with nothing to come
      have hnil : (c.framer.push D x).1.remaining = [] := by
        rw [hp.remaining, List.length_cons] at hlen
        exact List.eq_nil_of_length_eq_zero (Nat.succ.inj hlen)
      rcases Framer.remaining_push (D := D) hp.shape hp.pastM1 x with hp' | ⟨hlast, -, -, -⟩
      · rw [hp'.remaining] at hnil
        cases hnil
      · rw [hlast] at hnil
        cases hnil
    · rw [hhand]
      rfl
  | cons y ys ih =>
    rcases Framer.remaining_push (D := D) h.shape hs y with hp | ⟨hlast, -, -, -⟩
    · have hlen' : (c.receive D y).framer.remaining.length = ys.length + 1 := by
        rw [hp.remaining, List.length_cons, List.length_cons] at hlen
        exact Nat.succ.inj hlen
      obtain ⟨c', hrun, hhand⟩ := ih (c.receive D y) (inv_step zero c y _ h rfl) hp.pastM1 hlen'
      exact ⟨c', (System.exec_cons _).2 ⟨_, rfl, hrun⟩, hhand⟩
    · rw [hlast] at hlen
      simp at hlen

/-- The symbols of a frame of the first configuration, up to its last but one. -/
def firstFrame : List Bool :=
  aBits ++ aBits ++ modeTemplate 72 ++ List.replicate 3389 false

/-- What a run is evaluated by: whether it searches, and where a slot ends. -/
def slotEnd (c : Reception Bool Unit) : Bool :=
  decide (c.framer.state = .a1) ^^ decide (c.framer.symbolsWanted = 1)

/-- The frame is handed over. -/
theorem handed_firstFrame : ∃ c, (system noiseless false).exec (system noiseless false).init
    firstFrame = some c ∧ (c.framer.push noiseless false).2.isSome := by
  obtain ⟨c, hrun, hstate, hshift, hframe⟩ : ∃ c, (system noiseless false).exec
      (system noiseless false).init (aBits ++ aBits ++ modeTemplate 72) = some c ∧
      c.framer.state = .m2Skip ∧ c.framer.mShift = some 0 ∧ c.frame = [] :=
    System.exists_exec_looking _ slotEnd (by decide +kernel)
  have hinv : Inv c := System.exec_induction _ (inv_step false) (inv_init noiseless false) hrun
  have hpast : c.framer.state.PastM1 := by simp [hstate]
  obtain ⟨m, hm, hrem, -⟩ := hinv.due hpast
  obtain rfl : m = 0 := Option.some.inj (hm.symm.trans hshift)
  have hlen : c.framer.remaining.length = (List.replicate 3389 false).length + 1 := by
    rw [hrem, hframe, List.length_nil, List.drop_zero, length_frameLayout, List.length_replicate]
    rfl
  obtain ⟨c', hrest, hhand⟩ := handed_of_length_remaining false _ false c hinv hpast hlen
  exact ⟨c', (System.exec_append _ hrun).trans hrest, hhand⟩

/-- What the frame brings. -/
theorem symbol_accounting_firstFrame : ∃ c h, (system noiseless false).exec
    (system noiseless false).init firstFrame = some c ∧
    (c.framer.push noiseless false).2 = some h ∧ ∃ m, h.mShift = some m ∧
      h.symbols = dataAt (layout m) (c.receive noiseless false).frame := by
  obtain ⟨c, hrun, hhand⟩ := handed_firstFrame
  obtain ⟨h, hh⟩ := Option.isSome_iff_exists.1 hhand
  obtain ⟨m, hm, -, -, -, -, hsym⟩ :=
    (symbol_accounting noiseless false firstFrame c hrun).2.2 false h hh
  exact ⟨c, h, hrun, hh, m, hm, hsym⟩

end Reception

end MacHPSDR.Hfdl
