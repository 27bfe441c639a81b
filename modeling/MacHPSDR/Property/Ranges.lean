import MacHPSDR.Property.Restore
import Mathlib

/-!
# Restored settings and their ranges

What is restored later subscripts a table or selects one of an enumeration. Some values are
brought into their range (the mode and the filter of a receiver, the antenna, the split, the number
of notches, the edges of the filters) and some are taken as they are: the band of a receiver, the
filters and the AGC that it remembers for the other modes, the current band, and the mode and the
filter of an entry of a band stack. A count of entries that does not reach the current entry is
taken too, and so is a count of 0. `restore_inRange_iff` says for which stores everything is in its
range.
-/

namespace MacHPSDR.Property

/-! ## Ranges -/

/-- A value that subscripts a table of `n` rows. -/
def Indexes (v : ℤ) (n : ℕ) : Prop := 0 ≤ v ∧ v < n

instance (v : ℤ) (n : ℕ) : Decidable (Indexes v n) := inferInstanceAs (Decidable (_ ∧ _))

/-- The count is at most the length of the table, and the current entry is below the count. -/
structure Bandstack.InRange (st : Bandstack) : Prop where
  entries : st.entries ≤ st.entry.length
  current : 0 ≤ st.currentEntry ∧ st.currentEntry < st.entries
  mode : ∀ e ∈ st.entry, Indexes e.mode modeCount
  filter : ∀ e ∈ st.entry, Indexes e.filter filterCount

structure Receiver.InRange (dev : Discovered) (rx : Receiver) : Prop where
  antenna : 0 ≤ rx.soapyRxAntenna ∧ rx.soapyRxAntenna < feeds dev
  bandA : Indexes rx.bandA bandRows
  modeA : Indexes rx.modeA modeCount
  filterA : Indexes rx.filterA filterCount
  modeFilter : ∀ i < modeCount, Indexes (rx.modeFilter i) filterCount
  modeAgc : ∀ i < modeCount, 0 ≤ rx.modeAgc i ∧ rx.modeAgc i ≤ agcLast
  agc : 0 ≤ rx.agc ∧ rx.agc ≤ agcLast
  split : splitOff ≤ rx.split ∧ rx.split ≤ splitRsat
  notches : 0 ≤ rx.notches ∧ rx.notches ≤ maxNotches

/-- An edge of a filter is at most `filterEdgeLimitHz` away. -/
def EdgeInRange (v : ℤ) : Prop := -filterEdgeLimitHz ≤ v ∧ v ≤ filterEdgeLimitHz

structure Settings.InRange (dev : Discovered) (st : Settings) : Prop where
  bands : ∀ b < bandRows, (st.bands b).bandstack.InRange
  band : Indexes st.band bandRows
  filters : ∀ mode < modeCount, ∀ var, fVar1 ≤ var → var ≤ fVar2 →
    EdgeInRange (st.filters mode var).low ∧ EdgeInRange (st.filters mode var).high
  rx : st.rx.InRange dev

/-! ## Stores that leave everything in its range -/

/-- The number under a name, if there is one, has a property. -/
def Holds (s : Store) (name : String) (P : ℤ → Prop) : Prop := ∀ v, number s name = some v → P v

/-- What the store says about a band stack leaves it in its range: its count is not 0 and keeps
the current entry, unless there is a current entry in the store too, and the mode and the filter
of each entry that is read are in their range. -/
structure Bandstack.Trusted (s : Store) (b : ℕ) (st : Bandstack) : Prop where
  entries : Holds s s!"band.{b}.entries" (0 < ·)
  current : number s s!"band.{b}.current" = none →
    Holds s s!"band.{b}.entries" (st.currentEntry < ·)
  mode : ∀ k : ℕ, (k : ℤ) < st.entries → Holds s s!"band.{b}.entries" ((k : ℤ) < ·) →
    Holds s s!"band.{b}.stack.{k}.mode" (Indexes · modeCount)
  filter : ∀ k : ℕ, (k : ℤ) < st.entries → Holds s s!"band.{b}.entries" ((k : ℤ) < ·) →
    Holds s s!"band.{b}.stack.{k}.filter" (Indexes · filterCount)

/-- The receiver comes up in mode `i`: the stored mode, or its own if what is stored is none. -/
def Receiver.ComesUpIn (s : Store) (rx : Receiver) (i : ℕ) : Prop :=
  number s (rxKey rx.channel "mode_a") = some (i : ℤ) ∨
    rx.modeA = i ∧ Holds s (rxKey rx.channel "mode_a") fun m => ¬Indexes m modeCount

/-- What the store says about a receiver leaves it in its range: its band, its AGC, and what it
remembers for the modes other than the one that it comes up in. -/
structure Receiver.Trusted (s : Store) (rx : Receiver) : Prop where
  bandA : Holds s (rxKey rx.channel "band_a") (Indexes · bandRows)
  agc : Holds s (rxKey rx.channel "agc") fun v => 0 ≤ v ∧ v ≤ agcLast
  modeFilter : ∀ i < modeCount, ¬rx.ComesUpIn s i →
    Holds s (rxKey rx.channel s!"mode_filter[{i}]") (Indexes · filterCount)
  modeAgc : ∀ i < modeCount, ¬rx.ComesUpIn s i →
    Holds s (rxKey rx.channel s!"mode_agc[{i}]") fun v => 0 ≤ v ∧ v ≤ agcLast

structure Settings.Trusted (s : Store) (st : Settings) : Prop where
  bands : ∀ b < bandRows, (st.bands b).bandstack.Trusted s b
  band : Holds s "band" (Indexes · bandRows)
  rx : st.rx.Trusted s

variable {s : Store} {P : ℤ → Prop}

theorem readInt_iff (name : String) {old : ℤ} (hold : P old) :
    P (readInt s name old) ↔ Holds s name P := by
  unfold readInt Holds
  cases number s name with
  | none => simp [hold]
  | some v => simp

/-! ### Band stacks -/

section Bandstack

variable {b : ℕ} {st : Bandstack}

theorem restoreEntries_le (capacity : ℤ) : restoreEntries s b capacity ≤ capacity := by
  unfold restoreEntries
  cases number s s!"band.{b}.entries" with
  | none => exact le_rfl
  | some n => dsimp only; split_ifs <;> omega

theorem lt_restoreEntries_iff {capacity k : ℤ} (hk : 0 ≤ k) :
    k < restoreEntries s b capacity ↔
      k < capacity ∧ Holds s s!"band.{b}.entries" (k < ·) := by
  unfold restoreEntries Holds
  cases number s s!"band.{b}.entries" with
  | none => simp
  | some n =>
    simp only [Option.some.injEq, forall_eq']
    split_ifs <;> omega

theorem restoreCurrent_iff (entries : ℤ) {current : ℤ} (hcur : 0 ≤ current) :
    0 ≤ restoreCurrent s b entries current ∧ restoreCurrent s b entries current < entries ↔
      0 < entries ∧ (number s s!"band.{b}.current" = none → current < entries) := by
  unfold restoreCurrent
  cases number s s!"band.{b}.current" with
  | none => simp; omega
  | some n =>
    simp only [Bool.or_eq_true, decide_eq_true_eq, reduceCtorEq, false_implies, and_true]
    split_ifs <;> omega

/-- What holds of every entry after the restore, when it held of every entry before. -/
theorem forall_restored_iff {Q : BandstackEntry → Prop} {R : ℕ → Prop} (hst : st.InRange)
    (hold : ∀ e ∈ st.entry, Q e) (hQR : ∀ k, ∀ e ∈ st.entry, Q (restoreEntry s b k e) ↔ R k) :
    (∀ e ∈ (restoreStack s b st).entry, Q e) ↔
      ∀ k : ℕ, (k : ℤ) < restoreEntries s b st.entries → R k := by
  have hle : restoreEntries s b st.entries ≤ st.entry.length :=
    (restoreEntries_le st.entries).trans hst.entries
  have hmem : ∀ k (hk : k < st.entry.length), st.entry[k] ∈ st.entry := fun k hk =>
    List.getElem_mem hk
  constructor
  · intro h k hk
    have hlen : k < st.entry.length := by omega
    refine (hQR k _ (hmem k hlen)).1 (h _ (List.mem_mapIdx.2 ⟨k, hlen, ?_⟩))
    exact if_pos hk
  · intro h e he
    obtain ⟨k, hlen, rfl⟩ := List.mem_mapIdx.1 he
    split_ifs with hk
    · exact (hQR k _ (hmem k hlen)).2 (h k hk)
    · exact hold _ (hmem k hlen)

theorem restoreStack_inRange_iff (hst : st.InRange) :
    (restoreStack s b st).InRange ↔ st.Trusted s b := by
  have hcap : 0 < st.entries := lt_of_le_of_lt hst.current.1 hst.current.2
  have hcurrent := restoreCurrent_iff (s := s) (b := b) (restoreEntries s b st.entries)
    hst.current.1
  rw [lt_restoreEntries_iff le_rfl, lt_restoreEntries_iff hst.current.1] at hcurrent
  have hmode := forall_restored_iff (s := s) (b := b) hst hst.mode
    (R := fun k => Holds s s!"band.{b}.stack.{k}.mode" (Indexes · modeCount))
    fun k e he => readInt_iff (P := (Indexes · modeCount)) _ (hst.mode e he)
  have hfilter := forall_restored_iff (s := s) (b := b) hst hst.filter
    (R := fun k => Holds s s!"band.{b}.stack.{k}.filter" (Indexes · filterCount))
    fun k e he => readInt_iff (P := (Indexes · filterCount)) _ (hst.filter e he)
  have hread : ∀ k : ℕ, (k : ℤ) < restoreEntries s b st.entries ↔
      (k : ℤ) < st.entries ∧ Holds s s!"band.{b}.entries" ((k : ℤ) < ·) := fun k =>
    lt_restoreEntries_iff (Int.natCast_nonneg k)
  constructor
  · intro h
    obtain ⟨⟨-, hne⟩, hcur⟩ := hcurrent.1 h.current
    exact ⟨hne, fun hc => (hcur hc).2, fun k hk he => hmode.1 h.mode k ((hread k).2 ⟨hk, he⟩),
      fun k hk he => hfilter.1 h.filter k ((hread k).2 ⟨hk, he⟩)⟩
  · intro h
    refine ⟨?_, hcurrent.2 ⟨⟨hcap, h.entries⟩, fun hc => ⟨hst.current.2, h.current hc⟩⟩,
      hmode.2 fun k hk => ?_, hfilter.2 fun k hk => ?_⟩
    · have hlen : (restoreStack s b st).entry.length = st.entry.length := List.length_mapIdx
      rw [hlen]
      exact (restoreEntries_le st.entries).trans hst.entries
    · exact h.mode k ((hread k).1 hk).1 ((hread k).1 hk).2
    · exact h.filter k ((hread k).1 hk).1 ((hread k).1 hk).2

end Bandstack

/-! ### A receiver -/

section Receiver

variable {dev : Discovered} {rx : Receiver}

theorem readIndex_indexes {name : String} {count : ℕ} {old : ℤ} (hold : Indexes old count) :
    Indexes (readIndex s name count old) count := by
  unfold readIndex
  cases number s name with
  | none => exact hold
  | some m =>
    simp only [Bool.and_eq_true, decide_eq_true_eq]
    split_ifs with hm
    · exact hm
    · exact hold

theorem comesUpIn_iff (i : ℕ) (hi : i < modeCount) :
    rx.ComesUpIn s i ↔ readIndex s (rxKey rx.channel "mode_a") modeCount rx.modeA = i := by
  unfold Receiver.ComesUpIn readIndex Holds
  cases number s (rxKey rx.channel "mode_a") with
  | none => simp
  | some m =>
    simp only [Option.some.injEq, forall_eq', Bool.and_eq_true, decide_eq_true_eq, Indexes]
    split_ifs with hm
    · simp [hm]
    · simp only [hm, not_false_iff, and_true, or_iff_right_iff_imp]
      omega

/-- An array of the modes: the mode in force takes what is in force, every other mode what is
stored. -/
theorem readModes_iff (channel : ℤ) (field : String) {old : ℕ → ℤ} {mode : ℤ} (inForce : ℤ)
    (hmode : Indexes mode modeCount) (hold : ∀ i < modeCount, P (old i)) :
    (∀ i < modeCount, P (readModes s channel field old mode inForce i)) ↔
      P inForce ∧ ∀ i : ℕ, i < modeCount → mode ≠ i →
        Holds s (rxKey channel s!"{field}[{i}]") P := by
  have hread : ∀ i < modeCount, readModes s channel field old mode inForce i =
      if mode = i then inForce else readInt s (rxKey channel s!"{field}[{i}]") (old i) := by
    intro i hi
    have hforce : (mode ≥ 0 && mode < modeCount) = true := by
      simp only [Bool.and_eq_true, decide_eq_true_eq]
      exact hmode
    have hidx : i = mode.toNat ↔ mode = i := by
      have := hmode.1
      omega
    simp only [readModes, hforce, if_true, Function.update_apply, hidx, hi]
  constructor
  · intro h
    refine ⟨?_, fun i hi hne => ?_⟩
    · have hlt : mode.toNat < modeCount := (Int.toNat_lt hmode.1).2 hmode.2
      have hself := h mode.toNat hlt
      rwa [hread _ hlt, if_pos (Int.toNat_of_nonneg hmode.1).symm] at hself
    · have hother := h i hi
      rw [hread i hi, if_neg hne] at hother
      exact (readInt_iff _ (hold i hi)).1 hother
  · rintro ⟨hforce, h⟩ i hi
    rw [hread i hi]
    split_ifs with hm
    · exact hforce
    · exact (readInt_iff _ (hold i hi)).2 (h i hi hm)

theorem feeds_pos (dev : Discovered) : 0 < feeds dev := by
  unfold feeds
  split_ifs with h
  · simp only [Bool.and_eq_true, decide_eq_true_eq] at h
    exact_mod_cast h.2
  · exact one_pos

theorem readAntenna_inRange :
    0 ≤ readAntenna s dev rx ∧ readAntenna s dev rx < feeds dev := by
  have := feeds_pos dev
  simp only [readAntenna]
  split_ifs <;> omega

theorem readNotches_inRange : 0 ≤ readNotches s rx ∧ readNotches s rx ≤ maxNotches := by
  simp only [readNotches, maxNotches]
  split_ifs <;> omega

theorem splitFromProps_inRange {value : CStr} {fallback : ℤ}
    (h : splitOff ≤ fallback ∧ fallback ≤ splitRsat) :
    splitOff ≤ splitFromProps value fallback ∧ splitFromProps value fallback ≤ splitRsat := by
  simp only [splitFromProps, Bool.or_eq_true, decide_eq_true_eq]
  split_ifs <;> omega

theorem readSplit_inRange (h : splitOff ≤ rx.split ∧ rx.split ≤ splitRsat) :
    splitOff ≤ readSplit s rx ∧ readSplit s rx ≤ splitRsat := by
  unfold readSplit
  cases getProperty s (rxKey rx.channel "split") with
  | none => exact h
  | some value => exact splitFromProps_inRange ⟨le_rfl, by decide⟩

/-- The split that the button turns on is a split too, and never off. -/
theorem readSplitLast_inRange {split : ℤ} (h : splitOff ≤ split ∧ split ≤ splitRsat) :
    splitOn ≤ readSplitLast s rx split ∧ readSplitLast s rx split ≤ splitRsat := by
  have hlast : ∀ last : ℤ, splitOff ≤ last ∧ last ≤ splitRsat →
      splitOn ≤ (if last = splitOff then splitOn else last) ∧
        (if last = splitOff then splitOn else last) ≤ splitRsat := by
    intro last hl
    simp only [splitOff, splitOn, splitRsat] at hl ⊢
    split_ifs <;> omega
  refine hlast _ ?_
  cases getProperty s (rxKey rx.channel "split_last") with
  | none => exact h
  | some value => exact splitFromProps_inRange ⟨by decide, by decide⟩

theorem receiverRestoreState_inRange_iff (hrx : rx.InRange dev) :
    (receiverRestoreState s dev rx).InRange dev ↔ rx.Trusted s := by
  have hmode : Indexes (readIndex s (rxKey rx.channel "mode_a") modeCount rx.modeA) modeCount :=
    readIndex_indexes hrx.modeA
  have hfilter : Indexes (readIndex s (rxKey rx.channel "filter_a") filterCount rx.filterA)
      filterCount := readIndex_indexes hrx.filterA
  have hband := readInt_iff (s := s) (P := (Indexes · bandRows)) (rxKey rx.channel "band_a")
    hrx.bandA
  have hagc := readInt_iff (s := s) (P := fun v => 0 ≤ v ∧ v ≤ agcLast)
    (rxKey rx.channel "agc") hrx.agc
  have hfilters := readModes_iff (s := s) (P := (Indexes · filterCount)) rx.channel "mode_filter"
    (readIndex s (rxKey rx.channel "filter_a") filterCount rx.filterA) hmode hrx.modeFilter
  have hagcs := readModes_iff (s := s) (P := fun v => 0 ≤ v ∧ v ≤ agcLast) rx.channel "mode_agc"
    (readInt s (rxKey rx.channel "agc") rx.agc) hmode hrx.modeAgc
  have hother : ∀ i < modeCount, (¬rx.ComesUpIn s i ↔
      readIndex s (rxKey rx.channel "mode_a") modeCount rx.modeA ≠ i) := fun i hi =>
    not_congr (comesUpIn_iff i hi)
  constructor
  · intro h
    exact ⟨hband.1 h.bandA, hagc.1 h.agc,
      fun i hi hne => (hfilters.1 h.modeFilter).2 i hi ((hother i hi).1 hne),
      fun i hi hne => (hagcs.1 h.modeAgc).2 i hi ((hother i hi).1 hne)⟩
  · intro h
    refine ⟨readAntenna_inRange, hband.2 h.bandA, hmode, hfilter, hfilters.2 ⟨hfilter, ?_⟩,
      hagcs.2 ⟨hagc.2 h.agc, ?_⟩, hagc.2 h.agc, readSplit_inRange hrx.split,
      readNotches_inRange⟩
    · exact fun i hi hne => h.modeFilter i hi ((hother i hi).2 hne)
    · exact fun i hi hne => h.modeAgc i hi ((hother i hi).2 hne)

end Receiver

/-! ### The filters -/

theorem filterEdge_inRange {value : Option CStr} {fallback : ℤ} (h : EdgeInRange fallback) :
    EdgeInRange (filterEdge value fallback) := by
  cases value with
  | none => exact h
  | some value =>
    simp only [filterEdge, EdgeInRange, filterEdgeLimitHz]
    split_ifs <;> omega

/-- With everything in its range, `set_band` finds an entry in the stack of the band, with a mode
and a filter that there are. -/
theorem Settings.InRange.entry {dev : Discovered} {st : Settings} (hst : st.InRange dev) {b : ℕ}
    (hb : b < bandRows) :
    ∃ e, (st.bands b).bandstack.entry[(st.bands b).bandstack.currentEntry.toNat]? = some e ∧
      Indexes e.mode modeCount ∧ Indexes e.filter filterCount := by
  have hstack := hst.bands b hb
  have hlt : (st.bands b).bandstack.currentEntry.toNat < (st.bands b).bandstack.entry.length := by
    have := hstack.entries
    have := hstack.current
    omega
  exact ⟨_, List.getElem?_eq_getElem hlt, hstack.mode _ (List.getElem_mem hlt),
    hstack.filter _ (List.getElem_mem hlt)⟩

/-! ## What is compiled in -/

theorem bandAt_inRange {b : ℕ} (hb : b < bandRows) : (bandAt b).bandstack.InRange := by
  have hall : ∀ st ∈ bandstacks, st.entries ≤ st.entry.length ∧
      (0 ≤ st.currentEntry ∧ st.currentEntry < st.entries) ∧
      (∀ e ∈ st.entry, Indexes e.mode modeCount) ∧
      ∀ e ∈ st.entry, Indexes e.filter filterCount := by decide
  have hlen : b < bandstacks.length := hb
  have hrow : (bandAt b).bandstack = bandstacks[b] := List.getD_eq_getElem _ _ hlen
  obtain ⟨hentries, hcurrent, hmode, hfilter⟩ := hall _ (List.getElem_mem hlen)
  rw [← hrow] at hentries hcurrent hmode hfilter
  exact ⟨hentries, hcurrent, hmode, hfilter⟩

theorem varEdges_inRange {mode : ℕ} (hmode : mode < modeCount) :
    EdgeInRange (varEdges.getD mode (0, 0)).1 ∧ EdgeInRange (varEdges.getD mode (0, 0)).2 := by
  have hall : ∀ e ∈ varEdges, (-filterEdgeLimitHz ≤ e.1 ∧ e.1 ≤ filterEdgeLimitHz) ∧
      (-filterEdgeLimitHz ≤ e.2 ∧ e.2 ≤ filterEdgeLimitHz) := by decide
  have hlen : mode < varEdges.length := hmode
  rw [List.getD_eq_getElem _ _ hlen]
  exact hall _ (List.getElem_mem hlen)

theorem newReceiver_inRange (dev : Discovered) (channel : ℤ) :
    (newReceiver channel).InRange dev where
  antenna := ⟨le_rfl, feeds_pos dev⟩
  bandA := (by decide : Indexes 7 bandRows)
  modeA := (by decide : Indexes 1 modeCount)
  filterA := (by decide : Indexes 5 filterCount)
  modeFilter := fun _ _ => (by decide : Indexes 5 filterCount)
  modeAgc := fun _ _ => (by decide : (0 : ℤ) ≤ 0 ∧ 0 ≤ agcLast)
  agc := (by decide : (0 : ℤ) ≤ 0 ∧ 0 ≤ agcLast)
  split := (by decide : splitOff ≤ splitOff ∧ splitOff ≤ splitRsat)
  notches := (by decide : (0 : ℤ) ≤ 0 ∧ 0 ≤ maxNotches)

/-- What is compiled in is in its range. -/
theorem compiled_inRange (dev : Discovered) (channel : ℤ) : (compiled channel).InRange dev :=
  ⟨fun _ hb => bandAt_inRange hb, (by decide : Indexes 7 bandRows),
    fun _ hmode _ _ _ => varEdges_inRange hmode, newReceiver_inRange dev channel⟩

/-! ## After a start -/

/-- After a start everything is in its range for the stores that can be trusted, and for no
others. -/
theorem restore_inRange_iff (s : Store) (dev : Discovered) (st : Settings)
    (hst : st.InRange dev) : (restore s dev st).InRange dev ↔ st.Trusted s := by
  have hbands : ∀ b < bandRows, ((restore s dev st).bands b).bandstack.InRange ↔
      (st.bands b).bandstack.Trusted s b := by
    intro b hb
    have hrow : (restore s dev st).bands b = restoreBand s b (st.bands b) := if_pos hb
    rw [hrow]
    exact restoreStack_inRange_iff (hst.bands b hb)
  have hband := readInt_iff (s := s) (P := (Indexes · bandRows)) "band" hst.band
  have hrx := receiverRestoreState_inRange_iff (s := s) hst.rx
  constructor
  · intro h
    exact ⟨fun b hb => (hbands b hb).1 (h.bands b hb), hband.1 h.band, hrx.1 h.rx⟩
  · intro h
    refine ⟨fun b hb => (hbands b hb).2 (h.bands b hb), hband.2 h.band, ?_, hrx.2 h.rx⟩
    intro mode hmode var hlo hhi
    have hrow : (restore s dev st).filters mode var = _ := if_pos ⟨hmode, hlo, hhi⟩
    obtain ⟨hlow, hhigh⟩ := hst.filters mode hmode var hlo hhi
    rw [hrow]
    exact ⟨filterEdge_inRange hlow, filterEdge_inRange hhigh⟩

/-- A device on the network. -/
def networkDevice : Discovered := ⟨false, 2, 0, by decide⟩

/-- A settings file with one line. -/
def oneLine (name value : String) : Store := setProperty ∅ (lit name) (lit value)

theorem number_oneLine (name value : String) :
    number (oneLine name value) name = some (atoi (lit value)) := by
  rw [number, getProperty, oneLine, setProperty, Finmap.lookup_insert, Option.map_some]

theorem restore_inRange_iff_oneLine : (compiled 0).InRange networkDevice ∧
    ((restore (oneLine (rxKey 0 "band_a") "99") networkDevice (compiled 0)).InRange networkDevice ↔
      (compiled 0).Trusted (oneLine (rxKey 0 "band_a") "99")) :=
  ⟨compiled_inRange networkDevice 0,
    restore_inRange_iff _ networkDevice _ (compiled_inRange networkDevice 0)⟩

/-- Not everything is in its range after every start: `receiver[0].band_a=99` is taken as it is,
and `set_band` subscripts the bands with it. -/
theorem not_restore_inRange : (compiled 0).InRange networkDevice ∧
    ¬(restore (oneLine (rxKey 0 "band_a") "99") networkDevice (compiled 0)).InRange
      networkDevice := by
  refine ⟨compiled_inRange networkDevice 0, fun h => ?_⟩
  have hband : (restore (oneLine (rxKey 0 "band_a") "99") networkDevice (compiled 0)).rx.bandA =
      99 := by
    change readInt (oneLine (rxKey 0 "band_a") "99") (rxKey (compiled 0).rx.channel "band_a") 7 = 99
    rw [show (compiled 0).rx.channel = 0 from rfl, readInt, number_oneLine, Option.getD_some]
    decide +kernel
  have hlt := h.rx.bandA.2
  rw [hband] at hlt
  exact absurd hlt (by decide)

end MacHPSDR.Property
