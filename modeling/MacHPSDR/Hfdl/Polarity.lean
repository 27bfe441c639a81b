import MacHPSDR.Hfdl.Framer

/-!
# The polarity of a frame

A BPSK carrier is recovered up to its sign, so a frame may arrive with all its symbols inverted. The
sign of the correlation with the A sequence tells which, and the framer keeps it in `bitmask` to put
the rest of the frame right. But the bits that are correlated have already been corrected with the
mask that is in force, and `framer_reset` does not clear it: what the sign tells is whether the new
preamble differs from the last one that was found.

So the mask is not the polarity of the frame but the sum of the polarities of all preambles found so
far (`Inv.mask`), and it is right exactly when an even number of the earlier ones were inverted
(`bitmask_eq_iff`).
-/

namespace MacHPSDR.Hfdl

/-- The A sequence is seen inverted in this window. -/
def inverted (win : List Bool) : Bool := !decide (preambleCorr win > 0)

/-- A channel: the framer together with what it has received. `raw` are the last bits as they were
received and `locks` the polarities of the preambles that an A1 lock has found, oldest first. -/
structure Channel (ς ε : Type*) where
  framer : Framer ς ε
  raw : List Bool
  locks : List Bool

namespace Channel

variable {ς ε : Type*} (D : Dsp ς ε)

/-- The last bits as received, after one more symbol. -/
def rawWindow (c : Channel ς ε) (x : ς) : List Bool :=
  match c.framer.sampler with
  | .bits => pushBit c.raw (D.slice x)
  | .symbols | .skip => c.raw

/-- One symbol arrives. -/
def receive (c : Channel ς ε) (x : ς) : Channel ς ε :=
  let f := (c.framer.push D x).1
  { framer := f
    raw := c.rawWindow D x
    locks := if c.framer.state = .a1 ∧ f.state = .a2 then c.locks ++ [inverted (c.rawWindow D x)]
             else c.locks }

/-- A channel on which symbols arrive. -/
def system (zero : ς) : System (Channel ς ε) ς where
  init := ⟨Framer.create D zero, List.replicate aLen false, []⟩
  step c x := some (c.receive D x)

end Channel

/-! ## Windows and masks -/

theorem length_aBits : aBits.length = aLen := by simp [aBits, aOctets, aLen]

theorem length_pushBit {win : List Bool} (h : win.length = aLen) (bit : Bool) :
    (pushBit win bit).length = aLen := by
  simp only [pushBit, List.length_append, List.length_tail, List.length_singleton]
  simp only [aLen] at h ⊢
  omega

/-- All but the oldest `d` bits of a window, after one more bit. -/
theorem drop_pushBit {win : List Bool} {d : ℕ} (h : d + 1 ≤ win.length) (bit : Bool) :
    (pushBit win bit).drop d = win.drop (d + 1) ++ [bit] := by
  have htail : d ≤ win.tail.length := by
    rw [List.length_tail]
    omega
  rw [pushBit, List.drop_append_of_le_length htail, List.drop_tail]

theorem correlate_map_not {ref win : List Bool} (h : ref.length = win.length) :
    correlate ref (win.map not) + correlate ref win = ref.length := by
  induction ref generalizing win with
  | nil => rfl
  | cons r ref ih =>
    cases win with
    | nil => simp at h
    | cons w win =>
      have hrest := ih (Nat.succ.inj h)
      simp only [correlate, List.map_cons, List.zipWith_cons_cons, List.count_cons,
        List.length_cons] at hrest ⊢
      cases r <;> cases w <;> simp <;> omega

/-- An inverted window correlates with the opposite sign. -/
theorem preambleCorr_map_not {win : List Bool} (h : win.length = aLen) :
    preambleCorr (win.map not) = -preambleCorr win := by
  have hsum := correlate_map_not (length_aBits.trans h.symm)
  have hcast : (correlate aBits (win.map not) : ℚ) = aLen - correlate aBits win := by
    rw [eq_sub_iff_add_eq, ← length_aBits]
    exact_mod_cast hsum
  have hlen : (aLen : ℚ) ≠ 0 := by norm_num [aLen]
  unfold preambleCorr
  rw [hcast]
  field_simp
  ring

/-- What the framer sees in a window that it has corrected with `mask`. -/
theorem inverted_map_xor {win : List Bool} (h : win.length = aLen) (hne : preambleCorr win ≠ 0)
    (mask : Bool) : inverted (win.map (· ^^ mask)) = (inverted win ^^ mask) := by
  cases mask with
  | false => simp
  | true =>
    have hnot : win.map (· ^^ true) = win.map not := List.map_congr_left fun b _ => by simp
    rw [hnot, inverted, preambleCorr_map_not h, inverted]
    rcases lt_or_gt_of_ne hne with hneg | hpos
    · have hflip : -preambleCorr win > 0 := by linarith
      simp [hflip, not_lt_of_gt hneg]
    · have hflip : ¬ -preambleCorr win > 0 := by linarith
      simp [hflip, hpos]

theorem preambleCorr_map_xor_ne {win : List Bool} (h : win.length = aLen) {mask : Bool}
    (hne : preambleCorr (win.map (· ^^ mask)) ≠ 0) : preambleCorr win ≠ 0 := by
  cases mask with
  | false => simpa using hne
  | true =>
    have hnot : win.map (· ^^ true) = win.map not := List.map_congr_left fun b _ => by simp
    rw [hnot, preambleCorr_map_not h] at hne
    exact neg_ne_zero.1 hne

/-- A preamble that is received as sent or with all its bits inverted. -/
theorem inverted_aBits (polarity : Bool) : inverted (aBits.map (· ^^ polarity)) = polarity := by
  have hself : correlate aBits aBits = aLen := by decide +kernel
  have hcorr : preambleCorr aBits = 1 := by norm_num [preambleCorr, hself, aLen]
  rw [inverted_map_xor length_aBits (by rw [hcorr]; exact one_ne_zero)]
  simp [inverted, hcorr]

/-! ## Every symbol -/

/-- How many of the oldest bits of the window were corrected with an earlier mask. -/
def Framer.outdated {ς ε : Type*} (f : Framer ς ε) : ℕ :=
  if f.state = .a2 then f.symbolsWanted else 0

/-- What holds on a channel at all times. -/
structure Channel.Inv {ς ε : Type*} (c : Channel ς ε) : Prop where
  length_raw : c.raw.length = aLen
  length_preWin : c.framer.preWin.length = aLen
  /-- The search reads bits; in A1 it looks at every one of them. -/
  searching : c.framer.state = .a1 → c.framer.sampler = .bits ∧ c.framer.symbolsWanted = 1
  confirming : c.framer.state = .a2 →
    c.framer.sampler = .bits ∧ 1 ≤ c.framer.symbolsWanted ∧ c.framer.symbolsWanted ≤ aLen
  /-- The window of the correlator holds the bits as received, corrected with the mask. -/
  window : c.framer.preWin.drop c.framer.outdated =
    (c.raw.drop c.framer.outdated).map (· ^^ c.framer.bitmask)
  /-- The mask adds up the polarities of the preambles that have been found. -/
  mask : c.framer.bitmask = (c.locks.count true).bodd
  /-- Past the search a preamble has been found. -/
  found : c.framer.state ≠ .a1 → c.locks ≠ []

namespace Framer

variable {ς ε : Type*} {D : Dsp ς ε}

theorem preWin_sample_bits {f : Framer ς ε} (h : f.sampler = .bits) (x : ς) :
    (sample D f x).preWin = pushBit f.preWin (D.slice x ^^ f.bitmask) ∧
      (sample D f x).lastCorr = preambleCorr (sample D f x).preWin := by
  simp [sample, h]

theorem preWin_sample {f : Framer ς ε} (h : f.sampler ≠ .bits) (x : ς) :
    (sample D f x).preWin = f.preWin := by
  unfold sample
  split
  · exact absurd ‹_› h
  · repeat' split
    all_goals rfl
  · rfl

/-- The switch locks on a preamble, or it leaves the mask and the window as they are. -/
theorem advance_cases (f : Framer ς ε)
    (h : f.state = .a1 → f.sampler = .bits ∧ f.symbolsWanted = 1) :
    (f.state = .a1 ∧ |f.lastCorr| > corrThresholdA1 ∧ (advance D f).1 =
      { f with bitmask := !decide (f.lastCorr > 0), symbolsWanted := aLen, state := .a2 }) ∨
    ((advance D f).1.preWin = f.preWin ∧ (advance D f).1.bitmask = f.bitmask ∧
      ((advance D f).1.state ≠ .a1 → f.state ≠ .a1) ∧
      ((advance D f).1.state = .a1 →
        (advance D f).1.sampler = .bits ∧ (advance D f).1.symbolsWanted = 1) ∧
      ((advance D f).1.state = .a2 → f.state = .a2 ∧ (advance D f).1.sampler = f.sampler ∧
        (advance D f).1.symbolsWanted = f.symbolsWanted)) := by
  cases hstate : f.state with
  | a1 =>
    by_cases hcorr : |f.lastCorr| > corrThresholdA1
    · refine .inl ⟨rfl, hcorr, ?_⟩
      simp [advance, hstate, hcorr]
    · refine .inr ?_
      simp [advance, hstate, hcorr, h hstate]
  | a2 =>
    refine .inr ?_
    by_cases hcorr : |f.lastCorr| > a2Thresh
    · simp [advance, hstate, hcorr]
    · by_cases hretries : f.searchRetries + 1 ≥ maxSearchRetries
      · simp [advance, hstate, hcorr, hretries, reset]
      · simp [advance, hstate, hcorr, hretries]
  | m1 =>
    refine .inr ?_
    cases hmatch : D.modeMatch f.modeWin with
    | none => simp [advance, hstate, hmatch, reset]
    | some shift => simp [advance, hstate, hmatch]
  | eqTrain =>
    refine .inr ?_
    by_cases hcnt : f.eqTrainSeqCnt > 1
    · simp [advance, hstate, hcnt]
    · by_cases hseg : f.dataSegmentCnt > 0
      · simp [advance, hstate, hcnt, hseg]
      · simp [advance, hstate, hcnt, hseg, reset]
  | m2Skip | data1 | data2 =>
    refine .inr ?_
    simp [advance, hstate]

end Framer

namespace Channel

variable {ς ε : Type*} {D : Dsp ς ε}

theorem inv_init (zero : ς) : Inv (system D zero).init where
  length_raw := List.length_replicate
  length_preWin := List.length_replicate
  searching _ := ⟨rfl, rfl⟩
  confirming h := by simp [system, Framer.create, Framer.reset] at h
  window := by simp [system, Framer.create, Framer.reset, Framer.outdated]
  mask := by simp [system, Framer.create, Framer.reset]
  found h := by simp [system, Framer.create, Framer.reset] at h

namespace Inv

variable {c : Channel ς ε}

theorem outdated_le (h : Inv c) : c.framer.outdated ≤ aLen := by
  unfold Framer.outdated
  split
  · rename_i hstate
    exact (h.confirming hstate).2.2
  · exact Nat.zero_le _

theorem length_rawWindow (h : Inv c) (x : ς) : (c.rawWindow D x).length = aLen := by
  unfold rawWindow
  split
  · exact length_pushBit h.length_raw _
  · exact h.length_raw
  · exact h.length_raw

/-- One more bit of the window is up to date. -/
theorem window_sample (h : Inv c) (x : ς) :
    (c.framer.sample D x).preWin.length = aLen ∧
      (c.framer.sample D x).preWin.drop (c.framer.outdated - 1) =
        ((c.rawWindow D x).drop (c.framer.outdated - 1)).map (· ^^ c.framer.bitmask) := by
  have hle := h.outdated_le
  by_cases hbits : c.framer.sampler = .bits
  · obtain ⟨hwin, -⟩ := Framer.preWin_sample_bits (D := D) hbits x
    have hraw : c.rawWindow D x = pushBit c.raw (D.slice x) := by simp [rawWindow, hbits]
    have hpos : c.framer.outdated - 1 + 1 ≤ aLen := by
      simp only [aLen] at hle ⊢
      omega
    have hdrop : c.framer.preWin.drop (c.framer.outdated - 1 + 1) =
        (c.raw.drop (c.framer.outdated - 1 + 1)).map (· ^^ c.framer.bitmask) := by
      obtain hzero | hone : c.framer.outdated = 0 ∨
          c.framer.outdated - 1 + 1 = c.framer.outdated := by omega
      · have hwindow := h.window
        rw [hzero, List.drop_zero, List.drop_zero] at hwindow
        rw [hwindow, List.map_drop]
      · rw [hone]
        exact h.window
    refine ⟨by rw [hwin]; exact length_pushBit h.length_preWin _, ?_⟩
    rw [hwin, hraw, drop_pushBit (h.length_preWin ▸ hpos), drop_pushBit (h.length_raw ▸ hpos),
      hdrop, List.map_append]
    rfl
  · have hraw : c.rawWindow D x = c.raw := by
      unfold rawWindow
      split
      · exact absurd ‹_› hbits
      · rfl
      · rfl
    have hzero : c.framer.outdated = 0 := by
      unfold Framer.outdated
      split
      · rename_i hstate
        exact absurd (h.confirming hstate).1 hbits
      · rfl
    have hwindow := h.window
    rw [hzero] at hwindow
    rw [Framer.preWin_sample hbits, hraw, hzero]
    exact ⟨h.length_preWin, hwindow⟩

/-- A slot that goes on. -/
theorem receive_wait (h : Inv c) (x : ς) (hwanted : c.framer.symbolsWanted > 1) :
    Inv (c.receive D x) := by
  obtain ⟨hlen, hwindow⟩ := h.window_sample (D := D) x
  have hpush : (c.framer.push D x).1 = { c.framer.sample D x with
      symbolsWanted := c.framer.symbolsWanted - 1 } := by simp [Framer.push, hwanted]
  have ha1 : c.framer.state ≠ .a1 := by
    intro hstate
    have := (h.searching hstate).2
    omega
  have houtdated : Framer.outdated { c.framer.sample D x with
      symbolsWanted := c.framer.symbolsWanted - 1 } = c.framer.outdated - 1 := by
    by_cases hstate : c.framer.state = .a2 <;> simp [Framer.outdated, hstate]
  simp only [receive, hpush, ha1, false_and, if_false]
  refine ⟨h.length_rawWindow x, hlen, fun hstate => ?_, fun hstate => ?_, ?_, ?_,
    fun _ => h.found ha1⟩
  · exact absurd (by simpa using hstate) ha1
  · obtain ⟨hbits, -, hle⟩ := h.confirming (by simpa using hstate)
    refine ⟨by simpa using hbits, ?_, ?_⟩
    · simp only
      omega
    · simp only
      omega
  · rw [houtdated]
    simpa using hwindow
  · simpa using h.mask

/-- The end of a slot. -/
theorem receive_advance (h : Inv c) (x : ς) (hwanted : ¬ c.framer.symbolsWanted > 1) :
    Inv (c.receive D x) := by
  obtain ⟨hlen, hwindow⟩ := h.window_sample (D := D) x
  have hpush : (c.framer.push D x).1 = ((c.framer.sample D x).advance D).1 := by
    simp [Framer.push, hwanted]
  have hzero : c.framer.outdated - 1 = 0 := by
    unfold Framer.outdated
    split <;> omega
  rw [hzero, List.drop_zero, List.drop_zero] at hwindow
  have hsearch : (c.framer.sample D x).state = .a1 → (c.framer.sample D x).sampler = .bits ∧
      (c.framer.sample D x).symbolsWanted = 1 := by simpa using h.searching
  rcases Framer.advance_cases (D := D) _ hsearch with
    ⟨hstate, hcorr, heq⟩ | ⟨hpre, hmask, hfrom1, hto1, hto2⟩
  · -- a preamble is found: the sign tells its polarity up to the mask in force
    rw [Framer.state_sample] at hstate
    obtain ⟨-, hlast⟩ := Framer.preWin_sample_bits (D := D) (h.searching hstate).1 x
    have hne : preambleCorr (c.framer.sample D x).preWin ≠ 0 := by
      intro hz
      rw [hlast, hz] at hcorr
      norm_num [corrThresholdA1] at hcorr
    rw [hwindow] at hne
    have hsign := inverted_map_xor (h.length_rawWindow x)
      (preambleCorr_map_xor_ne (h.length_rawWindow x) hne) c.framer.bitmask
    simp only [receive, hpush, heq, hstate, and_self, if_true]
    refine ⟨h.length_rawWindow x, hlen, fun ha1 => ?_, fun _ => ?_, ?_, ?_, fun _ => by simp⟩
    · simp at ha1
    · refine ⟨?_, ?_, le_rfl⟩
      · simpa using (h.searching hstate).1
      · simp [aLen]
    · simp [Framer.outdated, List.drop_of_length_le, hlen, h.length_rawWindow x]
    · rw [hlast, hwindow]
      change inverted _ = _
      rw [hsign, h.mask, List.count_append, Nat.bodd_add]
      cases inverted (c.rawWindow D x) <;> simp [Bool.xor_comm]
  · have hnolock : ¬ (c.framer.state = .a1 ∧ ((c.framer.sample D x).advance D).1.state = .a2) := by
      rintro ⟨hstate, hto⟩
      have hfrom := (hto2 hto).1
      rw [Framer.state_sample, hstate] at hfrom
      cases hfrom
    simp only [receive, hpush, hnolock, if_false]
    refine ⟨h.length_rawWindow x, ?_, hto1, fun hto => ?_, ?_, ?_,
      fun hne => h.found (by simpa using hfrom1 hne)⟩
    · rw [hpre]
      exact hlen
    · obtain ⟨hfrom, hsampler, hw⟩ := hto2 hto
      rw [hsampler, hw]
      simpa using h.confirming (by simpa using hfrom)
    · simp only
      rw [hpre, hmask, hwindow, Framer.bitmask_sample, List.map_drop]
    · simp only
      rw [hmask, Framer.bitmask_sample]
      exact h.mask

end Inv

theorem inv_step (zero : ς) (c : Channel ς ε) (x : ς) (c' : Channel ς ε) (h : Inv c)
    (hs : (system D zero).step c x = some c') : Inv c' := by
  obtain rfl := Option.some.inj hs
  by_cases hwanted : c.framer.symbolsWanted > 1
  · exact h.receive_wait x hwanted
  · exact h.receive_advance x hwanted

/-! ## The mask of a frame -/

/-- **The polarity of a frame.** After a preamble has been found, `own` is its polarity and
`earlier` are those of the preambles before it; the mask with which the rest of the frame is
decoded is `own` exactly when an even number of the earlier preambles were inverted. -/
theorem bitmask_eq_iff (D : Dsp ς ε) (zero : ς) (xs : List ς) (c : Channel ς ε)
    (hrun : (system D zero).exec (system D zero).init xs = some c)
    (hlocked : c.framer.state ≠ .a1) :
    ∃ earlier own, c.locks = earlier ++ [own] ∧
      (c.framer.bitmask = own ↔ Even (earlier.count true)) := by
  have hinv : Inv c := System.exec_induction _ (inv_step zero) (inv_init zero) hrun
  obtain ⟨earlier, own, hlocks⟩ := List.eq_nil_or_concat' c.locks |>.resolve_left
    (hinv.found hlocked)
  refine ⟨earlier, own, hlocks, ?_⟩
  have hmask := hinv.mask
  rw [hlocks, List.count_append, Nat.bodd_add] at hmask
  rw [hmask, Nat.even_iff]
  have hbodd := Nat.mod_two_of_bodd (earlier.count true)
  rw [hbodd]
  cases (earlier.count true).bodd <;> cases own <;> simp

/-- What a run is evaluated by: whether it searches, and where a slot ends. -/
def slotEnd (c : Channel Bool Unit) : Bool :=
  decide (c.framer.state = .a1) ^^ decide (c.framer.symbolsWanted = 1)

/-- The first A sequence on a channel, inverted. -/
theorem bitmask_eq_iff_firstPreamble :
    (∃ c, (system noiseless false).exec (system noiseless false).init (aBits.map not) = some c ∧
      c.framer.state = .a2 ∧ c.locks = [true]) ∧
    ∀ c, (system noiseless false).exec (system noiseless false).init (aBits.map not) = some c →
      c.framer.state = .a2 →
      ∃ earlier own, c.locks = earlier ++ [own] ∧
        (c.framer.bitmask = own ↔ Even (earlier.count true)) :=
  ⟨System.exists_exec_looking _ slotEnd (by decide +kernel), fun c hrun hstate =>
    bitmask_eq_iff noiseless false _ c hrun (by rw [hstate]; exact FrState.noConfusion)⟩

/-- Two inverted frames, of which the second comes before the M1 field of the first is complete:
the second is decoded as if it were upright. -/
theorem second_inverted_frame : ∃ c, (system noiseless false).exec (system noiseless false).init
    (aBits.map not ++ aBits.map not ++ [false] ++ (aBits.map not ++ aBits.map not)) = some c ∧
    c.framer.state = .m1 ∧ c.locks = [true, true] ∧ c.framer.bitmask = false :=
  System.exists_exec_looking _ slotEnd (by decide +kernel)

end Channel

end MacHPSDR.Hfdl
