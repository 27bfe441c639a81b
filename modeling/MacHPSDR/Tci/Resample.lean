import MacHPSDR.Foundations.Progression
import Mathlib

/-!
# The resampler of the TCI audio streams

`tci_resamp_run` takes a block of samples at one rate and gives the samples at another that can be
interpolated with what has come so far. Between two blocks it keeps the last 32 samples and the
position of the next one. The position is counted from the start of a window, the kept samples and
the block, and a sample is given if the 16 places after its position are in the window.

A block ends with the next position above 15, so that the 15 places before it are among the samples
that are kept. So the samples given are those of one run over all of the input (`feed_eq`), however
it is cut. The kernel is any function, and the arithmetic is exact.
-/

namespace MacHPSDR.Tci

open Progression

/-- `TCI_RS_HALF` -/
def tciRsHalf : ℕ := 16

/-- `TCI_RS_HIST` -/
def tciRsHist : ℕ := 2 * tciRsHalf

/-- `TCI_RS_MAX_IN` -/
def tciRsMaxIn : ℕ := 4096

/-- `TCI_RESAMP` -/
structure Resamp where
  rin : ℕ
  rout : ℕ
  step : ℚ
  rp : ℚ
  hist : List ℚ
  length_hist : hist.length = tciRsHist

/-- `tci_resamp_reset` -/
def resampReset (rin rout : ℕ) : Resamp where
  rin := rin
  rout := rout
  step := rin / rout
  rp := tciRsHist
  hist := List.replicate tciRsHist 0
  length_hist := List.length_replicate

/-- The places that go into a sample. -/
def taps (rp : ℚ) : List ℤ := (List.range (2 * tciRsHalf)).map fun k : ℕ => ⌊rp⌋ - tciRsHalf + 1 + k

/-- A place of the window, 0 outside. -/
def place (w : List ℚ) (k : ℤ) : ℚ := if 0 ≤ k ∧ k < w.length then w.getD k.toNat 0 else 0

/-- `fc` -/
def fc (rin rout : ℕ) : ℚ := 1 / 2 * if rout < rin then rout / rin else 1

/-- The last position for which the window has the places after it. -/
def limit (length : ℕ) : ℚ := length - 1 - tciRsHalf

/-- A block, and the room for what it gives. -/
structure Block where
  input : List ℚ
  cap : ℕ

section

variable (kernel : ℚ → ℚ → ℚ)

/-- `acc`, at the end of its loop -/
def acc (fc : ℚ) (w : List ℚ) (rp : ℚ) : ℚ :=
  ((taps rp).map fun k => place w k * kernel fc (rp - k)).sum

/-- `tci_resamp_run` -/
def resampRun (s : Resamp) (b : Block) : List ℚ × Resamp :=
  let n := b.input.length
  if n = 0 ∨ tciRsMaxIn < n then ([], s)
  else
    let w := s.hist ++ b.input
    let r := collect (acc kernel (fc s.rin s.rout) w) s.step (limit w.length) b.cap s.rp
    let rp := r.2 - n
    (r.1, { s with
      rp := if rp < 0 then 0 else rp
      hist := w.drop (w.length - tciRsHist)
      length_hist := by
        have hlength : w.length = tciRsHist + n := by rw [List.length_append, s.length_hist]
        rw [List.length_drop]
        omega })

/-- One block after another. -/
def feed (s : Resamp) : List Block → List ℚ × Resamp
  | [] => ([], s)
  | b :: bs =>
    let r := resampRun kernel s b
    let t := feed r.2 bs
    (r.1 ++ t.1, t.2)

/-- The number of samples that some input gives. -/
def outCount (step : ℚ) (n : ℕ) : ℕ := (⌊((n : ℚ) - tciRsHalf - 1) / step⌋ + 1).toNat

/-- **The resampled input**, as one run over it gives it. -/
def resampled (rin rout : ℕ) (input : List ℚ) : List ℚ :=
  (List.range (outCount (rin / rout) input.length)).map fun j : ℕ =>
    acc kernel (fc rin rout) (List.replicate tciRsHist 0 ++ input)
      (tciRsHist + j * (rin / rout : ℚ))

end

/-- What `tci_resamp_run` asks of its caller. -/
structure Fits (rin rout : ℕ) (b : Block) : Prop where
  short : b.input.length ≤ tciRsMaxIn
  room : ⌈(b.input.length * rout / rin : ℚ)⌉₊ + 2 ≤ b.cap

/-- The positions at which a block gives samples. -/
def Resamp.positions (s : Resamp) (b : Block) : List ℚ :=
  (collect id s.step (limit (s.hist ++ b.input).length) b.cap s.rp).1

/-- What is asked of a block that comes when so many samples have been fed. -/
structure Sound (kernel : ℚ → ℚ → ℚ) (s : Resamp) (b : Block) (fed : ℕ) : Prop where
  taps : ∀ rp ∈ s.positions b, ∀ k ∈ taps rp, 0 ≤ k ∧ k < (s.hist ++ b.input).length
  above : tciRsHalf - 1 < (resampRun kernel s b).2.rp
  below : tciRsHalf < fed + b.input.length →
    (resampRun kernel s b).2.rp ≤ tciRsHalf - 1 + s.step
  whole : ∀ cap, b.cap ≤ cap → resampRun kernel s { b with cap } = resampRun kernel s b

/-! ## The window -/

section

variable {kernel : ℚ → ℚ → ℚ} {f rp : ℚ} {w : List ℚ}

theorem mem_taps {k : ℤ} :
    k ∈ taps rp ↔ ⌊rp⌋ - tciRsHalf + 1 ≤ k ∧ k ≤ ⌊rp⌋ + tciRsHalf := by
  have hhalf : tciRsHalf = 16 := rfl
  unfold taps
  simp only [List.mem_map, List.mem_range, hhalf]
  constructor
  · rintro ⟨j, hj, rfl⟩
    omega
  · rintro ⟨hlow, hhigh⟩
    exact ⟨(k - (⌊rp⌋ - 16 + 1)).toNat, by omega, by omega⟩

/-- Between the limits the places are in the window. -/
theorem taps_in {length : ℕ} (hlow : tciRsHalf - 1 < rp) (hhigh : rp ≤ limit length) {k : ℤ}
    (hk : k ∈ taps rp) : 0 ≤ k ∧ k < length := by
  obtain ⟨hkl, hkh⟩ := mem_taps.1 hk
  have hfloor : ((tciRsHalf : ℤ) - 1) ≤ ⌊rp⌋ := by
    rw [Int.le_floor]
    push_cast
    exact hlow.le
  have htop : ⌊rp⌋ ≤ (length : ℤ) - 1 - tciRsHalf := by
    have hle : ((⌊rp⌋ : ℤ) : ℚ) ≤ ((length - 1 - tciRsHalf : ℤ) : ℚ) := by
      push_cast
      exact (Int.floor_le rp).trans hhigh
    exact_mod_cast hle
  omega

/-- The window cut at the front, with the position counted from there. -/
theorem acc_drop {n : ℕ} (hn : n ≤ w.length) (hin : ∀ k ∈ taps rp, 0 ≤ k) :
    acc kernel f (w.drop n) rp = acc kernel f w (n + rp) := by
  unfold acc
  have htaps : taps (n + rp) = (taps rp).map fun k => (n : ℤ) + k := by
    unfold taps
    rw [List.map_map, Int.floor_natCast_add]
    refine List.map_congr_left fun k _ => ?_
    simp only [Function.comp]
    ring
  rw [htaps, List.map_map]
  congr 1
  refine List.map_congr_left fun k hk => ?_
  obtain ⟨m, rfl⟩ := Int.eq_ofNat_of_zero_le (hin k hk)
  have hplace : place w (n + (m : ℤ)) = place (w.drop n) m := by
    unfold place
    have hnat : ((n : ℤ) + m).toNat = n + m := by omega
    rw [List.length_drop, hnat, Int.toNat_natCast, List.getD_eq_getElem?_getD,
      List.getD_eq_getElem?_getD, List.getElem?_drop]
    refine if_congr ?_ rfl rfl
    omega
  simp only [Function.comp]
  rw [hplace]
  congr 2
  push_cast
  ring

/-- What comes later is not looked at. -/
theorem acc_append (later : List ℚ) (hin : ∀ k ∈ taps rp, k < w.length) :
    acc kernel f (w ++ later) rp = acc kernel f w rp := by
  unfold acc
  congr 1
  refine List.map_congr_left fun k hk => ?_
  have hlt := hin k hk
  congr 1
  unfold place
  by_cases h0 : 0 ≤ k
  · have hnat : k.toNat < w.length := by omega
    rw [if_pos ⟨h0, by rw [List.length_append]; omega⟩, if_pos ⟨h0, hlt⟩,
      List.getD_append _ _ _ _ hnat]
  · rw [if_neg fun h => h0 h.1, if_neg fun h => h0 h.1]

end

/-! ## Block after block -/

section

variable {kernel : ℚ → ℚ → ℚ} {rin rout : ℕ} {input out : List ℚ} {s : Resamp} {b : Block}

/-- The input so far has given these samples, and its end and the next position are kept. -/
structure Kept (kernel : ℚ → ℚ → ℚ) (rin rout : ℕ) (input out : List ℚ) (s : Resamp) : Prop where
  rates : s.rin = rin ∧ s.rout = rout ∧ s.step = rin / rout
  hist : s.hist = (List.replicate tciRsHist 0 ++ input).drop input.length
  rp : s.rp = tciRsHist + out.length * s.step - input.length
  above : tciRsHalf - 1 < s.rp
  below : out ≠ [] → s.rp ≤ tciRsHalf - 1 + s.step
  out : out = (List.range out.length).map fun j : ℕ =>
    acc kernel (fc rin rout) (List.replicate tciRsHist 0 ++ input) (tciRsHist + j * s.step)

theorem kept_resampReset (kernel : ℚ → ℚ → ℚ) (rin rout : ℕ) :
    Kept kernel rin rout [] [] (resampReset rin rout) where
  rates := ⟨rfl, rfl, rfl⟩
  hist := by simp [resampReset]
  rp := by simp [resampReset]
  above := by norm_num [resampReset, tciRsHist, tciRsHalf]
  below h := absurd rfl h
  out := rfl

theorem Kept.step_pos (h : Kept kernel rin rout input out s) (hrin : 0 < rin) (hrout : 0 < rout) :
    0 < s.step := by
  rw [h.rates.2.2]
  positivity

/-- The first samples come with the 17th of the input. -/
theorem Kept.out_ne_nil (h : Kept kernel rin rout input out s) (hlong : tciRsHalf < input.length) :
    out ≠ [] := by
  rintro rfl
  have habove := h.above
  have hsucc : 17 ≤ input.length := hlong
  have hlength : (17 : ℚ) ≤ input.length := by exact_mod_cast hsucc
  rw [h.rp] at habove
  norm_num [tciRsHist, tciRsHalf] at habove
  linarith

/-- The number of samples is that of one run. -/
theorem Kept.length_out (h : Kept kernel rin rout input out s) (hstep : 0 < s.step) :
    out.length = outCount s.step input.length := by
  have habove := h.above
  rw [h.rp] at habove
  have hlt : ((input.length : ℚ) - tciRsHalf - 1) / s.step < out.length := by
    rw [div_lt_iff₀ hstep]
    norm_num [tciRsHist, tciRsHalf] at habove ⊢
    linarith
  have hfloor : ⌊((input.length : ℚ) - tciRsHalf - 1) / s.step⌋ < (out.length : ℤ) := by
    rw [Int.floor_lt]
    exact_mod_cast hlt
  unfold outCount
  by_cases hnil : out = []
  · subst hnil
    rw [List.length_nil] at hfloor ⊢
    omega
  · have hbelow := h.below hnil
    rw [h.rp] at hbelow
    have hle : (out.length : ℤ) - 1 ≤ ⌊((input.length : ℚ) - tciRsHalf - 1) / s.step⌋ := by
      rw [Int.le_floor, le_div_iff₀ hstep]
      push_cast
      norm_num [tciRsHist, tciRsHalf] at hbelow ⊢
      linarith
    omega

/-- **The samples are those of one run.** -/
theorem Kept.eq_resampled (h : Kept kernel rin rout input out s) (hrin : 0 < rin)
    (hrout : 0 < rout) : out = resampled kernel rin rout input := by
  have hlength := h.length_out (h.step_pos hrin hrout)
  rw [h.rates.2.2] at hlength
  unfold resampled
  rw [← hlength, ← h.rates.2.2]
  exact h.out

/-- The window of a block. -/
theorem Kept.window (h : Kept kernel rin rout input out s) (b : Block) :
    s.hist ++ b.input =
      (List.replicate tciRsHist 0 ++ (input ++ b.input)).drop input.length := by
  rw [h.hist, ← List.append_assoc]
  exact (List.drop_append_of_le_length (by rw [List.length_append]; omega)).symm

theorem length_window (s : Resamp) (b : Block) :
    (s.hist ++ b.input).length = tciRsHist + b.input.length := by
  rw [List.length_append, s.length_hist]

/-- The last position of a window, counted from the end of its block. -/
theorem limit_window (s : Resamp) (b : Block) :
    limit (s.hist ++ b.input).length = b.input.length + (tciRsHalf - 1) := by
  rw [length_window]
  unfold limit
  norm_num [tciRsHist, tciRsHalf]
  ring

/-- A block has room for what it gives. -/
theorem Kept.lt_cap (h : Kept kernel rin rout input out s) (hrin : 0 < rin) (hrout : 0 < rout)
    (hb : Fits rin rout b) (f : ℚ → ℚ) :
    (collect f s.step (limit (s.hist ++ b.input).length) b.cap s.rp).1.length < b.cap := by
  have hstep := h.step_pos hrin hrout
  have hcount : (b.input.length : ℚ) ≤
      (⌈(b.input.length * rout / rin : ℚ)⌉₊ : ℚ) * s.step := by
    have hceil := mul_le_mul_of_nonneg_right
      (Nat.le_ceil (b.input.length * rout / rin : ℚ)) hstep.le
    refine le_trans (le_of_eq ?_) hceil
    rw [h.rates.2.2]
    field_simp
  have habove := h.above
  have hroom := hb.room
  refine lt_room hstep ?_ (show ⌈(b.input.length * rout / rin : ℚ)⌉₊ < b.cap by omega)
  rw [limit_window]
  linarith

/-- The run of a block that is not empty. -/
theorem resampRun_of_fits (kernel : ℚ → ℚ → ℚ) (s : Resamp) (hb : b.input.length ≤ tciRsMaxIn)
    (hne : b.input.length ≠ 0) :
    let r := collect (acc kernel (fc s.rin s.rout) (s.hist ++ b.input)) s.step
      (limit (s.hist ++ b.input).length) b.cap s.rp
    (resampRun kernel s b).1 = r.1 ∧
      (resampRun kernel s b).2.rp = max 0 (r.2 - b.input.length) ∧
        (resampRun kernel s b).2.hist = (s.hist ++ b.input).drop b.input.length := by
  have hdrop : (s.hist ++ b.input).length - tciRsHist = b.input.length := by
    rw [length_window]
    omega
  unfold resampRun
  dsimp only
  rw [if_neg (by omega)]
  refine ⟨rfl, ?_, congrArg (List.drop · (s.hist ++ b.input)) hdrop⟩
  dsimp only
  split
  · rename_i hneg
    exact (max_eq_left hneg.le).symm
  · rename_i hpos
    exact (max_eq_right (not_lt.1 hpos)).symm

theorem resampRun_nil (kernel : ℚ → ℚ → ℚ) (s : Resamp) (hnil : b.input.length = 0) :
    resampRun kernel s b = ([], s) := if_pos (.inl hnil)

theorem resampRun_rates (kernel : ℚ → ℚ → ℚ) (s : Resamp) (b : Block) :
    (resampRun kernel s b).2.rin = s.rin ∧ (resampRun kernel s b).2.rout = s.rout ∧
      (resampRun kernel s b).2.step = s.step := by
  unfold resampRun
  dsimp only
  split <;> exact ⟨rfl, rfl, rfl⟩

/-- The next position is beyond the limit when a block ends. -/
theorem Kept.beyond (h : Kept kernel rin rout input out s) (hrin : 0 < rin) (hrout : 0 < rout)
    (hb : Fits rin rout b) (f : ℚ → ℚ) :
    (tciRsHalf : ℚ) - 1 <
      (collect f s.step (limit (s.hist ++ b.input).length) b.cap s.rp).2 - b.input.length := by
  have hbeyond := lt_collect (h.lt_cap hrin hrout hb f)
  have hlimit := limit_window s b
  linarith

theorem mem_positions {rp : ℚ} : rp ∈ s.positions b ↔
    ∃ j < (s.positions b).length, s.rp + j * s.step = rp := by
  have hfst := collect_fst id s.step (limit (s.hist ++ b.input).length) b.cap s.rp
  unfold Resamp.positions
  rw [hfst, List.mem_map]
  simp only [List.mem_range, List.length_map, List.length_range, id]

/-- The samples of a block have their places in its window. -/
theorem Kept.taps_positions (h : Kept kernel rin rout input out s) (hrin : 0 < rin)
    (hrout : 0 < rout) {rp : ℚ} (hrp : rp ∈ s.positions b) {k : ℤ} (hk : k ∈ taps rp) :
    0 ≤ k ∧ k < (s.hist ++ b.input).length := by
  have hhigh : rp ≤ limit (s.hist ++ b.input).length := le_of_mem_collect _ _ hrp
  obtain ⟨j, -, rfl⟩ := mem_positions.1 hrp
  have hadd : 0 ≤ j * s.step := mul_nonneg (Nat.cast_nonneg j) (h.step_pos hrin hrout).le
  have habove := h.above
  exact taps_in (by linarith) hhigh hk

/-- The samples so far have their places in the input so far. -/
theorem Kept.taps_out (h : Kept kernel rin rout input out s) (hrin : 0 < rin)
    (hrout : 0 < rout) {j : ℕ} (hj : j < out.length) {k : ℤ}
    (hk : k ∈ taps (tciRsHist + j * s.step)) :
    k < (List.replicate tciRsHist 0 ++ input : List ℚ).length := by
  have hbelow := h.below (List.ne_nil_of_length_pos (Nat.zero_lt_of_lt hj))
  rw [h.rp] at hbelow
  have hstep := h.step_pos hrin hrout
  have hadd : 0 ≤ j * s.step := mul_nonneg (Nat.cast_nonneg j) hstep.le
  have hlast : (j + 1 : ℚ) * s.step ≤ out.length * s.step :=
    mul_le_mul_of_nonneg_right (by exact_mod_cast hj) hstep.le
  have hhigh : tciRsHist + j * s.step ≤
      limit (List.replicate tciRsHist 0 ++ input : List ℚ).length := by
    unfold limit
    rw [List.length_append, List.length_replicate]
    norm_num [tciRsHist, tciRsHalf] at hbelow ⊢
    linarith
  refine (taps_in ?_ hhigh hk).2
  norm_num [tciRsHist, tciRsHalf] at hadd ⊢
  linarith

/-- **A block is resampled** as part of the whole input. -/
theorem Kept.run (h : Kept kernel rin rout input out s) (hrin : 0 < rin) (hrout : 0 < rout)
    (hb : Fits rin rout b) :
    Kept kernel rin rout (input ++ b.input) (out ++ (resampRun kernel s b).1)
      (resampRun kernel s b).2 := by
  by_cases hne : b.input.length = 0
  · rw [resampRun_nil kernel s hne, List.eq_nil_of_length_eq_zero hne, List.append_nil,
      List.append_nil]
    exact h
  obtain ⟨hout, hrp, hhist⟩ := resampRun_of_fits kernel s hb.short hne
  obtain ⟨hrun1, hrun2, hrun3⟩ := resampRun_rates kernel s b
  generalize hr : collect (acc kernel (fc s.rin s.rout) (s.hist ++ b.input)) s.step
    (limit (s.hist ++ b.input).length) b.cap s.rp = r at hout hrp
  have hbeyond : (tciRsHalf : ℚ) - 1 < r.2 - b.input.length := hr ▸ h.beyond hrin hrout hb _
  have hhalf : (0 : ℚ) < tciRsHalf - 1 := by norm_num [tciRsHalf]
  rw [max_eq_right (hhalf.trans hbeyond).le] at hrp
  have hend : r.2 = s.rp + r.1.length * s.step := hr ▸ collect_snd ..
  refine ⟨⟨hrun1.trans h.rates.1, hrun2.trans h.rates.2.1, hrun3.trans h.rates.2.2⟩, ?_, ?_, ?_,
    fun hsome => ?_, ?_⟩
  · rw [hhist, h.window b, List.drop_drop, List.length_append]
  · rw [hrp, hend, h.rp, hout, hrun3, List.length_append, List.length_append]
    push_cast
    ring
  · rw [hrp]
    exact hbeyond
  · rw [hrp, hrun3]
    by_cases hnil : r.1 = []
    · rw [hnil] at hend
      rw [hout, hnil, List.append_nil] at hsome
      have hbelow := h.below hsome
      have hlength : (0 : ℚ) ≤ b.input.length := Nat.cast_nonneg _
      rw [List.length_nil, Nat.cast_zero, zero_mul, add_zero] at hend
      linarith
    · have hlast : r.2 ≤ limit (s.hist ++ b.input).length + s.step := by
        subst hr
        exact collect_le hnil
      rw [limit_window] at hlast
      linarith
  · rw [hout, hrun3, List.length_append, List.range_add, List.map_append, List.map_map]
    congr 1
    · refine h.out.trans (List.map_congr_left fun j hj => ?_)
      rw [← List.append_assoc]
      exact (acc_append b.input fun k => h.taps_out hrin hrout (List.mem_range.1 hj)).symm
    · have hfst := collect_fst (acc kernel (fc s.rin s.rout) (s.hist ++ b.input)) s.step
        (limit (s.hist ++ b.input).length) b.cap s.rp
      rw [hr] at hfst
      refine hfst.trans (List.map_congr_left fun j hj => ?_)
      have hpositions : r.1.length = (s.positions b).length := hr ▸ collect_congr ..
      have hmem : s.rp + j * s.step ∈ s.positions b :=
        mem_positions.2 ⟨j, hpositions ▸ List.mem_range.1 hj, rfl⟩
      have hlength : input.length ≤
          (List.replicate tciRsHist 0 ++ (input ++ b.input) : List ℚ).length := by
        simp only [List.length_append]
        omega
      rw [h.window b, acc_drop hlength fun k hk => (h.taps_positions hrin hrout hmem hk).1,
        h.rates.1, h.rates.2.1]
      simp only [Function.comp]
      congr 1
      rw [h.rp]
      push_cast
      ring

theorem Kept.sound (h : Kept kernel rin rout input out s) (hrin : 0 < rin) (hrout : 0 < rout)
    (hb : Fits rin rout b) : Sound kernel s b input.length where
  taps _ hrp _ hk := h.taps_positions hrin hrout hrp hk
  above := (h.run hrin hrout hb).above
  below hlong := by
    have hkept := h.run hrin hrout hb
    have hbelow := hkept.below (hkept.out_ne_nil (by rwa [List.length_append]))
    rwa [(resampRun_rates kernel s b).2.2] at hbelow
  whole cap hcap := by
    have hsame := collect_of_le
      (h.lt_cap hrin hrout hb (acc kernel (fc s.rin s.rout) (s.hist ++ b.input))) hcap
    unfold resampRun
    simp only [hsame]

/-- Blocks that fit, from the start. -/
theorem kept_feed (kernel : ℚ → ℚ → ℚ) (hrin : 0 < rin) (hrout : 0 < rout) :
    ∀ (blocks : List Block) (input out : List ℚ) (s : Resamp), Kept kernel rin rout input out s →
      (∀ b ∈ blocks, Fits rin rout b) →
        Kept kernel rin rout (input ++ blocks.flatMap Block.input)
          (out ++ (feed kernel s blocks).1) (feed kernel s blocks).2
  | [], input, out, s, h, _ => by
    simpa only [feed, List.flatMap_nil, List.append_nil] using h
  | b :: bs, input, out, s, h, hfits => by
    have hb := hfits b (List.mem_cons_self ..)
    have hrest := kept_feed kernel hrin hrout bs _ _ _ (h.run hrin hrout hb)
      fun c hc => hfits c (List.mem_cons_of_mem b hc)
    simpa only [feed, List.flatMap_cons, List.append_assoc] using hrest

/-- **The output is that of one run over all of the input.** -/
theorem feed_eq (kernel : ℚ → ℚ → ℚ) (hrin : 0 < rin) (hrout : 0 < rout) {blocks : List Block}
    (hfits : ∀ b ∈ blocks, Fits rin rout b) :
    (feed kernel (resampReset rin rout) blocks).1 =
      resampled kernel rin rout (blocks.flatMap Block.input) := by
  have hkept := kept_feed kernel hrin hrout blocks [] [] _ (kept_resampReset kernel rin rout) hfits
  exact hkept.eq_resampled hrin hrout

end

/-! ## The two streams -/

/-- `TCI_AUDIO_RATE` -/
def tciAudioRate : ℕ := 48000

/-- The room for `n` samples. -/
def outCap (n rin rout : ℕ) : ℕ := n * rout / rin + 4

/-- The state that the resampler runs from: a new one if a rate has changed. -/
def Resamp.at (s : Resamp) (rin rout : ℕ) : Resamp :=
  if s.rin = rin ∧ s.rout = rout then s else resampReset rin rout

/-- The blocks of a frame of TX audio. -/
def txBlocks (wantRate : ℕ) (mono : List ℚ) : List Block :=
  (List.range ((mono.length + tciRsMaxIn - 1) / tciRsMaxIn)).map fun i =>
    ⟨(mono.drop (i * tciRsMaxIn)).take tciRsMaxIn, outCap tciRsMaxIn wantRate tciAudioRate⟩

section

variable (kernel : ℚ → ℚ → ℚ)

/-- What `tci_ingest_binary` puts into the ring, a frame at `wantRate`. -/
def txAudio (rs : Resamp) (wantRate : ℕ) (mono : List ℚ) : List ℚ × Resamp :=
  if wantRate = tciAudioRate then (mono, rs)
  else feed kernel (rs.at wantRate tciAudioRate) (txBlocks wantRate mono)

/-- What `tci_audio_feed` broadcasts of a channel, a block at `sampleRate`. -/
def rxAudio (rs : Resamp) (sampleRate target : ℕ) (audio : List ℚ) : List ℚ × Resamp :=
  if target = 0 ∨ target = sampleRate then (audio, rs)
  else resampRun kernel (rs.at sampleRate target)
    ⟨audio, outCap audio.length sampleRate target⟩

end

theorem fits_outCap {rin : ℕ} (hrin : 0 < rin) (rout : ℕ) {input : List ℚ} {n : ℕ}
    (hn : input.length ≤ n) (hshort : input.length ≤ tciRsMaxIn) :
    Fits rin rout ⟨input, outCap n rin rout⟩ := by
  refine ⟨hshort, ?_⟩
  have hceil : ⌈(input.length * rout / rin : ℚ)⌉₊ ≤ input.length * rout / rin + 1 := by
    rw [Nat.ceil_le, div_le_iff₀ (by exact_mod_cast hrin)]
    have hlt := (Nat.lt_mul_div_succ (input.length * rout) hrin).le
    have hcomm : rin * (input.length * rout / rin + 1) = (input.length * rout / rin + 1) * rin :=
      Nat.mul_comm ..
    rw [hcomm] at hlt
    exact_mod_cast hlt
  have hmono : input.length * rout / rin ≤ n * rout / rin :=
    Nat.div_le_div_right (Nat.mul_le_mul_right rout hn)
  unfold outCap
  dsimp only
  omega

theorem flatMap_txBlocks (wantRate : ℕ) (mono : List ℚ) :
    (txBlocks wantRate mono).flatMap Block.input = mono := by
  have htake (m : ℕ) : ((List.range m).flatMap fun i =>
      (mono.drop (i * tciRsMaxIn)).take tciRsMaxIn) = mono.take (m * tciRsMaxIn) := by
    induction m with
    | zero => simp
    | succ m ih =>
      rw [List.range_succ, List.flatMap_append, ih, Nat.succ_mul, List.take_add]
      simp
  unfold txBlocks
  rw [List.flatMap_map, htake, List.take_of_length_le]
  unfold tciRsMaxIn
  omega

/-- What comes of frame after frame. -/
def stream (frame : Resamp → List ℚ → List ℚ × Resamp) : Resamp → List (List ℚ) → List ℚ
  | _, [] => []
  | s, x :: xs => (frame s x).1 ++ stream frame (frame s x).2 xs

section

variable {kernel : ℚ → ℚ → ℚ} {rin rout : ℕ} {s : Resamp}

theorem Kept.at {input out : List ℚ} (h : Kept kernel rin rout input out s) :
    s.at rin rout = s := if_pos ⟨h.rates.1, h.rates.2.1⟩

theorem kept_stream {frame : Resamp → List ℚ → List ℚ × Resamp} (blocks : List ℚ → List Block)
    (hrin : 0 < rin) (hrout : 0 < rout)
    (hframe : ∀ s x, frame s x = feed kernel (s.at rin rout) (blocks x)) :
    ∀ (xs : List (List ℚ)) (input out : List ℚ) (s : Resamp),
      Kept kernel rin rout input out (s.at rin rout) →
        (∀ x ∈ xs, (∀ b ∈ blocks x, Fits rin rout b) ∧ (blocks x).flatMap Block.input = x) →
          out ++ stream frame s xs = resampled kernel rin rout (input ++ xs.flatten)
  | [], input, out, s, h, _ => by
    simpa only [stream, List.flatten_nil, List.append_nil] using h.eq_resampled hrin hrout
  | x :: xs, input, out, s, h, hblocks => by
    obtain ⟨hfits, hwhole⟩ := hblocks x (List.mem_cons_self ..)
    have hkept := kept_feed kernel hrin hrout (blocks x) input out _ h hfits
    rw [hwhole, ← hframe] at hkept
    have hrest := kept_stream blocks hrin hrout hframe xs _ _ _ (hkept.at.symm ▸ hkept)
      fun y hy => hblocks y (List.mem_cons_of_mem x hy)
    simpa only [stream, List.flatten_cons, List.append_assoc] using hrest

/-- A stream begins with new rates. -/
theorem kept_at (hs : ¬ (s.rin = rin ∧ s.rout = rout)) :
    Kept kernel rin rout [] [] (s.at rin rout) := by
  have hnew : s.at rin rout = resampReset rin rout := if_neg hs
  exact hnew ▸ kept_resampReset kernel rin rout

/-- **The TX audio** of a client, in frames of any length. -/
theorem stream_txAudio {wantRate : ℕ} (hpos : 0 < wantRate) (hrate : wantRate ≠ tciAudioRate)
    (hs : ¬ (s.rin = wantRate ∧ s.rout = tciAudioRate)) (frames : List (List ℚ)) :
    stream (txAudio kernel · wantRate ·) s frames =
      resampled kernel wantRate tciAudioRate frames.flatten := by
  refine kept_stream (txBlocks wantRate) hpos (by decide) (fun s x => if_neg hrate)
    frames [] [] s (kept_at hs) fun x _ => ⟨fun b hb => ?_, flatMap_txBlocks wantRate x⟩
  obtain ⟨i, -, rfl⟩ := List.mem_map.1 hb
  exact fits_outCap hpos tciAudioRate (List.length_take_le ..) (List.length_take_le ..)

/-- **The RX audio** of a channel. -/
theorem stream_rxAudio {sampleRate target : ℕ} (hpos : 0 < sampleRate) (htarget : 0 < target)
    (hne : target ≠ sampleRate) (hs : ¬ (s.rin = sampleRate ∧ s.rout = target))
    {frames : List (List ℚ)} (hshort : ∀ audio ∈ frames, audio.length ≤ tciRsMaxIn) :
    stream (rxAudio kernel · sampleRate target ·) s frames =
      resampled kernel sampleRate target frames.flatten := by
  refine kept_stream (fun audio => [⟨audio, outCap audio.length sampleRate target⟩]) hpos
    htarget (fun s x => ?_) frames [] [] s (kept_at hs) fun x hx => ⟨fun b hb => ?_, ?_⟩
  · unfold rxAudio
    rw [if_neg (by omega)]
    simp only [feed, List.append_nil]
  · obtain rfl := List.mem_singleton.1 hb
    exact fits_outCap hpos target le_rfl (hshort x hx)
  · simp

/-- **The resampler** does not see how its input is cut. In each block the places of a sample are in
the window, the next position is between 15 and a step above when the block ends, from the 17th
sample on, and there is room for all that it gives. -/
theorem resample_blocks (kernel : ℚ → ℚ → ℚ) (hrin : rin ∈ Set.Icc 8000 192000)
    (hrout : rout ∈ Set.Icc 8000 192000) {blocks : List Block}
    (hfits : ∀ b ∈ blocks, Fits rin rout b) :
    (∀ blocks' : List Block, (∀ b ∈ blocks', Fits rin rout b) →
      blocks'.flatMap Block.input = blocks.flatMap Block.input →
        (feed kernel (resampReset rin rout) blocks').1 =
          (feed kernel (resampReset rin rout) blocks).1) ∧
      (∀ front b, front ++ [b] <+: blocks →
        Sound kernel (feed kernel (resampReset rin rout) front).2 b
          (front.flatMap Block.input).length) ∧
        ∀ (input : List ℚ) (n : ℕ), input.length ≤ n → n ≤ tciRsMaxIn →
          Fits rin rout ⟨input, outCap n rin rout⟩ := by
  have hrin' : 0 < rin := Nat.lt_of_lt_of_le (by decide) hrin.1
  have hrout' : 0 < rout := Nat.lt_of_lt_of_le (by decide) hrout.1
  refine ⟨fun blocks' hfits' hsame => ?_, fun front b hpre => ?_,
    fun input n hn hshort => fits_outCap hrin' rout hn (hn.trans hshort)⟩
  · rw [feed_eq kernel hrin' hrout' hfits', feed_eq kernel hrin' hrout' hfits, hsame]
  · have hmem : ∀ c ∈ front ++ [b], Fits rin rout c := fun c hc => hfits c (hpre.subset hc)
    have hkept := kept_feed kernel hrin' hrout' front [] [] _ (kept_resampReset kernel rin rout)
      fun c hc => hmem c (List.mem_append_left _ hc)
    exact hkept.sound hrin' hrout' (hmem b (by simp))

/-- A hundred samples at 48 kHz, brought to 12 kHz with a kernel that adds them up, at once or in
two blocks. -/
theorem resample_blocks_ones :
    (feed (fun _ _ => 1) (resampReset 48000 12000)
        [⟨List.replicate 60 1, outCap 60 48000 12000⟩,
          ⟨List.replicate 40 1, outCap 40 48000 12000⟩]).1 =
      (feed (fun _ _ => 1) (resampReset 48000 12000)
        [⟨List.replicate 100 1, outCap 100 48000 12000⟩]).1 := by
  have hfits (n : ℕ) (hn : n ≤ tciRsMaxIn) :
      Fits 48000 12000 ⟨List.replicate n 1, outCap n 48000 12000⟩ :=
    fits_outCap (by decide) 12000 (List.length_replicate ..).le
      ((List.length_replicate ..).le.trans hn)
  refine (resample_blocks (fun _ _ => 1) (by decide) (by decide) fun b hb => ?_).1 _
    (fun b hb => ?_) (by decide)
  · obtain rfl := List.mem_singleton.1 hb
    exact hfits 100 (by decide)
  · rcases List.mem_cons.1 hb with rfl | hb
    · exact hfits 60 (by decide)
    · obtain rfl := List.mem_singleton.1 hb
      exact hfits 40 (by decide)

end

end MacHPSDR.Tci
