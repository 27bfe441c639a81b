import Mathlib

/-!
# A shift register with feedback

The remainder of a cyclic redundancy check, with the low bit first: a register of `w` bits is
shifted to the right, and a polynomial is added to it when a one leaves. All of it is linear in
exclusive or, so a bit that is flipped in the input changes the remainder by a number of shifts of
one, whatever the input is (`run_flip`).

If the polynomial has its top bit then no shift of one is zero (`flipped_ne_zero`). If the register
does not come back to one for a while then two flipped bits are told apart (`flipped_injective`),
and if the polynomial has an odd number of ones then three flipped bits are found
(`flipped_xor_xor_ne_zero`). A byte that is changed is found in any case (`run_ne`).

A register with the high bit first is one that is read from the other side (`reverse_runLeft`).
-/

namespace MacHPSDR.ShiftRegister

variable {w : ℕ} (poly : BitVec w)

/-- One shift. -/
def shift (c : BitVec w) : BitVec w := (c >>> 1) ^^^ if c.getLsbD 0 then poly else 0#w

/-! ## Linearity -/

theorem shift_xor (a b : BitVec w) : shift poly (a ^^^ b) = shift poly a ^^^ shift poly b := by
  have hfeedback : ∀ x y : Bool, (if (x ^^ y) = true then poly else 0#w) =
      (if x then poly else 0#w) ^^^ if y then poly else 0#w := by
    intro x y
    cases x <;> cases y <;> simp
  unfold shift
  rw [BitVec.getLsbD_xor, BitVec.ushiftRight_xor_distrib, hfeedback]
  ac_rfl

@[simp] theorem shift_zero : shift poly 0#w = 0#w := by
  simp [shift]

theorem iterate_xor (n : ℕ) (a b : BitVec w) :
    (shift poly)^[n] (a ^^^ b) = (shift poly)^[n] a ^^^ (shift poly)^[n] b := by
  induction n generalizing a b with
  | zero => rfl
  | succ n ih => rw [Function.iterate_succ_apply, shift_xor, ih]; rfl

@[simp] theorem iterate_zero (n : ℕ) : (shift poly)^[n] 0#w = 0#w := by
  induction n with
  | zero => rfl
  | succ n ih => rw [Function.iterate_succ_apply, shift_zero, ih]

/-- As long as zeros leave, the register is only shifted. -/
theorem iterate_of_low {k : ℕ} {c : BitVec w} (h : ∀ i < k, c.getLsbD i = false) :
    (shift poly)^[k] c = c >>> k := by
  induction k with
  | zero => simp
  | succ k ih =>
    have hlow : (c >>> k).getLsbD 0 = false := by simpa using h k (by omega)
    rw [Function.iterate_succ_apply', ih fun i hi => h i (by omega)]
    unfold shift
    rw [hlow, if_neg (by simp), BitVec.xor_zero, BitVec.shiftRight_add]

/-! ## The parity -/

/-- The parity of the ones of a word. -/
def parity (c : BitVec w) : ZMod 2 := ∑ i ∈ Finset.range w, if c.getLsbD i then 1 else 0

@[simp] theorem parity_zero : parity 0#w = 0 := by simp [parity]

theorem parity_xor (a b : BitVec w) : parity (a ^^^ b) = parity a + parity b := by
  unfold parity
  rw [← Finset.sum_add_distrib]
  refine Finset.sum_congr rfl fun i _ => ?_
  rw [BitVec.getLsbD_xor]
  cases a.getLsbD i <;> cases b.getLsbD i <;> decide

/-- What leaves is missed. -/
theorem parity_ushiftRight (c : BitVec w) :
    parity (c >>> 1) + (if c.getLsbD 0 then 1 else 0) = parity c := by
  unfold parity
  have htop : c.getLsbD w = false := BitVec.getLsbD_of_ge _ _ le_rfl
  have hsum : (∑ i ∈ Finset.range w, if (c >>> 1).getLsbD i then (1 : ZMod 2) else 0) =
      ∑ i ∈ Finset.range w, if c.getLsbD (i + 1) then 1 else 0 := by
    refine Finset.sum_congr rfl fun i _ => ?_
    rw [BitVec.getLsbD_ushiftRight, Nat.add_comm]
  rw [hsum, ← Finset.sum_range_succ' (fun i => if c.getLsbD i then (1 : ZMod 2) else 0),
    Finset.sum_range_succ, htop]
  simp

/-- A polynomial with an odd number of ones keeps the parity. -/
theorem parity_shift {poly : BitVec w} (hodd : parity poly = 1) (c : BitVec w) :
    parity (shift poly c) = parity c := by
  rw [shift, parity_xor, ← parity_ushiftRight c]
  cases c.getLsbD 0
  · simp
  · simp [hodd]

theorem parity_iterate {poly : BitVec w} (hodd : parity poly = 1) (n : ℕ) (c : BitVec w) :
    parity ((shift poly)^[n] c) = parity c := by
  induction n with
  | zero => rfl
  | succ n ih => rw [Function.iterate_succ_apply', parity_shift hodd, ih]

/-! ## A flipped bit -/

/-- What a flipped bit changes in the register, after a number of shifts. -/
def flipped (n : ℕ) : BitVec w := (shift poly)^[n] 1#w

section Detection

variable {poly}

theorem shift_eq_zero (htop : poly.msb = true) {c : BitVec w} (h : shift poly c = 0#w) :
    c = 0#w := by
  have hw : 0 < w := by
    by_contra hw
    obtain rfl : w = 0 := by omega
    simp [BitVec.msb] at htop
  have hbit : ∀ i, (shift poly c).getLsbD i = false := by
    intro i
    rw [h]
    simp
  have hlow : c.getLsbD 0 = false := by
    by_contra hlow
    have hmsb := hbit (w - 1)
    have hge : c.getLsbD (1 + (w - 1)) = false := BitVec.getLsbD_of_ge _ _ (by omega)
    have hpoly : poly.getLsbD (w - 1) = true := by
      rw [← BitVec.msb_eq_getLsbD_last]
      exact htop
    rw [shift, if_pos (by simpa using hlow), BitVec.getLsbD_xor, BitVec.getLsbD_ushiftRight, hge,
      hpoly] at hmsb
    exact absurd hmsb (by decide)
  ext i hi
  cases i with
  | zero => simpa [← BitVec.getLsbD_eq_getElem] using hlow
  | succ i =>
    have hi' := hbit i
    rw [shift, hlow, if_neg (by simp), BitVec.xor_zero, BitVec.getLsbD_ushiftRight,
      Nat.add_comm] at hi'
    simpa [← BitVec.getLsbD_eq_getElem] using hi'

theorem iterate_eq_zero (htop : poly.msb = true) {n : ℕ} {c : BitVec w}
    (h : (shift poly)^[n] c = 0#w) : c = 0#w := by
  induction n generalizing c with
  | zero => exact h
  | succ n ih => exact shift_eq_zero htop (ih h)

/-- **A flipped bit is found.** -/
theorem flipped_ne_zero (htop : poly.msb = true) (n : ℕ) : flipped poly n ≠ 0#w := by
  intro h
  have hone := iterate_eq_zero htop h
  have hw : 0 < w := by
    by_contra hw
    obtain rfl : w = 0 := by omega
    simp [BitVec.msb] at htop
  have hbit := congrArg (fun c => c.getLsbD 0) hone
  simp [hw] at hbit

/-- **Two flipped bits are told apart**, if the register does not come back to one before. -/
theorem flipped_injective (htop : poly.msb = true) {N : ℕ}
    (hperiod : ∀ k, 0 < k → k < N → flipped poly k ≠ 1#w) {m n : ℕ} (hm : m < N) (hn : n < N)
    (h : flipped poly m = flipped poly n) : m = n := by
  wlog hle : m ≤ n generalizing m n
  · exact (this hn hm h.symm (by omega)).symm
  by_contra hne
  obtain ⟨k, rfl⟩ := Nat.exists_eq_add_of_le hle
  refine hperiod k (by omega) (by omega) ?_
  have hshift : (shift poly)^[m] (1#w ^^^ flipped poly k) = 0#w := by
    rw [iterate_xor]
    show flipped poly m ^^^ (shift poly)^[m] ((shift poly)^[k] 1#w) = 0#w
    rw [← Function.iterate_add_apply, h]
    exact BitVec.xor_self
  have hzero := iterate_eq_zero htop hshift
  rw [BitVec.xor_eq_zero_iff] at hzero
  exact hzero.symm

/-- **Three flipped bits are found**, if the polynomial keeps the parity. -/
theorem flipped_xor_xor_ne_zero (hw : 0 < w) (hodd : parity poly = 1) (a b c : ℕ) :
    flipped poly a ^^^ flipped poly b ^^^ flipped poly c ≠ 0#w := by
  have hone : parity 1#w = 1 := by
    unfold parity
    rw [Finset.sum_eq_single_of_mem 0 (Finset.mem_range.2 hw)]
    · simp [hw]
    · intro i _ hi
      simp [hi]
  intro h
  have hpar := congrArg parity h
  rw [parity_xor, parity_xor, parity_zero] at hpar
  unfold flipped at hpar
  rw [parity_iterate hodd, parity_iterate hodd, parity_iterate hodd, hone] at hpar
  exact absurd hpar (by decide)

end Detection

/-! ## Bytes -/

/-- A byte goes into the register. -/
def feed (c : BitVec w) (b : BitVec 8) : BitVec w := (shift poly)^[8] (c ^^^ b.setWidth w)

/-- The remainder after some bytes. -/
def run (c : BitVec w) (bs : List (BitVec 8)) : BitVec w := bs.foldl (feed poly) c

@[simp] theorem run_nil (c : BitVec w) : run poly c [] = c := rfl

@[simp] theorem run_cons (c : BitVec w) (b : BitVec 8) (bs : List (BitVec 8)) :
    run poly c (b :: bs) = run poly (feed poly c b) bs := rfl

theorem feed_xor (c d : BitVec w) (b : BitVec 8) :
    feed poly (c ^^^ d) b = feed poly c b ^^^ (shift poly)^[8] d := by
  unfold feed
  rw [← iterate_xor]
  congr 1
  rw [BitVec.xor_assoc, BitVec.xor_comm d, ← BitVec.xor_assoc]

theorem run_xor (c d : BitVec w) (bs : List (BitVec 8)) :
    run poly (c ^^^ d) bs = run poly c bs ^^^ (shift poly)^[8 * bs.length] d := by
  induction bs generalizing c d with
  | nil => rfl
  | cons b bs ih =>
    rw [run_cons, run_cons, feed_xor, ih, List.length_cons, Nat.mul_succ,
      Function.iterate_add_apply]

/-- What is changed in one byte. -/
theorem run_modify (c : BitVec w) {bs : List (BitVec 8)} {i : ℕ} (hi : i < bs.length)
    (e : BitVec 8) : run poly c (bs.modify i (· ^^^ e)) =
      run poly c bs ^^^ (shift poly)^[8 * (bs.length - i)] (e.setWidth w) := by
  induction bs generalizing c i with
  | nil => exact absurd hi (Nat.not_lt_zero i)
  | cons b bs ih =>
    cases i with
    | zero =>
      have hfeed : feed poly c (b ^^^ e) = feed poly c b ^^^ (shift poly)^[8] (e.setWidth w) := by
        unfold feed
        rw [BitVec.setWidth_xor, ← BitVec.xor_assoc, iterate_xor]
      rw [List.modify_zero_cons, run_cons, run_cons, hfeed, run_xor, ← Function.iterate_add_apply,
        List.length_cons, Nat.sub_zero, Nat.mul_succ]
    | succ i =>
      rw [List.length_cons] at hi
      rw [List.modify_succ_cons, run_cons, run_cons, ih _ (by omega), List.length_cons,
        Nat.add_sub_add_right]

/-- Flip a bit of a byte. -/
def flip (bs : List (BitVec 8)) (i k : ℕ) : List (BitVec 8) :=
  bs.modify i (· ^^^ BitVec.twoPow 8 k)

/-- **What a flipped bit changes** depends on its place only. -/
theorem run_flip (hw : 8 ≤ w) (c : BitVec w) {bs : List (BitVec 8)} {i k : ℕ}
    (hi : i < bs.length) (hk : k < 8) :
    run poly c (flip bs i k) = run poly c bs ^^^ flipped poly (8 * (bs.length - i) - k) := by
  have hbit : (shift poly)^[k] ((BitVec.twoPow 8 k).setWidth w) = 1#w := by
    have hget : ∀ j, ((BitVec.twoPow 8 k).setWidth w).getLsbD j = decide (j = k) := by
      intro j
      rw [BitVec.getLsbD_setWidth, BitVec.getLsbD_twoPow]
      by_cases hj : j = k
      · subst hj
        simp [hk, show j < w by omega]
      · simp [hj, Ne.symm hj]
    rw [iterate_of_low]
    · ext j hj
      rw [← BitVec.getLsbD_eq_getElem, ← BitVec.getLsbD_eq_getElem, BitVec.getLsbD_ushiftRight,
        hget, BitVec.getLsbD_one]
      simp [show 0 < w by omega]
    · intro j hj
      rw [hget]
      exact decide_eq_false (by omega)
  have hsplit : 8 * (bs.length - i) = (8 * (bs.length - i) - k) + k := by omega
  unfold flip flipped
  rw [run_modify poly c hi, ← hbit, ← Function.iterate_add_apply, ← hsplit]

/-! ## A changed byte -/

theorem iterate_injective (htop : poly.msb = true) (n : ℕ) :
    Function.Injective (shift poly)^[n] := by
  intro a b h
  have hxor : (shift poly)^[n] (a ^^^ b) = 0#w := by
    rw [iterate_xor, h, BitVec.xor_self]
  exact BitVec.xor_eq_zero_iff.1 (iterate_eq_zero htop hxor)

theorem feed_left_injective (htop : poly.msb = true) (b : BitVec 8) :
    Function.Injective fun c => feed poly c b := by
  intro c d h
  exact (BitVec.xor_left_inj _).1 (iterate_injective poly htop 8 h)

theorem feed_right_injective (htop : poly.msb = true) (hw : 8 ≤ w) (c : BitVec w) :
    Function.Injective (feed poly c) := by
  intro a b h
  have hwide : a.setWidth w = b.setWidth w :=
    (BitVec.xor_right_inj _).1 (iterate_injective poly htop 8 h)
  have hnarrow := congrArg (BitVec.setWidth 8) hwide
  rwa [BitVec.setWidth_setWidth_of_le a hw, BitVec.setWidth_setWidth_of_le b hw,
    BitVec.setWidth_eq, BitVec.setWidth_eq] at hnarrow

theorem run_injective (htop : poly.msb = true) (bs : List (BitVec 8)) :
    Function.Injective fun c => run poly c bs := by
  induction bs with
  | nil => exact Function.injective_id
  | cons b bs ih => exact ih.comp (feed_left_injective poly htop b)

theorem run_append (c : BitVec w) (as bs : List (BitVec 8)) :
    run poly c (as ++ bs) = run poly (run poly c as) bs := List.foldl_append

/-- **A byte that is changed is found.** -/
theorem run_ne (htop : poly.msb = true) (hw : 8 ≤ w) (c : BitVec w) {a b : BitVec 8} (hne : a ≠ b)
    (before after : List (BitVec 8)) :
    run poly c (before ++ a :: after) ≠ run poly c (before ++ b :: after) := by
  rw [run_append, run_append, run_cons, run_cons]
  intro h
  exact hne (feed_right_injective poly htop hw _ (run_injective poly htop after h))

/-- Two bytes at once. -/
theorem feed_feed (hw : 16 ≤ w) (c : BitVec w) (a b : BitVec 8) :
    feed poly (feed poly c a) b =
      (shift poly)^[16] (c ^^^ (a.setWidth w ^^^ b.setWidth w <<< 8)) := by
  have hlow : (shift poly)^[8] (b.setWidth w <<< 8) = b.setWidth w := by
    rw [iterate_of_low]
    · ext i hi
      rw [← BitVec.getLsbD_eq_getElem, ← BitVec.getLsbD_eq_getElem, BitVec.getLsbD_ushiftRight,
        BitVec.getLsbD_shiftLeft]
      by_cases hi' : i < 8
      · simp [show 8 + i < w by omega]
      · simp [BitVec.getLsbD_of_ge b i (by omega)]
    · intro i hi
      rw [BitVec.getLsbD_shiftLeft]
      simp [hi]
  have hboth : (shift poly)^[8] (c ^^^ a.setWidth w) ^^^ b.setWidth w =
      (shift poly)^[8] (c ^^^ (a.setWidth w ^^^ b.setWidth w <<< 8)) := by
    rw [← BitVec.xor_assoc, iterate_xor poly 8 (c ^^^ a.setWidth w), hlow]
  unfold feed
  rw [hboth, ← Function.iterate_add_apply]

/-! ## The high bit first -/

/-- One shift to the other side. -/
def shiftLeft (c : BitVec w) : BitVec w := (c <<< 1) ^^^ if c.msb then poly else 0#w

/-- A byte goes into the other side. -/
def feedLeft (c : BitVec w) (b : BitVec 8) : BitVec w :=
  (shiftLeft poly)^[8] (c ^^^ b.setWidth w <<< (w - 8))

/-- The remainder after some bytes, with the high bit first. -/
def runLeft (c : BitVec w) (bs : List (BitVec 8)) : BitVec w := bs.foldl (feedLeft poly) c

theorem reverse_xor (a b : BitVec w) : (a ^^^ b).reverse = a.reverse ^^^ b.reverse := by
  ext i hi
  simp [BitVec.getElem_reverse]

/-- The register is that of the low bit first, read from the other side. -/
theorem reverse_shiftLeft (c : BitVec w) :
    (shiftLeft poly c).reverse = shift poly.reverse c.reverse := by
  have hshift : (c <<< 1).reverse = c.reverse >>> 1 := by
    ext i hi
    rw [← BitVec.getLsbD_eq_getElem, ← BitVec.getLsbD_eq_getElem, BitVec.getLsbD_reverse,
      BitVec.getLsbD_ushiftRight, BitVec.getLsbD_reverse, BitVec.getMsbD_shiftLeft, Nat.add_comm]
  unfold shiftLeft shift
  rw [reverse_xor, hshift, BitVec.getLsbD_reverse, BitVec.msb]
  cases c.getMsbD 0 <;> simp

theorem reverse_iterate (n : ℕ) (c : BitVec w) :
    ((shiftLeft poly)^[n] c).reverse = (shift poly.reverse)^[n] c.reverse := by
  induction n generalizing c with
  | zero => rfl
  | succ n ih =>
    rw [Function.iterate_succ_apply, Function.iterate_succ_apply, ih, reverse_shiftLeft]

/-- A byte, and its place on the other side. -/
theorem reverse_byte {k : ℕ} (hk : k + 8 ≤ w) (b : BitVec 8) :
    (b.setWidth w <<< (w - 8 - k)).reverse = b.reverse.setWidth w <<< k := by
  ext i hi
  rw [← BitVec.getLsbD_eq_getElem, ← BitVec.getLsbD_eq_getElem, BitVec.getLsbD_reverse,
    BitVec.getLsbD_shiftLeft, BitVec.getLsbD_setWidth, BitVec.getLsbD_reverse,
    BitVec.getMsbD_shiftLeft]
  simp only [BitVec.getMsbD_eq_getLsbD, BitVec.getLsbD_setWidth]
  by_cases hin : k ≤ i ∧ i < k + 8
  · have hplace : w - 1 - (i + (w - 8 - k)) = 8 - 1 - (i - k) := by omega
    rw [hplace]
    simp [hi, show i + (w - 8 - k) < w by omega, show 8 - 1 - (i - k) < w by omega,
      show i - k < w by omega, show ¬ i < k by omega, show i - k < 8 by omega]
  · rcases Nat.lt_or_ge i k with hlt | hge
    · have hhigh : b.getLsbD (w - 1 - (i + (w - 8 - k))) = false :=
        BitVec.getLsbD_of_ge b _ (by omega)
      simp [hhigh, hlt]
    · simp [show ¬ i + (w - 8 - k) < w by omega, show ¬ i - k < 8 by omega]

theorem reverse_feedLeft (hw : 8 ≤ w) (c : BitVec w) (b : BitVec 8) :
    (feedLeft poly c b).reverse = feed poly.reverse c.reverse b.reverse := by
  have hbyte := reverse_byte (k := 0) hw b
  rw [Nat.sub_zero, BitVec.shiftLeft_zero] at hbyte
  unfold feedLeft feed
  rw [reverse_iterate, reverse_xor, hbyte]

/-- Two bytes at once, from the other side. -/
theorem feedLeft_feedLeft (hw : 16 ≤ w) (c : BitVec w) (a b : BitVec 8) :
    feedLeft poly (feedLeft poly c a) b = (shiftLeft poly)^[16]
      (c ^^^ (a.setWidth w <<< (w - 8) ^^^ b.setWidth w <<< (w - 16))) := by
  have ha := reverse_byte (k := 0) (show 0 + 8 ≤ w by omega) a
  have hb := reverse_byte (k := 8) (show 8 + 8 ≤ w by omega) b
  rw [Nat.sub_zero, BitVec.shiftLeft_zero] at ha
  rw [Nat.sub_sub] at hb
  rw [← BitVec.reverse_reverse_eq (x := feedLeft poly _ b), reverse_feedLeft poly (by omega),
    reverse_feedLeft poly (by omega), feed_feed _ hw, ← ha, ← hb, ← reverse_xor, ← reverse_xor,
    ← reverse_iterate, BitVec.reverse_reverse_eq]

/-- **The remainder**, read from the other side. -/
theorem reverse_runLeft (hw : 8 ≤ w) (c : BitVec w) (bs : List (BitVec 8)) :
    (runLeft poly c bs).reverse = run poly.reverse c.reverse (bs.map BitVec.reverse) := by
  induction bs generalizing c with
  | nil => rfl
  | cons b bs ih => rw [List.map_cons, run_cons, ← reverse_feedLeft poly hw, ← ih]; rfl

/-- A byte that is changed is found from the other side as well. -/
theorem runLeft_ne (hlow : poly.getLsbD 0 = true) (hw : 8 ≤ w) (c : BitVec w) {a b : BitVec 8}
    (hne : a ≠ b) (before after : List (BitVec 8)) :
    runLeft poly c (before ++ a :: after) ≠ runLeft poly c (before ++ b :: after) := by
  intro h
  have hrev := congrArg BitVec.reverse h
  rw [reverse_runLeft poly hw, reverse_runLeft poly hw, List.map_append, List.map_append,
    List.map_cons, List.map_cons] at hrev
  refine run_ne poly.reverse ?_ hw _ ?_ _ _ hrev
  · rw [BitVec.msb_reverse]
    exact hlow
  · intro heq
    rw [← BitVec.reverse_reverse_eq (x := a), heq, BitVec.reverse_reverse_eq] at hne
    exact hne rfl

end MacHPSDR.ShiftRegister
