import Mathlib

/-!
# Counting the bits of a mask

A mask that is contained in another one, and the number of bits by which they differ.
-/

namespace MacHPSDR

variable {w : ℕ} {x y : BitVec w}

/-- Every bit of `x` is a bit of `y`. -/
def BitSubset (x y : BitVec w) : Prop := ∀ i, x.getLsbD i = true → y.getLsbD i = true

theorem bitSubset_or (x y : BitVec w) : BitSubset x (x ||| y) := fun i hi => by simp [hi]

theorem bitSubset_and (x y : BitVec w) : BitSubset (x &&& y) x := fun i hi => by
  rw [BitVec.getLsbD_and, Bool.and_eq_true] at hi
  exact hi.1

/-- The bits by which a mask differs from one that it contains are those it has more. -/
theorem BitSubset.toNat_cpop (h : BitSubset x y) :
    y.cpop.toNat = x.cpop.toNat + (x ^^^ y).cpop.toNat := by
  have hrec (n : ℕ) : y.cpopNatRec n 0 = x.cpopNatRec n 0 + (x ^^^ y).cpopNatRec n 0 := by
    induction n with
    | zero => rfl
    | succ n ih =>
      have hbit : (y.getLsbD n).toNat = (x.getLsbD n).toNat + ((x ^^^ y).getLsbD n).toNat := by
        have := h n
        rw [BitVec.getLsbD_xor]
        cases hx : x.getLsbD n <;> cases hy : y.getLsbD n <;> simp_all
      rw [BitVec.cpopNatRec_succ, BitVec.cpopNatRec_succ, BitVec.cpopNatRec_succ,
        BitVec.cpopNatRec_eq (_ + _), BitVec.cpopNatRec_eq (0 + (x.getLsbD n).toNat),
        BitVec.cpopNatRec_eq (0 + ((x ^^^ y).getLsbD n).toNat)]
      omega
  rw [BitVec.toNat_cpop, BitVec.toNat_cpop, BitVec.toNat_cpop]
  exact hrec w

/-- A mask without bits is zero. -/
theorem toNat_cpop_eq_zero_iff : x.cpop.toNat = 0 ↔ x = 0 := by
  constructor
  · intro h
    rw [BitVec.toNat_cpop] at h
    have hnone (n : ℕ) (hn : x.cpopNatRec n 0 = 0) : ∀ i < n, x.getLsbD i = false := by
      induction n with
      | zero => simp
      | succ n ih =>
        rw [BitVec.cpopNatRec_succ, BitVec.cpopNatRec_eq] at hn
        intro i hi
        obtain hi | rfl := Nat.lt_succ_iff_lt_or_eq.1 hi
        · exact ih (by omega) i hi
        · cases hx : x.getLsbD i
          · rfl
          · simp [hx] at hn
    exact BitVec.eq_of_getLsbD_eq fun i hi => by simpa using hnone w h i hi
  · rintro rfl
    simp

end MacHPSDR
