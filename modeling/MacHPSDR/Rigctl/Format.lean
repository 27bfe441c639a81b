import MacHPSDR.Rigctl.Rig
import Mathlib

/-!
# The numbers in a reply

What `sprintf` prints spells its number, whatever the width; and it keeps to the width if the number
has no more digits than that.
-/

namespace MacHPSDR.Rigctl

open CString (Spells digitsValue readNumber readNumber_of_spells)

theorem isDigit_of_mem_digits {i : ℤ} {c : Char} (h : c ∈ digits i) : c.isDigit = true :=
  Nat.isDigit_of_mem_toDigits (by decide) le_rfl h

theorem digitsValue_eq (ds : List Char) (v : ℕ) :
    ds.foldl (fun v c => v * 10 + (c.toNat - '0'.toNat)) v = Nat.ofDigitChars 10 ds v := by
  induction ds generalizing v with
  | nil => rfl
  | cons c ds ih => rw [List.foldl_cons, ih, Nat.ofDigitChars_cons, Nat.mul_comm]

theorem digitsValue_zeros_digits (n : ℕ) (i : ℤ) :
    digitsValue (List.replicate n '0' ++ digits i) = i.natAbs := by
  induction n with
  | zero => exact (digitsValue_eq _ 0).trans Nat.ofDigitChars_ten_toDigits
  | succ n ih => exact ih

/-- What is printed is the number. -/
theorem spells_zeroed (plus : Bool) (width : ℕ) (i : ℤ) : Spells (zeroed plus width i) i := by
  set ds := List.replicate (width - (sign plus i ++ digits i).length) '0' ++ digits i with hds
  have hne : ds ≠ [] := List.append_ne_nil_of_right_ne_nil _ Nat.toDigits_ne_nil
  have hdigit : ∀ c ∈ ds, c.isDigit = true := by
    intro c hc
    rcases List.mem_append.1 hc with hc | hc
    · rw [List.eq_of_mem_replicate hc]
      rfl
    · exact isDigit_of_mem_digits hc
  have hvalue : digitsValue ds = i.natAbs := digitsValue_zeros_digits _ i
  have hprint : zeroed plus width i = sign plus i ++ ds := by
    unfold zeroed
    rw [List.append_assoc]
  refine ⟨ds, hne, hdigit, ?_⟩
  rw [hprint, hvalue]
  unfold sign
  by_cases hneg : i < 0
  · rw [if_pos hneg]
    exact .inr (.inr ⟨rfl, by omega⟩)
  · rw [if_neg hneg]
    cases plus
    · exact .inl ⟨rfl, by omega⟩
    · exact .inr (.inl ⟨rfl, by omega⟩)

/-- Different numbers are printed differently. -/
theorem zeroed_injective (plus : Bool) (width : ℕ) : Function.Injective (zeroed plus width) := by
  intro i j h
  rw [← readNumber_of_spells (spells_zeroed plus width i), h,
    readNumber_of_spells (spells_zeroed plus width j)]

/-! ## Widths -/

theorem length_zeroed (plus : Bool) (width : ℕ) (i : ℤ) :
    (zeroed plus width i).length = max width ((sign plus i).length + (digits i).length) := by
  unfold zeroed
  rw [List.length_append, List.length_append, List.length_replicate, List.length_append]
  omega

theorem length_digits_le_iff {i : ℤ} {k : ℕ} (hk : 0 < k) :
    (digits i).length ≤ k ↔ i.natAbs < 10 ^ k :=
  Nat.length_toDigits_le_iff (by decide) hk

theorem length_zeros_eq_iff {width : ℕ} (hwidth : 1 < width) (i : ℤ) :
    (zeros width i).length = width ↔ -10 ^ (width - 1) < i ∧ i < 10 ^ width := by
  rw [zeros, length_zeroed, max_eq_left_iff]
  unfold sign
  by_cases hneg : i < 0
  · have hwide : (['-'].length + (digits i).length ≤ width) ↔ (digits i).length ≤ width - 1 := by
      rw [List.length_singleton]
      omega
    have hpos : (0 : ℤ) < 10 ^ width := by positivity
    rw [if_pos hneg, hwide, length_digits_le_iff (by omega), ← Int.ofNat_lt]
    push_cast
    rw [abs_of_neg hneg]
    constructor
    · intro h
      exact ⟨by linarith, by linarith⟩
    · intro h
      linarith [h.1]
  · have hpos : (0 : ℤ) < 10 ^ (width - 1) := by positivity
    rw [if_neg hneg, if_neg Bool.false_ne_true, List.length_nil, Nat.zero_add,
      length_digits_le_iff (by omega), ← Int.ofNat_lt]
    push_cast
    rw [abs_of_nonneg (not_lt.1 hneg)]
    constructor
    · intro h
      exact ⟨by linarith, h⟩
    · exact And.right

/-- `%d` prints as `%0<width>d` of no width. -/
theorem dec_eq_zeros (i : ℤ) : dec i = zeros 0 i := by
  unfold dec spaced zeros zeroed
  dsimp only
  rw [Nat.zero_sub, List.replicate_zero, List.replicate_zero, List.nil_append, List.append_nil]

theorem length_dec_eq_one_iff (i : ℤ) : (dec i).length = 1 ↔ 0 ≤ i ∧ i ≤ 9 := by
  have hpos : 0 < (digits i).length := Nat.length_toDigits_pos
  rw [dec_eq_zeros, zeros, length_zeroed, Nat.zero_max]
  unfold sign
  by_cases hneg : i < 0
  · rw [if_pos hneg, List.length_singleton]
    omega
  · have hone : (digits i).length ≤ 1 ↔ i.natAbs < 10 ^ 1 := length_digits_le_iff Nat.one_pos
    rw [if_neg hneg, if_neg Bool.false_ne_true, List.length_nil]
    omega

theorem dec_injective : Function.Injective dec := by
  intro i j h
  rw [dec_eq_zeros, dec_eq_zeros] at h
  exact zeroed_injective false 0 h

end MacHPSDR.Rigctl
