import Mathlib

/-!
# Shares

`n` things in a row are shared out among `m`, in order and as evenly as it goes: share `i` begins
where `i * n / m` things have been given. When there are at least as many things as shares, no share
is empty, and every thing is in just one (`existsUnique_share`).
-/

namespace MacHPSDR.Shares

/-- How many things have been given before share `i`. -/
def cut (n m i : ℕ) : ℕ := i * n / m

variable {n m : ℕ}

@[simp] theorem cut_zero (n m : ℕ) : cut n m 0 = 0 := by simp [cut]

theorem cut_self (hm : 0 < m) : cut n m m = n := Nat.mul_div_cancel_left n hm

theorem cut_mono (n m : ℕ) : Monotone (cut n m) := fun _ _ h =>
  Nat.div_le_div_right (Nat.mul_le_mul_right n h)

theorem cut_le (hm : 0 < m) {i : ℕ} (hi : i ≤ m) : cut n m i ≤ n :=
  (cut_mono n m hi).trans (cut_self hm).le

/-- No share is empty. -/
theorem cut_lt_cut_succ (hm : 0 < m) (hmn : m ≤ n) (i : ℕ) : cut n m i < cut n m (i + 1) := by
  have hnext : i * n + m ≤ (i + 1) * n := by
    rw [Nat.succ_mul]
    exact Nat.add_le_add_left hmn _
  calc cut n m i < i * n / m + 1 := Nat.lt_succ_self _
    _ = (i * n + m) / m := (Nat.add_div_right _ hm).symm
    _ ≤ cut n m (i + 1) := Nat.div_le_div_right hnext

theorem exists_share (k j : ℕ) (h : j < cut n m k) :
    ∃ i < k, cut n m i ≤ j ∧ j < cut n m (i + 1) := by
  induction k with
  | zero => exact absurd h (by simp)
  | succ k ih =>
    by_cases hk : j < cut n m k
    · obtain ⟨i, hi, hshare⟩ := ih hk
      exact ⟨i, hi.trans k.lt_succ_self, hshare⟩
    · exact ⟨k, k.lt_succ_self, not_lt.1 hk, h⟩

/-- **Everything is in just one share.** -/
theorem existsUnique_share (hm : 0 < m) {j : ℕ} (hj : j < n) :
    ∃! i, i < m ∧ cut n m i ≤ j ∧ j < cut n m (i + 1) := by
  obtain ⟨i, hi, hle, hlt⟩ := exists_share (n := n) (m := m) m j ((cut_self hm).symm ▸ hj)
  refine ⟨i, ⟨hi, hle, hlt⟩, fun k ⟨_, hle', hlt'⟩ => ?_⟩
  rcases lt_trichotomy k i with h | h | h
  · exact absurd (hlt'.trans_le ((cut_mono n m h).trans hle)) (lt_irrefl _)
  · exact h
  · exact absurd (hlt.trans_le ((cut_mono n m h).trans hle')) (lt_irrefl _)

end MacHPSDR.Shares
