import Mathlib

/-!
# Events with known gaps

Of the times `0, 1, 2, …` some satisfy `P`. If the first such time and the gap from each to the next
are known, the times that satisfy `P` are the values of a sequence with these gaps.
-/

namespace MacHPSDR

/-- The sequence that starts at `n₀` and has the gaps `gap 0`, `gap 1`, … -/
def schedule (gap : ℕ → ℕ) (n₀ : ℕ) : ℕ → ℕ
  | 0 => n₀
  | k + 1 => schedule gap n₀ k + gap k

variable {gap : ℕ → ℕ} {n₀ : ℕ}

theorem le_schedule (k : ℕ) : n₀ ≤ schedule gap n₀ k := by
  induction k with
  | zero => exact le_rfl
  | succ k ih => exact ih.trans (Nat.le_add_right _ _)

/-- With positive gaps, every time from `n₀` on lies between two values. -/
theorem exists_between_schedule (hpos : ∀ k, 0 < gap k) {n : ℕ} (hn : n₀ ≤ n) :
    ∃ k, schedule gap n₀ k ≤ n ∧ n < schedule gap n₀ (k + 1) := by
  induction n, hn using Nat.le_induction with
  | base => exact ⟨0, le_rfl, Nat.lt_add_of_pos_right (hpos 0)⟩
  | succ n _ ih =>
    obtain ⟨k, hle, hlt⟩ := ih
    by_cases h : n + 1 < schedule gap n₀ (k + 1)
    · exact ⟨k, hle.trans (Nat.le_succ n), h⟩
    · have heq : schedule gap n₀ (k + 1) = n + 1 := by omega
      exact ⟨k + 1, heq.le, by
        have := hpos (k + 1)
        simp only [schedule] at heq ⊢
        omega⟩

/-- **The times that satisfy `P`.** `I k n` says what is known at the time `n` of the `k`-th of
them, from which the next one follows. -/
theorem iff_schedule {P : ℕ → Prop} {I : ℕ → ℕ → Prop} (hpos : ∀ k, 0 < gap k)
    (hfirst : ∀ n < n₀, ¬ P n) (h₀ : I 0 n₀) (hP : ∀ k n, I k n → P n)
    (hgap : ∀ k n, I k n → ∀ m, n < m → m < n + gap k → ¬ P m)
    (hnext : ∀ k n, I k n → I (k + 1) (n + gap k)) (n : ℕ) :
    P n ↔ ∃ k, schedule gap n₀ k = n := by
  have hI (k : ℕ) : I k (schedule gap n₀ k) := by
    induction k with
    | zero => exact h₀
    | succ k ih => exact hnext k _ ih
  constructor
  · intro hn
    have hle : n₀ ≤ n := by
      by_contra hlt
      exact hfirst n (Nat.lt_of_not_le hlt) hn
    obtain ⟨k, hk, hlt⟩ := exists_between_schedule hpos hle
    refine ⟨k, hk.eq_of_not_lt fun h => ?_⟩
    exact hgap k _ (hI k) n h hlt hn
  · rintro ⟨k, rfl⟩
    exact hP k _ (hI k)

end MacHPSDR
