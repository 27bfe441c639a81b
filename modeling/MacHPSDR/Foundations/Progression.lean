import Mathlib

/-!
# Values along a progression

A loop that takes a value at a position, goes on by a step, and ends at a limit or when there is no
room for another value. It takes as many values as there is room for, or goes beyond the limit, by
no more than a step (`collect_le`, `lt_collect`).
-/

namespace MacHPSDR.Progression

variable {K β : Type*} [Field K] [LinearOrder K]

/-- The values from `x` on, where there is room for so many of them, and where the loop ends. -/
def collect (f : K → β) (step limit : K) : ℕ → K → List β × K
  | 0, x => ([], x)
  | room + 1, x =>
    if x ≤ limit then
      let r := collect f step limit room (x + step)
      (f x :: r.1, r.2)
    else ([], x)

variable (f : K → β) (step limit : K)

theorem length_collect_le (room : ℕ) (x : K) : (collect f step limit room x).1.length ≤ room := by
  induction room generalizing x with
  | zero => exact le_rfl
  | succ room ih =>
    unfold collect
    split
    · exact Nat.succ_le_succ (ih _)
    · exact Nat.zero_le _

/-- The loop ends so many steps on. -/
theorem collect_snd (room : ℕ) (x : K) : (collect f step limit room x).2 =
    x + (collect f step limit room x).1.length * step := by
  induction room generalizing x with
  | zero => simp [collect]
  | succ room ih =>
    unfold collect
    split
    · dsimp only
      rw [ih, List.length_cons, Nat.cast_succ, add_one_mul, add_assoc, add_comm step]
    · simp

theorem collect_fst (room : ℕ) (x : K) : (collect f step limit room x).1 =
    (List.range (collect f step limit room x).1.length).map fun j : ℕ => f (x + j * step) := by
  induction room generalizing x with
  | zero => rfl
  | succ room ih =>
    unfold collect
    split
    · dsimp only
      rw [List.length_cons, List.range_succ_eq_map, List.map_cons, List.map_map]
      congr 1
      · simp
      · refine (ih _).trans (List.map_congr_left fun j _ => ?_)
        simp only [Function.comp, Nat.cast_succ, add_one_mul, add_assoc, add_comm step]
    · rfl

/-- Where a value is taken does not depend on the values. -/
theorem collect_congr {γ : Type*} (g : K → γ) (room : ℕ) (x : K) :
    (collect f step limit room x).1.length = (collect g step limit room x).1.length := by
  induction room generalizing x with
  | zero => rfl
  | succ room ih =>
    unfold collect
    split
    · exact congrArg Nat.succ (ih _)
    · rfl

theorem le_of_mem_collect {room : ℕ} {x y : K} (h : y ∈ (collect id step limit room x).1) :
    y ≤ limit := by
  induction room generalizing x with
  | zero => cases h
  | succ room ih =>
    unfold collect at h
    split at h
    · rename_i hx
      rcases List.mem_cons.1 h with rfl | h
      · exact hx
      · exact ih h
    · cases h

variable {f step limit} {room : ℕ} {x : K}

/-- With room left the loop has gone beyond the limit. -/
theorem lt_collect (h : (collect f step limit room x).1.length < room) :
    limit < (collect f step limit room x).2 := by
  induction room generalizing x with
  | zero => cases h
  | succ room ih =>
    unfold collect at h ⊢
    split
    · rename_i hx
      rw [if_pos hx] at h
      exact ih (Nat.lt_of_succ_lt_succ h)
    · rename_i hx
      exact not_le.1 hx

/-- More room than there are values is not used. -/
theorem collect_of_le (h : (collect f step limit room x).1.length < room) {more : ℕ}
    (hmore : room ≤ more) : collect f step limit more x = collect f step limit room x := by
  induction room generalizing x more with
  | zero => cases h
  | succ room ih =>
    obtain ⟨more, rfl⟩ := Nat.exists_eq_add_of_le' (Nat.zero_lt_of_lt hmore)
    unfold collect at h ⊢
    split
    · rename_i hx
      rw [if_pos hx] at h
      rw [ih (Nat.lt_of_succ_lt_succ h) (Nat.le_of_succ_le_succ hmore)]
    · rfl

variable [IsStrictOrderedRing K]

/-- The loop goes beyond the limit by one step at most. -/
theorem collect_le (h : (collect f step limit room x).1 ≠ []) :
    (collect f step limit room x).2 ≤ limit + step := by
  induction room generalizing x with
  | zero => exact absurd rfl h
  | succ room ih =>
    unfold collect at h ⊢
    split
    · rename_i hx
      by_cases hnil : (collect f step limit room (x + step)).1 = []
      · dsimp only
        rw [collect_snd, hnil]
        simpa using hx
      · exact ih hnil
    · rename_i hx
      exact absurd (if_neg hx ▸ rfl) h

/-- The last value is taken at or below the limit. -/
theorem lt_room {n : ℕ} (hstep : 0 < step) (hbound : limit - x < n * step) (hroom : n < room) :
    (collect f step limit room x).1.length < room := by
  by_cases hnil : (collect f step limit room x).1 = []
  · rw [hnil]
    exact Nat.zero_lt_of_lt hroom
  · have hend := collect_le hnil
    rw [collect_snd] at hend
    have hlength : ((collect f step limit room x).1.length : K) * step < (n + 1) * step := by
      rw [add_one_mul]
      linarith
    have hlt := lt_of_mul_lt_mul_right hlength hstep.le
    have hcast : (collect f step limit room x).1.length < n + 1 := by exact_mod_cast hlt
    omega

end MacHPSDR.Progression
