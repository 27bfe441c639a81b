import Mathlib

/-!
# A buffer that is filled block after block

The samples of a stream are written into a buffer of `n` places, from the start again whenever it
is full. Between two blocks the buffer holds the last one (`written_block`); before the last sample
of a block comes, its last place still holds what it held before (`written_before`).
-/

namespace MacHPSDR.BlockBuffer

variable {α : Type*} {n : ℕ} [NeZero n]

/-- What the buffer holds after `m` samples of `xs`, if it held `b` before. -/
def written (b : Fin n → α) (xs : ℕ → α) : ℕ → Fin n → α
  | 0 => b
  | m + 1 => Function.update (written b xs m) (Fin.ofNat n m) (xs m)

/-- The `k`-th block of a stream. -/
def block (n : ℕ) (xs : ℕ → α) (k : ℕ) (i : Fin n) : α := xs (n * k + i)

variable (n) in
/-- The last place. -/
def last : Fin n := ⟨n - 1, Nat.sub_one_lt (NeZero.ne n)⟩

omit [NeZero n] in
/-- The next sample is the last of its block. -/
theorem dvd_succ_iff (hn : 0 < n) (m : ℕ) : n ∣ m + 1 ↔ m % n + 1 = n := by
  cases n with
  | zero => exact absurd hn (lt_irrefl 0)
  | succ p =>
    rw [Nat.dvd_iff_mod_eq_zero, Nat.succ_mod_succ_eq_zero_iff]
    omega

variable (b : Fin n → α) (xs : ℕ → α)

/-- The first `r` samples of a block stand before what the last one left. -/
theorem written_apply (k : ℕ) {r : ℕ} (hr : r ≤ n) (i : Fin n) :
    written b xs (n * k + r) i = if i < r then xs (n * k + i) else written b xs (n * k) i := by
  induction r with
  | zero => simp
  | succ r ih =>
    have hlt : r < n := hr
    rw [← Nat.add_assoc, written]
    by_cases hi : i = r
    · have hplace : i = Fin.ofNat n (n * k + r) := by
        ext
        rw [Fin.val_ofNat, Nat.mul_add_mod, Nat.mod_eq_of_lt hlt, hi]
      rw [← hplace, Function.update_self, if_pos (by omega), hi]
    · have hplace : i ≠ Fin.ofNat n (n * k + r) := by
        rw [Ne, Fin.ext_iff, Fin.val_ofNat, Nat.mul_add_mod, Nat.mod_eq_of_lt hlt]
        exact hi
      rw [Function.update_of_ne hplace, ih hlt.le]
      refine if_congr ?_ rfl rfl
      omega

theorem written_block (k : ℕ) : written b xs (n * (k + 1)) = block n xs k := by
  funext i
  rw [Nat.mul_succ, written_apply b xs k le_rfl, if_pos i.isLt]
  rfl

theorem written_mul (k : ℕ) :
    written b xs (n * k) = if k = 0 then b else block n xs (k - 1) := by
  cases k with
  | zero => rfl
  | succ k => exact written_block b xs k

/-- What lies in the last place before the last sample of a block comes. -/
theorem written_before (k : ℕ) : written b xs (n * k + (n - 1)) =
    Function.update (block n xs k) (last n) (written b xs (n * k) (last n)) := by
  funext i
  rw [written_apply b xs k (Nat.sub_le n 1)]
  by_cases hi : i = last n
  · subst hi
    rw [Function.update_self]
    exact if_neg (lt_irrefl (n - 1))
  · have hlt : (i : ℕ) < n - 1 := by
      have := i.isLt
      have : (i : ℕ) ≠ n - 1 := fun h => hi (Fin.ext h)
      omega
    rw [if_pos hlt, Function.update_of_ne hi]
    rfl

/-- A block is whole before its last sample comes, for every block up to `K`, exactly when each of
them ends as the buffer did at first. -/
theorem written_before_eq_block_iff (K : ℕ) :
    (∀ k < K, written b xs (n * k + (n - 1)) = block n xs k) ↔
      ∀ k < K, block n xs k (last n) = b (last n) := by
  have hends (k : ℕ) : written b xs (n * k + (n - 1)) = block n xs k ↔
      written b xs (n * k) (last n) = block n xs k (last n) := by
    rw [written_before, Function.update_eq_iff]
    exact and_iff_left fun _ _ => rfl
  simp only [hends, written_mul]
  refine ⟨fun h k hk => ?_, fun h k hk => ?_⟩
  · induction k with
    | zero => exact (h 0 hk).symm
    | succ k ih => exact (h (k + 1) hk).symm.trans (ih (by omega))
  · cases k with
    | zero => exact (h 0 hk).symm
    | succ k => exact (h k (by omega)).trans (h (k + 1) hk).symm

end MacHPSDR.BlockBuffer
