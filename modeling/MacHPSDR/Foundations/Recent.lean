import Mathlib

/-!
# The last values of a stream in a ring

A stream is written into a ring of `N` places, each value at its number modulo `N`. The ring then
holds the last `N` values of the stream, and what is read from the last `n` places that have been
written, oldest first, is the end of the stream (`Recent.read`).
-/

namespace MacHPSDR

variable {α : Type*} {N : ℕ} {ring : ℕ → α} {xs : List α}

/-- The ring holds the last `N` values of the stream. -/
def Recent (N : ℕ) (ring : ℕ → α) (xs : List α) : Prop :=
  ∀ k x, xs[k]? = some x → xs.length ≤ k + N → ring (k % N) = x

namespace Recent

theorem nil (N : ℕ) (ring : ℕ → α) : Recent N ring [] := nofun

/-- A value goes over the oldest one. -/
theorem push (h : Recent N ring xs) (x : α) :
    Recent N (Function.update ring (xs.length % N) x) (xs ++ [x]) := by
  intro k y hy hlast
  rw [List.length_append, List.length_singleton] at hlast
  have hk : k < xs.length + 1 := by simpa using (List.getElem?_eq_some_iff.1 hy).1
  rcases Nat.lt_succ_iff_lt_or_eq.1 hk with hlt | rfl
  · rw [List.getElem?_append_left hlt] at hy
    have hne : k % N ≠ xs.length % N := by
      intro hmod
      obtain ⟨m, hm⟩ := (Nat.modEq_iff_dvd' hlt.le).1 hmod
      have hpos : 0 < m := Nat.pos_of_ne_zero fun h0 => by
        rw [h0, Nat.mul_zero] at hm
        omega
      have hle := Nat.le_mul_of_pos_right N hpos
      omega
    rw [Function.update_of_ne hne]
    exact h k y hy (by omega)
  · rw [List.getElem?_concat_length] at hy
    obtain rfl := Option.some.inj hy
    exact Function.update_self ..

/-- **The end of the stream** is in the last places. -/
theorem read (h : Recent N ring xs) {n : ℕ} (hn : n ≤ N) (hlength : n ≤ xs.length) :
    ((List.range n).map fun i => ring ((xs.length - n + i) % N)) = xs.drop (xs.length - n) := by
  refine List.ext_getElem ?_ fun i hi hi' => ?_
  · rw [List.length_map, List.length_range, List.length_drop]
    omega
  · rw [List.length_map, List.length_range] at hi
    rw [List.getElem_map, List.getElem_range, List.getElem_drop]
    exact h _ _ (List.getElem?_eq_getElem (by omega)) (by omega)

end Recent

end MacHPSDR
