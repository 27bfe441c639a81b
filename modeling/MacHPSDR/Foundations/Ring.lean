import Mathlib

/-!
# Ring positions

The positions of a ring of `N` slots, and the slots that are occupied between a tail (the next
slot to read) and a head (the next slot to write). The ring is empty when the two meet, so it
holds at most `N - 1` elements. Reading only shrinks the occupied part (`Occupied.of_pop`) and
writing adds the slot at the head (`Occupied.of_push`). As a queue the ring holds the values of the
occupied slots in order (`contents_push`, `contents_pop`). A block is copied in two pieces where it
reaches the end of the ring (`stretch_store`).
-/

namespace MacHPSDR.Ring

/-- The position after `i`. -/
def next (N i : ℕ) : ℕ := (i + 1) % N

/-- Slot `i` lies between the tail and the head. -/
def Occupied (N tail head i : ℕ) : Prop :=
  i < N ∧ if tail ≤ head then tail ≤ i ∧ i < head else tail ≤ i ∨ i < head

variable {N tail head i : ℕ}

theorem next_lt (h : i < N) : next N i < N := Nat.mod_lt _ (by omega)

theorem next_eq (h : i < N) : next N i = if i + 1 = N then 0 else i + 1 := by
  unfold next
  split
  · rename_i hN
    rw [hN, Nat.mod_self]
  · exact Nat.mod_eq_of_lt (by omega)

theorem next_inj {j : ℕ} (hi : i < N) (hj : j < N) (h : next N i = next N j) : i = j := by
  rw [next_eq hi, next_eq hj] at h
  split at h <;> split at h <;> omega

theorem not_occupied_self : ¬ Occupied N tail tail i := by
  simp only [Occupied, Nat.le_refl, if_true]
  omega

/-- In a ring that is not empty the slot at the tail is occupied. -/
theorem occupied_tail (ht : tail < N) (hne : tail ≠ head) : Occupied N tail head tail := by
  refine ⟨ht, ?_⟩
  split <;> omega

/-- Reading the slot at the tail adds nothing to the occupied part. -/
theorem Occupied.of_pop (ht : tail < N) (hh : head < N) (hne : tail ≠ head)
    (h : Occupied N (next N tail) head i) : Occupied N tail head i := by
  obtain ⟨hi, h⟩ := h
  rw [next_eq ht] at h
  refine ⟨hi, ?_⟩
  split at h <;> split at h <;> split <;> omega

/-- Writing the slot at the head adds that slot at most. -/
theorem Occupied.of_push (ht : tail < N) (hh : head < N)
    (h : Occupied N tail (next N head) i) : Occupied N tail head i ∨ i = head := by
  obtain ⟨hi, h⟩ := h
  rw [next_eq hh] at h
  simp only [Occupied]
  split at h <;> split at h <;> split <;> omega

/-! ## What is in the ring -/

/-- How many slots are occupied. -/
def count (N tail head : ℕ) : ℕ := if tail ≤ head then head - tail else head + N - tail

/-- What the occupied slots hold, from the tail on. -/
def contents {α : Type*} (slots : ℕ → α) (N tail head : ℕ) : List α :=
  (List.range (count N tail head)).map fun k => slots ((tail + k) % N)

theorem count_self : count N tail tail = 0 := by simp [count]

theorem count_lt (ht : tail < N) (hh : head < N) : count N tail head < N := by
  unfold count
  split <;> omega

/-- The ring is full when one slot is left. -/
theorem next_eq_tail_iff (ht : tail < N) (hh : head < N) :
    next N head = tail ↔ count N tail head + 1 = N := by
  rw [next_eq hh]
  unfold count
  split <;> split <;> omega

/-- The same test from the slot before the tail. -/
theorem eq_prev_iff (ht : tail < N) (hh : head < N) :
    head = (tail + N - 1) % N ↔ next N head = tail := by
  rw [next_eq hh]
  by_cases hzero : tail = 0
  · rw [hzero, Nat.zero_add, Nat.mod_eq_of_lt (by omega)]
    split <;> omega
  · have hsum : tail + N - 1 = tail - 1 + N := by omega
    rw [hsum, Nat.add_mod_right, Nat.mod_eq_of_lt (by omega)]
    split <;> omega

theorem count_push (ht : tail < N) (hh : head < N) (hfull : next N head ≠ tail) :
    count N tail (next N head) = count N tail head + 1 := by
  rw [next_eq hh] at hfull ⊢
  unfold count
  split_ifs at hfull ⊢ <;> omega

theorem count_pop (ht : tail < N) (hh : head < N) (hne : tail ≠ head) :
    count N tail head = count N (next N tail) head + 1 := by
  rw [next_eq ht]
  unfold count
  split <;> split <;> split <;> omega

/-- The slot that many places after the tail. -/
theorem slot_count (ht : tail < N) (hh : head < N) : (tail + count N tail head) % N = head := by
  unfold count
  split
  · rw [Nat.mod_eq_of_lt] <;> omega
  · have hsum : tail + (head + N - tail) = head + N := by omega
    rw [hsum, Nat.add_mod_right, Nat.mod_eq_of_lt hh]

theorem slot_ne_head (ht : tail < N) (hh : head < N) {k : ℕ} (hk : k < count N tail head) :
    (tail + k) % N ≠ head := by
  unfold count at hk
  by_cases hwrap : tail + k < N
  · rw [Nat.mod_eq_of_lt hwrap]
    split at hk <;> omega
  · have hlt : tail + k - N < N := by
      split at hk <;> omega
    rw [Nat.mod_eq_sub_mod (by omega), Nat.mod_eq_of_lt hlt]
    split at hk <;> omega

variable {α : Type*} {slots : ℕ → α}

@[simp] theorem length_contents : (contents slots N tail head).length = count N tail head := by
  simp [contents]

/-- **Writing** puts the value behind what is there. -/
theorem contents_push (ht : tail < N) (hh : head < N) (hfull : next N head ≠ tail) (x : α) :
    contents (Function.update slots head x) N tail (next N head) =
      contents slots N tail head ++ [x] := by
  unfold contents
  rw [count_push ht hh hfull, List.range_succ, List.map_append, List.map_singleton,
    slot_count ht hh, Function.update_self]
  congr 1
  refine List.map_congr_left fun k hk => ?_
  exact Function.update_of_ne (slot_ne_head ht hh (List.mem_range.1 hk)) _ _

/-- **Reading** takes the value at the front. -/
theorem contents_pop (ht : tail < N) (hh : head < N) (hne : tail ≠ head) :
    contents slots N tail head = slots tail :: contents slots N (next N tail) head := by
  unfold contents
  rw [count_pop ht hh hne, List.range_succ_eq_map, List.map_cons, List.map_map, Nat.add_zero,
    Nat.mod_eq_of_lt ht]
  congr 1
  refine List.map_congr_left fun k _ => ?_
  have hslot : (tail + (k + 1)) % N = (next N tail + k) % N := by
    unfold next
    rw [Nat.mod_add_mod, Nat.add_assoc, Nat.add_comm 1 k]
  exact congrArg slots hslot

theorem contents_self : contents slots N tail tail = [] := by simp [contents, count_self]

/-! ## Blocks -/

/-- What `n` slots hold from `start` on, around the end of the ring. -/
def stretch (slots : ℕ → α) (N start n : ℕ) : List α :=
  (List.range n).map fun k => slots ((start + k) % N)

/-- `n` values are copied from `start` on in `src` to `place` on in `dst`. -/
def blit (dst : ℕ → α) (place : ℕ) (src : ℕ → α) (start n : ℕ) (i : ℕ) : α :=
  if place ≤ i ∧ i < place + n then src (start + (i - place)) else dst i

@[simp] theorem blit_zero (dst : ℕ → α) (place : ℕ) (src : ℕ → α) (start : ℕ) :
    blit dst place src start 0 = dst :=
  funext fun i => if_neg (by omega)

theorem map_blit {β : Type*} (g : α → β) (dst src : ℕ → α) (place start n i : ℕ) :
    g (blit dst place src start n i) =
      blit (fun i => g (dst i)) place (fun i => g (src i)) start n i :=
  apply_ite g _ _ _

@[simp] theorem length_stretch {n : ℕ} : (stretch slots N tail n).length = n := by simp [stretch]

theorem take_stretch (slots : ℕ → α) (N start m n : ℕ) :
    (stretch slots N start n).take m = stretch slots N start (min n m) := by
  rw [stretch, ← List.map_take, List.take_range, Nat.min_comm, stretch]

theorem drop_stretch (slots : ℕ → α) (N start m n : ℕ) :
    (stretch slots N start n).drop m =
      stretch slots N ((start + min n m) % N) (n - min n m) := by
  refine List.ext_getElem (by simp; omega) fun k h₁ _ => ?_
  have hk : k < n - m := by simpa using h₁
  have hmin : min n m = m := by omega
  simp only [stretch, List.getElem_drop, List.getElem_map, List.getElem_range, Nat.mod_add_mod,
    Nat.add_assoc, hmin]

/-- A slot no further than one turn after the tail. -/
theorem slot_eq {k : ℕ} (ht : tail < N) (hk : k ≤ N) :
    (tail + k) % N = if tail + k < N then tail + k else tail + k - N := by
  split
  · rename_i h
    exact Nat.mod_eq_of_lt h
  · rename_i h
    rw [Nat.mod_eq_sub_mod (not_lt.1 h), Nat.mod_eq_of_lt (by omega)]

/-- **A block is written** behind the `m` values that are there, in two pieces if it reaches the
end of the ring. -/
theorem stretch_store {block : ℕ → α} {m n : ℕ} (ht : tail < N) (hroom : m + n ≤ N) :
    stretch (blit (blit slots ((tail + m) % N) block 0 (min (N - (tail + m) % N) n)) 0 block
        (min (N - (tail + m) % N) n) (n - min (N - (tail + m) % N) n)) N tail (m + n) =
      stretch slots N tail m ++ (List.range n).map block := by
  rw [slot_eq ht (by omega)]
  refine List.ext_getElem (by simp) fun k h₁ _ => ?_
  have hk : k < m + n := by simpa using h₁
  by_cases hold : k < m
  · rw [List.getElem_append_left (by simpa using hold)]
    simp only [stretch, List.getElem_map, List.getElem_range, blit]
    rw [slot_eq ht (by omega)]
    split_ifs <;> first | rfl | omega
  · rw [List.getElem_append_right (by simpa using hold)]
    simp only [stretch, List.getElem_map, List.getElem_range, blit, List.length_map,
      List.length_range]
    rw [slot_eq ht (by omega)]
    split_ifs <;> first | rfl | omega | (congr 1; omega)

end MacHPSDR.Ring
