import Mathlib

/-!
# Rows of slots that are kept closed up

A fixed number of slots, each free or with an entry. An entry that is not there yet is put into the
first free slot (`add`); when entries are taken out, those that are left move up (`remove`). A row
without a gap is that of a list (`ofList`), and on such rows adding an entry appends it and
removing entries filters them out.
-/

namespace MacHPSDR

/-- A row of `n` slots. -/
abbrev SlotRow (n : ℕ) (α : Type*) := Fin n → Option α

namespace SlotRow

variable {n : ℕ} {α : Type*}

/-- The first slot with an entry that satisfies `p`. -/
def find (row : SlotRow n α) (p : α → Bool) : Option (Fin n) := Fin.find? fun i => (row i).any p

/-- The first free slot. -/
def free (row : SlotRow n α) : Option (Fin n) := Fin.find? fun i => (row i).isNone

/-- The slot of an entry that satisfies `p`; if there is none, `a` takes the first free slot. -/
def add (row : SlotRow n α) (p : α → Bool) (a : α) : SlotRow n α × Option (Fin n) :=
  match row.find p with
  | some i => (row, some i)
  | none =>
    match row.free with
    | some i => (Function.update row i (some a), some i)
    | none => (row, none)

/-- The entries, in the order of their slots. -/
def entries (row : SlotRow n α) : List α := (List.finRange n).filterMap row

/-- The row with these entries in its first slots. -/
def ofList (l : List α) : SlotRow n α := fun i => l[(i : ℕ)]?

/-- The entries that satisfy `p` are taken out, and the others move up. -/
def remove (row : SlotRow n α) (p : α → Bool) : SlotRow n α :=
  ofList (entries fun i => (row i).filter fun a => !p a)

/-! ## Any row -/

theorem find_eq_none {row : SlotRow n α} {p : α → Bool} :
    row.find p = none ↔ ∀ i, ∀ a ∈ row i, p a = false := by
  simp [find, Option.any_eq_false]

theorem find_eq_some {row : SlotRow n α} {p : α → Bool} {i : Fin n} (h : row.find p = some i) :
    ∃ a, row i = some a ∧ p a = true :=
  (Option.any_eq_true ..).1 (Fin.eq_true_of_find?_eq_some h)

/-- While a slot is free, an entry is found or put in. -/
theorem add_isSome {row : SlotRow n α} {p : α → Bool} {a : α} {i : Fin n} (h : row i = none) :
    (row.add p a).2.isSome = true := by
  have hfree : row.free.isSome = true := Fin.isSome_find?_iff.2 ⟨i, by simp [h]⟩
  obtain ⟨j, hj⟩ := Option.isSome_iff_exists.1 hfree
  unfold add
  rw [hj]
  split <;> rfl

/-- An entry that has a slot keeps it, and nothing changes. -/
theorem add_of_find {row : SlotRow n α} {p : α → Bool} {a : α} {i : Fin n}
    (h : row.find p = some i) : row.add p a = (row, some i) := by
  unfold add
  rw [h]

/-- If the entry in a slot satisfies `p`, then so it does afterwards. -/
theorem add_all {row : SlotRow n α} {p : α → Bool} {a : α} (ha : p a = true) {i : Fin n}
    (h : (row i).all p = true) : ((row.add p a).1 i).all p = true := by
  unfold add
  split
  · exact h
  · split
    · rename_i j _
      rcases eq_or_ne i j with rfl | hne
      · simpa using ha
      · simpa [hne] using h
    · exact h

/-- An entry is found or put in, if there is none in the first slot but such as satisfy `p`. -/
theorem add_isSome_of_all {row : SlotRow n α} {p : α → Bool} {a : α} {i : Fin n}
    (h : (row i).all p = true) : (row.add p a).2.isSome = true := by
  cases hi : row i with
  | none => exact add_isSome hi
  | some b =>
    obtain ⟨j, hj⟩ : ∃ j, row.find p = some j := by
      refine Option.isSome_iff_exists.1 (Fin.isSome_find?_iff.2 ⟨i, ?_⟩)
      simpa [hi] using h
    rw [add_of_find hj]
    rfl

/-! ## Rows without a gap -/

theorem ofList_zero [NeZero n] (l : List α) : (ofList l : SlotRow n α) 0 = l.head? := by
  simp [ofList, List.head?_eq_getElem?]

theorem entries_ofList {l : List α} (h : l.length ≤ n) :
    (ofList l : SlotRow n α).entries = l := by
  have hmap : (List.finRange n).map (ofList l : SlotRow n α) =
      l.map some ++ List.replicate (n - l.length) none := by
    refine List.ext_getElem (by simp; omega) fun i hi _ => ?_
    rw [List.getElem_append]
    split
    · rename_i hlt
      simp only [List.length_map] at hlt
      simp [ofList, hlt]
    · rename_i hge
      simp only [List.length_map, not_lt] at hge
      simp [ofList, hge]
  have hrow := List.filterMap_map (g := id) (f := (ofList l : SlotRow n α)) (l := List.finRange n)
  rw [hmap, List.filterMap_append] at hrow
  simpa [entries, eq_comm] using hrow

theorem find_ofList_eq_none {l : List α} {p : α → Bool} (hp : ∀ a ∈ l, p a = false) :
    (ofList l : SlotRow n α).find p = none :=
  find_eq_none.2 fun _ a ha => hp a (List.mem_of_getElem? ha)

theorem free_ofList {l : List α} (h : l.length < n) :
    (ofList l : SlotRow n α).free = some ⟨l.length, h⟩ :=
  Fin.find?_eq_some_iff.2 ⟨by simp [ofList], fun j hj => by simpa [ofList] using Fin.lt_def.1 hj⟩

/-- Putting an entry into the first free slot appends it. -/
theorem add_ofList {l : List α} {p : α → Bool} {a : α} (h : l.length < n)
    (hp : ∀ b ∈ l, p b = false) :
    (ofList l : SlotRow n α).add p a = (ofList (l ++ [a]), some ⟨l.length, h⟩) := by
  rw [add, find_ofList_eq_none hp, free_ofList h]
  refine Prod.ext (funext fun i => ?_) rfl
  rcases eq_or_ne i ⟨l.length, h⟩ with rfl | hne
  · simp [ofList]
  · have hi : (i : ℕ) ≠ l.length := fun hi => hne (Fin.ext hi)
    simp only [Function.update_of_ne hne, ofList]
    rcases Nat.lt_or_gt_of_ne hi with hlt | hgt
    · rw [List.getElem?_append_left hlt]
    · rw [List.getElem?_eq_none hgt.le, List.getElem?_eq_none (by simpa using hgt)]

/-- A full row stays as it is. -/
theorem add_ofList_full {l : List α} {p : α → Bool} {a : α} (h : n ≤ l.length)
    (hp : ∀ b ∈ l, p b = false) : (ofList l : SlotRow n α).add p a = (ofList l, none) := by
  have hfree : (ofList l : SlotRow n α).free = none :=
    Fin.find?_eq_none_iff.2 fun i => by simpa [ofList] using i.2.trans_le h
  rw [add, find_ofList_eq_none hp, hfree]

/-- Taking entries out filters them out. -/
theorem remove_ofList {l : List α} {p : α → Bool} (h : l.length ≤ n) :
    (ofList l : SlotRow n α).remove p = ofList (l.filter fun a => !p a) := by
  have hrow : (fun i => (ofList l i).filter fun a => !p a) =
      fun i => (ofList l : SlotRow n α) i |>.bind (Option.guard fun a => !p a) := by
    funext i
    cases (ofList l : SlotRow n α) i <;> simp [Option.filter, Option.guard]
  rw [remove, entries, hrow, ← List.filterMap_filterMap]
  have hentries := entries_ofList h
  rw [entries] at hentries
  rw [hentries, List.filterMap_eq_filter]

end SlotRow

end MacHPSDR
