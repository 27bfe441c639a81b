import Mathlib

/-!
# Finite maps with names in sections

A finite map whose names are strings has a section for each string: what it says of the names that
begin with it. A list of entries is written over a map (`writeAll`), the sections of some strings
are put aside (`retainAll`) and merged back over what has been written since (`release`).
-/

namespace MacHPSDR.PrefixMap

variable {α β : Type*} [DecidableEq α]

abbrev Table (α β : Type*) := Finmap fun _ : List α => β

/-- What a table says of the names that begin with a string. -/
def sectionOf (s : Table α β) (head : List α) : List α → Option β := fun f => s.lookup (head ++ f)

theorem lookup_union (s t : Table α β) (k : List α) :
    (s ∪ t).lookup k = (s.lookup k).or (t.lookup k) := by
  by_cases h : k ∈ s
  · obtain ⟨v, hv⟩ := Finmap.mem_iff.1 h
    rw [Finmap.lookup_union_left h, hv, Option.some_or]
  · rw [Finmap.lookup_union_right h, Finmap.lookup_eq_none.2 h, Option.none_or]

/-- The entries of a table whose names satisfy a condition. -/
def keep (p : List α → Bool) (s : Table α β) : Table α β :=
  Finmap.keysLookupEquiv.symm ⟨(s.keys.filter (p ·), fun k => if p k then s.lookup k else none), by
    intro k
    cases hp : p k with
    | false => simp [hp]
    | true => simp [hp, Finmap.lookup_isSome, Finmap.mem_keys]⟩

@[simp] theorem lookup_keep (p : List α → Bool) (s : Table α β) (k : List α) :
    (keep p s).lookup k = if p k then s.lookup k else none := by
  rw [keep, Finmap.keysLookupEquiv_symm_apply_lookup]

/-! ## Writing -/

/-- Write the entries of a list, one after the other. -/
def writeAll (s : Table α β) (es : List (List α × β)) : Table α β :=
  es.foldl (fun s e => s.insert e.1 e.2) s

@[simp] theorem writeAll_nil (s : Table α β) : writeAll s [] = s := rfl

theorem writeAll_append (s : Table α β) (es fs : List (List α × β)) :
    writeAll s (es ++ fs) = writeAll (writeAll s es) fs := List.foldl_append

/-- The last entry of a list under a name. -/
def lastOf (es : List (List α × β)) (k : List α) : Option β := (writeAll ∅ es).lookup k

theorem lookup_writeAll (s : Table α β) (es : List (List α × β)) (k : List α) :
    (writeAll s es).lookup k = (lastOf es k).or (s.lookup k) := by
  induction es using List.reverseRecOn with
  | nil => rw [lastOf, writeAll_nil, writeAll_nil, Finmap.lookup_empty, Option.none_or]
  | append_singleton es e ih =>
    have hone : ∀ t : Table α β, writeAll t [e] = t.insert e.1 e.2 := fun t => rfl
    rw [lastOf, writeAll_append, writeAll_append, hone, hone]
    by_cases he : k = e.1
    · subst he
      rw [Finmap.lookup_insert, Finmap.lookup_insert, Option.some_or]
    · rw [Finmap.lookup_insert_of_ne _ he, Finmap.lookup_insert_of_ne _ he, ih, lastOf]

theorem lastOf_append (es fs : List (List α × β)) (k : List α) :
    lastOf (es ++ fs) k = (lastOf fs k).or (lastOf es k) := by
  rw [lastOf, writeAll_append, lookup_writeAll, lastOf, lastOf]

theorem lastOf_cons (e : List α × β) (es : List (List α × β)) (k : List α) :
    lastOf (e :: es) k = (lastOf es k).or (lastOf [e] k) := lastOf_append [e] es k

@[simp] theorem lastOf_nil (k : List α) : lastOf ([] : List (List α × β)) k = none := by
  rw [lastOf, writeAll_nil, Finmap.lookup_empty]

theorem lastOf_singleton (e : List α × β) (k : List α) :
    lastOf [e] k = if k = e.1 then some e.2 else none := by
  have hone : writeAll ∅ [e] = (∅ : Table α β).insert e.1 e.2 := rfl
  rw [lastOf, hone]
  split_ifs with h
  · rw [h, Finmap.lookup_insert]
  · rw [Finmap.lookup_insert_of_ne _ h, Finmap.lookup_empty]

/-- A name that no entry has. -/
theorem lastOf_eq_none {es : List (List α × β)} {k : List α} (h : ∀ e ∈ es, e.1 ≠ k) :
    lastOf es k = none := by
  induction es with
  | nil => exact lastOf_nil k
  | cons e es ih =>
    rw [List.forall_mem_cons] at h
    rw [lastOf_cons, ih h.2, Option.none_or, lastOf_singleton, if_neg (Ne.symm h.1)]

/-- Entries under names that all begin with a string. -/
theorem lastOf_map_append (head : List α) (es : List (List α × β)) (f : List α) :
    lastOf (es.map fun e => (head ++ e.1, e.2)) (head ++ f) = lastOf es f := by
  induction es with
  | nil => rw [List.map_nil, lastOf_nil, lastOf_nil]
  | cons e es ih =>
    rw [List.map_cons, lastOf_cons, lastOf_cons e es, ih, lastOf_singleton, lastOf_singleton]
    simp only [List.append_cancel_left_eq]

/-! ## Putting sections aside -/

/-- A table and what has been put aside. -/
structure Stash (α β : Type*) where
  active : Table α β
  aside : Table α β

/-- Put the section of a string aside. -/
def retain (st : Stash α β) (head : List α) : Stash α β where
  active := keep (fun k => !head.isPrefixOf k) st.active
  aside := keep (head.isPrefixOf ·) st.active ∪ st.aside

def retainAll (st : Stash α β) (heads : List (List α)) : Stash α β := heads.foldl retain st

/-- Merge what was put aside back over the table. -/
def release (st : Stash α β) : Stash α β := ⟨st.aside ∪ st.active, ∅⟩

theorem lookup_aside_retainAll (heads : List (List α)) (st : Stash α β) (k : List α) :
    (retainAll st heads).aside.lookup k =
      if ∃ h ∈ heads, h <+: k then (st.active.lookup k).or (st.aside.lookup k)
      else st.aside.lookup k := by
  induction heads generalizing st with
  | nil => simp [retainAll]
  | cons h heads ih =>
    have hcons : retainAll st (h :: heads) = retainAll (retain st h) heads := rfl
    rw [hcons, ih]
    simp only [retain, lookup_union, lookup_keep, List.isPrefixOf_iff_prefix, Bool.not_eq_true',
      List.exists_mem_cons_iff]
    by_cases hh : h <+: k
    · have hb : h.isPrefixOf k = true := List.isPrefixOf_iff_prefix.2 hh
      simp [hh, hb]
    · have hb : h.isPrefixOf k = false := by
        rw [← Bool.not_eq_true, List.isPrefixOf_iff_prefix]
        exact hh
      simp [hh, hb]

/-- What was put aside in an empty stash and merged back: the old value of a name in a section that
was put aside, and what has been written since of every other name. -/
theorem lookup_release (st : Stash α β) (hst : st.aside = ∅) (heads : List (List α))
    (s : Table α β) (k : List α) :
    (release ⟨s, (retainAll st heads).aside⟩).active.lookup k =
      if ∃ h ∈ heads, h <+: k then (st.active.lookup k).or (s.lookup k) else s.lookup k := by
  simp only [release, lookup_union, lookup_aside_retainAll, hst, Finmap.lookup_empty]
  split_ifs
  · rw [Option.or_none]
  · rw [Option.none_or]

end MacHPSDR.PrefixMap
