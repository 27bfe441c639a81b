import Mathlib

/-!
# Tables of slots

A fixed number of slots, each free or taken by an entry with a key and the time at which it was
taken. A slot is looked up by its key (`find`), entries are dropped when they have run out
(`expire`), and a new entry goes into the first free slot, or into the one that was taken longest
ago (`alloc`).

While no two entries have the same key (`Unique`) the table is a finite map (`get`): an entry that
is put into the slot at which its key belongs (`Home`) or taken out of it changes the map at that
key alone.
-/

namespace MacHPSDR

/-- What a slot holds. -/
structure Entry (κ υ : Type*) where
  key : κ
  /-- When the slot was taken. -/
  since : ℤ
  val : υ

/-- A table of `n` slots. -/
abbrev SlotTable (n : ℕ) (κ υ : Type*) := Fin n → Option (Entry κ υ)

namespace SlotTable

variable {n : ℕ} {κ υ : Type*}

/-- All slots are free. -/
def empty : SlotTable n κ υ := fun _ => none

/-- Take a slot. -/
def put (t : SlotTable n κ υ) (i : Fin n) (e : Entry κ υ) : SlotTable n κ υ :=
  Function.update t i (some e)

/-- Free a slot. -/
def clear (t : SlotTable n κ υ) (i : Fin n) : SlotTable n κ υ := Function.update t i none

/-- Free the slots whose entries have run out. -/
def expire (t : SlotTable n κ υ) (out : Entry κ υ → Bool) : SlotTable n κ υ :=
  fun i => (t i).filter fun e => !out e

/-- The first free slot. -/
def free (t : SlotTable n κ υ) : Option (Fin n) := (List.finRange n).find? fun i => (t i).isNone

/-- Of two slots the one that was taken before the other. -/
def older (t : SlotTable n κ υ) (best : Option (Fin n)) (i : Fin n) : Option (Fin n) :=
  match t i, best.bind t with
  | none, _ => best
  | some _, none => some i
  | some e, some b => if e.since < b.since then some i else best

/-- The first of the slots that were taken longest ago. -/
def oldest (t : SlotTable n κ υ) : Option (Fin n) := (List.finRange n).foldl t.older none

/-- The slot for a new entry. -/
def alloc [NeZero n] (t : SlotTable n κ υ) : Fin n := (t.free.or t.oldest).getD 0

section Keys

variable [DecidableEq κ]

/-- The first slot with this key. -/
def find (t : SlotTable n κ υ) (k : κ) : Option (Fin n) :=
  (List.finRange n).find? fun i => (t i).any fun e => decide (e.key = k)

/-- What the table holds under a key. -/
def get (t : SlotTable n κ υ) (k : κ) : Option (Entry κ υ) := (t.find k).bind t

end Keys

/-! ## Free slots -/

theorem free_eq_some {t : SlotTable n κ υ} {i : Fin n} (h : t.free = some i) : t i = none := by
  have hi := List.find?_some h
  simpa using hi

theorem exists_free {t : SlotTable n κ υ} (h : ∃ i, t i = none) : ∃ i, t.free = some i := by
  obtain ⟨i, hi⟩ := h
  have hsome : t.free.isSome := by
    rw [free, List.find?_isSome]
    exact ⟨i, List.mem_finRange i, by simp [hi]⟩
  exact Option.isSome_iff_exists.1 hsome

theorem alloc_of_free [NeZero n] {t : SlotTable n κ υ} (h : ∃ i, t i = none) :
    t t.alloc = none := by
  obtain ⟨i, hi⟩ := exists_free h
  simp only [alloc, hi, Option.some_or, Option.getD_some]
  exact free_eq_some hi

/-! ## Expiry -/

theorem expire_eq_some {t : SlotTable n κ υ} {out : Entry κ υ → Bool} {i : Fin n}
    {e : Entry κ υ} : t.expire out i = some e ↔ t i = some e ∧ out e = false := by
  simp [expire, Option.filter_eq_some_iff]

/-- Nothing has run out. -/
theorem expire_eq_self {t : SlotTable n κ υ} {out : Entry κ υ → Bool}
    (h : ∀ i e, t i = some e → out e = false) : t.expire out = t := by
  funext i
  cases hi : t i with
  | none => simp [expire, hi]
  | some e => simp [expire, hi, h i e hi]

/-- No entry is older than the time that it may stay. -/
theorem expire_eq_self_of_all {t : SlotTable n κ υ} {now : ℤ} {stay : Entry κ υ → ℤ}
    (h : ∀ i, (t i).all fun e => decide (now - e.since ≤ stay e)) :
    t.expire (fun e => decide (now - e.since > stay e)) = t := by
  refine expire_eq_self fun i e he => ?_
  have hle := h i
  rw [he] at hle
  simpa using hle

/-! ## The table as a map -/

/-- No two entries have the same key. -/
def Unique (t : SlotTable n κ υ) : Prop :=
  ∀ i j e e', t i = some e → t j = some e' → e.key = e'.key → i = j

theorem unique_empty : Unique (empty : SlotTable n κ υ) := by
  intro i j e e' h
  cases h

theorem Unique.expire {t : SlotTable n κ υ} (h : t.Unique) (out : Entry κ υ → Bool) :
    (t.expire out).Unique := by
  intro i j e e' he he' hkey
  exact h i j e e' (expire_eq_some.1 he).1 (expire_eq_some.1 he').1 hkey

theorem Unique.clear {t : SlotTable n κ υ} (h : t.Unique) (i : Fin n) : (t.clear i).Unique := by
  intro j j' e e' he he' hkey
  have hne {j : Fin n} {e : Entry κ υ} (he : t.clear i j = some e) : t j = some e := by
    by_cases hj : j = i
    · simp [SlotTable.clear, hj] at he
    · simpa [SlotTable.clear, hj] using he
  exact h j j' e e' (hne he) (hne he') hkey

variable [DecidableEq κ]

theorem find_eq_some {t : SlotTable n κ υ} {k : κ} {i : Fin n} (h : t.find k = some i) :
    ∃ e, t i = some e ∧ e.key = k := by
  have hi := List.find?_some h
  simpa [Option.any_eq_true] using hi

theorem find_eq_none {t : SlotTable n κ υ} {k : κ} :
    t.find k = none ↔ ∀ i e, t i = some e → e.key ≠ k := by
  simp [find, Option.any_eq_false]

theorem get_eq_none {t : SlotTable n κ υ} {k : κ} :
    t.get k = none ↔ ∀ i e, t i = some e → e.key ≠ k := by
  rw [← find_eq_none, get]
  cases hf : t.find k with
  | none => simp
  | some i =>
    obtain ⟨e, he, -⟩ := find_eq_some hf
    simp [he]

@[simp] theorem get_empty (k : κ) : (empty : SlotTable n κ υ).get k = none :=
  get_eq_none.2 fun i e he => by cases he

theorem get_eq_some {t : SlotTable n κ υ} {k : κ} {e : Entry κ υ} (h : t.get k = some e) :
    ∃ i, t.find k = some i ∧ t i = some e ∧ e.key = k := by
  obtain ⟨i, hi, he⟩ := Option.bind_eq_some_iff.1 h
  obtain ⟨e', he', hkey⟩ := find_eq_some hi
  obtain rfl := Option.some.inj (he.symm.trans he')
  exact ⟨i, hi, he, hkey⟩

namespace Unique

variable {t t' : SlotTable n κ υ} {k : κ} {i : Fin n}

theorem get_eq_some_iff (h : t.Unique) {e : Entry κ υ} :
    t.get k = some e ↔ ∃ i, t i = some e ∧ e.key = k := by
  constructor
  · intro he
    obtain ⟨i, -, hi⟩ := get_eq_some he
    exact ⟨i, hi⟩
  · rintro ⟨i, hi, hkey⟩
    cases hget : t.get k with
    | none => exact absurd hkey (get_eq_none.1 hget i e hi)
    | some e' =>
      obtain ⟨j, -, hj, hkey'⟩ := get_eq_some hget
      obtain rfl := h i j e e' hi hj (hkey.trans hkey'.symm)
      exact hj.symm.trans hi

/-- Two tables with the same entries of a key agree there. -/
theorem get_congr (h : t.Unique) (h' : t'.Unique)
    (heq : ∀ e, e.key = k → ((∃ i, t i = some e) ↔ ∃ i, t' i = some e)) :
    t.get k = t'.get k := by
  refine Option.ext fun e => ?_
  rw [h.get_eq_some_iff, h'.get_eq_some_iff]
  constructor
  · rintro ⟨i, hi, hkey⟩
    obtain ⟨j, hj⟩ := (heq e hkey).1 ⟨i, hi⟩
    exact ⟨j, hj, hkey⟩
  · rintro ⟨i, hi, hkey⟩
    obtain ⟨j, hj⟩ := (heq e hkey).2 ⟨i, hi⟩
    exact ⟨j, hj, hkey⟩

theorem get_expire (h : t.Unique) (out : Entry κ υ → Bool) :
    (t.expire out).get k = (t.get k).filter fun e => !out e := by
  refine Option.ext fun e => ?_
  rw [(h.expire out).get_eq_some_iff, Option.filter_eq_some_iff, h.get_eq_some_iff]
  simp [expire_eq_some, and_comm, and_left_comm]

end Unique

/-! ## The slot of a key -/

/-- No slot but this one has the key. -/
def Sole (t : SlotTable n κ υ) (k : κ) (i : Fin n) : Prop :=
  ∀ j e, t j = some e → e.key = k → j = i

/-- Where an entry with key `k` belongs: in the slot of the key, or in a free one if it has none. -/
def Home (t : SlotTable n κ υ) (k : κ) (i : Fin n) : Prop :=
  t.find k = some i ∨ t.find k = none ∧ t i = none

section Sole

variable {t : SlotTable n κ υ} {k : κ} {i : Fin n}

omit [DecidableEq κ] in
theorem put_eq_some {e e' : Entry κ υ} {j : Fin n} (h : t.put i e j = some e') :
    (j = i ∧ e' = e) ∨ (j ≠ i ∧ t j = some e') := by
  by_cases hj : j = i
  · subst hj
    exact .inl ⟨rfl, by simpa [put, eq_comm] using h⟩
  · exact .inr ⟨hj, by simpa [put, hj] using h⟩

theorem sole_of_find_eq_none (h : t.find k = none) (i : Fin n) : t.Sole k i :=
  fun j e he hkey => absurd hkey (find_eq_none.1 h j e he)

omit [DecidableEq κ] in
theorem Sole.unique_put (h : t.Sole k i) (hu : t.Unique) {e : Entry κ υ} (hkey : e.key = k) :
    (t.put i e).Unique := by
  intro j j' a a' ha ha' hkeys
  rcases put_eq_some ha with ⟨hj, rfl⟩ | ⟨hj, ht⟩ <;>
    rcases put_eq_some ha' with ⟨hj', rfl⟩ | ⟨hj', ht'⟩
  · exact hj.trans hj'.symm
  · exact absurd (h j' a' ht' (hkeys.symm.trans hkey)) hj'
  · exact absurd (h j a ht (hkeys.trans hkey)) hj
  · exact hu j j' a a' ht ht' hkeys

theorem Sole.get_put (h : t.Sole k i) (hu : t.Unique) {e : Entry κ υ} (hkey : e.key = k) :
    (t.put i e).get k = some e :=
  (h.unique_put hu hkey).get_eq_some_iff.2 ⟨i, by simp [put], hkey⟩

/-- What else the table holds it has held before; the slot may have had another entry. -/
theorem Sole.get_of_get_put (h : t.Sole k i) (hu : t.Unique) {e a : Entry κ υ} (hkey : e.key = k)
    {k' : κ} (hne : k' ≠ k) (ha : (t.put i e).get k' = some a) : t.get k' = some a := by
  obtain ⟨j, hj, hjkey⟩ := (h.unique_put hu hkey).get_eq_some_iff.1 ha
  rcases put_eq_some hj with ⟨-, rfl⟩ | ⟨-, ht⟩
  · exact absurd (hjkey.symm.trans hkey) hne
  · exact hu.get_eq_some_iff.2 ⟨j, ht, hjkey⟩

theorem Unique.get_of_get_clear (hu : t.Unique) {k' : κ} {a : Entry κ υ}
    (ha : (t.clear i).get k' = some a) : t.get k' = some a := by
  obtain ⟨j, hj, hjkey⟩ := (hu.clear i).get_eq_some_iff.1 ha
  refine hu.get_eq_some_iff.2 ⟨j, ?_, hjkey⟩
  by_cases hji : j = i
  · simp [SlotTable.clear, hji] at hj
  · simpa [SlotTable.clear, hji] using hj

end Sole

namespace Home

variable {t : SlotTable n κ υ} {k : κ} {i : Fin n}

theorem sole (h : t.Home k i) (hu : t.Unique) : t.Sole k i := by
  intro j e he hkey
  rcases h with hfind | ⟨hnone, -⟩
  · obtain ⟨e', he', hkey'⟩ := find_eq_some hfind
    exact hu j i e e' he he' (hkey.trans hkey'.symm)
  · exact absurd hkey (find_eq_none.1 hnone j e he)

/-- The slot has no other key. -/
theorem key_of_eq_some (h : t.Home k i) {e : Entry κ υ} (he : t i = some e) : e.key = k := by
  rcases h with hfind | ⟨-, hfree⟩
  · obtain ⟨e', he', hkey'⟩ := find_eq_some hfind
    obtain rfl := Option.some.inj (he.symm.trans he')
    exact hkey'
  · rw [hfree] at he
    cases he

theorem unique_put (h : t.Home k i) (hu : t.Unique) {e : Entry κ υ} (hkey : e.key = k) :
    (t.put i e).Unique :=
  (h.sole hu).unique_put hu hkey

theorem get_put (h : t.Home k i) (hu : t.Unique) {e : Entry κ υ} (hkey : e.key = k) :
    (t.put i e).get k = some e :=
  (h.sole hu).get_put hu hkey

theorem get_put_of_ne (h : t.Home k i) (hu : t.Unique) {e : Entry κ υ} (hkey : e.key = k) {k' : κ}
    (hne : k' ≠ k) : (t.put i e).get k' = t.get k' := by
  refine (h.unique_put hu hkey).get_congr hu fun a ha => ?_
  constructor
  · rintro ⟨j, hj⟩
    rcases put_eq_some hj with ⟨-, rfl⟩ | ⟨-, ht⟩
    · exact absurd (ha.symm.trans hkey) hne
    · exact ⟨j, ht⟩
  · rintro ⟨j, hj⟩
    have hji : j ≠ i := by
      rintro rfl
      exact hne (ha.symm.trans (h.key_of_eq_some hj))
    exact ⟨j, by simpa [put, hji] using hj⟩

theorem get_clear (h : t.Home k i) (hu : t.Unique) : (t.clear i).get k = none := by
  refine get_eq_none.2 fun j e he hkey => ?_
  by_cases hj : j = i
  · simp [SlotTable.clear, hj] at he
  · exact hj (h.sole hu j e (by simpa [SlotTable.clear, hj] using he) hkey)

theorem get_clear_of_ne (h : t.Home k i) (hu : t.Unique) {k' : κ} (hne : k' ≠ k) :
    (t.clear i).get k' = t.get k' := by
  refine (hu.clear i).get_congr hu fun a ha => ?_
  constructor
  · rintro ⟨j, hj⟩
    by_cases hji : j = i
    · simp [SlotTable.clear, hji] at hj
    · exact ⟨j, by simpa [SlotTable.clear, hji] using hj⟩
  · rintro ⟨j, hj⟩
    have hji : j ≠ i := by
      rintro rfl
      exact hne (ha.symm.trans (h.key_of_eq_some hj))
    exact ⟨j, by simpa [SlotTable.clear, hji] using hj⟩

end Home

/-! ## One key at a time -/

/-- From `t` to `t'` the value under `k` has become one with the property `P`; the others stay. -/
structure Updates (t t' : SlotTable n κ υ) (k : κ) (P : Option υ → Prop) : Prop where
  unique : t'.Unique
  here : P ((t'.get k).map Entry.val)
  others : ∀ k', k' ≠ k → t'.get k' = t.get k'

section Updates

variable {t t' : SlotTable n κ υ} {k : κ} {i : Fin n} {P : Option υ → Prop}

theorem Updates.refl (hu : t.Unique) (hP : P ((t.get k).map Entry.val)) : t.Updates t k P :=
  ⟨hu, hP, fun _ _ => rfl⟩

theorem Home.updates_put (h : t.Home k i) (hu : t.Unique) {e : Entry κ υ} (hkey : e.key = k)
    (hP : P (some e.val)) : t.Updates (t.put i e) k P where
  unique := h.unique_put hu hkey
  here := by
    rw [h.get_put hu hkey]
    exact hP
  others _ hne := h.get_put_of_ne hu hkey hne

theorem Home.updates_clear (h : t.Home k i) (hu : t.Unique) (hP : P none) :
    t.Updates (t.clear i) k P where
  unique := hu.clear i
  here := by
    rw [h.get_clear hu]
    exact hP
  others _ hne := h.get_clear_of_ne hu hne

end Updates

/-- The value under every key has the property that `R` asks of it. -/
structure Tracks (t : SlotTable n κ υ) (R : κ → Option υ → Prop) : Prop where
  unique : t.Unique
  holds : ∀ k, R k ((t.get k).map Entry.val)

theorem tracks_empty {R : κ → Option υ → Prop} (h : ∀ k, R k none) :
    (empty : SlotTable n κ υ).Tracks R where
  unique := unique_empty
  holds k := by
    rw [get_empty]
    exact h k

/-- **One key changes** and the rest of the table goes on as before. -/
theorem Tracks.update {t t' : SlotTable n κ υ} {R R' : κ → Option υ → Prop} {k : κ}
    (h : t.Tracks R) (hup : t.Updates t' k (R' k)) (hsame : ∀ k', k' ≠ k → R' k' = R k') :
    t'.Tracks R' where
  unique := hup.unique
  holds k' := by
    by_cases hk : k' = k
    · subst hk
      exact hup.here
    · rw [hsame k' hk, hup.others k' hk]
      exact h.holds k'

end SlotTable

end MacHPSDR
