import Mathlib

/-!
# Tables with linear probing

A table has `n` slots in a ring, each free or with an entry. An entry has a home slot, and is put
into the first free slot from there on; to find it, the slots are looked at from its home on, up to
a free one (`walk`). So no slot between the home of an entry and the entry may be free (`Chained`).
Entries that are put in keep this; when entries are taken out it is kept exactly if none of them is
on the way to one that stays (`Chained.filter_iff`).
-/

namespace MacHPSDR

/-- A table of `n` slots. -/
abbrev ProbeTable (n : ℕ) (α : Type*) := Fin n → Option α

namespace ProbeTable

variable {n : ℕ} {α : Type*}

/-! ## The ring of slots -/

/-- The slot after `i`. -/
def next (i : Fin n) : Fin n := ⟨(i + 1) % n, Nat.mod_lt _ i.pos⟩

/-- The slot `k` places after `h`. -/
def slot (h : Fin n) (k : ℕ) : Fin n := ⟨(h + k) % n, Nat.mod_lt _ h.pos⟩

/-- How many places `i` is after `h`. -/
def dist (h i : Fin n) : ℕ := if h ≤ i then i - h else i + n - h

theorem slot_zero (h : Fin n) : slot h 0 = h := Fin.ext (Nat.mod_eq_of_lt h.2)

theorem slot_next (h : Fin n) (k : ℕ) : slot (next h) k = slot h (k + 1) := by
  apply Fin.ext
  simp only [slot, next, Nat.mod_add_mod]
  rw [Nat.add_right_comm, Nat.add_assoc]

theorem dist_lt (h i : Fin n) : dist h i < n := by
  unfold dist
  split_ifs with hle
  · omega
  · have := Fin.lt_def.1 (not_le.1 hle)
    omega

theorem slot_dist (h i : Fin n) : slot h (dist h i) = i := by
  apply Fin.ext
  unfold slot dist
  dsimp only
  split_ifs with hle
  · have := Fin.le_def.1 hle
    rw [Nat.mod_eq_of_lt (by omega)]
    omega
  · have := Fin.lt_def.1 (not_le.1 hle)
    rw [show (h : ℕ) + (i + n - h) = i + n by omega, Nat.add_mod_right, Nat.mod_eq_of_lt i.2]

theorem dist_slot (h : Fin n) {k : ℕ} (hk : k < n) : dist h (slot h k) = k := by
  unfold slot dist
  simp only [Fin.le_def]
  rcases Nat.lt_or_ge (h + k) n with hlt | hge
  · rw [Nat.mod_eq_of_lt hlt]
    split_ifs <;> omega
  · have hmod : ((h : ℕ) + k) % n = h + k - n := by
      rw [Nat.mod_eq_sub_mod hge, Nat.mod_eq_of_lt (by omega)]
    rw [hmod]
    split_ifs <;> omega

theorem dist_self (h : Fin n) : dist h h = 0 := by
  unfold dist
  simp

/-! ## Looking for an entry -/

/-- What comes of it: a slot that is free, one with the entry, or neither. -/
inductive Probe (n : ℕ)
  | free (i : Fin n)
  | hit (i : Fin n)
  | full

/-- At most `m` slots are looked at from `i` on, up to a free one or one with an entry that
satisfies `p`. -/
def walk (t : ProbeTable n α) (p : α → Bool) : ℕ → Fin n → Probe n
  | 0, _ => .full
  | m + 1, i =>
    match t i with
    | none => .free i
    | some a => if p a then .hit i else walk t p m (next i)

/-- The slots that are looked at. -/
def looked (t : ProbeTable n α) (p : α → Bool) : ℕ → Fin n → List (Fin n)
  | 0, _ => []
  | m + 1, i =>
    i :: match t i with
      | none => []
      | some a => if p a then [] else looked t p m (next i)

variable {t : ProbeTable n α} {p : α → Bool}

/-- The first `k` slots have entries that are not looked for. -/
def Skips (t : ProbeTable n α) (p : α → Bool) (h : Fin n) (k : ℕ) : Prop :=
  ∀ j < k, ∃ a, t (slot h j) = some a ∧ p a = false

theorem Skips.succ {h : Fin n} {a : α} (ha : t h = some a) (hp : p a = false) {k : ℕ}
    (hskips : Skips t p (next h) k) : Skips t p h (k + 1) := by
  intro j hj
  cases j with
  | zero => exact ⟨a, by rwa [slot_zero], hp⟩
  | succ j =>
    rw [← slot_next]
    exact hskips j (by omega)

/-- The three ways in which a walk ends. -/
theorem walk_cases (t : ProbeTable n α) (p : α → Bool) (m : ℕ) (h : Fin n) :
    walk t p m h = .full ∧ Skips t p h m ∨
    (∃ k < m, walk t p m h = .free (slot h k) ∧ t (slot h k) = none ∧ Skips t p h k) ∨
    ∃ k < m, ∃ a, walk t p m h = .hit (slot h k) ∧ t (slot h k) = some a ∧ p a = true ∧
      Skips t p h k := by
  induction m generalizing h with
  | zero => exact .inl ⟨rfl, fun _ hj => absurd hj (Nat.not_lt_zero _)⟩
  | succ m ih =>
    have hnone : Skips t p h 0 := fun _ hj => absurd hj (Nat.not_lt_zero _)
    cases ha : t h with
    | none =>
      refine .inr (.inl ⟨0, Nat.succ_pos m, ?_, ?_, hnone⟩)
      · rw [slot_zero, walk, ha]
      · rwa [slot_zero]
    | some a =>
      cases hp : p a with
      | true =>
        refine .inr (.inr ⟨0, Nat.succ_pos m, a, ?_, ?_, hp, hnone⟩)
        · rw [slot_zero, walk, ha]
          exact if_pos hp
        · rwa [slot_zero]
      | false =>
        have hwalk : walk t p (m + 1) h = walk t p m (next h) := by
          rw [walk, ha]
          exact if_neg (by simp [hp])
        rw [hwalk]
        rcases ih (next h) with ⟨hend, hskips⟩ | ⟨k, hk, hend, hfree, hskips⟩ |
          ⟨k, hk, b, hend, hb, hpb, hskips⟩
        · exact .inl ⟨hend, hskips.succ ha hp⟩
        · rw [slot_next] at hend hfree
          exact .inr (.inl ⟨k + 1, by omega, hend, hfree, hskips.succ ha hp⟩)
        · rw [slot_next] at hend hb
          exact .inr (.inr ⟨k + 1, by omega, b, hend, hb, hpb, hskips.succ ha hp⟩)

theorem mem_looked {m : ℕ} {h i : Fin n} (hi : i ∈ looked t p m h) : ∃ k < m, i = slot h k := by
  induction m generalizing h with
  | zero => exact absurd hi List.not_mem_nil
  | succ m ih =>
    unfold looked at hi
    rcases List.mem_cons.1 hi with rfl | hi
    · exact ⟨0, Nat.succ_pos m, (slot_zero i).symm⟩
    · split at hi
      · exact absurd hi List.not_mem_nil
      · split at hi
        · exact absurd hi List.not_mem_nil
        · obtain ⟨k, hk, rfl⟩ := ih hi
          exact ⟨k + 1, by omega, slot_next h k⟩

/-- No slot is looked at twice. -/
theorem nodup_looked (t : ProbeTable n α) (p : α → Bool) {m : ℕ} (hm : m ≤ n) (h : Fin n) :
    (looked t p m h).Nodup := by
  induction m generalizing h with
  | zero => exact List.nodup_nil
  | succ m ih =>
    have hnot : h ∉ looked t p m (next h) := by
      intro hmem
      obtain ⟨k, hk, heq⟩ := mem_looked hmem
      rw [slot_next] at heq
      have hdist := dist_slot h (show k + 1 < n by omega)
      rw [← heq, dist_self] at hdist
      omega
    unfold looked
    split
    · exact List.nodup_singleton h
    · split
      · exact List.nodup_singleton h
      · exact List.nodup_cons.2 ⟨hnot, ih (by omega) (next h)⟩

/-! ## The way to an entry -/

variable {home : α → Fin n}

/-- Between the home of an entry and the entry, no slot is free. -/
def Chained (home : α → Fin n) (t : ProbeTable n α) : Prop :=
  ∀ i a, t i = some a → ∀ j, dist (home a) j < dist (home a) i → (t j).isSome = true

theorem chained_empty : Chained home fun _ => none := fun _ _ h => nomatch h

namespace Chained

/-- An entry is found, or one before it that is looked for as well. -/
theorem walk_hit (hchained : Chained home t) {i : Fin n} {a : α} (ha : t i = some a)
    (hp : p a = true) : ∃ j b, walk t p n (home a) = .hit j ∧ t j = some b ∧ p b = true ∧
      dist (home a) j ≤ dist (home a) i := by
  have hnot {k : ℕ} (hskips : Skips t p (home a) k) : k ≤ dist (home a) i := by
    by_contra hlt
    obtain ⟨b, hb, hpb⟩ := hskips _ (not_le.1 hlt)
    rw [slot_dist, ha] at hb
    obtain rfl := Option.some.inj hb
    exact absurd (hp.symm.trans hpb) (by decide)
  rcases walk_cases t p n (home a) with ⟨-, hskips⟩ | ⟨k, hk, -, hfree, hskips⟩ |
    ⟨k, hk, b, hend, hb, hpb, hskips⟩
  · exact absurd (hnot hskips) (not_le.2 (dist_lt _ _))
  · rcases (hnot hskips).lt_or_eq with hlt | rfl
    · have hsome := hchained i a ha (slot (home a) k) (by rwa [dist_slot _ hk])
      rw [hfree] at hsome
      exact absurd hsome (by simp)
    · rw [slot_dist, ha] at hfree
      exact absurd hfree (by simp)
  · exact ⟨slot (home a) k, b, hend, hb, hpb, by simpa [dist_slot _ hk] using hnot hskips⟩

/-- A new entry is put into the free slot that a walk from its home ends at. -/
theorem put (hchained : Chained home t) {i : Fin n} {a : α}
    (hend : walk t p n (home a) = .free i) : Chained home (Function.update t i (some a)) := by
  have hkeep (j : Fin n) (hj : (t j).isSome = true) :
      (Function.update t i (some a) j).isSome = true := by
    rcases eq_or_ne j i with rfl | hne
    · simp
    · simpa [hne] using hj
  intro l b hb j hj
  rcases eq_or_ne l i with rfl | hne
  · obtain rfl : a = b := by simpa using hb
    rcases walk_cases t p n (home a) with ⟨hfull, -⟩ | ⟨k, hk, hfree, -, hskips⟩ |
      ⟨k, -, b, hhit, -⟩
    · exact nomatch hend.symm.trans hfull
    · obtain rfl := Probe.free.inj (hend.symm.trans hfree)
      rw [dist_slot _ hk] at hj
      obtain ⟨c, hc, -⟩ := hskips _ hj
      rw [slot_dist] at hc
      exact hkeep j (by rw [hc]; rfl)
    · exact nomatch hend.symm.trans hhit
  · rw [Function.update_of_ne hne] at hb
    exact hkeep j (hchained l b hb j hj)

/-- An entry is replaced by one with the same home. -/
theorem replace (hchained : Chained home t) {i : Fin n} {a b : α} (ha : t i = some a)
    (hhome : home b = home a) : Chained home (Function.update t i (some b)) := by
  intro l c hc j hj
  have hsome : (t j).isSome = true := by
    rcases eq_or_ne l i with rfl | hne
    · obtain rfl : b = c := by simpa using hc
      rw [hhome] at hj
      exact hchained l a ha j hj
    · rw [Function.update_of_ne hne] at hc
      exact hchained l c hc j hj
  rcases eq_or_ne j i with rfl | hne
  · simp
  · simpa [hne] using hsome

theorem map (hchained : Chained home t) {f : α → α} (hhome : ∀ a, home (f a) = home a) :
    Chained home fun i => (t i).map f := by
  intro i b hb j hj
  obtain ⟨a, ha, rfl⟩ := Option.map_eq_some_iff.1 hb
  rw [hhome] at hj
  simpa using hchained i a ha j hj

/-- When entries are taken out, the others are found exactly if none of those was on the way to
them. -/
theorem filter_iff (hchained : Chained home t) (keep : α → Bool) :
    Chained home (fun i => (t i).filter keep) ↔
      ∀ i, ∀ a ∈ t i, keep a = false → ∀ j, ∀ b ∈ t j, keep b = true →
        ¬ dist (home b) i < dist (home b) j := by
  constructor
  · intro h i a ha hout j b hb hin hlt
    have hsome : ((t i).filter keep).isSome = true := h j b (by simpa [hin] using hb) i hlt
    rw [Option.mem_def.1 ha] at hsome
    simp [hout] at hsome
  · intro h j b hb i hlt
    obtain ⟨hb, hin⟩ := Option.filter_eq_some_iff.1 hb
    obtain ⟨a, ha⟩ := Option.isSome_iff_exists.1 (hchained j b hb i hlt)
    cases hout : keep a with
    | true => simp [ha, hout]
    | false => exact absurd hlt (h i a ha hout j b hb hin)

end Chained

end ProbeTable

end MacHPSDR
