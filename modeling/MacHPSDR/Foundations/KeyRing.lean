import MacHPSDR.Foundations.Recent
import Mathlib

/-!
# Rings that know a key again

A ring of `N` places remembers keys. One that is asked for is looked for in all of them, and if it
is in none it goes over the oldest one. A key that is asked for again is known if fewer than `N`
others have been asked for since the first time (`Remembers.ask`): the ring does not make it younger
when it is found.
-/

namespace MacHPSDR

/-- A ring of keys, with the place of the next one. -/
structure KeyRing (κ : Type*) where
  entries : ℕ → Option κ
  w : ℕ

namespace KeyRing

variable {κ : Type*} [DecidableEq κ]

def empty : KeyRing κ := ⟨fun _ => none, 0⟩

/-- The key is in one of the places. -/
def knows (N : ℕ) (m : KeyRing κ) (x : κ) : Bool :=
  (List.range N).any fun i => decide (m.entries i = some x)

/-- A key that is not there is written. -/
def ask (N : ℕ) (m : KeyRing κ) (x : κ) : Bool × KeyRing κ :=
  if m.knows N x then (true, m)
  else (false, ⟨Function.update m.entries m.w (some x), (m.w + 1) % N⟩)

/-- Of the keys between two times that one is asked for, fewer than `N` are others. -/
def Spaced (N : ℕ) (asked : List κ) : Prop :=
  ∀ as bs cs x, asked = as ++ x :: (bs ++ x :: cs) → (bs.toFinset.erase x).card < N

theorem Spaced.of_append {N : ℕ} {asked bs : List κ} (h : Spaced N (asked ++ bs)) :
    Spaced N asked := by
  intro as cs ds x heq
  refine h as cs (ds ++ bs) x ?_
  rw [heq]
  simp only [List.append_assoc, List.cons_append]

/-- There is no room for `N` others among `N + 1` keys. -/
theorem Spaced.of_length_le {N : ℕ} {asked : List κ} (h : asked.length ≤ N + 1) :
    Spaced N asked := by
  rintro as bs cs x rfl
  have hcard := (Finset.card_erase_le (a := x)).trans (List.toFinset_card_le bs)
  simp only [List.length_append, List.length_cons] at h
  omega

/-- The keys that have been asked for, each at its first time, the last of which are in the ring. -/
structure Remembers (N : ℕ) (m : KeyRing κ) (asked keys : List κ) : Prop where
  recent : Recent N m.entries (keys.map some)
  old : ∀ i x, m.entries i = some x → x ∈ keys
  place : m.w = keys.length % N
  nodup : keys.Nodup
  mem : ∀ x, x ∈ keys ↔ x ∈ asked
  order : ∀ ys x zs, keys = ys ++ x :: zs → ∃ as bs, asked = as ++ x :: bs ∧ ∀ z ∈ zs, z ∈ bs

namespace Remembers

variable {N : ℕ} {m : KeyRing κ} {asked keys : List κ} {x : κ}

omit [DecidableEq κ] in
theorem nil (N : ℕ) : Remembers N (empty : KeyRing κ) [] [] where
  recent := Recent.nil N _
  old _ _ h := nomatch h
  place := (Nat.zero_mod N).symm
  nodup := List.nodup_nil
  mem _ := Iff.rfl
  order _ _ _ h := by simp at h

/-- What has not been asked for is not known. -/
theorem mem_of_knows (h : Remembers N m asked keys) (hknows : m.knows N x = true) : x ∈ asked := by
  obtain ⟨i, -, hi⟩ := List.any_eq_true.mp hknows
  exact (h.mem x).mp (h.old i x (of_decide_eq_true hi))

/-- What has been asked for is known if it is to be asked for in time. -/
theorem knows_of_mem (h : Remembers N m asked keys) (hspaced : Spaced N (asked ++ [x]))
    (hx : x ∈ asked) : m.knows N x = true := by
  obtain ⟨ys, zs, rfl⟩ := List.append_of_mem ((h.mem x).mpr hx)
  obtain ⟨as, bs, rfl, hzs⟩ := h.order ys x zs rfl
  have hnodup := List.nodup_cons.mp (List.nodup_append.mp h.nodup).2.1
  -- the keys that have been written since are among those that have been asked for since
  have hsub : zs.toFinset ⊆ bs.toFinset.erase x := by
    intro z hz
    rw [List.mem_toFinset] at hz
    refine Finset.mem_erase.mpr ⟨?_, List.mem_toFinset.mpr (hzs z hz)⟩
    rintro rfl
    exact hnodup.1 hz
  have hlt : zs.length < N := by
    rw [← List.toFinset_card_of_nodup hnodup.2]
    refine (Finset.card_le_card hsub).trans_lt (hspaced as bs [] x ?_)
    simp only [List.append_assoc, List.cons_append]
  have hplace : m.entries (ys.length % N) = some x := by
    refine h.recent ys.length (some x) ?_ ?_
    · simp
    · simp only [List.length_map, List.length_append, List.length_cons]
      omega
  refine List.any_eq_true.mpr ⟨ys.length % N, ?_, decide_eq_true hplace⟩
  exact List.mem_range.mpr (Nat.mod_lt _ (by omega))

/-- **One question**, about a key that has been asked for in time or never. -/
theorem ask (h : Remembers N m asked keys) (hspaced : Spaced N (asked ++ [x])) :
    ((m.ask N x).1 = true ↔ x ∈ asked) ∧
      ∃ keys', Remembers N (m.ask N x).2 (asked ++ [x]) keys' := by
  by_cases hx : x ∈ asked
  · have hknows := h.knows_of_mem hspaced hx
    unfold KeyRing.ask
    rw [if_pos hknows]
    refine ⟨iff_of_true rfl hx, keys,
      { h with mem := fun y => ?_, order := fun ys y zs heq => ?_ }⟩
    · rw [h.mem y, List.mem_append, List.mem_singleton]
      exact ⟨.inl, fun hy => hy.elim id fun hy => hy ▸ hx⟩
    · obtain ⟨as, bs, rfl, hzs⟩ := h.order ys y zs heq
      exact ⟨as, bs ++ [x], List.append_assoc .., fun z hz => List.mem_append_left _ (hzs z hz)⟩
  · have hnot : m.knows N x = false :=
      Bool.eq_false_iff.mpr fun hknows => hx (h.mem_of_knows hknows)
    have hkeys : x ∉ keys := fun hmem => hx ((h.mem x).mp hmem)
    unfold KeyRing.ask
    rw [if_neg (Bool.eq_false_iff.mp hnot)]
    refine ⟨iff_of_false Bool.false_ne_true hx, keys ++ [x], ?_, ?_, ?_, ?_, ?_, ?_⟩
    · have hpush := h.recent.push (some x)
      rw [List.length_map, ← h.place] at hpush
      rw [List.map_append]
      exact hpush
    · intro i y (hy : Function.update m.entries m.w (some x) i = some y)
      rcases eq_or_ne i m.w with rfl | hne
      · rw [Function.update_self] at hy
        obtain rfl := Option.some.inj hy
        exact List.mem_append_right _ (List.mem_singleton_self x)
      · rw [Function.update_of_ne hne] at hy
        exact List.mem_append_left _ (h.old i y hy)
    · rw [h.place, List.length_append, List.length_singleton, Nat.mod_add_mod]
    · exact List.nodup_append.mpr ⟨h.nodup, List.nodup_singleton x, by
        rintro a ha b hb rfl
        exact hkeys (List.mem_singleton.mp hb ▸ ha)⟩
    · intro y
      rw [List.mem_append, List.mem_append, h.mem y]
    · intro ys y zs heq
      rcases List.eq_nil_or_concat zs with rfl | ⟨zs, z, rfl⟩
      · obtain ⟨-, heq⟩ := List.append_inj' heq rfl
        obtain rfl := List.singleton_inj.mp heq
        exact ⟨asked, [], rfl, nofun⟩
      · rw [List.concat_eq_append, ← List.cons_append, ← List.append_assoc] at heq
        obtain ⟨hkeys', hz⟩ := List.append_inj' heq rfl
        obtain rfl := List.singleton_inj.mp hz
        obtain ⟨as, bs, rfl, hzs⟩ := h.order ys y zs hkeys'
        refine ⟨as, bs ++ [x], List.append_assoc .., fun w hw => ?_⟩
        rw [List.concat_eq_append] at hw
        rcases List.mem_append.mp hw with hw | hw
        · exact List.mem_append_left _ (hzs w hw)
        · exact List.mem_append_right _ hw

end Remembers

end KeyRing

end MacHPSDR
