import MacHPSDR.DxCluster.Stream
import Mathlib

/-!
# The spot store of the DX cluster

`dxcluster_add_spot` puts a new spot at the front of the store, and a spot of a call that is there
on nearly the same frequency is refreshed where it stands. The refreshed spot has a new frequency
and a new time but its old place: it may come near another spot of its call, and it may be newer
than the spots before it. `kept_iff` says of every run which steps keep the store in order.
-/

namespace MacHPSDR.DxCluster

open Framing (Byte nul)

/-! ## The store -/

/-- `DXCLUSTER_MAX_SPOTS` -/
def maxSpots : ℕ := 256

/-- `DXCLUSTER_SPOT_MAX_AGE_SEC` -/
def spotMaxAgeSec : ℤ := 900

/-- `DXCLUSTER_DUP_TOLERANCE_HZ` -/
def dupToleranceHz : ℤ := 500

/-- `DX_SPOT` -/
structure DxSpot where
  call : List Byte
  freq : ℤ
  spotter : List Byte
  comment : List Byte
  utc : ℤ
  entity : ℤ
deriving DecidableEq

/-- What a line of the cluster announces. -/
structure Announcement where
  call : List Byte
  freq : ℤ
  spotter : List Byte
  comment : List Byte
  entity : ℤ

/-- `g_strlcpy`, into a buffer of `size` bytes -/
def strlcpy (size : ℕ) (s : List Byte) : List Byte := s.take (size - 1)

/-- `g_ascii_strcasecmp` finds no difference. -/
def SameCall (a b : List Byte) : Prop := a.map tolower = b.map tolower

instance (a b : List Byte) : Decidable (SameCall a b) := inferInstanceAs (Decidable (_ = _))

/-- A spot is of a call, within the tolerance of a frequency. -/
def Matches (call : List Byte) (freq : ℤ) (s : DxSpot) : Prop :=
  |s.freq - freq| ≤ dupToleranceHz ∧ SameCall s.call call

instance (call : List Byte) (freq : ℤ) (s : DxSpot) : Decidable (Matches call freq s) :=
  inferInstanceAs (Decidable (_ ∧ _))

/-- `age_out_locked` -/
def ageOut (spots : List DxSpot) (now : ℤ) : List DxSpot :=
  spots.filter fun s => s.utc ≥ now - spotMaxAgeSec

/-- A spot that is in the store is announced again. -/
def refresh (now : ℤ) (a : Announcement) (s : DxSpot) : DxSpot :=
  { s with freq := a.freq, utc := now, entity := a.entity,
           spotter := strlcpy 16 a.spotter, comment := strlcpy 40 a.comment }

/-- The spot as it is stored. -/
def newSpot (now : ℤ) (a : Announcement) : DxSpot where
  call := strlcpy 16 a.call
  freq := a.freq
  spotter := strlcpy 16 a.spotter
  comment := strlcpy 40 a.comment
  utc := now
  entity := a.entity

/-- The store, and the spots that have been dropped to make room. -/
structure Added where
  spots : List DxSpot
  dropped : List DxSpot

/-- The spot that an announcement refreshes. -/
def findDup (spots : List DxSpot) (a : Announcement) : Option ℕ :=
  spots.findIdx? fun s => Matches a.call a.freq s

/-- `dxcluster_add_spot`, at the time `now` -/
def addSpot (spots : List DxSpot) (now : ℤ) (a : Announcement) : Added :=
  let spots := ageOut spots now
  match findDup spots a with
  | some found => ⟨spots.modify found (refresh now a), []⟩
  | none =>
    let nspots := if spots.length ≥ maxSpots then maxSpots - 1 else spots.length
    ⟨newSpot now a :: spots.take nspots, spots.drop nspots⟩

/-- What happens to the store: a spot is added, or it is looked at, which ages it. -/
inductive Op where
  | add (now : ℤ) (a : Announcement)
  | age (now : ℤ)

def step (spots : List DxSpot) : Op → Added
  | .add now a => addSpot spots now a
  | .age now => ⟨ageOut spots now, []⟩

/-- The store after a run from an empty one. -/
def run (ops : List Op) : List DxSpot := ops.foldl (fun spots op => (step spots op).spots) []

/-! ## A store in order -/

/-- Two spots that should be one. -/
def Same (s t : DxSpot) : Prop := Matches t.call t.freq s

/-- A store as it should be. -/
structure InOrder (spots : List DxSpot) : Prop where
  room : spots.length ≤ maxSpots
  unique : spots.Pairwise fun s t => ¬Same s t
  newest : spots.Pairwise fun s t => t.utc ≤ s.utc

/-- Every store of a run is in order, and what is dropped is not newer than what stays. -/
structure Kept (ops : List Op) : Prop where
  inOrder : ∀ before, before <+: ops → InOrder (run before)
  oldest : ∀ before op, before ++ [op] <+: ops →
    ∀ d ∈ (step (run before) op).dropped, ∀ s ∈ (step (run before) op).spots, d.utc ≤ s.utc

/-- The spot that is refreshed has its place by the new time too, and no spot behind it is one of
its call near the new frequency. A spot that is added is not older than those it is put before, and
if its call is cut to fit then none of them is of the call that is left, near its frequency. -/
def Meets (spots : List DxSpot) : Op → Prop
  | .age _ => True
  | .add now a =>
    let spots := ageOut spots now
    match findDup spots a with
    | some found =>
      (∀ s ∈ spots.take found, now ≤ s.utc) ∧
        ∀ s ∈ spots.drop (found + 1), s.utc ≤ now ∧ ¬Matches a.call a.freq s
    | none =>
      ∀ s ∈ spots.take (maxSpots - 1), s.utc ≤ now ∧ ¬Matches (strlcpy 16 a.call) a.freq s

/-! ## Spots of one call -/

theorem SameCall.symm {a b : List Byte} (h : SameCall a b) : SameCall b a := Eq.symm h

theorem SameCall.trans {a b c : List Byte} (h : SameCall a b) (h' : SameCall b c) :
    SameCall a c := Eq.trans h h'

theorem Same.symm {s t : DxSpot} (h : Same s t) : Same t s := by
  obtain ⟨hfreq, hcall⟩ := h
  refine ⟨?_, hcall.symm⟩
  rw [abs_sub_comm]
  exact hfreq

theorem same_comm {s t : DxSpot} : Same s t ↔ Same t s := ⟨Same.symm, Same.symm⟩

/-- A refreshed spot matches what the announcement matches. -/
theorem same_refresh_iff {now : ℤ} {a : Announcement} {s t : DxSpot} (h : SameCall t.call a.call) :
    Same s (refresh now a t) ↔ Matches a.call a.freq s := by
  constructor
  · rintro ⟨hfreq, hcall⟩
    exact ⟨hfreq, hcall.trans h⟩
  · rintro ⟨hfreq, hcall⟩
    exact ⟨hfreq, hcall.trans h.symm⟩

theorem same_newSpot_iff {now : ℤ} {a : Announcement} {s : DxSpot} :
    Same s (newSpot now a) ↔ Matches (strlcpy 16 a.call) a.freq s := Iff.rfl

/-- A call that fits is found, or it is not there. -/
theorem not_matches_of_findDup {spots : List DxSpot} {a : Announcement}
    (hfits : a.call.length ≤ 15) (h : findDup spots a = none) :
    ∀ s ∈ spots, ¬Matches (strlcpy 16 a.call) a.freq s := by
  intro s hs
  rw [strlcpy, List.take_of_length_le hfits]
  simpa using List.findIdx?_eq_none_iff.1 h s hs

/-- A call that fits, and is not in the store, asks only that the clock has not gone back. -/
theorem meets_add_iff {spots : List DxSpot} {now : ℤ} {a : Announcement}
    (hfits : a.call.length ≤ 15) (h : findDup (ageOut spots now) a = none) :
    Meets spots (.add now a) ↔ ∀ s ∈ (ageOut spots now).take (maxSpots - 1), s.utc ≤ now := by
  unfold Meets
  dsimp only
  rw [h]
  constructor
  · exact fun hall s hs => (hall s hs).1
  · intro hall s hs
    exact ⟨hall s hs, not_matches_of_findDup hfits h s (List.mem_of_mem_take hs)⟩

/-- The spot that is found, with those before and behind it. -/
theorem findDup_split (now : ℤ) {spots : List DxSpot} {a : Announcement} {found : ℕ}
    (h : findDup spots a = some found) :
    ∃ t, spots = spots.take found ++ t :: spots.drop (found + 1) ∧ Matches a.call a.freq t ∧
      (∀ s ∈ spots.take found, ¬Matches a.call a.freq s) ∧
      spots.modify found (refresh now a) =
        spots.take found ++ refresh now a t :: spots.drop (found + 1) := by
  obtain ⟨hlt, hfound, hbefore⟩ := List.findIdx?_eq_some_iff_getElem.1 h
  refine ⟨spots[found], ?_, by simpa using hfound, ?_, ?_⟩
  · rw [List.getElem_cons_drop, List.take_append_drop]
  · intro s hs
    obtain ⟨j, hj, rfl⟩ := List.mem_take_iff_getElem.1 hs
    simpa using hbefore j (by omega)
  · rw [List.modify_eq_take_cons_drop hlt]

/-! ## One step -/

/-- An element in the middle of a list that is in order. -/
theorem pairwise_middle_iff {α : Type*} {R : α → α → Prop} {before after : List α} {x : α} :
    (before ++ x :: after).Pairwise R ↔
      (before ++ after).Pairwise R ∧ (∀ b ∈ before, R b x) ∧ ∀ c ∈ after, R x c := by
  simp only [List.pairwise_append, List.pairwise_cons, List.mem_cons, forall_eq_or_imp]
  constructor
  · rintro ⟨hbefore, ⟨hx, hafter⟩, hcross⟩
    exact ⟨⟨hbefore, hafter, fun b hb => (hcross b hb).2⟩, fun b hb => (hcross b hb).1, hx⟩
  · rintro ⟨⟨hbefore, hafter, hcross⟩, hbx, hx⟩
    exact ⟨hbefore, ⟨hx, hafter⟩, fun b hb => ⟨hbx b hb, hcross b hb⟩⟩

theorem InOrder.sublist {s t : List DxSpot} (h : InOrder t) (hs : s.Sublist t) : InOrder s where
  room := hs.length_le.trans h.room
  unique := h.unique.sublist hs
  newest := h.newest.sublist hs

theorem InOrder.ageOut {spots : List DxSpot} (h : InOrder spots) (now : ℤ) :
    InOrder (ageOut spots now) := h.sublist List.filter_sublist

theorem InOrder.nil : InOrder [] := ⟨Nat.zero_le _, .nil, .nil⟩

/-- A refreshed spot, among those before and behind it. -/
theorem inOrder_refresh_iff {before after : List DxSpot} {t : DxSpot} {now : ℤ} {a : Announcement}
    (h : InOrder (before ++ t :: after)) (ht : Matches a.call a.freq t)
    (hbefore : ∀ s ∈ before, ¬Matches a.call a.freq s) :
    InOrder (before ++ refresh now a t :: after) ↔
      (∀ s ∈ before, now ≤ s.utc) ∧ ∀ s ∈ after, s.utc ≤ now ∧ ¬Matches a.call a.freq s := by
  obtain ⟨hroom, hunique, hnewest⟩ := h
  have hrest := (pairwise_middle_iff.1 hunique).1
  have hrest' := (pairwise_middle_iff.1 hnewest).1
  constructor
  · rintro ⟨-, hu, hn⟩
    obtain ⟨-, -, hu⟩ := pairwise_middle_iff.1 hu
    obtain ⟨-, hnb, hna⟩ := pairwise_middle_iff.1 hn
    refine ⟨hnb, fun s hs => ⟨hna s hs, fun hm => hu s hs ?_⟩⟩
    exact ((same_refresh_iff ht.2).2 hm).symm
  · rintro ⟨hb, ha⟩
    refine ⟨?_, ?_, ?_⟩
    · rw [List.length_append, List.length_cons] at hroom ⊢
      exact hroom
    · refine pairwise_middle_iff.2 ⟨hrest, fun s hs hm => ?_, fun s hs hm => ?_⟩
      · exact hbefore s hs ((same_refresh_iff ht.2).1 hm)
      · exact (ha s hs).2 ((same_refresh_iff ht.2).1 hm.symm)
    · exact pairwise_middle_iff.2 ⟨hrest', hb, fun s hs => (ha s hs).1⟩

/-- A new spot, before those that there is room for. -/
theorem inOrder_newSpot_iff {spots : List DxSpot} {now : ℤ} {a : Announcement}
    (h : InOrder spots) (hroom : spots.length < maxSpots) :
    InOrder (newSpot now a :: spots) ↔
      ∀ s ∈ spots, s.utc ≤ now ∧ ¬Matches (strlcpy 16 a.call) a.freq s := by
  constructor
  · rintro ⟨-, hu, hn⟩ s hs
    refine ⟨(List.pairwise_cons.1 hn).1 s hs, fun hm => ?_⟩
    exact (List.pairwise_cons.1 hu).1 s hs (same_newSpot_iff.2 hm).symm
  · intro hall
    refine ⟨by rw [List.length_cons]; omega, ?_, ?_⟩
    · refine List.pairwise_cons.2 ⟨fun s hs hm => ?_, h.unique⟩
      exact (hall s hs).2 (same_newSpot_iff.1 hm.symm)
    · exact List.pairwise_cons.2 ⟨fun s hs => (hall s hs).1, h.newest⟩

/-- The room that an insertion leaves. -/
theorem take_nspots {spots : List DxSpot} (h : spots.length ≤ maxSpots) :
    spots.take (if spots.length ≥ maxSpots then maxSpots - 1 else spots.length) =
      spots.take (maxSpots - 1) := by
  have hmax : maxSpots = 256 := rfl
  split_ifs with hfull
  · rfl
  · rw [List.take_of_length_le le_rfl, List.take_of_length_le (by omega)]

/-- **A step keeps a store in order** exactly if it meets the condition. -/
theorem inOrder_step_iff {spots : List DxSpot} (h : InOrder spots) (op : Op) :
    InOrder (step spots op).spots ↔ Meets spots op := by
  cases op with
  | age now => exact iff_of_true (h.ageOut now) trivial
  | add now a =>
    have haged := h.ageOut now
    unfold step addSpot Meets
    dsimp only
    cases hdup : findDup (ageOut spots now) a with
    | some found =>
      obtain ⟨t, hsplit, ht, hbefore, hmodify⟩ := findDup_split now hdup
      rw [hsplit] at haged
      dsimp only
      rw [hmodify]
      exact inOrder_refresh_iff haged ht hbefore
    | none =>
      have hmax : maxSpots = 256 := rfl
      dsimp only
      rw [take_nspots haged.room]
      refine inOrder_newSpot_iff (haged.sublist (List.take_sublist ..)) ?_
      rw [List.length_take]
      omega

/-- What is dropped is not newer than what stays. -/
theorem dropped_oldest {spots : List DxSpot} (h : InOrder spots) {op : Op} (hop : Meets spots op) :
    ∀ d ∈ (step spots op).dropped, ∀ s ∈ (step spots op).spots, d.utc ≤ s.utc := by
  cases op with
  | age now => exact fun d hd => absurd hd (List.not_mem_nil)
  | add now a =>
    have haged := h.ageOut now
    unfold step addSpot
    unfold Meets at hop
    dsimp only at hop ⊢
    generalize ageOut spots now = aged at haged hop ⊢
    cases hdup : findDup aged a with
    | some found => exact fun d hd => absurd hd (List.not_mem_nil)
    | none =>
      rw [hdup] at hop
      dsimp only at hop ⊢
      rw [take_nspots haged.room]
      intro d hd s hs
      split_ifs at hd with hfull
      · have hmax : maxSpots = 256 := rfl
        have hnewest := haged.newest
        rw [← List.take_append_drop (maxSpots - 1) aged] at hnewest
        have hkept : ∀ t ∈ aged.take (maxSpots - 1), d.utc ≤ t.utc :=
          fun t ht => (List.pairwise_append.1 hnewest).2.2 t ht d hd
        rcases List.mem_cons.1 hs with rfl | hs
        · -- the store is full, and the new spot is not older than those that stay
          have hlen : 0 < (aged.take (maxSpots - 1)).length := by
            rw [List.length_take]
            omega
          have hmem := List.getElem_mem hlen
          exact (hkept _ hmem).trans (hop _ hmem).1
        · exact hkept s hs
      · rw [List.drop_length] at hd
        exact absurd hd List.not_mem_nil

/-- There is never more than there is room for. -/
theorem step_room {spots : List DxSpot} (h : spots.length ≤ maxSpots) (op : Op) :
    (step spots op).spots.length ≤ maxSpots := by
  have hmax : maxSpots = 256 := rfl
  cases op with
  | age now => exact (List.length_filter_le ..).trans h
  | add now a =>
    have haged : (ageOut spots now).length ≤ maxSpots := (List.length_filter_le ..).trans h
    unfold step addSpot
    dsimp only
    cases findDup (ageOut spots now) a with
    | some found =>
      dsimp only
      rw [List.length_modify]
      exact haged
    | none =>
      dsimp only
      rw [take_nspots haged, List.length_cons, List.length_take]
      omega

/-! ## Runs -/

theorem run_concat (before : List Op) (op : Op) :
    run (before ++ [op]) = (step (run before) op).spots := by
  rw [run, List.foldl_append]
  rfl

theorem run_room (ops : List Op) : (run ops).length ≤ maxSpots := by
  induction ops using List.reverseRecOn with
  | nil => exact Nat.zero_le _
  | append_singleton before op ih =>
    rw [run_concat]
    exact step_room ih op

/-- **The store is kept in order** in exactly the runs whose every step meets the condition; it
never holds more than its maximum. -/
theorem kept_iff (ops : List Op) :
    (run ops).length ≤ maxSpots ∧
      (Kept ops ↔ ∀ before op, before ++ [op] <+: ops → Meets (run before) op) := by
  refine ⟨run_room ops, ?_⟩
  constructor
  · intro h before op hop
    have hbefore := h.inOrder before ((List.prefix_append ..).trans hop)
    rw [← inOrder_step_iff hbefore, ← run_concat]
    exact h.inOrder _ hop
  · intro h
    have hinOrder : ∀ before, before <+: ops → InOrder (run before) := by
      intro before
      induction before using List.reverseRecOn with
      | nil => exact fun _ => InOrder.nil
      | append_singleton before op ih =>
        intro hop
        rw [run_concat, inOrder_step_iff (ih ((List.prefix_append ..).trans hop))]
        exact h before op hop
    refine ⟨hinOrder, fun before op hop => ?_⟩
    exact dropped_oldest (hinOrder before ((List.prefix_append ..).trans hop)) (h before op hop)

/-! ## A spot that moves -/

/-- A spot of a call. -/
def spotted (call : String) (freq : ℤ) : Announcement :=
  ⟨bytes call, freq, bytes "W3LPL", [], 339⟩

/-- A call on two frequencies, and on one between them. -/
def between : List Op :=
  [.add 100 (spotted "JA1XYZ" 14001000), .add 100 (spotted "JA1XYZ" 14001600),
    .add 100 (spotted "ja1xyz" 14001300)]

/-- A call that is announced again, after another. -/
def again : List Op :=
  [.add 100 (spotted "JA1XYZ" 14025000), .add 110 (spotted "W1AW" 7025000),
    .add 120 (spotted "JA1XYZ" 14025000)]

/-- Two spots of one call come near one another, and a newer spot stands behind an older one. -/
theorem not_kept : ¬Kept between ∧ ¬Kept again ∧
    (run between).map (·.freq) = [14001300, 14001000] ∧
    (run again).map (·.utc) = [110, 120] := by
  have hbetween : run between = [⟨bytes "JA1XYZ", 14001300, bytes "W3LPL", [], 100, 339⟩,
      ⟨bytes "JA1XYZ", 14001000, bytes "W3LPL", [], 100, 339⟩] := by decide +kernel
  have hagain : (run again).map (·.utc) = [110, 120] := by decide +kernel
  refine ⟨fun h => ?_, fun h => ?_, ?_, hagain⟩
  · have hunique := (h.inOrder _ List.prefix_rfl).unique
    rw [hbetween, List.pairwise_cons] at hunique
    refine hunique.1 _ (List.mem_singleton_self _) ⟨?_, rfl⟩
    decide
  · have hnewest := (List.pairwise_map (f := DxSpot.utc) (R := fun t u => u ≤ t)).2
      (h.inOrder _ List.prefix_rfl).newest
    rw [hagain] at hnewest
    exact absurd hnewest (by decide)
  · rw [hbetween]
    rfl

end MacHPSDR.DxCluster
