import MacHPSDR.Foundations.KeyRing
import MacHPSDR.Foundations.ProbeTable
import MacHPSDR.Ft8.Qso
import MacHPSDR.Ft8.Window
import Mathlib

/-!
# The list of FT8 decodes

`decode_slot` decodes the candidates of a window. What the window has already given is left out by a
table, and what an earlier one has published for the same slot by a ring. The rest goes into a list,
which belongs to one slot and is begun again by a newer one. A reader remembers the label of the
slot and how many entries of it there were, and takes those past them.

Windows overlap, so that a slot is published by several of them. A reader that looks after each
window misses nothing as long as no window publishes for a slot and then for a newer one, and no
slot follows one of the same time of another day (`taken_published`).
-/

namespace MacHPSDR.Ft8.Publish

open Decoder (ft8Rate waveform)
open ProbeTable (walk Chained)

/-- `MAX_DECODES` -/
def maxDecodes : ℕ := 64

/-- `DUP_RING` -/
def dupRing : ℕ := 256

/-! ## The candidates of a window -/

/-- A candidate: where it begins, the payload if it can be decoded, whether there is a text for it,
and the rest of its row. -/
structure Candidate (α β : Type*) where
  timeSec : ℚ
  payload : Option α
  readable : Bool
  row : β

/-- What `decode_slot` is called for: the length of the window in samples, the time of its last one
in microseconds, and the candidates that are found in it. -/
structure Window (α β : Type*) where
  proto : Bool
  len : ℕ
  endUs : ℤ
  candidates : List (Candidate α β)

/-- `slot_len` -/
def slotLen (proto : Bool) : ℚ := if proto then 15 / 2 else 15

/-- `tx_nominal` -/
def txNominal : ℚ := 1 / 2

section

variable {α β : Type*} (w : Window α β) (c : Candidate α β)

/-- `win_start` -/
def winStart : ℚ := w.endUs / 10 ^ 6 - w.len / ft8Rate

/-- `start0` -/
def start0 : ℤ := lround (c.timeSec * ft8Rate)

/-- The transmission lies whole in the window. -/
def Whole : Prop := 0 ≤ start0 c ∧ start0 c + waveform w.proto ≤ w.len

instance : Decidable (Whole w c) := inferInstanceAs (Decidable (_ ∧ _))

/-- `slot_t` -/
def slotT : ℤ :=
  let txStart := winStart w + c.timeSec
  lround (⌊(txStart - txNominal) / slotLen w.proto + 1 / 2⌋ * slotLen w.proto)

/-- The two figures of a number. -/
def figures (n : ℤ) : List ℤ := [n / 10, n % 10]

/-- The label of a slot, `hhmmss`. -/
def utc (slot : ℤ) : List ℤ :=
  figures (slot % 86400 / 3600) ++ figures (slot % 3600 / 60) ++ figures (slot % 60)

/-- An `FT8_DECODE` with its payload and its slot. -/
structure Decode (α β : Type*) where
  payload : α
  slot : ℤ
  row : β
  deriving DecidableEq

/-- What `dup_seen` compares. -/
def Decode.key (d : Decode α β) : α × ℤ := (d.payload, d.slot)

end

/-! ## `decode_slot` -/

/-- The variables of the loop over the candidates. `asked` are the transmissions that `dup_seen` has
been asked for. -/
structure Local (α β : Type*) where
  decodedHashtable : ProbeTable maxDecodes α
  dup : KeyRing (α × ℤ)
  decodes : List (Decode α β)
  asked : List (α × ℤ)

/-- The list of a slot. -/
structure ResultList (α β : Type*) where
  results : List (Decode α β)
  resultUtc : List ℤ
  resultSlot : ℤ
  haveSlot : Bool

section

variable {α β : Type*} [DecidableEq α] (hash : Bool → α → ℕ)

/-- Where the search for a message begins. -/
def home (proto : Bool) (m : α) : Fin maxDecodes :=
  ⟨hash proto m % maxDecodes, Nat.mod_lt _ (by decide)⟩

/-- `dup_seen` for a message that has a text. -/
def askDup (l : Local α β) (d : Decode α β) : Local α β :=
  let (seen, dup) := l.dup.ask dupRing d.key
  let l := { l with dup := dup, asked := l.asked ++ [d.key] }
  if seen then l else { l with decodes := l.decodes ++ [d] }

/-- One candidate. The search for a message does not end when all places are taken by others. -/
def decodeCandidate (w : Window α β) (l : Local α β) (c : Candidate α β) : Option (Local α β) :=
  match c.payload with
  | none => some l
  | some m =>
    if ¬ Whole w c then some l
    else
      match walk l.decodedHashtable (fun q => hash w.proto q = hash w.proto m ∧ q = m) maxDecodes
          (home hash w.proto m) with
      | .full => none
      | .hit _ => some l
      | .free i =>
        let l := { l with decodedHashtable := Function.update l.decodedHashtable i (some m) }
        if ¬ c.readable then some l else some (askDup l ⟨m, slotT w c, c.row⟩)

/-- The loop over the candidates, which ends when there is no room for another decode. -/
def decodeLoop (w : Window α β) : Local α β → List (Candidate α β) → Option (Local α β)
  | l, [] => some l
  | l, c :: cs =>
    if maxDecodes ≤ l.decodes.length then some l
    else (decodeCandidate hash w l c).bind fun l => decodeLoop w l cs

/-- A newer slot replaces the list. -/
def startSlot (d : Decode α β) (r : ResultList α β) : ResultList α β :=
  if r.haveSlot = false ∨ r.resultSlot < d.slot then ⟨[], utc d.slot, d.slot, true⟩ else r

/-- The loop that appends to the list, with the number of those that have been added. -/
def appendLoop : List (Decode α β) → ℕ → ResultList α β → ResultList α β × ℕ
  | [], added, r => (r, added)
  | d :: ds, added, r =>
    if r.results.length < maxDecodes then
      appendLoop ds (added + 1) { r with results := r.results ++ [d] }
    else (r, added)

/-- The decodes `d :: ds` of one slot, and what has been published of them. -/
def publishGroup (d : Decode α β) (ds : List (Decode α β)) (r : ResultList α β) :
    ResultList α β × List (Decode α β) :=
  let r := startSlot d r
  if d.slot = r.resultSlot then
    let p := appendLoop (d :: ds) 0 r
    (p.1, (d :: ds).take p.2)
  else (r, [])

/-- The loop over the groups, of which there are `fuel` at most. -/
def publishLoop : ℕ → List (Decode α β) → ResultList α β × List (Decode α β) →
    ResultList α β × List (Decode α β)
  | 0, _, p => p
  | _ + 1, [], p => p
  | fuel + 1, d :: ds, (r, published) =>
    let (r, added) := publishGroup d (ds.takeWhile fun e => e.slot = d.slot) r
    publishLoop fuel (ds.dropWhile fun e => e.slot = d.slot) (r, published ++ added)

/-! ## The decoder and a reader -/

/-- A reader of the list: the label and the count that it has seen, and what it has taken. -/
structure Reader (α β : Type*) where
  lastUtc : List ℤ
  lastN : ℕ
  taken : List (Decode α β)

/-- A look at the list, as `refresh` and `qso_poll` have it. -/
def Reader.look (q : Reader α β) (r : ResultList α β) : Reader α β :=
  let n := min r.results.length 64
  let first := if r.resultUtc = q.lastUtc then q.lastN else 0
  if first < n ∧ r.resultUtc ≠ [] then
    ⟨r.resultUtc, n, q.taken ++ (r.results.take n).drop first⟩
  else q

/-- The decoder with a reader. `asked` are the transmissions that have been decoded, and `published`
the entries that have been put into the list, in order. -/
structure State (α β : Type*) where
  dup : KeyRing (α × ℤ)
  list : ResultList α β
  reader : Reader α β
  asked : List (α × ℤ)
  published : List (Decode α β)

/-- `decode_slot`, and a look at the list. -/
def step (s : State α β) (w : Window α β) : Option (State α β) :=
  (decodeLoop hash w ⟨fun _ => none, s.dup, [], s.asked⟩ w.candidates).map fun l =>
    let (list, published) := publishLoop l.decodes.length l.decodes (s.list, s.published)
    ⟨l.dup, list, s.reader.look list, l.asked, published⟩

/-- What `ft8_decoder_set_enabled` begins with, whatever slot there has been. -/
def fresh (slot : ℤ) : State α β :=
  ⟨KeyRing.empty, ⟨[], [], slot, false⟩, ⟨[], 0, []⟩, [], []⟩

/-- A session. -/
def session (slot : ℤ) : System (State α β) (Window α β) where
  init := fresh slot
  step := step hash

end

/-! ## What is asked of the list -/

/-- The list goes on to a newer slot, or grows. -/
def Advances {α β : Type*} (r r' : ResultList α β) : Prop :=
  r.haveSlot = true → r'.haveSlot = true ∧ (r.resultSlot < r'.resultSlot ∨
    r'.resultSlot = r.resultSlot ∧ r'.resultUtc = r.resultUtc ∧ r.results <+: r'.results)

section

variable {α β : Type*} [DecidableEq α]

/-- The messages that can be decoded and lie whole in the window, with whether there is a text for
them. -/
def heard (w : Window α β) (cs : List (Candidate α β)) : List (Decode α β × Bool) :=
  cs.filterMap fun c => c.payload.bind fun m =>
    if Whole w c then some (⟨m, slotT w c, c.row⟩, c.readable) else none

/-- The first of each payload that is not among the `seen` ones, if there is a text for it and it
has not been decoded for its slot before. -/
def unseen (asked : List (α × ℤ)) : List α → List (Decode α β × Bool) → List (Decode α β)
  | _, [] => []
  | seen, (d, readable) :: ps =>
    if d.payload ∈ seen then unseen asked seen ps
    else if readable = true ∧ d.key ∉ asked then d :: unseen asked (d.payload :: seen) ps
    else unseen asked (d.payload :: seen) ps

/-- What is new in a window. -/
def news (s : State α β) (w : Window α β) : List (Decode α β) :=
  (unseen s.asked [] (heard w w.candidates)).take maxDecodes

/-- There is a place for the decode in the list, or in a newer one. -/
def HasPlace (r : ResultList α β) (d : Decode α β) : Prop :=
  r.haveSlot = false ∨ r.resultSlot < d.slot ∨
    r.resultSlot = d.slot ∧ r.results.length < maxDecodes

instance (r : ResultList α β) : DecidablePred (HasPlace r) :=
  fun _ => inferInstanceAs (Decidable (_ ∨ _ ∨ _))

/-- Nothing of the window is newer than its first decode that has a place, and if that one is of
another slot than the list, the two are not whole days apart. -/
def Meets (s : State α β) (w : Window α β) : Prop :=
  ∀ d ∈ (news s w).find? fun d => HasPlace s.list d,
    (∀ e ∈ news s w, e.slot ≤ d.slot) ∧
      (s.list.haveSlot = true → s.list.resultSlot < d.slot → ¬ 86400 ∣ d.slot - s.list.resultSlot)

end

/-! ## The loop over the candidates -/

section

variable {α β : Type*} [DecidableEq α] {hash : Bool → α → ℕ} {w : Window α β}

theorem prefix_askDup (l : Local α β) (d : Decode α β) :
    (askDup l d).asked = l.asked ++ [d.key] := by
  unfold askDup
  dsimp only
  split <;> rfl

/-- What one candidate does. -/
theorem decodeCandidate_cases {l l' : Local α β} {c : Candidate α β}
    (h : decodeCandidate hash w l c = some l') :
    (heard w [c] = [] ∧ l' = l) ∨ ∃ d, heard w [c] = [(d, c.readable)] ∧
      ((∃ i, walk l.decodedHashtable (fun q => hash w.proto q = hash w.proto d.payload ∧
          q = d.payload) maxDecodes (home hash w.proto d.payload) = .hit i ∧ l' = l) ∨
        ∃ i l₁, walk l.decodedHashtable (fun q => hash w.proto q = hash w.proto d.payload ∧
            q = d.payload) maxDecodes (home hash w.proto d.payload) = .free i ∧
          l₁ = { l with
            decodedHashtable := Function.update l.decodedHashtable i (some d.payload) } ∧
          l' = if c.readable then askDup l₁ d else l₁) := by
  unfold decodeCandidate at h
  cases hm : c.payload with
  | none =>
    rw [hm] at h
    refine .inl ⟨?_, (Option.some.inj h).symm⟩
    rw [heard, List.filterMap_cons_none (by rw [hm]; rfl), List.filterMap_nil]
  | some m =>
    rw [hm] at h
    dsimp only at h
    split at h
    · rename_i hwhole
      refine .inl ⟨?_, (Option.some.inj h).symm⟩
      rw [heard, List.filterMap_cons_none (by rw [hm]; exact if_neg hwhole), List.filterMap_nil]
    · rename_i hwhole
      refine .inr ⟨⟨m, slotT w c, c.row⟩, ?_, ?_⟩
      · rw [heard, List.filterMap_cons_some (by rw [hm]; exact if_pos (not_not.mp hwhole)),
          List.filterMap_nil]
      · split at h
        · cases h
        · rename_i i hwalk
          exact .inl ⟨i, hwalk, (Option.some.inj h).symm⟩
        · rename_i i hwalk
          refine .inr ⟨i, _, hwalk, rfl, ?_⟩
          cases hr : c.readable <;> simp_all

/-- The messages of the table. -/
structure Holds (hash : Bool → α → ℕ) (proto : Bool) (t : ProbeTable maxDecodes α)
    (seen : List α) : Prop where
  chained : Chained (home hash proto) t
  mem : ∀ m, (∃ i, t i = some m) ↔ m ∈ seen

/-- What the search for a message looks for. -/
abbrev same (hash : Bool → α → ℕ) (proto : Bool) (m q : α) : Bool :=
  hash proto q = hash proto m ∧ q = m

theorem same_iff {proto : Bool} {m q : α} : same hash proto m q = true ↔ q = m := by
  rw [decide_eq_true_iff]
  exact ⟨And.right, fun h => ⟨congrArg (hash proto) h, h⟩⟩

namespace Holds

variable {proto : Bool} {t : ProbeTable maxDecodes α} {seen : List α} {m : α} {i : Fin maxDecodes}

theorem hit (h : Holds hash proto t seen)
    (hwalk : walk t (same hash proto m) maxDecodes (home hash proto m) = .hit i) : m ∈ seen := by
  rcases ProbeTable.walk_cases t (same hash proto m) maxDecodes (home hash proto m) with
    ⟨hend, -⟩ | ⟨k, -, hend, -⟩ | ⟨k, -, q, -, hq, hsame, -⟩
  · exact nomatch hend.symm.trans hwalk
  · exact nomatch hend.symm.trans hwalk
  · rw [same_iff] at hsame
    subst hsame
    exact (h.mem q).mp ⟨_, hq⟩

theorem free (h : Holds hash proto t seen)
    (hwalk : walk t (same hash proto m) maxDecodes (home hash proto m) = .free i) :
    m ∉ seen ∧ Holds hash proto (Function.update t i (some m)) (m :: seen) := by
  have hfree : t i = none := by
    rcases ProbeTable.walk_cases t (same hash proto m) maxDecodes (home hash proto m) with
      ⟨hend, -⟩ | ⟨k, -, hend, hnone, -⟩ | ⟨k, -, q, hend, -⟩
    · exact nomatch hend.symm.trans hwalk
    · obtain rfl := ProbeTable.Probe.free.inj (hend.symm.trans hwalk)
      exact hnone
    · exact nomatch hend.symm.trans hwalk
  refine ⟨fun hm => ?_, h.chained.put hwalk, fun q => ?_⟩
  · obtain ⟨j, hj⟩ := (h.mem m).mpr hm
    obtain ⟨k, q, hend, -⟩ := h.chained.walk_hit hj (same_iff.mpr rfl)
    exact nomatch hend.symm.trans hwalk
  · rw [List.mem_cons, ← h.mem q]
    constructor
    · rintro ⟨j, hj⟩
      rcases eq_or_ne j i with rfl | hne
      · rw [Function.update_self] at hj
        exact .inl (Option.some.inj hj).symm
      · rw [Function.update_of_ne hne] at hj
        exact .inr ⟨j, hj⟩
    · rintro (rfl | ⟨j, hj⟩)
      · exact ⟨i, Function.update_self ..⟩
      · refine ⟨j, ?_⟩
        rw [Function.update_of_ne]
        · exact hj
        · rintro rfl
          exact nomatch hfree.symm.trans hj

end Holds

/-- What has been found when the messages `seen` have been passed. -/
structure Passed (hash : Bool → α → ℕ) (proto : Bool) (asked : List (α × ℤ)) (seen : List α)
    (l : Local α β) : Prop where
  table : Holds hash proto l.decodedHashtable seen
  dup : ∃ keys, KeyRing.Remembers dupRing l.dup l.asked keys
  old : ∀ k ∈ asked, k ∈ l.asked
  new : ∀ k ∈ l.asked, k ∈ asked ∨ k.1 ∈ seen
  decodes : ∀ d ∈ l.decodes, d.key ∈ l.asked

/-- `dup_seen` knows what has been decoded before the window. -/
theorem Passed.ask {asked : List (α × ℤ)} {seen : List α} {l : Local α β} {d : Decode α β}
    {t : ProbeTable maxDecodes α} {proto : Bool} (h : Passed hash proto asked seen l)
    (hd : d.payload ∉ seen) (ht : Holds hash proto t (d.payload :: seen))
    (hspaced : KeyRing.Spaced dupRing (l.asked ++ [d.key])) :
    Passed hash proto asked (d.payload :: seen) (askDup { l with decodedHashtable := t } d) ∧
      (askDup { l with decodedHashtable := t } d).decodes =
        if d.key ∈ asked then l.decodes else l.decodes ++ [d] := by
  obtain ⟨keys, hkeys⟩ := h.dup
  obtain ⟨hseen, keys', hkeys'⟩ := hkeys.ask hspaced
  have hiff : d.key ∈ l.asked ↔ d.key ∈ asked :=
    ⟨fun hk => (h.new _ hk).resolve_right hd, h.old _⟩
  have hold : ∀ k ∈ asked, k ∈ l.asked ++ [d.key] := fun k hk => List.mem_append_left _ (h.old k hk)
  have hnew : ∀ k ∈ l.asked ++ [d.key], k ∈ asked ∨ k.1 ∈ d.payload :: seen := by
    intro k hk
    rcases List.mem_append.mp hk with hk | hk
    · exact (h.new k hk).imp_right (List.mem_cons_of_mem _)
    · rw [List.mem_singleton.mp hk]
      exact .inr (List.mem_cons_self ..)
  have hdecodes : ∀ e ∈ l.decodes, e.key ∈ l.asked ++ [d.key] :=
    fun e he => List.mem_append_left _ (h.decodes e he)
  unfold askDup
  dsimp only
  by_cases hk : d.key ∈ asked
  · rw [if_pos hk, if_pos (hseen.mpr (hiff.mpr hk))]
    exact ⟨⟨ht, ⟨keys', hkeys'⟩, hold, hnew, hdecodes⟩, rfl⟩
  · rw [if_neg hk, if_neg fun hask => hk (hiff.mp (hseen.mp hask))]
    refine ⟨⟨ht, ⟨keys', hkeys'⟩, hold, hnew, fun e he => ?_⟩, rfl⟩
    rcases List.mem_append.mp he with he | he
    · exact hdecodes e he
    · rw [List.mem_singleton.mp he]
      exact List.mem_append_right _ (List.mem_singleton_self _)

omit [DecidableEq α] in
theorem heard_cons (w : Window α β) (c : Candidate α β) (cs : List (Candidate α β)) :
    heard w (c :: cs) = heard w [c] ++ heard w cs := List.filterMap_append (l := [c])

/-- The transmissions that have been asked for are kept. -/
theorem prefix_decodeCandidate {l l' : Local α β} {c : Candidate α β}
    (h : decodeCandidate hash w l c = some l') : l.asked <+: l'.asked := by
  rcases decodeCandidate_cases h with ⟨-, rfl⟩ | ⟨d, -, ⟨-, -, rfl⟩ | ⟨i, l₁, -, rfl, rfl⟩⟩
  · exact List.prefix_refl _
  · exact List.prefix_refl _
  · split
    · rw [prefix_askDup]
      exact List.prefix_append ..
    · exact List.prefix_refl _

theorem prefix_decodeLoop {l l' : Local α β} {cs : List (Candidate α β)}
    (h : decodeLoop hash w l cs = some l') : l.asked <+: l'.asked := by
  induction cs generalizing l with
  | nil =>
    obtain rfl := Option.some.inj h
    exact List.prefix_refl _
  | cons c cs ih =>
    rw [decodeLoop] at h
    split at h
    · obtain rfl := Option.some.inj h
      exact List.prefix_refl _
    · obtain ⟨l₁, hc, h⟩ := Option.bind_eq_some_iff.mp h
      exact (prefix_decodeCandidate hc).trans (ih h)

theorem Spaced.of_front {as bs : List (α × ℤ)} (h : KeyRing.Spaced dupRing bs) (hpre : as <+: bs) :
    KeyRing.Spaced dupRing as := by
  obtain ⟨cs, rfl⟩ := hpre
  exact h.of_append

/-- One candidate, in terms of what is new. -/
theorem Passed.candidate {asked : List (α × ℤ)} {seen : List α} {l l' : Local α β}
    {c : Candidate α β} (hl : Passed hash w.proto asked seen l)
    (h : decodeCandidate hash w l c = some l') (hspaced : KeyRing.Spaced dupRing l'.asked) :
    ∃ seen' ds, Passed hash w.proto asked seen' l' ∧ l'.decodes = l.decodes ++ ds ∧
      ds.length ≤ 1 ∧
      ∀ ps, unseen asked seen (heard w [c] ++ ps) = ds ++ unseen asked seen' ps := by
  rcases decodeCandidate_cases h with
    ⟨hheard, rfl⟩ | ⟨d, hheard, ⟨i, hwalk, rfl⟩ | ⟨i, l₁, hwalk, rfl, rfl⟩⟩
  · refine ⟨seen, [], hl, (List.append_nil _).symm, Nat.zero_le 1, fun ps => ?_⟩
    rw [hheard]
    rfl
  · refine ⟨seen, [], hl, (List.append_nil _).symm, Nat.zero_le 1, fun ps => ?_⟩
    rw [hheard, List.singleton_append, unseen, if_pos (hl.table.hit hwalk)]
    rfl
  · obtain ⟨hseen, htable⟩ := hl.table.free hwalk
    cases hreadable : c.readable with
    | false =>
      rw [hreadable] at hheard
      refine ⟨d.payload :: seen, [], ⟨htable, hl.dup, hl.old, ?_, hl.decodes⟩,
        (List.append_nil _).symm, Nat.zero_le 1, fun ps => ?_⟩
      · exact fun k hk => (hl.new k hk).imp_right (List.mem_cons_of_mem _)
      · rw [hheard, List.singleton_append, unseen, if_neg hseen, if_neg (fun hp => nomatch hp.1)]
        rfl
    | true =>
      rw [hreadable] at hheard hspaced
      rw [if_pos rfl, prefix_askDup] at hspaced
      obtain ⟨hpassed, hdecodes⟩ := hl.ask hseen htable hspaced
      by_cases hk : d.key ∈ asked
      · rw [if_pos hk] at hdecodes
        refine ⟨d.payload :: seen, [], hpassed, ?_, Nat.zero_le 1, fun ps => ?_⟩
        · rw [List.append_nil]
          exact hdecodes
        · rw [hheard, List.singleton_append, unseen, if_neg hseen, if_neg (fun hp => hp.2 hk)]
          rfl
      · rw [if_neg hk] at hdecodes
        refine ⟨d.payload :: seen, [d], hpassed, hdecodes, le_rfl, fun ps => ?_⟩
        rw [hheard, List.singleton_append, unseen, if_neg hseen, if_pos ⟨rfl, hk⟩]
        rfl

/-- **The loop over the candidates** finds what is new. -/
theorem Passed.loop {asked : List (α × ℤ)} {seen : List α} {l l' : Local α β}
    {cs : List (Candidate α β)} (hl : Passed hash w.proto asked seen l)
    (h : decodeLoop hash w l cs = some l') (hspaced : KeyRing.Spaced dupRing l'.asked)
    (hroom : l.decodes.length ≤ maxDecodes) :
    (∃ seen', Passed hash w.proto asked seen' l') ∧
      l'.decodes = (l.decodes ++ unseen asked seen (heard w cs)).take maxDecodes := by
  induction cs generalizing l seen with
  | nil =>
    obtain rfl := Option.some.inj h
    refine ⟨⟨seen, hl⟩, ?_⟩
    rw [show unseen asked seen (heard w []) = [] from rfl, List.append_nil,
      List.take_of_length_le hroom]
  | cons c cs ih =>
    rw [decodeLoop] at h
    split at h
    · rename_i hfull
      obtain rfl := Option.some.inj h
      exact ⟨⟨seen, hl⟩, (List.take_left' (hroom.antisymm hfull)).symm⟩
    · rename_i hfull
      obtain ⟨l₁, hc, h⟩ := Option.bind_eq_some_iff.mp h
      obtain ⟨seen', ds, hl', hds, hone, hunseen⟩ :=
        hl.candidate hc (Spaced.of_front hspaced (prefix_decodeLoop h))
      obtain ⟨hpassed, hdecodes⟩ := ih hl' h (by rw [hds, List.length_append]; omega)
      refine ⟨hpassed, ?_⟩
      rw [hdecodes, hds, heard_cons, hunseen, List.append_assoc]

end

/-! ## The publication, decode by decode -/

section

variable {α β : Type*}

/-- The publication of one decode. -/
def publish (p : ResultList α β × List (Decode α β)) (d : Decode α β) :
    ResultList α β × List (Decode α β) :=
  if p.1.haveSlot = false ∨ p.1.resultSlot < d.slot then
    (⟨[d], utc d.slot, d.slot, true⟩, p.2 ++ [d])
  else if p.1.resultSlot = d.slot ∧ p.1.results.length < maxDecodes then
    ({ p.1 with results := p.1.results ++ [d] }, p.2 ++ [d])
  else p

theorem publish_of_not_hasPlace {p : ResultList α β × List (Decode α β)} {d : Decode α β}
    (h : ¬ HasPlace p.1 d) : publish p d = p := by
  obtain ⟨hhave, hrest⟩ := not_or.mp h
  obtain ⟨holder, hfull⟩ := not_or.mp hrest
  unfold publish
  rw [if_neg (not_or.mpr ⟨hhave, holder⟩), if_neg hfull]

theorem foldl_publish_of_not_hasPlace {p : ResultList α β × List (Decode α β)}
    {ds : List (Decode α β)} (h : ∀ d ∈ ds, ¬ HasPlace p.1 d) : ds.foldl publish p = p := by
  induction ds with
  | nil => rfl
  | cons d ds ih =>
    obtain ⟨hd, hds⟩ := List.forall_mem_cons.mp h
    rw [List.foldl_cons, publish_of_not_hasPlace hd, ih hds]

/-- A decode for the slot of the list. -/
theorem publish_same {r : ResultList α β} {d : Decode α β} (hhave : r.haveSlot = true)
    (hd : d.slot = r.resultSlot) (hroom : r.results.length < maxDecodes)
    (published : List (Decode α β)) :
    publish (r, published) d = ({ r with results := r.results ++ [d] }, published ++ [d]) := by
  have hnot : ¬ (r.haveSlot = false ∨ r.resultSlot < d.slot) := by
    rintro (h | h)
    · exact nomatch hhave.symm.trans h
    · omega
  unfold publish
  rw [if_neg hnot, if_pos ⟨hd.symm, hroom⟩]

/-- The loop that appends a group, whose slot is that of the list. -/
theorem appendLoop_eq {ds : List (Decode α β)} {r : ResultList α β} (hhave : r.haveSlot = true)
    (hds : ∀ d ∈ ds, d.slot = r.resultSlot) (added : ℕ) (published : List (Decode α β)) :
    ∃ n, (appendLoop ds added r).2 = added + n ∧
      ds.foldl publish (r, published) = ((appendLoop ds added r).1, published ++ ds.take n) := by
  induction ds generalizing r added published with
  | nil => exact ⟨0, rfl, by rw [List.take_zero, List.append_nil]; rfl⟩
  | cons d ds ih =>
    rw [appendLoop]
    by_cases hroom : r.results.length < maxDecodes
    · obtain ⟨hd, hds⟩ := List.forall_mem_cons.mp hds
      obtain ⟨n, hcount, hfold⟩ :=
        ih (r := { r with results := r.results ++ [d] }) hhave hds (added + 1) (published ++ [d])
      rw [if_pos hroom, List.foldl_cons, publish_same hhave hd hroom, hcount, hfold]
      refine ⟨n + 1, by omega, ?_⟩
      rw [List.take_succ_cons, List.append_assoc, List.singleton_append]
    · have hfull : ∀ e ∈ d :: ds, ¬ HasPlace r e := by
        rintro e he (h | h | h)
        · exact nomatch hhave.symm.trans h
        · exact absurd (hds e he) h.ne'
        · exact hroom h.2
      rw [if_neg hroom, foldl_publish_of_not_hasPlace (p := (r, published)) hfull]
      exact ⟨0, rfl, by rw [List.take_zero, List.append_nil]⟩

/-- A group is published decode by decode. -/
theorem publishGroup_eq {d : Decode α β} {ds : List (Decode α β)} (hds : ∀ e ∈ ds, e.slot = d.slot)
    (r : ResultList α β) (published : List (Decode α β)) :
    ((publishGroup d ds r).1, published ++ (publishGroup d ds r).2) =
      (d :: ds).foldl publish (r, published) := by
  by_cases hnew : r.haveSlot = false ∨ r.resultSlot < d.slot
  · -- a newer slot: the list is empty when the group is appended
    have hstart : startSlot d r = ⟨[], utc d.slot, d.slot, true⟩ := if_pos hnew
    have hfirst : publish (r, published) d =
        publish (⟨[], utc d.slot, d.slot, true⟩, published) d := by
      have hsame := publish_same (r := ⟨[], utc d.slot, d.slot, true⟩) (d := d) rfl rfl
        (Nat.zero_lt_succ 63) published
      exact (if_pos hnew).trans hsame.symm
    have hall : ∀ e ∈ d :: ds, e.slot = d.slot := List.forall_mem_cons.mpr ⟨rfl, hds⟩
    obtain ⟨n, hcount, hfold⟩ :=
      appendLoop_eq (r := ⟨[], utc d.slot, d.slot, true⟩) rfl hall 0 published
    unfold publishGroup
    rw [hstart, List.foldl_cons, hfirst, ← List.foldl_cons, hfold]
    dsimp only
    rw [if_pos rfl, hcount, Nat.zero_add]
  · obtain ⟨hhave, holder⟩ := not_or.mp hnew
    have hstart : startSlot d r = r := if_neg hnew
    unfold publishGroup
    rw [hstart]
    dsimp only
    by_cases hd : d.slot = r.resultSlot
    · have hall : ∀ e ∈ d :: ds, e.slot = r.resultSlot :=
        List.forall_mem_cons.mpr ⟨hd, fun e he => (hds e he).trans hd⟩
      obtain ⟨n, hcount, hfold⟩ :=
        appendLoop_eq (Bool.eq_true_of_not_eq_false hhave) hall 0 published
      rw [if_pos hd, hfold, hcount, Nat.zero_add]
    · have hnone : ∀ e ∈ d :: ds, ¬ HasPlace r e := by
        intro e he
        have heslot : e.slot = d.slot := by
          rcases List.mem_cons.mp he with rfl | he
          exacts [rfl, hds e he]
        rintro (h | h | h)
        · exact hhave h
        · exact holder (heslot ▸ h)
        · exact hd (h.1.trans heslot).symm
      rw [if_neg hd, foldl_publish_of_not_hasPlace (p := (r, published)) hnone, List.append_nil]

/-- **The groups** make no difference. -/
theorem publishLoop_eq {fuel : ℕ} {ds : List (Decode α β)} (hfuel : ds.length ≤ fuel)
    (p : ResultList α β × List (Decode α β)) : publishLoop fuel ds p = ds.foldl publish p := by
  induction fuel generalizing ds p with
  | zero =>
    obtain rfl := List.length_eq_zero_iff.mp (Nat.le_zero.mp hfuel)
    rfl
  | succ fuel ih =>
    cases ds with
    | nil => rfl
    | cons d ds =>
      obtain ⟨r, published⟩ := p
      have hgroup : ∀ e ∈ ds.takeWhile fun e => e.slot = d.slot, e.slot = d.slot :=
        fun e he => of_decide_eq_true
          (List.mem_takeWhile_imp (p := fun e : Decode α β => e.slot = d.slot) he)
      have hrest : (ds.dropWhile fun e => e.slot = d.slot).length ≤ fuel :=
        (List.dropWhile_suffix _).length_le.trans (Nat.le_of_succ_le_succ hfuel)
      rw [publishLoop]
      dsimp only
      rw [publishGroup_eq hgroup, ih hrest, ← List.foldl_append, List.cons_append,
        List.takeWhile_append_dropWhile]

/-- Decodes that are not newer than the list are appended, as long as there is room. -/
theorem foldl_publish_le {ds : List (Decode α β)} {r : ResultList α β} (hhave : r.haveSlot = true)
    (hds : ∀ d ∈ ds, d.slot ≤ r.resultSlot) (hsize : r.results.length ≤ maxDecodes)
    (published : List (Decode α β)) :
    ∃ added, added.Sublist ds ∧ (r.results ++ added).length ≤ maxDecodes ∧
      ds.foldl publish (r, published) =
        ({ r with results := r.results ++ added }, published ++ added) := by
  induction ds generalizing r published with
  | nil =>
    refine ⟨[], List.Sublist.refl _, ?_, ?_⟩
    · rwa [List.append_nil]
    · rw [List.append_nil, List.append_nil]
      rfl
  | cons d ds ih =>
    obtain ⟨hd, hds⟩ := List.forall_mem_cons.mp hds
    rw [List.foldl_cons]
    by_cases hplace : d.slot = r.resultSlot ∧ r.results.length < maxDecodes
    · obtain ⟨added, hsub, hle, hfold⟩ := ih (r := { r with results := r.results ++ [d] }) hhave hds
        (by rw [List.length_append, List.length_singleton]; omega) (published ++ [d])
      rw [publish_same hhave hplace.1 hplace.2, hfold]
      dsimp only at hle ⊢
      rw [List.append_assoc, List.singleton_append] at hle
      refine ⟨d :: added, hsub.cons_cons d, hle, ?_⟩
      rw [List.append_assoc, List.append_assoc, List.singleton_append]
    · have hnone : ¬ HasPlace r d := by
        rintro (h | h | h)
        · exact nomatch hhave.symm.trans h
        · omega
        · exact hplace ⟨h.1.symm, h.2⟩
      obtain ⟨added, hsub, hle, hfold⟩ := ih hhave hds hsize published
      rw [publish_of_not_hasPlace (p := (r, published)) hnone, hfold]
      exact ⟨added, hsub.cons d, hle, rfl⟩

/-- What a window does to the list if nothing is newer than the first decode that has a place: it
appends to it, or it begins a newer one. -/
theorem foldl_publish_cases {ds : List (Decode α β)} {r : ResultList α β}
    (hsize : r.results.length ≤ maxDecodes)
    (hds : ∀ d ∈ ds.find? fun d => HasPlace r d, ∀ e ∈ ds, e.slot ≤ d.slot)
    (published : List (Decode α β)) :
    ∃ added, added.Sublist ds ∧ (ds.foldl publish (r, published)).2 = published ++ added ∧
      (ds.foldl publish (r, published)).1.results.length ≤ maxDecodes ∧
      (((ds.foldl publish (r, published)).1 = { r with results := r.results ++ added } ∧
          (r.haveSlot = false → added = [])) ∨ added ≠ [] ∧
        ∃ d ∈ ds.find? fun d => HasPlace r d, (r.haveSlot = false ∨ r.resultSlot < d.slot) ∧
          (ds.foldl publish (r, published)).1 = ⟨added, utc d.slot, d.slot, true⟩) := by
  cases hfind : ds.find? fun d => HasPlace r d with
  | none =>
    have hnone : ∀ d ∈ ds, ¬ HasPlace r d := fun d hd =>
      of_decide_eq_false (Bool.eq_false_iff.mpr (List.find?_eq_none.mp hfind d hd))
    rw [foldl_publish_of_not_hasPlace (p := (r, published)) hnone]
    refine ⟨[], List.nil_sublist _, (List.append_nil _).symm, hsize, .inl ⟨?_, fun _ => rfl⟩⟩
    rw [List.append_nil]
  | some d =>
    have hle := hds d hfind
    obtain ⟨hplace, before, rest, rfl, hbefore⟩ := List.find?_eq_some_iff_append.mp hfind
    have hnone : ∀ e ∈ before, ¬ HasPlace r e := fun e he => by simpa using hbefore e he
    have hrest : ∀ e ∈ rest, e.slot ≤ d.slot :=
      fun e he => hle e (List.mem_append_right _ (List.mem_cons_of_mem d he))
    rw [List.foldl_append, foldl_publish_of_not_hasPlace (p := (r, published)) hnone,
      List.foldl_cons]
    by_cases hnew : r.haveSlot = false ∨ r.resultSlot < d.slot
    · have hpublish : publish (r, published) d =
          (⟨[d], utc d.slot, d.slot, true⟩, published ++ [d]) := if_pos hnew
      obtain ⟨added, hsub, hlength, hfold⟩ := foldl_publish_le
        (r := ⟨[d], utc d.slot, d.slot, true⟩) rfl hrest (Nat.succ_le_succ (Nat.zero_le 63))
        (published ++ [d])
      rw [hpublish, hfold]
      refine ⟨d :: added, (hsub.cons_cons d).trans (List.sublist_append_right ..), ?_, hlength,
        .inr ⟨List.cons_ne_nil d added, d, rfl, hnew, rfl⟩⟩
      rw [List.append_assoc, List.singleton_append]
    · obtain ⟨hhave, holder⟩ := not_or.mp hnew
      have hhave := Bool.eq_true_of_not_eq_false hhave
      obtain ⟨hslot, hroom⟩ : r.resultSlot = d.slot ∧ r.results.length < maxDecodes := by
        rcases of_decide_eq_true hplace with h | h | h
        · exact absurd (.inl h) hnew
        · exact absurd h holder
        · exact h
      obtain ⟨added, hsub, hlength, hfold⟩ := foldl_publish_le
        (r := { r with results := r.results ++ [d] }) hhave (fun e he => hslot ▸ hrest e he)
        (by rw [List.length_append, List.length_singleton]; omega) (published ++ [d])
      rw [publish_same hhave hslot.symm hroom, hfold]
      refine ⟨d :: added, (hsub.cons_cons d).trans (List.sublist_append_right ..), ?_, hlength,
        .inl ⟨?_, fun h => nomatch hhave.symm.trans h⟩⟩
      · exact List.append_assoc published [d] added
      · dsimp only
        rw [List.append_assoc, List.singleton_append]

end

/-! ## The list advances -/

section

variable {α β : Type*}

theorem Advances.refl (r : ResultList α β) : Advances r r :=
  fun hhave => ⟨hhave, .inr ⟨rfl, rfl, List.prefix_refl _⟩⟩

theorem Advances.trans {r₁ r₂ r₃ : ResultList α β} (h : Advances r₁ r₂) (h' : Advances r₂ r₃) :
    Advances r₁ r₃ := by
  intro hhave
  obtain ⟨hhave₂, hslot⟩ := h hhave
  obtain ⟨hhave₃, hslot'⟩ := h' hhave₂
  refine ⟨hhave₃, ?_⟩
  rcases hslot with hlt | ⟨heq, hutc, hpre⟩ <;> rcases hslot' with hlt' | ⟨heq', hutc', hpre'⟩
  · exact .inl (hlt.trans hlt')
  · exact .inl (heq' ▸ hlt)
  · exact .inl (heq ▸ hlt')
  · exact .inr ⟨heq'.trans heq, hutc'.trans hutc, hpre.trans hpre'⟩

theorem advances_publish (p : ResultList α β × List (Decode α β)) (d : Decode α β) :
    Advances p.1 (publish p d).1 := by
  intro hhave
  unfold publish
  split_ifs with hnew hsame
  · exact ⟨rfl, .inl (hnew.resolve_left fun h => nomatch hhave.symm.trans h)⟩
  · exact ⟨hhave, .inr ⟨rfl, rfl, List.prefix_append ..⟩⟩
  · exact Advances.refl _ hhave

theorem advances_foldl (ds : List (Decode α β)) (p : ResultList α β × List (Decode α β)) :
    Advances p.1 (ds.foldl publish p).1 := by
  induction ds generalizing p with
  | nil => exact Advances.refl _
  | cons d ds ih => exact (advances_publish p d).trans (ih _)

end

/-! ## The reader -/

section

variable {α β : Type*}

theorem utc_ne_nil (slot : ℤ) : utc slot ≠ [] := nofun

/-- Two slots have the same label if they are whole days apart. -/
theorem utc_eq_iff {a b : ℤ} : utc a = utc b ↔ (86400 : ℤ) ∣ a - b := by
  unfold utc figures
  simp only [List.cons_append, List.nil_append, List.cons.injEq, and_true]
  omega

/-- The list has grown since the last look. -/
theorem look_grown {q : Reader α β} {r : ResultList α β} (hutc : q.lastUtc = r.resultUtc)
    (hn : q.lastN = r.results.length) {added : List (Decode α β)}
    (hsize : (r.results ++ added).length ≤ maxDecodes) (hlabel : r.resultUtc = [] → added = []) :
    q.look { r with results := r.results ++ added } =
      ⟨r.resultUtc, (r.results ++ added).length, q.taken ++ added⟩ := by
  have hmin : min (r.results ++ added).length 64 = (r.results ++ added).length := min_eq_left hsize
  unfold Reader.look
  dsimp only
  rw [if_pos hutc.symm, hmin, hn, List.take_length, List.drop_left]
  by_cases hnone : added = []
  · subst hnone
    rw [List.append_nil, List.append_nil, if_neg (fun h => lt_irrefl _ h.1), ← hutc, ← hn]
  · have hpos := List.length_pos_of_ne_nil hnone
    rw [if_pos ⟨by rw [List.length_append]; omega, fun h => hnone (hlabel h)⟩]

/-- The list is another one, with another label. -/
theorem look_other {q : Reader α β} {r : ResultList α β} (hutc : r.resultUtc ≠ q.lastUtc)
    (hlabel : r.resultUtc ≠ []) (hsize : r.results.length ≤ maxDecodes) (hne : r.results ≠ []) :
    q.look r = ⟨r.resultUtc, r.results.length, q.taken ++ r.results⟩ := by
  have hmin : min r.results.length 64 = r.results.length := min_eq_left hsize
  unfold Reader.look
  dsimp only
  rw [if_neg hutc, hmin, if_pos ⟨List.length_pos_of_ne_nil hne, hlabel⟩, List.take_length,
    List.drop_zero]

end

/-! ## A session -/

section

variable {α β : Type*} [DecidableEq α] {hash : Bool → α → ℕ}

/-- What holds after each window. -/
structure Inv (s : State α β) : Prop where
  dup : ∃ keys, KeyRing.Remembers dupRing s.dup s.asked keys
  nodup : (s.published.map Decode.key).Nodup
  asked : ∀ d ∈ s.published, d.key ∈ s.asked
  empty : s.list.haveSlot = false → s.list.resultUtc = []
  label : s.list.haveSlot = true → s.list.resultUtc = utc s.list.resultSlot
  size : s.list.results.length ≤ maxDecodes
  lastUtc : s.reader.lastUtc = s.list.resultUtc
  lastN : s.reader.lastN = s.list.results.length
  taken : s.reader.taken = s.published

omit [DecidableEq α] in
theorem inv_fresh (slot : ℤ) : Inv (fresh slot : State α β) where
  dup := ⟨[], KeyRing.Remembers.nil dupRing⟩
  nodup := List.nodup_nil
  asked := nofun
  empty _ := rfl
  label := nofun
  size := Nat.zero_le _
  lastUtc := rfl
  lastN := rfl
  taken := rfl

/-- What is new has not been decoded before, and no payload is new twice. -/
theorem unseen_spec (asked : List (α × ℤ)) (ps : List (Decode α β × Bool)) (seen : List α) :
    ((unseen asked seen ps).map Decode.payload).Nodup ∧
      ∀ d ∈ unseen asked seen ps, d.payload ∉ seen ∧ d.key ∉ asked := by
  induction ps generalizing seen with
  | nil => exact ⟨List.nodup_nil, nofun⟩
  | cons p ps ih =>
    obtain ⟨d, readable⟩ := p
    obtain ⟨hnodup, hmem⟩ := ih (d.payload :: seen)
    have hrest : ∀ e ∈ unseen asked (d.payload :: seen) ps, e.payload ∉ seen ∧ e.key ∉ asked :=
      fun e he => ⟨fun h => (hmem e he).1 (List.mem_cons_of_mem _ h), (hmem e he).2⟩
    rw [unseen]
    split_ifs with hseen hnew
    · exact ih seen
    · refine ⟨?_, List.forall_mem_cons.mpr ⟨⟨hseen, hnew.2⟩, hrest⟩⟩
      rw [List.map_cons, List.nodup_cons]
      refine ⟨fun h => ?_, hnodup⟩
      obtain ⟨e, he, heq⟩ := List.mem_map.mp h
      exact (hmem e he).1 (heq ▸ List.mem_cons_self ..)
    · exact ⟨hnodup, hrest⟩

/-- What one window does. -/
theorem step_eq_some {s t : State α β} {w : Window α β} (h : step hash s w = some t) (hinv : Inv s)
    (hspaced : KeyRing.Spaced dupRing t.asked) :
    (∃ keys, KeyRing.Remembers dupRing t.dup t.asked keys) ∧ (∀ k ∈ s.asked, k ∈ t.asked) ∧
      (∀ d ∈ news s w, d.key ∈ t.asked) ∧
      (t.list, t.published) = (news s w).foldl publish (s.list, s.published) ∧
      t.reader = s.reader.look t.list := by
  obtain ⟨l, hl, rfl⟩ := Option.map_eq_some_iff.mp h
  have hempty : Passed hash w.proto s.asked [] ⟨fun _ => none, s.dup, ([] : List (Decode α β)),
      s.asked⟩ :=
    ⟨⟨ProbeTable.chained_empty, fun m => ⟨(nomatch ·.choose_spec), nofun⟩⟩, hinv.dup,
      fun _ hk => hk, fun _ hk => .inl hk, nofun⟩
  obtain ⟨⟨seen, hpassed⟩, hdecodes⟩ := hempty.loop hl hspaced (Nat.zero_le _)
  rw [List.nil_append] at hdecodes
  have hnews : news s w = l.decodes := hdecodes.symm
  refine ⟨hpassed.dup, hpassed.old, ?_, ?_, rfl⟩
  · rw [hnews]
    exact hpassed.decodes
  · rw [hnews, ← publishLoop_eq le_rfl]

/-- **One window** that meets the condition. -/
theorem Inv.step {s t : State α β} {w : Window α β} (hinv : Inv s) (hmeets : Meets s w)
    (h : step hash s w = some t) (hspaced : KeyRing.Spaced dupRing t.asked) : Inv t := by
  obtain ⟨hdup, hold, hnews, hfold, hreader⟩ := step_eq_some h hinv hspaced
  obtain ⟨hpayload, hunseen⟩ := unseen_spec s.asked (heard w w.candidates) []
  obtain ⟨added, hsub, hpublished, hsize, hlist⟩ := foldl_publish_cases hinv.size
    (fun d hd => (hmeets d hd).1) s.published
  rw [← hfold] at hpublished hsize hlist
  dsimp only at hpublished hsize hlist
  have hadded : ∀ d ∈ added, d ∈ news s w := fun d hd => hsub.subset hd
  have hnodup : (t.published.map Decode.key).Nodup := by
    have hkeys : (added.map Decode.key).Nodup := by
      refine List.Nodup.of_map Prod.fst ?_
      rw [List.map_map]
      exact hpayload.sublist ((hsub.trans (List.take_sublist ..)).map Decode.payload)
    rw [hpublished, List.map_append, List.nodup_append]
    refine ⟨hinv.nodup, hkeys, ?_⟩
    rintro k hk k' hk' rfl
    obtain ⟨d, hd, rfl⟩ := List.mem_map.mp hk
    obtain ⟨e, he, heq⟩ := List.mem_map.mp hk'
    exact (hunseen e (List.mem_of_mem_take (hadded e he))).2 (heq ▸ hinv.asked d hd)
  have hasked : ∀ d ∈ t.published, d.key ∈ t.asked := by
    intro d hd
    rw [hpublished] at hd
    rcases List.mem_append.mp hd with hd | hd
    · exact hold _ (hinv.asked d hd)
    · exact hnews d (hadded d hd)
  rcases hlist with ⟨hlist, hnone⟩ | ⟨hne, d, hd, hnew, hlist⟩
  · have hlabel : s.list.resultUtc = [] → added = [] := by
      intro hnil
      refine hnone (Bool.eq_false_iff.mpr fun hhave => ?_)
      exact utc_ne_nil _ ((hinv.label hhave).symm.trans hnil)
    rw [hlist] at hsize
    have hlook := look_grown hinv.lastUtc hinv.lastN hsize hlabel
    rw [hlist, hlook] at hreader
    refine ⟨hdup, hnodup, hasked, ?_, ?_, ?_, ?_, ?_, ?_⟩
    · rw [hlist]
      exact hinv.empty
    · rw [hlist]
      exact hinv.label
    · rw [hlist]
      exact hsize
    · rw [hreader, hlist]
    · rw [hreader, hlist]
    · rw [hreader, hpublished, hinv.taken]
  · have hlabel : utc d.slot ≠ s.reader.lastUtc := by
      rw [hinv.lastUtc]
      cases hhave : s.list.haveSlot with
      | false =>
        rw [hinv.empty hhave]
        exact utc_ne_nil _
      | true =>
        rw [hinv.label hhave]
        have hlt := hnew.resolve_left fun h => nomatch hhave.symm.trans h
        exact fun heq => (hmeets d hd).2 hhave hlt (utc_eq_iff.mp heq)
    rw [hlist] at hsize
    have hlook := look_other (q := s.reader) (r := ⟨added, utc d.slot, d.slot, true⟩) hlabel
      (utc_ne_nil _) hsize hne
    rw [hlist, hlook] at hreader
    refine ⟨hdup, hnodup, hasked, ?_, ?_, ?_, ?_, ?_, ?_⟩
    · rw [hlist]
      exact nofun
    · rw [hlist]
      exact fun _ => rfl
    · rw [hlist]
      exact hsize
    · rw [hreader, hlist]
    · rw [hreader, hlist]
    · rw [hreader, hpublished, hinv.taken]

theorem advances_step {s t : State α β} {w : Window α β} (h : step hash s w = some t) :
    Advances s.list t.list := by
  obtain ⟨l, -, rfl⟩ := Option.map_eq_some_iff.mp h
  dsimp only
  rw [publishLoop_eq le_rfl]
  exact advances_foldl l.decodes (s.list, s.published)

theorem asked_before {s t : State α β} {w : Window α β} (h : step hash s w = some t) :
    s.asked <+: t.asked := by
  obtain ⟨l, hl, rfl⟩ := Option.map_eq_some_iff.mp h
  exact prefix_decodeLoop hl

/-- The list advances from any time of a session to any later one. -/
theorem advances_exec {slot : ℤ} {s t : State α β} {ws : List (Window α β)}
    (h : (session hash slot).exec s ws = some t) : Advances s.list t.list :=
  (session hash slot).exec_induction (I := fun u => Advances s.list u.list)
    (fun _ _ _ hs hstep => hs.trans (advances_step hstep)) (Advances.refl _) h

/-- The state after a session, if what has been decoded again has been so in time. -/
theorem inv_exec {slot : ℤ} {s : State α β} {ws : List (Window α β)}
    (h : (session hash slot).exec (fresh slot) ws = some s)
    (hspaced : KeyRing.Spaced dupRing s.asked)
    (hmeets : (session hash slot).Along Meets (fresh slot) ws) : Inv s := by
  refine (session hash slot).exec_induction_along (P := Meets)
    (I := fun s => KeyRing.Spaced dupRing s.asked → Inv s) ?_ ws (fresh slot) s
    (fun _ => inv_fresh slot) hmeets h hspaced
  intro s w t hs hw hstep ht
  exact (hs (Spaced.of_front ht (asked_before hstep))).step hw hstep ht

/-- **Every decode is published once and seen once.** In a session where fewer than 256 other
transmissions come between two times that one is decoded, none is published twice; the list only
goes on to newer slots and grows within one; and a reader that looks after each window takes exactly
what is published, if the windows meet the condition. -/
theorem taken_published {slot : ℤ} {s : State α β} {ws : List (Window α β)}
    (h : (session hash slot).exec (fresh slot) ws = some s)
    (hspaced : KeyRing.Spaced dupRing s.asked)
    (hmeets : (session hash slot).Along Meets (fresh slot) ws) :
    (s.published.map Decode.key).Nodup ∧
      (∀ us vs r, ws = us ++ vs → (session hash slot).exec (fresh slot) us = some r →
        Advances r.list s.list) ∧
      s.reader.taken = s.published := by
  have hinv := inv_exec h hspaced hmeets
  refine ⟨hinv.nodup, ?_, hinv.taken⟩
  rintro us vs r rfl hr
  rw [(session hash slot).exec_append hr] at h
  exact advances_exec h

end

instance {α β : Type*} [DecidableEq α] : DecidableRel (Meets (α := α) (β := β)) :=
  fun _ _ => inferInstanceAs (Decidable (∀ _ ∈ _, _ ∧ _))

/-- A window of 15 s that ends `ms` milliseconds after 22:13:30 UTC, with transmissions from the
given times on. -/
def windowAt (ms : ℤ) (cs : List (ℚ × ℕ)) : Window ℕ Unit where
  proto := false
  len := 180000
  endUs := 1700000010000000 + ms * 1000
  candidates := cs.map fun c => ⟨c.1, some c.2, true, ()⟩

theorem taken_published_overlap : ∃ s,
    (session (fun _ m => m) 0).exec (fresh 0)
      [windowAt 14500 [(1, 7), (1, 8)], windowAt 15500 [(0, 7), (0, 9)]] = some s ∧
      (s.published.map Decode.payload = [7, 8, 9] ∧
        s.reader.taken = s.published ∧ (s.published.map Decode.key).Nodup) := by
  have h : ∃ s, (session (fun _ m => m) 0).exec (fresh 0)
      [windowAt 14500 [(1, 7), (1, 8)], windowAt 15500 [(0, 7), (0, 9)]] = some s ∧
      (s.published.map Decode.payload = [7, 8, 9] ∧ s.asked.length ≤ dupRing + 1) :=
    (session (fun _ m => m) 0).exists_exec (by decide +kernel)
  obtain ⟨s, hs, hpayload, hlength⟩ := h
  obtain ⟨hnodup, -, htaken⟩ := taken_published hs (.of_length_le hlength) (by decide +kernel)
  exact ⟨s, hs, hpayload, htaken, hnodup⟩

/-- Two stations a fifth of a second apart, half way between two slots: the window publishes the
first one for the earlier slot, and replaces it before the reader looks. -/
theorem not_taken_published :
    ¬ ∀ (hash : Bool → ℕ → ℕ) (slot : ℤ) (ws : List (Window ℕ Unit)) (s : State ℕ Unit),
      (session hash slot).exec (fresh slot) ws = some s → KeyRing.Spaced dupRing s.asked →
        s.reader.taken = s.published := by
  intro h
  have hrun : ∃ s, (session (fun _ m => m) 0).exec (fresh 0)
      [windowAt 6900 [(1, 7), (6 / 5, 8)]] = some s ∧
      (s.published.map Decode.payload = [7, 8] ∧ s.reader.taken.map Decode.payload = [8] ∧
        s.asked.length ≤ dupRing + 1) :=
    (session (fun _ m => m) 0).exists_exec (by decide +kernel)
  obtain ⟨s, hs, hpublished, htaken, hlength⟩ := hrun
  rw [h _ 0 _ s hs (.of_length_le hlength), hpublished] at htaken
  exact absurd htaken (by decide)

end MacHPSDR.Ft8.Publish
