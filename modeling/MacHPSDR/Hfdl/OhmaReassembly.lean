import MacHPSDR.Foundations.Transition
import MacHPSDR.Hfdl.Ohma

/-!
# What becomes of a conversation

Conversations `k` of `T k` segments each are sent, whatever their order. A segment is taken by what
is written in it (`Segment`), and what has been received of a conversation since it was last
complete is `pending`.

While the segments are `Proper` the table runs one such conversation beside the other and reports
each exactly when all its numbers have come (`conversation_complete`). A segment is proper if its
number is one of its conversation and the conversation id fits its buffer, or if the number is out
of range and remains so as an `int`. Of the others `long_convo_id` is an example.
-/

namespace MacHPSDR.Hfdl.Ohma

/-! ## Segments -/

/-- A segment, as it is written in the JSON object. -/
structure Segment where
  reg : Registration
  convoId : List UInt8
  number : ℤ
  total : ℤ
  data : List UInt8
  positive : 0 < number
  first : number = 1 → 0 < total

namespace Segment

/-- The conversation of a segment. -/
def key (g : Segment) : OhmaKey := ⟨g.reg.text, g.convoId⟩

/-- The segment as a piece of its conversation. -/
def piece (g : Segment) : ℕ × List UInt8 := (g.number.toNat, g.data)

/-- The place of a segment. -/
def place (g : Segment) : ℕ := (g.number - 1).toNat

theorem number_eq (g : Segment) : g.number = g.place + 1 := by
  have := g.positive
  unfold place
  omega

theorem piece_eq (g : Segment) : g.piece = (g.place + 1, g.data) := by
  have h : g.number.toNat = g.place + 1 := by
    rw [g.number_eq]
    omega
  rw [piece, h]

end Segment

/-- A JSON object that arrives from an aircraft. -/
structure Arrival where
  now : ℤ
  reg : Option Registration
  json : OhmaJson

/-- The segment in a JSON object, if it has all that a segment has. -/
def Arrival.segment (a : Arrival) : Option Segment :=
  match a.reg, a.json.convoId, a.json.message with
  | some reg, some convoId, some message =>
    if hpos : 0 < a.json.msgSeq then
      if hfirst : a.json.msgSeq = 1 → 0 < a.json.msgTotal then
        some ⟨reg, convoId, a.json.msgSeq, a.json.msgTotal, message, hpos, hfirst⟩
      else none
    else none
  | _, _, _ => none

/-- The segments of a conversation whose numbers are its own. -/
def own (T : OhmaKey → ℕ) (k : OhmaKey) (h : List Segment) : List Segment :=
  h.filter fun g => decide (g.key = k ∧ g.number ≤ T k)

/-- One more segment of a conversation of `n`: with the last one that was missing it starts anew. -/
def gather (n : ℕ) (p : List (ℕ × List UInt8)) (g : Segment) : List (ℕ × List UInt8) :=
  if (PieceTable.of (p ++ [g.piece])).Full n then [] else p ++ [g.piece]

/-- What has been received of a conversation since it was last complete. -/
def pending (T : OhmaKey → ℕ) (k : OhmaKey) (h : List Segment) : List (ℕ × List UInt8) :=
  (own T k h).foldl (gather (T k)) []

/-! ## The table -/

/-- The segment is one that the table takes for what it is: its number is one of its conversation,
which has no more segments than an entry has places and an id that fits the buffer (or is complete
at once), and it says nothing else about their number; or the table refuses it. -/
def Proper (T : OhmaKey → ℕ) (g : Segment) : Prop :=
  if g.number ≤ T g.key then
    T g.key ≤ ohmaFragMax ∧ (g.convoId.length < 64 ∨ T g.key = 1) ∧
      (g.total = 0 ∨ g.total = T g.key)
  else toInt g.number < 1 ∨ toInt g.number > ohmaFragMax

instance (T : OhmaKey → ℕ) (g : Segment) : Decidable (Proper T g) :=
  inferInstanceAs (Decidable (ite ..))

/-- The table, together with the segments that have arrived. -/
structure Run where
  table : OhmaTable
  received : List Segment

/-- No timer has run out, there is room for a conversation that is not in the table, and a segment
is proper. -/
def Undisturbed (T : OhmaKey → ℕ) (s : Run) (a : Arrival) : Prop :=
  (∀ i, (s.table i).all fun e => decide (a.now - e.since ≤ ohmaReasmTimeout)) ∧
    ∀ g ∈ a.segment, Proper T g ∧
      (g.number ≤ T g.key ∧ s.table.find g.key = none → ∃ i, (s.table i).isNone)

instance (T : OhmaKey → ℕ) : DecidableRel (Undisturbed T) :=
  fun _ _ => inferInstanceAs (Decidable (_ ∧ _))

/-- JSON objects that arrive. -/
def ohma : System Run Arrival where
  init := ⟨SlotTable.empty, []⟩
  step s a := some ⟨(ohmaReassemble s.table a.now a.reg a.json).1,
    s.received ++ a.segment.toList⟩

/-- The entry of a conversation of `n` segments holds these pieces. -/
structure Holds (n : ℕ) (e : OhmaReasm) (p : List (ℕ × List UInt8)) : Prop where
  frag : e.frag = PieceTable.of p
  total : e.total = n ∨ e.total = 0 ∧ PieceTable.of p 0 = none
  inside : ∀ i, n ≤ i → PieceTable.of p i = none
  missing : ¬ (PieceTable.of p).Full n

/-- An entry or nothing, for some pieces. -/
def HoldsOption (n : ℕ) (o : Option OhmaReasm) (p : List (ℕ × List UInt8)) : Prop :=
  match o with
  | none => p = []
  | some e => Holds n e p

theorem holds_fresh {n : ℕ} (h : 0 < n) : Holds n .fresh [] where
  frag := rfl
  total := .inr ⟨rfl, rfl⟩
  inside _ _ := rfl
  missing hfull := by
    have hzero := hfull 0 h
    cases hzero

/-- The total that an entry has after a segment. -/
def withTotal (e : OhmaReasm) (total : ℤ) : OhmaReasm :=
  if 0 < total ∧ total ≤ ohmaFragMax then { e with total := total } else e

section Accept

variable {n : ℕ} {e : OhmaReasm} {p : List (ℕ × List UInt8)} {g : Segment}

theorem frag_withTotal (e : OhmaReasm) (total : ℤ) : (withTotal e total).frag = e.frag := by
  unfold withTotal
  split <;> rfl

/-- The number of segments is known, or the first segment is still to come. -/
theorem Holds.known (h : Holds n e p) (hn : g.number ≤ n) (hmax : n ≤ ohmaFragMax)
    (htotal : g.total = 0 ∨ g.total = n) :
    (withTotal e g.total).total = n ∨
      (withTotal e g.total).total = 0 ∧ PieceTable.of (p ++ [g.piece]) 0 = none := by
  have hpos := g.positive
  unfold withTotal
  rcases htotal with hzero | hsame
  · have hkeep : ¬ (0 < g.total ∧ g.total ≤ ohmaFragMax) := by omega
    rw [if_neg hkeep]
    refine h.total.imp_right fun hrest => ⟨hrest.1, ?_⟩
    have hplace : 0 ≠ g.place := by
      intro hplace
      have hone : g.number = 1 := by
        rw [g.number_eq, ← hplace]
        rfl
      have := g.first hone
      omega
    rw [g.piece_eq, PieceTable.of_concat_of_ne p g.data hplace]
    exact hrest.2
  · have hset : 0 < g.total ∧ g.total ≤ ohmaFragMax := by omega
    rw [if_pos hset]
    exact .inl hsame

/-- **One segment on its entry.** -/
theorem accept_of_holds (h : Holds n e p) (hn : g.number ≤ n) (hmax : n ≤ ohmaFragMax)
    (htotal : g.total = 0 ∨ g.total = n) :
    HoldsOption n (ohmaReasmAccept e g.number g.total g.data).1 (gather n p g) ∧
    ∀ full, (ohmaReasmAccept e g.number g.total g.data).2 = .complete full ↔
      (PieceTable.of (p ++ [g.piece])).Full n ∧ full = (PieceTable.of (p ++ [g.piece])).join n := by
  have hpos := g.positive
  have hknown := h.known hn hmax htotal
  have hfrag := (frag_withTotal e g.total).trans h.frag
  have haccept : ohmaReasmAccept e g.number g.total g.data =
      if (PieceTable.of p g.place).isSome then (some (withTotal e g.total), .duplicate)
      else
        let e' := { withTotal e g.total with frag := (PieceTable.of p).put g.place g.data }
        if e'.total ≤ 0 then (some e', .inProgress)
        else if ¬ e'.frag.Full e'.total.toNat then (some e', .inProgress)
        else (none, .complete (e'.frag.join e'.total.toNat)) := by
    rw [← hfrag]
    rfl
  have hinside (i : ℕ) (hi : n ≤ i) : PieceTable.of (p ++ [g.piece]) i = none := by
    have hne : i ≠ g.place := by
      rintro rfl
      have := g.number_eq
      omega
    rw [g.piece_eq, PieceTable.of_concat_of_ne p g.data hne]
    exact h.inside i hi
  rw [haccept]
  cases hdup : PieceTable.of p g.place with
  | some d =>
    have hsame : PieceTable.of (p ++ [g.piece]) = PieceTable.of p := by
      rw [g.piece_eq]
      exact PieceTable.of_concat_of_isSome g.data (by rw [hdup]; rfl)
    have hmissing : ¬ (PieceTable.of (p ++ [g.piece])).Full n := by
      rw [hsame]
      exact h.missing
    simp only [Option.isSome_some, if_true, gather, hmissing, if_false, false_and, iff_false]
    exact ⟨⟨hfrag.trans hsame.symm, hknown, hinside, hmissing⟩, fun full hfull => by cases hfull⟩
  | none =>
    have hput : (PieceTable.of p).put g.place g.data = PieceTable.of (p ++ [g.piece]) := by
      rw [g.piece_eq]
      exact (PieceTable.of_concat_of_none g.data hdup).symm
    simp only [Option.isSome_none, Bool.false_eq_true, if_false, hput]
    rcases hknown with htot | ⟨htot, hfirst⟩
    · have hn0 : ¬ (n : ℤ) ≤ 0 := by omega
      simp only [htot, hn0, if_false, Int.toNat_natCast]
      by_cases hfull : (PieceTable.of (p ++ [g.piece])).Full n
      · simp only [hfull, not_true_eq_false, if_false, gather, if_true, true_and]
        refine ⟨rfl, fun full => ⟨fun heq => (OhmaStatus.complete.inj heq).symm, ?_⟩⟩
        rintro rfl
        rfl
      · simp only [hfull, not_false_eq_true, if_true, gather, if_false, false_and, iff_false]
        exact ⟨⟨rfl, .inl rfl, hinside, hfull⟩, fun full heq => by cases heq⟩
    · have hfull : ¬ (PieceTable.of (p ++ [g.piece])).Full n := by
        intro hfull
        have hzero := hfull 0 (by omega)
        rw [hfirst] at hzero
        cases hzero
      simp only [htot, le_refl, if_true, gather, hfull, if_false, false_and, iff_false]
      exact ⟨⟨rfl, .inr ⟨rfl, hfirst⟩, hinside, hfull⟩, fun full heq => by cases heq⟩

/-- A conversation that is complete leaves no entry. -/
theorem accept_eq_none {e : OhmaReasm} {seq total : ℤ} {data full : List UInt8}
    (h : (ohmaReasmAccept e seq total data).2 = .complete full) :
    (ohmaReasmAccept e seq total data).1 = none := by
  revert h
  simp only [ohmaReasmAccept]
  split_ifs <;> simp

end Accept

section Table

variable {t : OhmaTable} {k : OhmaKey} {n : ℕ} {p : List (ℕ × List UInt8)}

theorem status_acceptAt (i : Fin ohmaReasmMax) (e : Entry OhmaKey OhmaReasm) (seq total : ℤ)
    (data : List UInt8) : (ohmaReasmAcceptAt t i e seq total data).2 =
      (ohmaReasmAccept e.val seq total data).2 := by
  unfold ohmaReasmAcceptAt
  rcases ohmaReasmAccept e.val seq total data with ⟨_ | v, status⟩ <;> rfl

theorem updates_acceptAt (hu : t.Unique) {i : Fin ohmaReasmMax} (hi : t.Home k i)
    {e : Entry OhmaKey OhmaReasm} {seq total : ℤ} {data : List UInt8}
    (hkey : e.key = k ∨ (ohmaReasmAccept e.val seq total data).1 = none)
    (hp : HoldsOption n (ohmaReasmAccept e.val seq total data).1 p) :
    t.Updates (ohmaReasmAcceptAt t i e seq total data).1 k fun o => HoldsOption n o p := by
  unfold ohmaReasmAcceptAt
  rcases hr : ohmaReasmAccept e.val seq total data with ⟨v, status⟩
  rw [hr] at hkey hp
  cases v with
  | none => exact hi.updates_clear hu hp
  | some v =>
    have hkey' : ({ e with val := v } : Entry OhmaKey OhmaReasm).key = k := by
      rcases hkey with hkey | hnone
      · exact hkey
      · cases hnone
    exact hi.updates_put hu hkey' hp

/-- The conversation has an entry, or a new one is made in a free slot. -/
theorem add_cases {now : ℤ} (k : OhmaKey) (seq : ℤ) (hseq : 1 ≤ seq ∧ seq ≤ ohmaFragMax)
    (hout : ohmaReasmExpire t now = t) (hfree : t.find k = none → ∃ i, (t i).isNone) :
    ∃ i e, t.Home k i ∧
      (∀ total data, ohmaReasmAdd t now k seq total data = ohmaReasmAcceptAt t i e seq total data) ∧
      (t.get k = some e ∧ e.key = k ∨ t.get k = none ∧ e.key = ohmaStored k ∧ e.val = .fresh) := by
  have hrange : ¬ (seq < 1 ∨ seq > ohmaFragMax) := by omega
  cases hfind : t.find k with
  | some i =>
    obtain ⟨e, he, hkey⟩ := SlotTable.find_eq_some hfind
    refine ⟨i, e, .inl hfind, fun total data => ?_, .inl ⟨by simp [SlotTable.get, hfind, he], hkey⟩⟩
    simp [ohmaReasmAdd, hrange, hout, hfind, he]
  | none =>
    obtain ⟨i, hi⟩ := hfree hfind
    have halloc := SlotTable.alloc_of_free ⟨i, Option.isNone_iff_eq_none.1 hi⟩
    refine ⟨t.alloc, { key := ohmaStored k, since := now, val := .fresh }, .inr ⟨hfind, halloc⟩,
      fun total data => ?_, .inr ⟨by simp [SlotTable.get, hfind], rfl, rfl⟩⟩
    simp [ohmaReasmAdd, hrange, hout, hfind]

end Table

/-! ## What arrives -/

theorem reassemble_of_none (t : OhmaTable) {a : Arrival} (h : a.segment = none) :
    (ohmaReassemble t a.now a.reg a.json).1 = t ∧
      ∀ status, (ohmaReassemble t a.now a.reg a.json).2 ≠ .added status := by
  obtain ⟨now, reg, convoId, message, seq, total⟩ := a
  unfold ohmaReassemble
  cases message with
  | none => simp
  | some message =>
    by_cases hpos : seq ≤ 0
    · simp [hpos]
    · cases convoId with
      | none => simp [hpos]
      | some convoId =>
        by_cases hfirst : seq = 1 ∧ total ≤ 0
        · simp [hfirst]
        · cases reg with
          | none => simp [hpos, hfirst]
          | some reg =>
            have hpos' : 0 < seq := not_le.1 hpos
            have hfirst' : seq = 1 → 0 < total := fun hs => not_le.1 fun ht => hfirst ⟨hs, ht⟩
            simp only [Arrival.segment, dif_pos hpos', dif_pos hfirst', reduceCtorEq] at h

theorem reassemble_of_some (t : OhmaTable) {a : Arrival} {g : Segment} (h : a.segment = some g) :
    ohmaReassemble t a.now a.reg a.json =
      ((ohmaReasmAdd t a.now g.key (toInt g.number) (toInt g.total) g.data).1,
        .added (ohmaReasmAdd t a.now g.key (toInt g.number) (toInt g.total) g.data).2) := by
  obtain ⟨now, reg, convoId, message, seq, total⟩ := a
  unfold Arrival.segment at h
  split at h
  · rename_i reg' convo' message' hreg hconvo hmessage
    obtain rfl : reg = some reg' := hreg
    obtain rfl : convoId = some convo' := hconvo
    obtain rfl : message = some message' := hmessage
    split_ifs at h with hpos hfirst
    obtain rfl := Option.some.inj h
    have hseq : ¬ seq ≤ 0 := not_le.2 hpos
    have hlone : ¬ (seq = 1 ∧ total ≤ 0) := fun hs => absurd (hfirst hs.1) (not_lt.2 hs.2)
    simp [ohmaReassemble, hseq, hlone, Segment.key]
  · cases h

theorem toInt_eq_self {n : ℤ} (h0 : 0 ≤ n) (h1 : n ≤ ohmaFragMax) : toInt n = n := by
  unfold ohmaFragMax at h1
  unfold toInt
  rw [Int.bmod_eq_of_le (by omega) (by omega)]

theorem pending_concat_self {T : OhmaKey → ℕ} {h : List Segment} {g : Segment}
    (hn : g.number ≤ T g.key) : pending T g.key (h ++ [g]) =
      gather (T g.key) (pending T g.key h) g := by
  simp [pending, own, hn]

theorem pending_concat_of_not {T : OhmaKey → ℕ} {k : OhmaKey} {h : List Segment} {g : Segment}
    (hg : ¬ (g.key = k ∧ g.number ≤ T k)) : pending T k (h ++ [g]) = pending T k h := by
  unfold pending own
  rw [List.filter_append, List.filter_singleton, decide_eq_false hg]
  simp

/-- What is kept of a conversation has been received. -/
theorem exists_of_mem_pending {T : OhmaKey → ℕ} {k : OhmaKey} {h : List Segment}
    {x : ℕ × List UInt8} (hx : x ∈ pending T k h) :
    ∃ g ∈ h, g.key = k ∧ g.number ≤ T k ∧ g.piece = x := by
  induction h using List.reverseRecOn with
  | nil => cases hx
  | append_singleton h g ih =>
    by_cases hg : g.key = k ∧ g.number ≤ T k
    · obtain ⟨rfl, hn⟩ := hg
      rw [pending_concat_self hn, gather] at hx
      split_ifs at hx
      · cases hx
      · rcases List.mem_append.1 hx with hold | hnew
        · obtain ⟨g', hg', hrest⟩ := ih hold
          exact ⟨g', List.mem_append_left _ hg', hrest⟩
        · exact ⟨g, by simp, rfl, hn, (List.mem_singleton.1 hnew).symm⟩
    · rw [pending_concat_of_not hg] at hx
      obtain ⟨g', hg', hrest⟩ := ih hx
      exact ⟨g', List.mem_append_left _ hg', hrest⟩

/-! ## Runs -/

namespace Run

/-- The table holds what is pending of each conversation. -/
def Inv (T : OhmaKey → ℕ) (s : Run) : Prop :=
  s.table.Tracks fun k o => HoldsOption (T k) o (pending T k s.received)

variable {T : OhmaKey → ℕ} {s : Run} {a : Arrival} {g : Segment}

theorem expire_eq (hq : Undisturbed T s a) : ohmaReasmExpire s.table a.now = s.table :=
  SlotTable.expire_eq_self_of_all hq.1

/-- A segment whose number is not one of its conversation is refused. -/
theorem refuse (hq : Undisturbed T s a) (hg : a.segment = some g) (hn : ¬ g.number ≤ T g.key) :
    ohmaReassemble s.table a.now a.reg a.json = (s.table, .added .error) := by
  have hout : toInt g.number < 1 ∨ toInt g.number > ohmaFragMax := by
    have hproper := (hq.2 g hg).1
    rwa [Proper, if_neg hn] at hproper
  rw [reassemble_of_some s.table hg, ohmaReasmAdd, if_pos hout]

/-- **One segment.** Its conversation goes on as it would alone, and the others stay. -/
theorem receive (h : Inv T s) (hq : Undisturbed T s a) (hg : a.segment = some g)
    (hn : g.number ≤ T g.key) :
    s.table.Updates (ohmaReassemble s.table a.now a.reg a.json).1 g.key
      (fun o => HoldsOption (T g.key) o (gather (T g.key) (pending T g.key s.received) g)) ∧
    ∀ full, (ohmaReassemble s.table a.now a.reg a.json).2 = .added (.complete full) ↔
      (PieceTable.of (pending T g.key s.received ++ [g.piece])).Full (T g.key) ∧
        full = (PieceTable.of (pending T g.key s.received ++ [g.piece])).join (T g.key) := by
  have hpos := g.positive
  obtain ⟨hproper, hfree⟩ := hq.2 g hg
  rw [Proper, if_pos hn] at hproper
  obtain ⟨hmax, hfits, htotal⟩ := hproper
  have hnumber : toInt g.number = g.number := toInt_eq_self (by omega) (by omega)
  have htotal' : toInt g.total = g.total := toInt_eq_self (by omega) (by omega)
  obtain ⟨i, e, hi, hadd, he⟩ := add_cases g.key g.number ⟨hpos, by omega⟩
    (expire_eq hq) fun hfind => hfree ⟨hn, hfind⟩
  have hholds : Holds (T g.key) e.val (pending T g.key s.received) := by
    have hrep := h.holds g.key
    rcases he with ⟨hget, -⟩ | ⟨hget, -, hfresh⟩
    · rw [hget] at hrep
      exact hrep
    · rw [hget] at hrep
      have hnone : pending T g.key s.received = [] := hrep
      rw [hnone, hfresh]
      exact holds_fresh (by omega)
  obtain ⟨hval, hstatus⟩ := accept_of_holds hholds hn hmax htotal
  have hkey : e.key = g.key ∨ (ohmaReasmAccept e.val g.number g.total g.data).1 = none := by
    rcases hfits with hlen | hone
    · refine .inl ?_
      rcases he with ⟨-, hkey⟩ | ⟨-, hkey, -⟩
      · exact hkey
      · have hreg := g.reg.short
        rw [hkey, ohmaStored, CString.strlcpy_eq_self (s := g.key.convoId) hlen,
          CString.strlcpy_eq_self (s := g.key.reg) (hreg.trans (by decide))]
    · have hfull : (PieceTable.of (pending T g.key s.received ++ [g.piece])).Full (T g.key) := by
        intro j hj
        have hplace := g.number_eq
        have hj : j = g.place := by omega
        rw [hj, g.piece_eq]
        exact PieceTable.of_concat_self _ _ _
      exact .inr (accept_eq_none ((hstatus _).2 ⟨hfull, rfl⟩))
  rw [reassemble_of_some s.table hg, hnumber, htotal', hadd]
  refine ⟨updates_acceptAt h.unique hi hkey hval, fun full => ?_⟩
  simp only [OhmaReport.added.injEq, status_acceptAt]
  exact hstatus full

theorem inv_init : Inv T ohma.init := SlotTable.tracks_empty fun _ => rfl

theorem inv_step (s : Run) (a : Arrival) (s' : Run) (h : Inv T s) (hq : Undisturbed T s a)
    (hs : ohma.step s a = some s') : Inv T s' := by
  obtain rfl := Option.some.inj hs
  unfold Inv
  cases hg : a.segment with
  | none =>
    simp only [(reassemble_of_none s.table hg).1, Option.toList_none, List.append_nil]
    exact h
  | some g =>
    simp only [Option.toList_some]
    by_cases hn : g.number ≤ T g.key
    · refine h.update (k := g.key) ?_ fun k hk => ?_
      · rw [pending_concat_self hn]
        exact (receive h hq hg hn).1
      · rw [pending_concat_of_not fun hand => hk hand.1.symm]
    · rw [refuse hq hg hn]
      have hsame (k : OhmaKey) : pending T k (s.received ++ [g]) = pending T k s.received := by
        refine pending_concat_of_not ?_
        rintro ⟨rfl, hle⟩
        exact hn hle
      simp only [hsame]
      exact h

end Run

/-- **What is reported of a conversation.** In every run whose segments are all proper, without
expiry and eviction:

* a conversation is complete exactly with the segment with which all its numbers have come since it
  was last complete, and its text is that of the segments in the order of their numbers;
* what the table stores are segments received for the conversation, whose numbers are its own;
* a segment with any other number leaves the table as it is. -/
theorem conversation_complete (T : OhmaKey → ℕ) (evs : List Arrival) (s : Run)
    (hrun : ohma.exec ohma.init evs = some s)
    (hquiet : ohma.Along (Undisturbed T) ohma.init evs) :
    (∀ i e j d, s.table i = some e → e.val.frag j = some d →
      ∃ g ∈ s.received, g.key = e.key ∧ g.number = j + 1 ∧ g.number ≤ T e.key ∧ g.data = d) ∧
    ∀ a, Undisturbed T s a →
      (∀ full, (ohmaReassemble s.table a.now a.reg a.json).2 = .added (.complete full) ↔
        ∃ g, a.segment = some g ∧ g.number ≤ T g.key ∧
          (∀ n, 1 ≤ n → n ≤ T g.key →
            ∃ d, (n, d) ∈ pending T g.key s.received ++ [g.piece]) ∧
          full = (PieceTable.of (pending T g.key s.received ++ [g.piece])).join (T g.key)) ∧
      ∀ g, a.segment = some g → T g.key < g.number →
        (ohmaReassemble s.table a.now a.reg a.json).1 = s.table := by
  have hinv : s.Inv T := System.exec_induction_along _ Run.inv_step evs _ _ Run.inv_init hquiet hrun
  refine ⟨fun i e j d he hd => ?_, fun a ha => ⟨fun full => ?_, fun g hg hn => ?_⟩⟩
  · have hget : s.table.get e.key = some e := hinv.unique.get_eq_some_iff.2 ⟨i, he, rfl⟩
    have hholds : Holds (T e.key) e.val (pending T e.key s.received) := by
      have hrep := hinv.holds e.key
      rw [hget] at hrep
      exact hrep
    rw [hholds.frag] at hd
    obtain ⟨g, hg, hkey, hn, hpiece⟩ := exists_of_mem_pending (PieceTable.of_eq_some hd)
    rw [g.piece_eq, Prod.mk.injEq] at hpiece
    exact ⟨g, hg, hkey, by rw [g.number_eq]; omega, hn, hpiece.2⟩
  · have hall (g : Segment) :
        (PieceTable.of (pending T g.key s.received ++ [g.piece])).Full (T g.key) ↔
          ∀ n, 1 ≤ n → n ≤ T g.key →
            ∃ d, (n, d) ∈ pending T g.key s.received ++ [g.piece] := by
      constructor
      · intro hfull n h1 hn
        obtain ⟨m, rfl⟩ := Nat.exists_eq_add_of_le' h1
        exact PieceTable.isSome_of_iff.1 (hfull m hn)
      · intro hfull i hi
        exact PieceTable.isSome_of_iff.2 (hfull (i + 1) (Nat.succ_pos i) hi)
    cases hg : a.segment with
    | none =>
      simp only [reduceCtorEq, false_and, exists_false, iff_false]
      exact (reassemble_of_none s.table hg).2 _
    | some g =>
      simp only [Option.some.injEq, exists_eq_left', ← hall]
      by_cases hn : g.number ≤ T g.key
      · simp only [hn, true_and]
        exact (Run.receive hinv ha hg hn).2 full
      · rw [Run.refuse ha hg hn]
        simp [hn]
  · rw [Run.refuse ha hg (not_le.2 hn)]

/-- A fragment from one aircraft. -/
def fragment (convoId : List UInt8) (seq total : ℤ) (message : List UInt8) : Arrival where
  now := 0
  reg := some ⟨[0x4e, 0x37], by decide⟩
  json := ⟨some convoId, some message, seq, total⟩

/-- Three fragments that come as 2, 3, 2 and 1. -/
theorem conversation_complete_threeFragments : ∃ s, ohma.exec ohma.init
    [fragment [0x7a] 2 0 [0x42], fragment [0x7a] 3 0 [0x43], fragment [0x7a] 2 0 [0x42]] = some s ∧
    (ohmaReassemble s.table 0 (fragment [0x7a] 1 3 [0x41]).reg
      (fragment [0x7a] 1 3 [0x41]).json).2 = .added (.complete [0x41, 0x42, 0x43]) := by
  refine ⟨_, rfl, ?_⟩
  refine (((conversation_complete (fun _ => 3) [fragment [0x7a] 2 0 [0x42],
    fragment [0x7a] 3 0 [0x43], fragment [0x7a] 2 0 [0x42]] _ rfl (by decide)).2
    (fragment [0x7a] 1 3 [0x41]) (by decide)).1 _).2 ⟨_, rfl, by decide, ?_, by decide⟩
  intro n h1 hn
  have hn' : n = 1 ∨ n = 2 ∨ n = 3 := by
    have hle : n ≤ 3 := hn
    omega
  rcases hn' with rfl | rfl | rfl
  · exact ⟨[0x41], by decide⟩
  · exact ⟨[0x42], by decide⟩
  · exact ⟨[0x43], by decide⟩

/-- Both fragments of a conversation with an id of 64 characters arrive, and it is not complete; a
fragment with number 2^32 + 1 is stored in the place of the first. -/
theorem long_convo_id : (∃ s, ohma.exec ohma.init
      [fragment (List.replicate 64 0x61) 1 2 [0x41]] = some s ∧
      (ohmaReassemble s.table 0 (fragment (List.replicate 64 0x61) 2 0 [0x42]).reg
        (fragment (List.replicate 64 0x61) 2 0 [0x42]).json).2 = .added .inProgress) ∧
    ∃ i e, (ohmaReassemble ohma.init.table 0 (fragment [0x7a] (2 ^ 32 + 1) 0 [0x58]).reg
      (fragment [0x7a] (2 ^ 32 + 1) 0 [0x58]).json).1 i = some e ∧ e.val.frag 0 = some [0x58] :=
  ⟨⟨_, rfl, by decide⟩, 0, _, rfl, by decide⟩

end MacHPSDR.Hfdl.Ohma
