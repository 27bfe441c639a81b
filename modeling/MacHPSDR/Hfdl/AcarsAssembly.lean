import MacHPSDR.Foundations.Transition
import MacHPSDR.Hfdl.AcarsReasm

/-!
# What is assembled

The blocks of one key come in an order of their own, whatever arrives between them.
`Assembles arr m` says that the arrivals `arr` have built up the message `m` from its first block
on, and `Over e` that the arrivals `e` have come to nothing that is still open: a block that starts
no message, or a message with the block that ended it.

`receive` is the same as a machine for one key. Without expiry and eviction the table runs one such
machine for each key side by side (`Shared.receive`), so what is reported for a block is a function
of the earlier blocks of its own key; and a message is reported as complete exactly when those
blocks have assembled it up to its final block (`complete_iff`).
-/

namespace MacHPSDR.Hfdl

/-! ## Messages -/

/-- A message that has been begun: its blocks so far. -/
structure Message where
  earlier : List Block
  last : Block

namespace Message

/-- The blocks in their order. -/
def blocks (m : Message) : List Block := m.earlier ++ [m.last]

/-- The text of the blocks. -/
def text (m : Message) : List UInt8 := m.blocks.flatMap Block.data

/-- One more block. -/
def push (m : Message) (b : Block) : Message := ⟨m.blocks, b⟩

@[simp] theorem last_push (m : Message) (b : Block) : (m.push b).last = b := rfl

theorem text_push (m : Message) (b : Block) : (m.push b).text = m.text ++ b.data := by
  simp [text, push, blocks]

end Message

/-- `b` comes next after `p`; after the last letter of the uplink blocks comes the first. -/
def Follows (p b : Block) : Prop :=
  b.seq = p.seq + 1 ∨ b.downlink = false ∧ p.seq = acarsSeqWrapUp ∧ b.seq = 0

/-- `b` has been received before, if `p` is the last block; the uplink letters come round, so there
only the last one is known. -/
def Repeats (p b : Block) : Prop := b.seq = p.seq ∨ b.downlink = true ∧ b.seq < p.seq

/-- `b` begins a message of several blocks; a downlink begins with the first letter. -/
def Opens (b : Block) : Prop :=
  (b.downlink = true → b.seq = 0) ∧ b.final = false ∧ b.data.length ≤ acarsReasmMaxLen

/-- `b` comes next and there is more to come. -/
def Continues (m : Message) (b : Block) : Prop :=
  Follows m.last b ∧ b.final = false ∧ (m.push b).text.length ≤ acarsReasmMaxLen

instance (p b : Block) : Decidable (Follows p b) := inferInstanceAs (Decidable (_ ∨ _))
instance (p b : Block) : Decidable (Repeats p b) := inferInstanceAs (Decidable (_ ∨ _))
instance (b : Block) : Decidable (Opens b) := inferInstanceAs (Decidable (_ ∧ _))
instance (m : Message) (b : Block) : Decidable (Continues m b) :=
  inferInstanceAs (Decidable (_ ∧ _))

theorem Follows.not_repeats {p b : Block} (h : Follows p b) : ¬ Repeats p b := by
  unfold Follows at h
  unfold Repeats
  simp only [acarsSeqWrapUp] at h
  rcases h with hnext | ⟨hup, hp, hb⟩
  · rintro (hsame | ⟨-, hlt⟩) <;> omega
  · rintro (hsame | ⟨hdown, -⟩)
    · omega
    · rw [hup] at hdown
      cases hdown

/-- These arrivals have built up this message. -/
inductive Assembles : List Block → Message → Prop
  | first {b : Block} (h : Opens b) : Assembles [b] ⟨[], b⟩
  | next {arr : List Block} {m : Message} {b : Block} (h : Assembles arr m) (hb : Continues m b) :
      Assembles (arr ++ [b]) (m.push b)
  | again {arr : List Block} {m : Message} {b : Block} (h : Assembles arr m)
      (hb : Repeats m.last b) : Assembles (arr ++ [b]) m

/-- After these arrivals nothing is open. -/
inductive Over : List Block → Prop
  | stray {b : Block} (h : ¬ Opens b) : Over [b]
  | ended {arr : List Block} {m : Message} {b : Block} (h : Assembles arr m)
      (hr : ¬ Repeats m.last b) (hc : ¬ Continues m b) : Over (arr ++ [b])

/-- The block `b` completes a message that the arrivals before it have assembled. -/
def Completes (h : List Block) (b : Block) (text : List UInt8) : Prop :=
  ∃ (past : List (List Block)) (arr : List Block) (m : Message),
    (∀ e ∈ past, Over e) ∧ h = past.flatten ++ arr ∧ Assembles arr m ∧
    Follows m.last b ∧ b.final = true ∧ text = (m.push b).text ∧ text.length ≤ acarsReasmMaxLen

theorem Assembles.sublist {arr : List Block} {m : Message} (h : Assembles arr m) :
    m.blocks.Sublist arr := by
  induction h with
  | first => exact List.Sublist.refl _
  | next _ _ ih => exact ih.append (List.Sublist.refl _)
  | again _ _ ih => exact ih.trans (List.sublist_append_left ..)

/-- The blocks of a message are consecutive. -/
theorem Assembles.isChain {arr : List Block} {m : Message} (h : Assembles arr m) :
    m.blocks.IsChain Follows := by
  induction h with
  | first => exact List.isChain_singleton _
  | next _ hb ih =>
    refine ih.append (List.isChain_singleton _) ?_
    intro x hx y hy
    obtain rfl : _ = x := by simpa [Message.blocks] using hx
    obtain rfl : _ = y := by simpa using hy
    exact hb.1
  | again _ _ ih => exact ih

theorem Assembles.opens {arr : List Block} {m : Message} (h : Assembles arr m) :
    ∃ b ∈ m.blocks.head?, Opens b := by
  induction h with
  | first hb => exact ⟨_, rfl, hb⟩
  | next _ _ ih =>
    obtain ⟨b, hb, ho⟩ := ih
    exact ⟨b, List.mem_head?_append_of_mem_head? hb, ho⟩
  | again _ _ ih => exact ih

/-! ## One key alone -/

/-- One block of a key for which this message is open. -/
def receive (o : Option Message) (b : Block) : Option Message × AcarsStatus :=
  match o with
  | none =>
    if b.downlink = true ∧ b.seq ≠ 0 then (none, .outOfSeq)
    else if b.final then (none, .skipped)
    else if b.data.length > acarsReasmMaxLen then (none, .outOfSeq)
    else (some ⟨[], b⟩, .inProgress)
  | some m =>
    if Repeats m.last b then (some m, .duplicate)
    else if ¬ Follows m.last b ∨ (m.push b).text.length > acarsReasmMaxLen then (none, .outOfSeq)
    else if b.final then (none, .complete (m.push b).text)
    else (some (m.push b), .inProgress)

/-- The message that is open after these blocks of a key. -/
def openAfter (h : List Block) : Option Message := h.foldl (fun o b => (receive o b).1) none

/-- What is reported for a block after these blocks of its key. -/
def report (h : List Block) (b : Block) : AcarsStatus := (receive (openAfter h) b).2

theorem receive_none (b : Block) :
    (receive none b).1 = if Opens b then some ⟨[], b⟩ else none := by
  unfold receive Opens
  by_cases hseq : b.downlink = true ∧ b.seq ≠ 0
  · simp [hseq]
  · have hfirst : b.downlink = true → b.seq = 0 := by
      intro hd
      by_contra hne
      exact hseq ⟨hd, hne⟩
    by_cases hfin : b.final = true
    · simp [hseq, hfin]
    · by_cases hlen : b.data.length > acarsReasmMaxLen
      · simp [hseq, hfin, hlen]
      · simp [hseq, hfin, hlen]

theorem receive_some (m : Message) (b : Block) : (receive (some m) b).1 =
    if Repeats m.last b then some m else if Continues m b then some (m.push b) else none := by
  unfold receive Continues
  by_cases hr : Repeats m.last b
  · simp [hr]
  · by_cases hf : Follows m.last b
    · by_cases hlen : (m.push b).text.length > acarsReasmMaxLen
      · simp [hr, hf, hlen]
      · by_cases hfin : b.final = true
        · simp [hr, hf, hlen, hfin]
        · simp [hr, hf, hlen, hfin]
    · simp [hr, hf]

theorem foldl_of_assembles {arr : List Block} {m : Message} (h : Assembles arr m) :
    arr.foldl (fun o b => (receive o b).1) none = some m := by
  induction h with
  | first hb => simp [receive_none, hb]
  | next _ hb ih => simp [ih, receive_some, hb.1.not_repeats, hb]
  | again _ hb ih => simp [ih, receive_some, hb]

theorem foldl_of_over {e : List Block} (h : Over e) :
    e.foldl (fun o b => (receive o b).1) none = none := by
  cases h with
  | stray hb => simp [receive_none, hb]
  | ended ha hr hc => simp [foldl_of_assembles ha, receive_some, hr, hc]

theorem foldl_flatten_of_over {past : List (List Block)} (h : ∀ e ∈ past, Over e) :
    past.flatten.foldl (fun o b => (receive o b).1) none = none := by
  induction past with
  | nil => rfl
  | cons e past ih =>
    rw [List.flatten_cons, List.foldl_append, foldl_of_over (h e (List.mem_cons_self ..))]
    exact ih fun e he => h e (List.mem_cons_of_mem _ he)

/-- Every history of a key is a part that is over and the arrivals of the message that is open. -/
theorem openAfter_cases (h : List Block) :
    ∃ past : List (List Block), (∀ e ∈ past, Over e) ∧
      match openAfter h with
      | none => h = past.flatten
      | some m => ∃ arr, h = past.flatten ++ arr ∧ Assembles arr m := by
  induction h using List.reverseRecOn with
  | nil => exact ⟨[], by simp, rfl⟩
  | append_singleton h b ih =>
    obtain ⟨past, hover, ho⟩ := ih
    have hstep : openAfter (h ++ [b]) = (receive (openAfter h) b).1 := by simp [openAfter]
    have hmore {e : List Block} (he : Over e) : ∀ e' ∈ past ++ [e], Over e' := by
      intro e' he'
      rcases List.mem_append.1 he' with hold | hnew
      · exact hover e' hold
      · rw [List.mem_singleton.1 hnew]
        exact he
    rw [hstep]
    cases hm : openAfter h with
    | none =>
      rw [hm] at ho
      rw [receive_none]
      by_cases hb : Opens b
      · refine ⟨past, hover, ?_⟩
        simp only [hb, if_true]
        exact ⟨[b], by rw [ho], .first hb⟩
      · refine ⟨past ++ [[b]], hmore (.stray hb), ?_⟩
        simp [hb, ho]
    | some m =>
      rw [hm] at ho
      obtain ⟨arr, harr, ha⟩ := ho
      rw [receive_some]
      by_cases hr : Repeats m.last b
      · refine ⟨past, hover, ?_⟩
        simp only [hr, if_true]
        exact ⟨arr ++ [b], by rw [harr, List.append_assoc], ha.again hr⟩
      · by_cases hc : Continues m b
        · refine ⟨past, hover, ?_⟩
          simp only [hr, hc, if_true, if_false]
          exact ⟨arr ++ [b], by rw [harr, List.append_assoc], ha.next hc⟩
        · refine ⟨past ++ [arr ++ [b]], hmore (.ended ha hr hc), ?_⟩
          simp [hr, hc, harr]

/-- The machine reports a message as complete exactly when it has been assembled. -/
theorem report_eq_complete (h : List Block) (b : Block) (text : List UInt8) :
    report h b = .complete text ↔ Completes h b text := by
  unfold report
  constructor
  · intro hrep
    obtain ⟨past, hover, ho⟩ := openAfter_cases h
    cases hm : openAfter h with
    | none =>
      rw [hm] at hrep
      simp only [receive] at hrep
      split_ifs at hrep
    | some m =>
      rw [hm] at hrep ho
      obtain ⟨arr, harr, ha⟩ := ho
      simp only [receive] at hrep
      split_ifs at hrep with hr hbad hfin
      obtain ⟨hf, hlen⟩ := not_or.1 hbad
      obtain rfl := AcarsStatus.complete.inj hrep
      exact ⟨past, arr, m, hover, harr, ha, not_not.1 hf, hfin, rfl, not_lt.1 hlen⟩
  · rintro ⟨past, arr, m, hover, rfl, ha, hf, hfin, rfl, hlen⟩
    have hopen : openAfter (past.flatten ++ arr) = some m := by
      rw [openAfter, List.foldl_append, foldl_flatten_of_over hover]
      exact foldl_of_assembles ha
    rw [hopen]
    simp [receive, hf.not_repeats, hf, hfin, not_lt.2 hlen]

/-! ## The table -/

/-- The entry stands for this message. -/
def Holds (e : AcarsReasm) (m : Message) : Prop := e.prevSeq = m.last.seq ∧ e.text = m.text

/-- An entry or nothing, for a message or nothing. -/
def HoldsOption : Option AcarsReasm → Option Message → Prop
  | none, none => True
  | some e, some m => Holds e m
  | _, _ => False

/-- The table holds this message, or nothing, under the key. -/
def Represents (t : AcarsTable) (k : AcarsKey) (o : Option Message) : Prop :=
  HoldsOption ((t.get k).map Entry.val) o

/-- The last sequence number, set back when the uplink letters come round. -/
def rebased (prevSeq : ℤ) (b : Block) : ℤ :=
  if !b.downlink && b.seq == 0 && prevSeq == acarsSeqWrapUp then -1 else prevSeq

theorem rebased_eq_iff (p b : Block) :
    (rebased p.seq b = b.seq ∨ (b.downlink = true ∧ (b.seq : ℤ) < rebased p.seq b)) ↔
      Repeats p b := by
  unfold rebased Repeats
  cases hd : b.downlink with
  | true => simp [eq_comm]
  | false =>
    by_cases hwrap : b.seq = 0 ∧ p.seq = acarsSeqWrapUp
    · have hite : (!false && b.seq == 0 && (p.seq : ℤ) == (acarsSeqWrapUp : ℤ)) = true := by
        simp [hwrap.1, hwrap.2]
      rw [if_pos hite, hwrap.1, hwrap.2]
      simp [acarsSeqWrapUp]
    · have hite : (!false && b.seq == 0 && (p.seq : ℤ) == (acarsSeqWrapUp : ℤ)) = false := by
        simpa using hwrap
      rw [if_neg (Bool.eq_false_iff.1 hite)]
      simp only [Bool.false_eq_true, false_and, or_false]
      omega

theorem rebased_add_one_ne_iff (p b : Block) :
    (rebased p.seq b ≠ acarsSeqUninit ∧ (b.seq : ℤ) ≠ rebased p.seq b + 1) ↔ ¬ Follows p b := by
  unfold rebased Follows
  cases hd : b.downlink with
  | true =>
    simp only [acarsSeqUninit, Bool.not_true, Bool.false_and, Bool.false_eq_true, if_false,
      Bool.true_eq_false, false_and, or_false]
    omega
  | false =>
    by_cases hwrap : b.seq = 0 ∧ p.seq = acarsSeqWrapUp
    · simp [hwrap.1, hwrap.2]
    · have hite : (!false && b.seq == 0 && (p.seq : ℤ) == (acarsSeqWrapUp : ℤ)) = false := by
        simpa using hwrap
      simp only [hite, acarsSeqUninit, Bool.false_eq_true, if_false, true_and]
      omega

/-- A block of a message that is open. -/
theorem accept_of_holds {e : AcarsReasm} {m : Message} (h : Holds e m) (b : Block) :
    (acarsReasmAccept e b).2 = (receive (some m) b).2 ∧
      HoldsOption (acarsReasmAccept e b).1 (receive (some m) b).1 ∧
      ∀ e' ∈ (acarsReasmAccept e b).1, e'.downlink = e.downlink := by
  obtain ⟨hprev, htext⟩ := h
  have hdup := rebased_eq_iff m.last b
  have hgap := rebased_add_one_ne_iff m.last b
  rw [← hprev] at hdup hgap
  have haccept : acarsReasmAccept e b =
      if Repeats m.last b then (some { e with prevSeq := rebased e.prevSeq b }, .duplicate)
      else if ¬ Follows m.last b then (none, .outOfSeq)
      else if (m.push b).text.length > acarsReasmMaxLen then (none, .outOfSeq)
      else if b.final then (none, .complete (m.push b).text)
      else (some { e with prevSeq := b.seq, frags := e.frags + 1, text := (m.push b).text },
        .inProgress) := by
    rw [Message.text_push, ← htext]
    unfold acarsReasmAccept
    simp only [← hdup, ← hgap]
    rfl
  rw [haccept]
  unfold receive
  by_cases hr : Repeats m.last b
  · have hsame : rebased e.prevSeq b = e.prevSeq := by
      unfold rebased
      split
      · rename_i hwrap
        have hf : Follows m.last b := by
          simp only [Bool.and_eq_true, Bool.not_eq_true', beq_iff_eq] at hwrap
          exact .inr ⟨hwrap.1.1, by exact_mod_cast hprev ▸ hwrap.2, hwrap.1.2⟩
        exact absurd hr hf.not_repeats
      · rfl
    rw [hsame]
    simp [hr, HoldsOption, Holds, hprev, htext]
  · by_cases hf : Follows m.last b
    · by_cases hlen : (m.push b).text.length > acarsReasmMaxLen
      · simp [hr, hf, hlen, HoldsOption]
      · by_cases hfin : b.final = true
        · simp [hr, hf, hlen, hfin, HoldsOption]
        · simp [hr, hf, hlen, hfin, HoldsOption, Holds]
    · simp [hr, hf, HoldsOption]

/-- The first block of a message. -/
theorem accept_fresh {b : Block} (hseq : ¬ (b.downlink = true ∧ b.seq ≠ 0))
    (hfin : ¬ b.final = true) :
    (acarsReasmAccept (.fresh b.downlink) b).2 = (receive none b).2 ∧
      HoldsOption (acarsReasmAccept (.fresh b.downlink) b).1 (receive none b).1 ∧
      ∀ e' ∈ (acarsReasmAccept (.fresh b.downlink) b).1, e'.downlink = b.downlink := by
  have hprev : (if !b.downlink && b.seq == 0 && acarsSeqUninit == acarsSeqWrapUp then -1
      else acarsSeqUninit) = acarsSeqUninit := by
    simp [acarsSeqUninit, acarsSeqWrapUp]
  have hnew : ¬ (acarsSeqUninit = (b.seq : ℤ) ∨ (b.downlink = true ∧ (b.seq : ℤ) < acarsSeqUninit))
      := by
    simp only [acarsSeqUninit]
    omega
  unfold acarsReasmAccept receive AcarsReasm.fresh
  simp only [hprev, hnew, hseq, hfin, if_false, ne_eq, not_true_eq_false, false_and,
    List.nil_append]
  by_cases hlen : b.data.length > acarsReasmMaxLen
  · simp [hlen, HoldsOption]
  · simp [hlen, HoldsOption, Holds, Message.text, Message.blocks]

/-- The blocks of a key. -/
def own (k : AcarsKey) (h : List Block) : List Block := h.filter fun b => b.key = k

/-- The table, together with the blocks that it has been given. -/
structure Shared where
  table : AcarsTable
  received : List Block

/-- What holds while nothing runs out and nothing is evicted. -/
structure Shared.Inv (s : Shared) : Prop where
  unique : s.table.Unique
  direction : ∀ i e, s.table i = some e → e.val.downlink = !e.key.msgNum.isEmpty
  represents : ∀ k, Represents s.table k (openAfter (own k s.received))

/-- A block that needs a new entry. -/
def TakesSlot (t : AcarsTable) (b : Block) : Prop :=
  t.find b.key = none ∧ ¬ (b.downlink = true ∧ b.seq ≠ 0) ∧ b.final = false

instance (t : AcarsTable) (b : Block) : Decidable (TakesSlot t b) :=
  inferInstanceAs (Decidable (_ ∧ _))

/-- No timer has run out, and there is room for the message if the block begins one. -/
def Undisturbed (s : Shared) (a : ℤ × Block) : Prop :=
  (∀ i, (s.table i).all fun e => decide (a.1 - e.since ≤ acarsReasmTimeout e.val.downlink)) ∧
    (TakesSlot s.table a.2 → ∃ i, (s.table i).isNone)

instance : DecidableRel Undisturbed := fun _ _ => inferInstanceAs (Decidable (_ ∧ (_ → _)))

/-- Blocks that arrive, each with its time. -/
def acars : System Shared (ℤ × Block) where
  init := ⟨SlotTable.empty, []⟩
  step s a := some ⟨(acarsReasmAdd s.table a.1 a.2).1, s.received ++ [a.2]⟩

/-- What one block does to the table, if `o` is the message of its key and `r` what `receive`
makes of the block. -/
structure Received (t t' : AcarsTable) (b : Block) (o : Option Message) : Prop where
  unique : t'.Unique
  direction : ∀ i e, t' i = some e → e.val.downlink = !e.key.msgNum.isEmpty
  represents : Represents t' b.key o
  others : ∀ k, k ≠ b.key → t'.get k = t.get k

section Table

variable {t : AcarsTable} {b : Block}

theorem status_acceptAt (i : Fin acarsReasmMax) (e : Entry AcarsKey AcarsReasm) :
    (acarsReasmAcceptAt t i e b).2 = (acarsReasmAccept e.val b).2 := by
  unfold acarsReasmAcceptAt
  rcases acarsReasmAccept e.val b with ⟨_ | v, status⟩ <;> rfl

theorem received_self (hu : t.Unique)
    (hdir : ∀ i e, t i = some e → e.val.downlink = !e.key.msgNum.isEmpty) {o : Option Message}
    (ho : Represents t b.key o) : Received t t b o :=
  ⟨hu, hdir, ho, fun _ _ => rfl⟩

theorem received_acceptAt (hu : t.Unique)
    (hdir : ∀ i e, t i = some e → e.val.downlink = !e.key.msgNum.isEmpty)
    {i : Fin acarsReasmMax} (hi : t.Home b.key i) {e : Entry AcarsKey AcarsReasm}
    (hkey : e.key = b.key) (hedir : e.val.downlink = b.downlink) {o : Option Message}
    (ho : HoldsOption (acarsReasmAccept e.val b).1 o)
    (hkeep : ∀ e' ∈ (acarsReasmAccept e.val b).1, e'.downlink = e.val.downlink) :
    Received t (acarsReasmAcceptAt t i e b).1 b o := by
  unfold acarsReasmAcceptAt
  rcases hr : acarsReasmAccept e.val b with ⟨v, status⟩
  rw [hr] at ho hkeep
  cases v with
  | none =>
    refine ⟨hu.clear i, fun j e' he' => ?_, ?_, fun k hk => hi.get_clear_of_ne hu hk⟩
    · by_cases hj : j = i
      · simp [SlotTable.clear, hj] at he'
      · exact hdir j e' (by simpa [SlotTable.clear, hj] using he')
    · rw [Represents, hi.get_clear hu]
      exact ho
  | some v =>
    have hkey' : ({ e with val := v } : Entry AcarsKey AcarsReasm).key = b.key := hkey
    refine ⟨hi.unique_put hu hkey', fun j e' he' => ?_, ?_,
      fun k hk => hi.get_put_of_ne hu hkey' hk⟩
    · by_cases hj : j = i
      · obtain rfl : { e with val := v } = e' := by simpa [SlotTable.put, hj] using he'
        rw [hkeep v rfl, hedir, b.direction, ← hkey]
      · exact hdir j e' (by simpa [SlotTable.put, hj] using he')
    · rw [Represents, hi.get_put hu hkey']
      exact ho

end Table

namespace Shared

variable {s : Shared} {a : ℤ × Block}

theorem Inv.expire_eq (hq : Undisturbed s a) : acarsReasmExpire s.table a.1 = s.table :=
  SlotTable.expire_eq_self_of_all hq.1

/-- **One block.** The message of its key goes on as it would alone, and the others stay. -/
theorem receive (h : Inv s) (hq : Undisturbed s a) :
    Received s.table (acarsReasmAdd s.table a.1 a.2).1 a.2
        (Hfdl.receive (openAfter (own a.2.key s.received)) a.2).1 ∧
      (acarsReasmAdd s.table a.1 a.2).2 = report (own a.2.key s.received) a.2 := by
  obtain ⟨now, b⟩ := a
  have hrep := h.represents b.key
  unfold acarsReasmAdd report
  simp only [Inv.expire_eq hq]
  cases hfind : s.table.find b.key with
  | some i =>
    obtain ⟨e, he, hkey⟩ := SlotTable.find_eq_some hfind
    have hget : s.table.get b.key = some e := by simp [SlotTable.get, hfind, he]
    have hedir : e.val.downlink = b.downlink := by
      rw [h.direction i e he, b.direction, hkey]
    have hfresh : ¬ now - e.since > acarsReasmTimeout b.downlink := by
      have hle := hq.1 i
      rw [he] at hle
      simpa [hedir] using hle
    have hlook : acarsReasmLookup s.table b.key = some (i, e) := by
      simp [acarsReasmLookup, hfind, he]
    rw [Represents, hget] at hrep
    simp only [hlook, hfresh, if_false]
    cases ho : openAfter (own b.key s.received) with
    | none =>
      rw [ho] at hrep
      exact hrep.elim
    | some m =>
      rw [ho] at hrep
      obtain ⟨hstatus, hval, hkeep⟩ := accept_of_holds (e := e.val) hrep b
      exact ⟨received_acceptAt h.unique h.direction (.inl hfind) hkey hedir hval hkeep,
        (status_acceptAt i e).trans hstatus⟩
  | none =>
    have hget : s.table.get b.key = none := by simp [SlotTable.get, hfind]
    have hlook : acarsReasmLookup s.table b.key = none := by simp [acarsReasmLookup, hfind]
    rw [Represents, hget] at hrep
    have ho : openAfter (own b.key s.received) = none := by
      cases ho : openAfter (own b.key s.received) with
      | none => rfl
      | some m =>
        rw [ho] at hrep
        exact hrep.elim
    have hnone : Represents s.table b.key none := by
      rw [Represents, hget]
      trivial
    simp only [hlook, ho, acarsReasmStart]
    by_cases hseq : b.downlink = true ∧ b.seq ≠ 0
    · rw [if_pos hseq]
      simp only [Hfdl.receive, hseq, ne_eq, not_false_eq_true, and_self, if_true]
      exact ⟨received_self h.unique h.direction hnone, trivial⟩
    · by_cases hfin : b.final = true
      · rw [if_neg hseq, if_pos hfin]
        simp only [Hfdl.receive, hseq, hfin, if_true, if_false]
        exact ⟨received_self h.unique h.direction hnone, trivial⟩
      · rw [if_neg hseq, if_neg hfin]
        have hfree : ∃ i, s.table i = none := by
          obtain ⟨i, hi⟩ := hq.2 ⟨hfind, hseq, by simpa using hfin⟩
          exact ⟨i, Option.isNone_iff_eq_none.1 hi⟩
        obtain ⟨hstatus, hval, hkeep⟩ := accept_fresh hseq hfin
        exact ⟨received_acceptAt h.unique h.direction
          (.inr ⟨hfind, SlotTable.alloc_of_free hfree⟩) rfl rfl hval hkeep,
          (status_acceptAt _ _).trans hstatus⟩

theorem inv_init : Inv acars.init where
  unique := SlotTable.unique_empty
  direction i e he := by cases he
  represents k := by
    have hnone : openAfter (own k acars.init.received) = none := rfl
    rw [hnone, Represents]
    simp [acars, HoldsOption]

theorem inv_step (s : Shared) (a : ℤ × Block) (s' : Shared) (h : Inv s) (hq : Undisturbed s a)
    (hs : acars.step s a = some s') : Inv s' := by
  obtain rfl := Option.some.inj hs
  obtain ⟨hr, -⟩ := receive h hq
  refine ⟨hr.unique, hr.direction, fun k => ?_⟩
  by_cases hk : a.2.key = k
  · subst hk
    have hown : own a.2.key (s.received ++ [a.2]) = own a.2.key s.received ++ [a.2] := by
      simp [own]
    have hopen : openAfter (own a.2.key s.received ++ [a.2]) =
        (Hfdl.receive (openAfter (own a.2.key s.received)) a.2).1 := by simp [openAfter]
    rw [hown, hopen]
    exact hr.represents
  · have hown : own k (s.received ++ [a.2]) = own k s.received := by simp [own, hk]
    have hothers := hr.others k (Ne.symm hk)
    rw [hown, Represents, hothers]
    exact h.represents k

end Shared

/-- **What is reported.** In every run without expiry and eviction:

* the report for a block depends on the blocks of its own key alone;
* a message is complete exactly when the earlier blocks of the key have assembled it;
* its text is that of some of the blocks received for the key, in their order, consecutive from a
  first block up to the final one. -/
theorem complete_iff (evs : List (ℤ × Block)) (s : Shared)
    (hrun : acars.exec acars.init evs = some s) (hquiet : acars.Along Undisturbed acars.init evs)
    (now : ℤ) (b : Block) (hb : Undisturbed s (now, b)) :
    (acarsReasmAdd s.table now b).2 = report (own b.key s.received) b ∧
    (∀ text, (acarsReasmAdd s.table now b).2 = .complete text ↔
      Completes (own b.key s.received) b text) ∧
    ∀ text, (acarsReasmAdd s.table now b).2 = .complete text → ∃ msg : List Block,
      msg.Sublist (own b.key s.received) ∧ (msg ++ [b]).IsChain Follows ∧
      (∃ first ∈ msg.head?, Opens first) ∧ b.final = true ∧
      text = (msg ++ [b]).flatMap Block.data ∧ text.length ≤ acarsReasmMaxLen := by
  have hinv : s.Inv := System.exec_induction_along _ Shared.inv_step evs _ _ Shared.inv_init
    hquiet hrun
  obtain ⟨-, hreport⟩ := Shared.receive hinv hb
  have hiff (text : List UInt8) : (acarsReasmAdd s.table now b).2 = .complete text ↔
      Completes (own b.key s.received) b text := by
    rw [hreport]
    exact report_eq_complete _ _ _
  refine ⟨hreport, hiff, fun text htext => ?_⟩
  obtain ⟨past, arr, m, -, hown, ha, hf, hfin, rfl, hlen⟩ := (hiff text).1 htext
  refine ⟨m.blocks, ?_, ?_, ha.opens, hfin, rfl, hlen⟩
  · rw [hown]
    exact ha.sublist.trans (List.sublist_append_right ..)
  · refine ha.isChain.append (List.isChain_singleton _) ?_
    intro x hx y hy
    obtain rfl : m.last = x := by simpa [Message.blocks] using hx
    obtain rfl : b = y := by simpa using hy
    exact hf

/-- A block from an aircraft, of message number `M01`. -/
def downlinkBlock (seq : ℕ) (final : Bool) (data : List UInt8) : Block where
  key := ⟨[0x4e, 0x31], [0x48, 0x31], [0x4d, 0x30, 0x31]⟩
  downlink := true
  seq := seq
  final := final
  data := data
  direction := rfl

/-- A block to the same aircraft. -/
def uplinkBlock (seq : ℕ) (final : Bool) (data : List UInt8) : Block where
  key := ⟨[0x4e, 0x31], [0x48, 0x31], []⟩
  downlink := false
  seq := seq
  final := final
  data := data
  direction := rfl

/-- A message of two blocks, the first of which comes twice, with a block to the same aircraft in
between. -/
theorem complete_iff_twoBlocks : ∃ s, acars.exec acars.init
    [(0, downlinkBlock 0 false [0x41]), (1, uplinkBlock 12 false [0x58]),
      (2, downlinkBlock 0 false [0x41])] = some s ∧
    (acarsReasmAdd s.table 3 (downlinkBlock 1 true [0x42])).2 = .complete [0x41, 0x42] := by
  refine ⟨_, rfl, ?_⟩
  refine ((complete_iff [(0, downlinkBlock 0 false [0x41]), (1, uplinkBlock 12 false [0x58]),
    (2, downlinkBlock 0 false [0x41])] _ rfl (by decide) 3 (downlinkBlock 1 true [0x42])
    (by decide)).2.1 _).2 ?_
  have hfirst : Assembles [downlinkBlock 0 false [0x41]] ⟨[], downlinkBlock 0 false [0x41]⟩ :=
    .first (by decide)
  have hagain := hfirst.again (b := downlinkBlock 0 false [0x41]) (by decide)
  exact ⟨[], _, _, by simp, by decide, hagain, by decide, rfl, rfl, by decide⟩

/-- Blocks M and N to an aircraft, then M again, late; the final block O completes nothing. Nor does
a message of one block. -/
theorem late_uplink_block : (∃ s, acars.exec acars.init
    [(0, uplinkBlock 12 false [0x41]), (1, uplinkBlock 13 false [0x42]),
      (2, uplinkBlock 12 false [0x41])] = some s ∧
    (acarsReasmAdd s.table 3 (uplinkBlock 14 true [0x43])).2 = .skipped) ∧
    (acarsReasmAdd acars.init.table 0 (downlinkBlock 0 true [0x41])).2 = .skipped :=
  ⟨⟨_, rfl, by decide⟩, by decide⟩

end MacHPSDR.Hfdl
