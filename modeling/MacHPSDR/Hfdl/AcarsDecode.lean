import MacHPSDR.Hfdl.AcarsAssembly
import MacHPSDR.Hfdl.Crc

/-!
# The checksum of a block

`acars_decode` checks the CRC of a block and prints the result; then it hands the block to the
reassembly, whether it passed or not. A block that failed is harmless as long as the table would not
take it: it repeats a block, it is out of sequence, or it belongs to no message of several blocks.
Otherwise it contributes its text, advances the sequence or completes the message.

`clean_iff` says that these are all cases: a run keeps corrupted text out of the table and out of
the complete messages exactly when no block that failed its CRC was one that the table would take.
-/

namespace MacHPSDR.Hfdl

/-! ## Reading a block -/

/-- The start of a string of C, up to its NUL. -/
def cString (bytes : List UInt8) : List UInt8 := bytes.takeWhile (· ≠ 0)

/-- `g_ascii_isspace`. -/
def asciiSpace (c : UInt8) : Bool := c == 9 || c == 10 || c == 12 || c == 13 || c == 32

/-- `g_strchomp`. -/
def strchomp (s : List UInt8) : List UInt8 := (s.reverse.dropWhile asciiSpace).reverse

/-- `ACARS_PREAMBLE_LEN`. -/
def acarsPreambleLen : ℕ := 16

/-- `IS_DOWNLINK_BLK`. -/
def isDownlinkBlk (b : UInt8) : Bool := 48 ≤ b && b ≤ 57

/-- What `acars_decode` reads in a payload. -/
structure AcarsText where
  mode : UInt8
  reg : List UInt8
  ack : UInt8
  label : List UInt8
  blockId : UInt8
  final : Bool
  /-- The message number with its sequence character; an uplink has none. -/
  msgNum : List UInt8
  flightId : List UInt8
  text : List UInt8
  crcOk : Bool
  deriving DecidableEq

/-- The message number, the flight and the text, from the STX on. -/
def acarsBody (downlink : Bool) (p : List UInt8) :
    Except String (List UInt8 × List UInt8 × List UInt8) :=
  match p with
  | [] => if downlink then .error "ACARS: no text in downlink" else .ok ([], [], [])
  | stx :: p =>
    if stx ≠ 0x02 then .error "ACARS: no STX"
    else
      let p := p.map fun c => if c = 0 then 0x2e else c
      if !downlink then .ok ([], [], p)
      else if p.length < 10 then .error "ACARS: downlink text too short"
      else .ok (p.take 4, (p.drop 4).take 6, p.drop 10)

/-- The first part of `acars_decode`; what does not begin with an SOH is passed over in silence. -/
def acarsRead (buf : List UInt8) : Except (Option String) AcarsText :=
  match buf with
  | [] => .error none
  | soh :: buf =>
    if soh ≠ 0x01 then .error none
    else if buf.length < acarsPreambleLen then .error (some "ACARS: truncated")
    else if buf.getLastD 0 ≠ 0x7f then .error (some "ACARS: no DEL")
    else
      let buf := buf.dropLast
      let crcOk := crc16Ccitt buf 0 == 0
      let txt := (buf.take (buf.length - 2)).map (· &&& 0x7f)
      let last := txt.getLastD 0
      if last ≠ 0x03 ∧ last ≠ 0x17 then .error (some "ACARS: no ETX/ETB")
      else
        let txt := txt.dropLast
        let ack := txt.getD 8 0
        let label1 := txt.getD 10 0
        let blockId := if txt.getD 11 0 = 0 then 0x20 else txt.getD 11 0
        match acarsBody (isDownlinkBlk blockId) (txt.drop 12) with
        | .error e => .error (some e)
        | .ok (msgNum, flightId, text) =>
          .ok { mode := txt.getD 0 0
                reg := strchomp (cString ((txt.drop 1).take 7))
                ack := if ack = 0x15 then 0x21 else if ack = 0x06 then 0x5e else ack
                label := cString [txt.getD 9 0, if label1 = 0x7f then 0x64 else label1]
                blockId := blockId, final := last == 0x03, msgNum := msgNum, flightId := flightId
                text := text, crcOk := crcOk }

/-- The block for `acars_reasm_add`, if there is a sequence number. -/
def AcarsText.block (a : AcarsText) : Option Block :=
  if isDownlinkBlk a.blockId then
    match a.msgNum with
    | m0 :: m1 :: m2 :: seq :: _ =>
      if m0 ≠ 0 ∧ 65 ≤ seq then
        some { key := ⟨a.reg, a.label, [m0, m1, m2]⟩, downlink := true, seq := seq.toNat - 65,
               final := a.final, data := a.text, direction := rfl }
      else none
    | _ => none
  else if 65 ≤ a.blockId then
    some { key := ⟨a.reg, a.label, []⟩, downlink := false, seq := a.blockId.toNat - 65,
           final := a.final, data := a.text, direction := rfl }
  else none

/-- What `acars_decode` reports about a payload: why it is not one, or its text with the result of
the reassembly. -/
abbrev AcarsReport := Except (Option String) (AcarsText × AcarsStatus)

/-- `acars_decode`, up to the applications inside the text. -/
def acarsDecode (t : AcarsTable) (now : ℤ) (buf : List UInt8) : AcarsTable × AcarsReport :=
  match acarsRead buf with
  | .error e => (t, .error e)
  | .ok a =>
    match a.block with
    | none => (t, .ok (a, .skipped))
    | some b => ((acarsReasmAdd t now b).1, .ok (a, (acarsReasmAdd t now b).2))

/-! ## What the table takes -/

/-- The block is the next one of the message, and the text has room for it. -/
def Extends (e : AcarsReasm) (b : Block) : Prop :=
  ¬ (rebased e.prevSeq b = b.seq ∨ (b.downlink = true ∧ b.seq < rebased e.prevSeq b)) ∧
    ¬ (rebased e.prevSeq b ≠ acarsSeqUninit ∧ b.seq ≠ rebased e.prevSeq b + 1) ∧
    (e.text ++ b.data).length ≤ acarsReasmMaxLen

/-- The block is the next one of a message that is open, or it opens one. -/
def Takes (t : AcarsTable) (now : ℤ) (b : Block) : Prop :=
  match acarsReasmLookup (acarsReasmExpire t now) b.key with
  | some (_, e) =>
    if now - e.since > acarsReasmTimeout b.downlink then Opens b else Extends e.val b
  | none => Opens b

/-- The table has kept some of its entries, and nothing is complete. -/
structure Left (t t' : AcarsTable) (status : AcarsStatus) : Prop where
  unique : t'.Unique
  kept : ∀ k e, t'.get k = some e → t.get k = some e
  status : ∀ full, status ≠ .complete full

/-- The block has gone into a message: it has completed it, or the message has a new entry. -/
structure Taken (t t' : AcarsTable) (b : Block) (status : AcarsStatus) : Prop where
  unique : t'.Unique
  kept : ∀ k e, k ≠ b.key → t'.get k = some e → t.get k = some e
  taken : ∃ old, (old = [] ∨ ∃ e, t.get b.key = some e ∧ old = e.val.text) ∧
    (status = .complete (old ++ b.data) ∧ t'.get b.key = none ∨
      status = .inProgress ∧ ∃ e, t'.get b.key = some e ∧ t.get b.key ≠ some e ∧
        e.val.text = old ++ b.data)

theorem accept_of_not_extends {e : AcarsReasm} {b : Block} (h : ¬ Extends e b) :
    acarsReasmAccept e b = (some e, .duplicate) ∨ acarsReasmAccept e b = (none, .outOfSeq) := by
  unfold Extends at h
  by_cases hdup : rebased e.prevSeq b = b.seq ∨ (b.downlink = true ∧ b.seq < rebased e.prevSeq b)
  · left
    have hsame : rebased e.prevSeq b = e.prevSeq := by
      unfold rebased at hdup ⊢
      split
      · rename_i hwrap
        simp only [Bool.and_eq_true, Bool.not_eq_true', beq_iff_eq] at hwrap
        rw [if_pos (by simp [hwrap]), hwrap.1.1, hwrap.1.2] at hdup
        simp at hdup
      · rfl
    have hpair : acarsReasmAccept e b =
        (some { e with prevSeq := rebased e.prevSeq b }, .duplicate) := if_pos hdup
    rw [hpair, hsame]
  · right
    by_cases hgap : rebased e.prevSeq b ≠ acarsSeqUninit ∧ b.seq ≠ rebased e.prevSeq b + 1
    · exact (if_neg hdup).trans (if_pos hgap)
    · have hlen : (e.text ++ b.data).length > acarsReasmMaxLen := by
        by_contra hle
        exact h ⟨hdup, hgap, not_lt.1 hle⟩
      exact (if_neg hdup).trans ((if_neg hgap).trans (if_pos hlen))

theorem accept_of_extends {e : AcarsReasm} {b : Block} (h : Extends e b) :
    acarsReasmAccept e b = if b.final then (none, .complete (e.text ++ b.data))
      else (some { e with prevSeq := b.seq, frags := e.frags + 1, text := e.text ++ b.data },
        .inProgress) := by
  obtain ⟨hdup, hgap, hlen⟩ := h
  exact (if_neg hdup).trans ((if_neg hgap).trans (if_neg (not_lt.2 hlen)))

/-- An entry that has taken a block has another sequence number. -/
theorem Extends.prevSeq_ne {e : AcarsReasm} {b : Block} (h : Extends e b) : e.prevSeq ≠ b.seq := by
  intro heq
  obtain ⟨hdup, -, -⟩ := h
  have hne : rebased e.prevSeq b ≠ b.seq := fun hr => hdup (.inl hr)
  unfold rebased at hne
  rw [if_neg] at hne
  · exact hne heq
  · intro hwrap
    simp only [Bool.and_eq_true, Bool.not_eq_true', beq_iff_eq] at hwrap
    rw [heq, hwrap.1.2] at hwrap
    simp [acarsSeqWrapUp] at hwrap

theorem receive_of_opens {b : Block} (h : Opens b) :
    receive none b = (some ⟨[], b⟩, .inProgress) := by
  obtain ⟨hseq, hfin, hlen⟩ := h
  have hfirst : ¬ (b.downlink = true ∧ b.seq ≠ 0) := fun hd => hd.2 (hseq hd.1)
  simp only [receive, if_neg hfirst, hfin, not_lt.2 hlen, Bool.false_eq_true, if_false]

theorem receive_none_ne_complete (b : Block) (full : List UInt8) :
    (receive none b).2 ≠ .complete full := by
  unfold receive
  split_ifs <;> exact AcarsStatus.noConfusion

section Add

variable {t t₀ : AcarsTable} {now : ℤ} {b : Block}

/-- A block that has found the entry of its message. -/
theorem acceptAt_cases (hu : t₀.Unique) (hsub : ∀ k e, t₀.get k = some e → t.get k = some e)
    {i : Fin acarsReasmMax} {e : Entry AcarsKey AcarsReasm} (hfind : t₀.find b.key = some i)
    (he : t₀ i = some e) (hkey : e.key = b.key) :
    (¬ Extends e.val b →
      Left t (acarsReasmAcceptAt t₀ i e b).1 (acarsReasmAcceptAt t₀ i e b).2) ∧
    (Extends e.val b →
      Taken t (acarsReasmAcceptAt t₀ i e b).1 b (acarsReasmAcceptAt t₀ i e b).2) := by
  have hget : t₀.get b.key = some e := by simp [SlotTable.get, hfind, he]
  have hold := hsub b.key e hget
  have hhome : t₀.Home b.key i := .inl hfind
  have hclear {k : AcarsKey} {a : Entry AcarsKey AcarsReasm} (ha : (t₀.clear i).get k = some a) :
      t.get k = some a := hsub k a (hu.get_of_get_clear ha)
  constructor
  · intro hext
    rcases accept_of_not_extends hext with hacc | hacc
    · have hput : acarsReasmAcceptAt t₀ i e b = (t₀.put i e, .duplicate) := by
        simp [acarsReasmAcceptAt, hacc]
      rw [hput]
      refine ⟨hhome.unique_put hu hkey, fun k a ha => ?_, fun full => AcarsStatus.noConfusion⟩
      by_cases hk : k = b.key
      · subst hk
        rw [hhome.get_put hu hkey] at ha
        exact hold.trans ha
      · rw [hhome.get_put_of_ne hu hkey hk] at ha
        exact hsub k a ha
    · have hfree : acarsReasmAcceptAt t₀ i e b = (t₀.clear i, .outOfSeq) := by
        simp [acarsReasmAcceptAt, hacc]
      rw [hfree]
      exact ⟨hu.clear i, fun k a ha => hclear ha, fun full => AcarsStatus.noConfusion⟩
  · intro hext
    have hacc := accept_of_extends hext
    by_cases hfin : b.final = true
    · have hfree : acarsReasmAcceptAt t₀ i e b =
          (t₀.clear i, .complete (e.val.text ++ b.data)) := by
        simp [acarsReasmAcceptAt, hacc, hfin]
      rw [hfree]
      exact ⟨hu.clear i, fun k a _ ha => hclear ha, e.val.text, .inr ⟨e, hold, rfl⟩,
        .inl ⟨rfl, hhome.get_clear hu⟩⟩
    · obtain ⟨v, hv, hseq, htext⟩ : ∃ v : AcarsReasm, acarsReasmAccept e.val b =
          (some v, .inProgress) ∧ v.prevSeq = b.seq ∧ v.text = e.val.text ++ b.data := by
        rw [hacc, if_neg hfin]
        exact ⟨_, rfl, rfl, rfl⟩
      have hput : acarsReasmAcceptAt t₀ i e b = (t₀.put i { e with val := v }, .inProgress) := by
        simp [acarsReasmAcceptAt, hv]
      have hkey' : ({ e with val := v } : Entry AcarsKey AcarsReasm).key = b.key := hkey
      rw [hput]
      refine ⟨hhome.unique_put hu hkey', fun k a hk ha => ?_, e.val.text, .inr ⟨e, hold, rfl⟩,
        .inr ⟨rfl, _, hhome.get_put hu hkey', fun hsame => ?_, htext⟩⟩
      · rw [hhome.get_put_of_ne hu hkey' hk] at ha
        exact hsub k a ha
      · have heq := congrArg (fun a => a.val.prevSeq) (Option.some.inj (hold.symm.trans hsame))
        exact hext.prevSeq_ne (heq.trans hseq)

/-- A block whose message has no entry. -/
theorem start_cases (hu : t₀.Unique) (hsub : ∀ k e, t₀.get k = some e → t.get k = some e)
    (hfind : t₀.find b.key = none) (hold : ∀ e, t.get b.key = some e → e.since < now) :
    (¬ Opens b → Left t (acarsReasmStart t₀ now b).1 (acarsReasmStart t₀ now b).2) ∧
    (Opens b → Taken t (acarsReasmStart t₀ now b).1 b (acarsReasmStart t₀ now b).2) := by
  have hlost : Left t t₀ .outOfSeq := ⟨hu, hsub, fun full => AcarsStatus.noConfusion⟩
  have hskipped : Left t t₀ .skipped := ⟨hu, hsub, fun full => AcarsStatus.noConfusion⟩
  have hreceive := receive_none b
  unfold acarsReasmStart
  by_cases hseq : b.downlink = true ∧ b.seq ≠ 0
  · rw [if_pos hseq]
    exact ⟨fun _ => hlost, fun hopens => absurd (hopens.1 hseq.1) hseq.2⟩
  · by_cases hfin : b.final = true
    · rw [if_neg hseq, if_pos hfin]
      refine ⟨fun _ => hskipped, fun hopens => ?_⟩
      rw [hopens.2.1] at hfin
      cases hfin
    · rw [if_neg hseq, if_neg hfin]
      obtain ⟨hstatus, hval, -⟩ := accept_fresh hseq hfin
      constructor
      · intro hopens
        rw [if_neg hopens] at hreceive
        rw [hreceive] at hval
        rcases hacc : acarsReasmAccept (.fresh b.downlink) b with ⟨_ | v, status⟩
        · have hfree : acarsReasmAcceptAt t₀ t₀.alloc ⟨b.key, now, .fresh b.downlink⟩ b =
              (t₀.clear t₀.alloc, status) := by
            simp only [acarsReasmAcceptAt, hacc]
          rw [hfree]
          refine ⟨hu.clear _, fun k a ha => hsub k a (hu.get_of_get_clear ha), fun full hfull => ?_⟩
          rw [hacc, hfull] at hstatus
          exact receive_none_ne_complete b full hstatus.symm
        · rw [hacc] at hval
          exact hval.elim
      · intro hopens
        have hboth := receive_of_opens hopens
        rw [hboth] at hval hstatus
        rcases hacc : acarsReasmAccept (.fresh b.downlink) b with ⟨_ | v, status⟩
        · rw [hacc] at hval
          exact hval.elim
        · rw [hacc] at hval hstatus
          obtain rfl : status = .inProgress := hstatus
          have hput : acarsReasmAcceptAt t₀ t₀.alloc ⟨b.key, now, .fresh b.downlink⟩ b =
              (t₀.put t₀.alloc ⟨b.key, now, v⟩, .inProgress) := by
            simp only [acarsReasmAcceptAt, hacc]
          have hsole := SlotTable.sole_of_find_eq_none hfind t₀.alloc
          rw [hput]
          refine ⟨hsole.unique_put hu rfl,
            fun k a hk ha => hsub k a (hsole.get_of_get_put hu rfl hk ha), [], .inl rfl,
            .inr ⟨rfl, _, hsole.get_put hu rfl, fun hsame => ?_, ?_⟩⟩
          · exact absurd (hold _ hsame) (lt_irrefl now)
          · rw [hval.2]
            simp [Message.text, Message.blocks]

/-- **One block.** The table takes it or leaves it, and `Takes` says which. -/
theorem add_cases (now : ℤ) (b : Block) (hu : t.Unique) :
    (¬ Takes t now b → Left t (acarsReasmAdd t now b).1 (acarsReasmAdd t now b).2) ∧
    (Takes t now b → Taken t (acarsReasmAdd t now b).1 b (acarsReasmAdd t now b).2) := by
  have hu₀ : (acarsReasmExpire t now).Unique := hu.expire _
  have hget {k : AcarsKey} {e : Entry AcarsKey AcarsReasm} :
      (acarsReasmExpire t now).get k = some e ↔
        t.get k = some e ∧ ¬ now - e.since > acarsReasmTimeout e.val.downlink := by
    rw [acarsReasmExpire, hu.get_expire, Option.filter_eq_some_iff]
    simp
  have hpos (downlink : Bool) : 0 < acarsReasmTimeout downlink := by
    cases downlink <;> decide
  unfold acarsReasmAdd Takes
  cases hfind : (acarsReasmExpire t now).find b.key with
  | none =>
    have hlook : acarsReasmLookup (acarsReasmExpire t now) b.key = none := by
      simp [acarsReasmLookup, hfind]
    have hnone : (acarsReasmExpire t now).get b.key = none := by simp [SlotTable.get, hfind]
    simp only [hlook]
    refine start_cases hu₀ (fun k e he => (hget.1 he).1) hfind fun e he => ?_
    -- the entry has run out
    have hout : now - e.since > acarsReasmTimeout e.val.downlink := by
      by_contra hfresh
      rw [hget.2 ⟨he, hfresh⟩] at hnone
      cases hnone
    have := hpos e.val.downlink
    omega
  | some i =>
    obtain ⟨e, he, hkey⟩ := SlotTable.find_eq_some hfind
    have hlook : acarsReasmLookup (acarsReasmExpire t now) b.key = some (i, e) := by
      simp [acarsReasmLookup, hfind, he]
    simp only [hlook]
    by_cases hout : now - e.since > acarsReasmTimeout b.downlink
    · rw [if_pos hout, if_pos hout]
      have hhome : (acarsReasmExpire t now).Home b.key i := .inl hfind
      have hcleared := hhome.get_clear hu₀
      refine start_cases (hu₀.clear i)
        (fun k a ha => (hget.1 (hu₀.get_of_get_clear ha)).1) ?_ fun a ha => ?_
      · rw [SlotTable.find_eq_none, ← SlotTable.get_eq_none]
        exact hcleared
      · have hsome : (acarsReasmExpire t now).get b.key = some e := by
          simp [SlotTable.get, hfind, he]
        obtain rfl := Option.some.inj ((hget.1 hsome).1.symm.trans ha)
        have := hpos b.downlink
        omega
    · rw [if_neg hout, if_neg hout]
      exact acceptAt_cases hu₀ (fun k a ha => (hget.1 ha).1) hfind he hkey

end Add

/-! ## Every sequence of payloads -/

/-- The table, together with the blocks that it has been given and whether they passed the CRC. -/
structure Payloads where
  table : AcarsTable
  fed : List (Block × Bool)

/-- The block of a payload, and whether it passes the CRC. -/
def fedBy (buf : List UInt8) : List (Block × Bool) :=
  match acarsRead buf with
  | .ok a => (a.block.map fun b => (b, a.crcOk)).toList
  | .error _ => []

/-- Payloads that arrive, each with its time. -/
def payloads : System Payloads (ℤ × List UInt8) where
  init := ⟨SlotTable.empty, []⟩
  step s a := some ⟨(acarsDecode s.table a.1 a.2).1, s.fed ++ fedBy a.2⟩

/-- The text is made of blocks that passed the CRC. -/
def MadeOf (fed : List (Block × Bool)) (text : List UInt8) : Prop :=
  ∃ bs : List Block, text = bs.flatMap Block.data ∧ ∀ b ∈ bs, (b, true) ∈ fed

/-- A block that fails the CRC changes no message but to abandon it and completes none; and what is
reported as complete is made of blocks that passed. -/
def Clean (s : Payloads) (a : ℤ × List UInt8) : Prop :=
  (∀ b, (b, false) ∈ fedBy a.2 →
    (∀ k e, (acarsDecode s.table a.1 a.2).1.get k = some e → s.table.get k = some e) ∧
    ∀ txt full, (acarsDecode s.table a.1 a.2).2 ≠ .ok (txt, .complete full)) ∧
  ∀ txt full, (acarsDecode s.table a.1 a.2).2 = .ok (txt, .complete full) →
    MadeOf (s.fed ++ fedBy a.2) full

theorem MadeOf.mono {fed more : List (Block × Bool)} {text : List UInt8} (h : MadeOf fed text) :
    MadeOf (fed ++ more) text := by
  obtain ⟨bs, hbs, hfed⟩ := h
  exact ⟨bs, hbs, fun b hb => List.mem_append_left _ (hfed b hb)⟩

theorem MadeOf.append {fed more : List (Block × Bool)} {text : List UInt8} {b : Block}
    (h : MadeOf fed text) (hb : (b, true) ∈ more) : MadeOf (fed ++ more) (text ++ b.data) := by
  obtain ⟨bs, rfl, hfed⟩ := h
  refine ⟨bs ++ [b], by simp, fun b' hb' => ?_⟩
  rcases List.mem_append.1 hb' with hold | hnew
  · exact List.mem_append_left _ (hfed b' hold)
  · rw [List.mem_singleton.1 hnew]
    exact List.mem_append_right _ hb

/-- What the table holds is made of blocks that passed. -/
structure Payloads.Inv (s : Payloads) : Prop where
  unique : s.table.Unique
  made : ∀ k e, s.table.get k = some e → MadeOf s.fed e.val.text

/-- A payload with a block is handed over, one without leaves the table alone. -/
theorem acarsDecode_cases (t : AcarsTable) (now : ℤ) (buf : List UInt8) :
    (fedBy buf = [] ∧ (acarsDecode t now buf).1 = t ∧
      ∀ txt full, (acarsDecode t now buf).2 ≠ .ok (txt, .complete full)) ∨
    ∃ a b, fedBy buf = [(b, a.crcOk)] ∧
      (acarsDecode t now buf).1 = (acarsReasmAdd t now b).1 ∧
      (acarsDecode t now buf).2 = .ok (a, (acarsReasmAdd t now b).2) := by
  unfold fedBy acarsDecode
  cases hread : acarsRead buf with
  | error e => exact .inl ⟨rfl, rfl, fun txt full h => by cases h⟩
  | ok a =>
    cases hblock : a.block with
    | none =>
      simp only [hblock]
      exact .inl ⟨rfl, trivial, fun txt full h => by cases h⟩
    | some b =>
      simp only [hblock]
      exact .inr ⟨a, b, rfl, rfl, rfl⟩

namespace Payloads

theorem inv_init : Inv payloads.init where
  unique := SlotTable.unique_empty
  made k e he := by
    change (SlotTable.empty : AcarsTable).get k = some e at he
    rw [SlotTable.get_empty] at he
    cases he

/-- The text of a message before the block, if there is one. -/
theorem made_old {s : Payloads} (h : Inv s) {b : Block} {old : List UInt8}
    (hold : old = [] ∨ ∃ e, s.table.get b.key = some e ∧ old = e.val.text) : MadeOf s.fed old := by
  rcases hold with rfl | ⟨e, he, rfl⟩
  · exact ⟨[], rfl, by simp⟩
  · exact h.made _ e he

/-- A block that the table takes has passed, if it takes none that failed. -/
theorem fedBy_of_takes {s : Payloads} {a : ℤ × List UInt8} {b : Block} {crcOk : Bool}
    (hc : ∀ b, (b, false) ∈ fedBy a.2 → ¬ Takes s.table a.1 b) (hfed : fedBy a.2 = [(b, crcOk)])
    (ht : Takes s.table a.1 b) : fedBy a.2 = [(b, true)] := by
  cases crcOk with
  | true => exact hfed
  | false =>
    refine absurd ht (hc b ?_)
    rw [hfed]
    exact List.mem_singleton_self _

theorem inv_step (s : Payloads) (a : ℤ × List UInt8) (s' : Payloads) (h : Inv s)
    (hc : ∀ b, (b, false) ∈ fedBy a.2 → ¬ Takes s.table a.1 b) (hs : payloads.step s a = some s') :
    Inv s' := by
  obtain rfl := Option.some.inj hs
  rcases acarsDecode_cases s.table a.1 a.2 with ⟨-, htable, -⟩ | ⟨txt, b, hfed, htable, -⟩
  · rw [htable]
    exact ⟨h.unique, fun k e he => (h.made k e he).mono⟩
  · rw [htable]
    obtain ⟨hleft, htaken⟩ := add_cases a.1 b h.unique
    by_cases ht : Takes s.table a.1 b
    · have hpassed : (b, true) ∈ fedBy a.2 := by
        rw [fedBy_of_takes hc hfed ht]
        exact List.mem_singleton_self _
      have hr := htaken ht
      obtain ⟨old, hold, hdone⟩ := hr.taken
      refine ⟨hr.unique, fun k e he => ?_⟩
      by_cases hk : k = b.key
      · subst hk
        rcases hdone with ⟨-, hnone⟩ | ⟨-, e', he', -, htext⟩
        · rw [hnone] at he
          cases he
        · obtain rfl := Option.some.inj (he'.symm.trans he)
          rw [htext]
          exact (made_old h hold).append hpassed
      · exact (h.made k e (hr.kept k e hk he)).mono
    · have hr := hleft ht
      exact ⟨hr.unique, fun k e he => (h.made k e (hr.kept k e he)).mono⟩

/-- One payload. -/
theorem clean_step_iff (s : Payloads) (a : ℤ × List UInt8) (h : Inv s) :
    (∀ b, (b, false) ∈ fedBy a.2 → ¬ Takes s.table a.1 b) ↔ Clean s a := by
  rcases acarsDecode_cases s.table a.1 a.2 with ⟨hfed, -, hreport⟩ | ⟨txt, b, hfed, htable, hreport⟩
  · refine ⟨fun _ => ⟨fun b hb => ?_, fun txt full hfull => absurd hfull (hreport txt full)⟩,
      fun _ b hb => ?_⟩
    · rw [hfed] at hb
      cases hb
    · rw [hfed] at hb
      cases hb
  · obtain ⟨hleft, htaken⟩ := add_cases a.1 b h.unique
    constructor
    · intro hc
      by_cases ht : Takes s.table a.1 b
      · have hpassed := fedBy_of_takes hc hfed ht
        refine ⟨fun b' hb' => ?_, fun txt' full hfull => ?_⟩
        · rw [hpassed] at hb'
          cases List.mem_singleton.1 hb'
        · obtain ⟨old, hold, hdone⟩ := (htaken ht).taken
          rw [hreport] at hfull
          rcases hdone with ⟨hstatus, -⟩ | ⟨hstatus, -⟩
          · rw [hstatus] at hfull
            obtain ⟨-, hfull⟩ := Prod.mk.inj (Except.ok.inj hfull)
            obtain rfl := AcarsStatus.complete.inj hfull
            refine (made_old h hold).append ?_
            rw [hpassed]
            exact List.mem_singleton_self _
          · rw [hstatus] at hfull
            cases hfull
      · have hr := hleft ht
        refine ⟨fun _ _ => ⟨?_, fun txt' full hfull => ?_⟩, fun txt' full hfull => ?_⟩
        · rw [htable]
          exact hr.kept
        · rw [hreport] at hfull
          exact hr.status full (Prod.mk.inj (Except.ok.inj hfull)).2
        · rw [hreport] at hfull
          exact absurd (Prod.mk.inj (Except.ok.inj hfull)).2 (hr.status full)
    · intro hclean b' hb' ht
      obtain ⟨hkept, hstatus⟩ := hclean.1 b' hb'
      rw [hfed] at hb'
      obtain ⟨rfl, -⟩ := Prod.mk.inj (List.mem_singleton.1 hb')
      rw [htable] at hkept
      obtain ⟨old, -, ⟨hdone, -⟩ | ⟨-, e, he, hne, -⟩⟩ := (htaken ht).taken
      · exact hstatus txt _ (by rw [hreport, hdone])
      · exact hne (hkept _ e he)

end Payloads

/-- **When corrupted text stays out.** In a run of payloads every step is clean exactly when the
table would take no block that fails its CRC. -/
theorem clean_iff (evs : List (ℤ × List UInt8)) :
    payloads.Along Clean payloads.init evs ↔
      payloads.Along (fun s a => ∀ b, (b, false) ∈ fedBy a.2 → ¬ Takes s.table a.1 b)
        payloads.init evs :=
  (payloads.along_congr Payloads.inv_step Payloads.clean_step_iff evs Payloads.inv_init).symm

/-- The first block of a message, `ONE/`. -/
def blockOne : List UInt8 :=
  [0x01, 0x32, 0x2e, 0x4e, 0x31, 0x32, 0x33, 0x41, 0x42, 0x15, 0x48, 0x31, 0x34, 0x02, 0x4d, 0x30,
    0x31, 0x41, 0x44, 0x4c, 0x48, 0x34, 0x34, 0x31, 0x4f, 0x4e, 0x45, 0x2f, 0x17, 0x4a, 0xdb, 0x7f]

/-- The second and last block, sent as `TWO` and received as `TXO`. -/
def blockTwo : List UInt8 :=
  [0x01, 0x32, 0x2e, 0x4e, 0x31, 0x32, 0x33, 0x41, 0x42, 0x15, 0x48, 0x31, 0x34, 0x02, 0x4d, 0x30,
    0x31, 0x42, 0x44, 0x4c, 0x48, 0x34, 0x34, 0x31, 0x54, 0x58, 0x4f, 0x03, 0x88, 0x5d, 0x7f]

/-- The corrupted block completes the message. -/
theorem corrupted_block_completes : ∃ s, payloads.exec payloads.init [(0, blockOne)] = some s ∧
    (match (acarsDecode s.table 1 blockTwo).2 with
      | .ok (txt, status) => (txt.crcOk, status)
      | .error _ => (true, .skipped)) =
    (false, .complete [0x4f, 0x4e, 0x45, 0x2f, 0x54, 0x58, 0x4f]) :=
  System.exists_exec _ (by decide +kernel)

end MacHPSDR.Hfdl
