import MacHPSDR.Foundations.SlotTable

/-!
# Multi-block ACARS messages

A message longer than one block is sent in several, and every block but the last says that more
follow. `acars_reasm_add` takes one block: it looks up the message under its key (registration,
label and message number), appends the block if it is the next one, and reports the whole text
with the final block.

`acars_reasm_accept` is what the function does with the entry that it has looked up or made; an
entry that it frees is `none`.
-/

namespace MacHPSDR.Hfdl

/-- The registration of a block, `char reg[8]`. -/
structure Registration where
  text : List UInt8
  short : text.length < 8
  deriving DecidableEq

/-- The key of a message. -/
structure AcarsKey where
  reg : List UInt8
  label : List UInt8
  msgNum : List UInt8
  deriving DecidableEq

/-- A block as `acars_decode` hands it to `acars_reasm_add`. A downlink has a message number and an
uplink has none; a block without a sequence number is not handed over. -/
structure Block where
  key : AcarsKey
  downlink : Bool
  seq : ℕ
  final : Bool
  data : List UInt8
  direction : downlink = !key.msgNum.isEmpty
  deriving DecidableEq

/-- `ACARS_REASM_MAX`. -/
abbrev acarsReasmMax : ℕ := 16

/-- `ACARS_REASM_MAX_LEN`. -/
def acarsReasmMaxLen : ℕ := 32 * 1024

/-- `ACARS_SEQ_UNINIT`. -/
def acarsSeqUninit : ℤ := -2

/-- `ACARS_SEQ_WRAP_UP`: the last letter of the uplink blocks. -/
def acarsSeqWrapUp : ℕ := 23

/-- `ACARS_REASM`, without its key and the arrival of the first block. -/
structure AcarsReasm where
  downlink : Bool
  prevSeq : ℤ
  frags : ℕ
  text : List UInt8

/-- An entry to which no block has been added. -/
def AcarsReasm.fresh (downlink : Bool) : AcarsReasm where
  downlink := downlink
  prevSeq := acarsSeqUninit
  frags := 0
  text := []

/-- `acars_reasm`. -/
abbrev AcarsTable := SlotTable acarsReasmMax AcarsKey AcarsReasm

/-- `ACARS_REASM_STATUS`; a complete message comes with its text. -/
inductive AcarsStatus
  | skipped
  | inProgress
  | complete (full : List UInt8)
  | duplicate
  | outOfSeq
  deriving DecidableEq

/-- `acars_reasm_timeout`, in microseconds. -/
def acarsReasmTimeout (downlink : Bool) : ℤ :=
  if downlink then 1260 * 1000000 else 370 * 1000000

/-- `acars_reasm_expire`. -/
def acarsReasmExpire (t : AcarsTable) (now : ℤ) : AcarsTable :=
  t.expire fun e => decide (now - e.since > acarsReasmTimeout e.val.downlink)

/-- The end of `acars_reasm_add`, from the wrap of the uplink letters on. -/
def acarsReasmAccept (e : AcarsReasm) (b : Block) : Option AcarsReasm × AcarsStatus :=
  let prev := if !b.downlink && b.seq == 0 && e.prevSeq == acarsSeqWrapUp then -1 else e.prevSeq
  if prev = b.seq ∨ (b.downlink ∧ b.seq < prev) then
    (some { e with prevSeq := prev }, .duplicate)
  else if prev ≠ acarsSeqUninit ∧ b.seq ≠ prev + 1 then (none, .outOfSeq)
  else
    let text := e.text ++ b.data
    if text.length > acarsReasmMaxLen then (none, .outOfSeq)
    else if b.final then (none, .complete text)
    else (some { e with prevSeq := b.seq, frags := e.frags + 1, text := text }, .inProgress)

/-- `acars_reasm_accept` on a slot of the table. -/
def acarsReasmAcceptAt (t : AcarsTable) (i : Fin acarsReasmMax) (e : Entry AcarsKey AcarsReasm)
    (b : Block) : AcarsTable × AcarsStatus :=
  match acarsReasmAccept e.val b with
  | (none, status) => (t.clear i, status)
  | (some v, status) => (t.put i { e with val := v }, status)

/-- `acars_reasm_lookup`. -/
def acarsReasmLookup (t : AcarsTable) (k : AcarsKey) :
    Option (Fin acarsReasmMax × Entry AcarsKey AcarsReasm) :=
  (t.find k).bind fun i => (t i).map fun e => (i, e)

/-- The second part of `acars_reasm_add`: a block of a message that has no entry. -/
def acarsReasmStart (t : AcarsTable) (now : ℤ) (b : Block) : AcarsTable × AcarsStatus :=
  if b.downlink ∧ b.seq ≠ 0 then (t, .outOfSeq)
  else if b.final then (t, .skipped)
  else acarsReasmAcceptAt t t.alloc { key := b.key, since := now, val := .fresh b.downlink } b

/-- `acars_reasm_add`. -/
def acarsReasmAdd (t : AcarsTable) (now : ℤ) (b : Block) : AcarsTable × AcarsStatus :=
  let t := acarsReasmExpire t now
  match acarsReasmLookup t b.key with
  | some (i, e) =>
    if now - e.since > acarsReasmTimeout b.downlink then acarsReasmStart (t.clear i) now b
    else acarsReasmAcceptAt t i e b
  | none => acarsReasmStart t now b

end MacHPSDR.Hfdl
