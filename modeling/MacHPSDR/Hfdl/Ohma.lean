import MacHPSDR.Foundations.CString
import MacHPSDR.Foundations.PieceTable
import MacHPSDR.Hfdl.AcarsReasm

/-!
# OHMA fragments

A conversation that does not fit one ACARS message is sent in fragments, each a JSON object with the
conversation id, its number `msg_seq` and, in the first, how many there are. They come in any order.
`ohma_reasm_add` keeps each in a place of its own and reports the whole once the places
`1 .. msg_total` are filled.

The table holds the registration and the conversation id in buffers of 16 and 64 characters, and
compares what is in the buffers with the whole strings; `msg_seq` and `msg_total` are numbers of
64 bits that are handed on as `int`.
-/

namespace MacHPSDR.Hfdl

/-- The key of a conversation. -/
structure OhmaKey where
  reg : List UInt8
  convoId : List UInt8
  deriving DecidableEq

/-- The members of `OHMA_JSON` that reassembly reads. -/
structure OhmaJson where
  convoId : Option (List UInt8)
  message : Option (List UInt8)
  msgSeq : ℤ
  msgTotal : ℤ

/-- `OHMA_REASM_MAX`. -/
abbrev ohmaReasmMax : ℕ := 8

/-- `OHMA_FRAG_MAX`. -/
def ohmaFragMax : ℕ := 32

/-- `OHMA_REASM_TIMEOUT_US`. -/
def ohmaReasmTimeout : ℤ := 1200 * 1000000

/-- `OHMA_REASM`, without its key and the arrival of the first fragment. -/
structure OhmaReasm where
  total : ℤ
  frag : PieceTable UInt8

/-- An entry to which no fragment has been added. -/
def OhmaReasm.fresh : OhmaReasm where
  total := 0
  frag := PieceTable.empty

/-- `ohma_reasm`. -/
abbrev OhmaTable := SlotTable ohmaReasmMax OhmaKey OhmaReasm

/-- `OHMA_REASM_STATUS`; a complete message comes with its text. -/
inductive OhmaStatus
  | inProgress
  | complete (full : List UInt8)
  | duplicate
  | error
  deriving DecidableEq

/-- `ohma_reasm_expire`. -/
def ohmaReasmExpire (t : OhmaTable) (now : ℤ) : OhmaTable :=
  t.expire fun e => decide (now - e.since > ohmaReasmTimeout)

/-- The key as it is stored. -/
def ohmaStored (k : OhmaKey) : OhmaKey :=
  ⟨CString.strlcpy 16 k.reg, CString.strlcpy 64 k.convoId⟩

/-- The end of `ohma_reasm_add`, from the total on; an entry that is freed is `none`. -/
def ohmaReasmAccept (e : OhmaReasm) (seq total : ℤ) (data : List UInt8) :
    Option OhmaReasm × OhmaStatus :=
  let e := if 0 < total ∧ total ≤ ohmaFragMax then { e with total := total } else e
  let place := (seq - 1).toNat
  if (e.frag place).isSome then (some e, .duplicate)
  else
    let e := { e with frag := e.frag.put place data }
    if e.total ≤ 0 then (some e, .inProgress)
    else if ¬ e.frag.Full e.total.toNat then (some e, .inProgress)
    else (none, .complete (e.frag.join e.total.toNat))

/-- `ohma_reasm_accept` on a slot of the table. -/
def ohmaReasmAcceptAt (t : OhmaTable) (i : Fin ohmaReasmMax) (e : Entry OhmaKey OhmaReasm)
    (seq total : ℤ) (data : List UInt8) : OhmaTable × OhmaStatus :=
  match ohmaReasmAccept e.val seq total data with
  | (none, status) => (t.clear i, status)
  | (some v, status) => (t.put i { e with val := v }, status)

/-- `ohma_reasm_add`. -/
def ohmaReasmAdd (t : OhmaTable) (now : ℤ) (k : OhmaKey) (seq total : ℤ) (data : List UInt8) :
    OhmaTable × OhmaStatus :=
  if seq < 1 ∨ seq > ohmaFragMax then (t, .error)
  else
    let t := ohmaReasmExpire t now
    match (t.find k).bind fun i => (t i).map fun e => (i, e) with
    | some (i, e) => ohmaReasmAcceptAt t i e seq total data
    | none =>
      ohmaReasmAcceptAt t t.alloc { key := ohmaStored k, since := now, val := .fresh } seq total
        data

/-- What `hfdl_ohma_decode` says about reassembly. -/
inductive OhmaReport
  | nothing
  | noConvoId
  | noTotal
  | noRegistration
  | added (status : OhmaStatus)
  deriving DecidableEq

/-- `(int)`, of a number of 64 bits. -/
def toInt (n : ℤ) : ℤ := n.bmod (2 ^ 32)

/-- `hfdl_ohma_decode`, once the JSON has been read. -/
def ohmaReassemble (t : OhmaTable) (now : ℤ) (reg : Option Registration) (js : OhmaJson) :
    OhmaTable × OhmaReport :=
  match js.message with
  | none => (t, .nothing)
  | some message =>
    if js.msgSeq ≤ 0 then (t, .nothing)
    else
      match js.convoId with
      | none => (t, .noConvoId)
      | some convoId =>
        if js.msgSeq = 1 ∧ js.msgTotal ≤ 0 then (t, .noTotal)
        else
          match reg with
          | none => (t, .noRegistration)
          | some reg =>
            let r := ohmaReasmAdd t now ⟨reg.text, convoId⟩ (toInt js.msgSeq) (toInt js.msgTotal)
              message
            (r.1, .added r.2)

end MacHPSDR.Hfdl
