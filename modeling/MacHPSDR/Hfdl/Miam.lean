import MacHPSDR.Foundations.CString
import MacHPSDR.Foundations.PieceTable
import MacHPSDR.Hfdl.AcarsReasm

/-!
# MIAM file transfers

A file is announced with its size (a File Transfer Request, `F`) and sent in segments (`S`), which
come in any order. Both are ACARS texts with fields of a fixed width. The request opens an entry
(`miam_xfer_open`), and each segment fills a place of it (`miam_xfer_add`); the file is complete
when the segments in a row from the first on hold at least its size.
-/

namespace MacHPSDR.Hfdl

/-- The key of a transfer. -/
structure MiamKey where
  reg : List UInt8
  fileId : ℕ
  deriving DecidableEq

/-- `MIAM_XFER_MAX`. -/
abbrev miamXferMax : ℕ := 4

/-- `MIAM_SEG_MAX`. -/
def miamSegMax : ℕ := 64

/-- `MIAM_XFER_TIMEOUT_US`. -/
def miamXferTimeout : ℤ := 900 * 1000000

/-- `MIAM_XFER`, without its key and the arrival of the request. -/
structure MiamXfer where
  totalLen : ℕ
  seg : PieceTable UInt8

/-- `miam_xfer`. -/
abbrev MiamTable := SlotTable miamXferMax MiamKey MiamXfer

/-- `MIAM_XFER_STATUS`; a complete file comes with its bytes. -/
inductive MiamStatus
  | skipped
  | inProgress
  | complete (full : List UInt8)
  | duplicate
  deriving DecidableEq

/-- `miam_xfer_expire`. -/
def miamXferExpire (t : MiamTable) (now : ℤ) : MiamTable :=
  t.expire fun e => decide (now - e.since > miamXferTimeout)

/-- The key as it is stored. -/
def miamStored (k : MiamKey) : MiamKey := ⟨CString.strlcpy 16 k.reg, k.fileId⟩

/-- `miam_xfer_open`. -/
def miamXferOpen (t : MiamTable) (now : ℤ) (k : MiamKey) (totalLen : ℕ) : MiamTable :=
  let t := miamXferExpire t now
  t.put ((t.find k).getD t.alloc)
    { key := miamStored k, since := now, val := { totalLen := totalLen, seg := PieceTable.empty } }

/-- The end of `miam_xfer_add`, on the entry that has been found; an entry that is freed is
`none`. -/
def miamXferAccept (e : MiamXfer) (segId : ℕ) (data : List UInt8) : Option MiamXfer × MiamStatus :=
  if (e.seg (segId - 1)).isSome then (some e, .duplicate)
  else
    let e := { e with seg := e.seg.put (segId - 1) data }
    let run := e.seg.row 0 miamSegMax
    if e.totalLen = 0 ∨ (run.map List.length).sum < e.totalLen then (some e, .inProgress)
    else (none, .complete run.flatten)

/-- `miam_xfer_add`. -/
def miamXferAdd (t : MiamTable) (now : ℤ) (k : MiamKey) (segId : ℕ) (data : List UInt8) :
    MiamTable × MiamStatus :=
  if segId < 1 ∨ segId > miamSegMax then (t, .skipped)
  else
    let t := miamXferExpire t now
    match (t.find k).bind fun i => (t i).map fun e => (i, e) with
    | none => (t, .skipped)
    | some (i, e) =>
      match miamXferAccept e.val segId data with
      | (none, status) => (t.clear i, status)
      | (some v, status) => (t.put i { e with val := v }, status)

/-! ## The frames -/

/-- `read_uint`: exactly `n` digits, after those that spell `v`; the end of the text is no digit. -/
def readUint (v : ℕ) : ℕ → List UInt8 → Option ℕ
  | 0, _ => some v
  | _ + 1, [] => none
  | n + 1, c :: s =>
    if c < 0x30 ∨ c > 0x39 then none else readUint (v * 10 + (c.toNat - 0x30)) n s

/-- `read_time`: whether the text starts with a time. -/
def readTime (s : List UInt8) : Bool :=
  match readUint 0 2 s, readUint 0 2 (s.drop 2), readUint 0 2 (s.drop 4), readUint 0 2 (s.drop 6),
    readUint 0 2 (s.drop 8), readUint 0 2 (s.drop 10) with
  | some _, some mo, some d, some h, some mi, some se =>
    !(mo < 1 || mo > 12 || d > 31 || h > 23 || mi > 59 || se > 59)
  | _, _, _, _, _, _ => false

/-- `chomped_len`: the length without the CR and LF at the end. -/
def chompedLen (s : List UInt8) : ℕ :=
  (s.reverse.dropWhile fun c => c == 0x0d || c == 0x0a).length

/-- The frames that concern a transfer. -/
inductive MiamFrame
  | request (fileId fileSize : ℕ)
  | segment (fileId segId : ℕ) (data : List UInt8)
  | other
  deriving DecidableEq

/-- The cases `F` and `S` of `hfdl_miam_decode`, up to the call that they make. -/
def miamFrame (txt : List UInt8) : MiamFrame :=
  match txt with
  | 0x46 :: p =>
    if chompedLen p ≠ 21 then .other
    else
      match readUint 0 3 p, readUint 0 6 (p.drop 3) with
      | some fileId, some fileSize =>
        if readTime (p.drop 9) then .request fileId fileSize else .other
      | _, _ => .other
  | 0x53 :: p =>
    if chompedLen p < 6 then .other
    else
      match readUint 0 3 p, readUint 0 3 (p.drop 3) with
      | some fileId, some segId => .segment fileId segId (p.drop 6)
      | _, _ => .other
  | _ => .other

/-- `hfdl_miam_decode`: what becomes of the transfers, and what is said of a segment. -/
def miamDecode (t : MiamTable) (now : ℤ) (reg : Option Registration) (txt : List UInt8) :
    MiamTable × Option MiamStatus :=
  match miamFrame txt with
  | .request fileId fileSize =>
    match reg with
    | none => (t, none)
    | some reg => (miamXferOpen t now ⟨reg.text, fileId⟩ fileSize, none)
  | .segment fileId segId data =>
    match reg with
    | none => (t, some .skipped)
    | some reg =>
      let r := miamXferAdd t now ⟨reg.text, fileId⟩ segId data
      (r.1, some r.2)
  | .other => (t, none)

end MacHPSDR.Hfdl
