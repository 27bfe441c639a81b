import MacHPSDR.Hfdl.Crc

/-!
# HFDL protocol data units

Two readers of a decoded frame: `hfdl_pdu_describe`, which checks the header and says what it is,
and `hfdl_msg_decode`, which checks it as well and then walks the LPDUs. The header of an MPDU says
how many LPDUs there are for each aircraft and how long each is; they follow the header and its
checksum one after the other.

The buffer is the `len` octets that a reader is handed. A read that would leave it is `none`, so a
function that never returns `none` reads inside the buffer only. The CRC function is a parameter.
-/

namespace MacHPSDR.Hfdl

section

variable (crc : List UInt8 → UInt16 → UInt16)

/-- `hfdl_pdu_fcs_check`. -/
def hfdlPduFcsCheck (buf : List UInt8) (hdrLen : ℕ) : Option Bool := do
  let lo ← buf[hdrLen]?
  let hi ← buf[hdrLen + 1]?
  let check := lo.toUInt16 ||| (hi.toUInt16 <<< 8)
  let comp := crc (buf.take hdrLen) 0xffff ^^^ 0xffff
  return check == comp

/-- `SPDU_LEN`. -/
def spduLen : ℕ := 66

/-- `SPDU_HDR`. -/
def spduHdr : ℕ := 64

/-! ## `hfdl_pdu_describe` -/

/-- The texts of `hfdl_pdu_describe`, with what they show. -/
inductive PduText
  | frameTooShort
  | spduTooShort
  | spdu (fcs : Bool)
  | mpduTooShort
  | mpduDownlink (ac gs : UInt8) (lpduCnt : ℕ) (fcs : Bool)
  | mpduUplinkTooShort
  | mpduUplink (gs : UInt8) (aircraftCnt : ℕ) (fcs : Bool)
  deriving DecidableEq

/-- What `hfdl_pdu_describe` returns along with the text. -/
def PduText.accepted : PduText → Bool
  | .spdu fcs => fcs
  | .mpduDownlink _ _ _ fcs => fcs
  | .mpduUplink _ _ fcs => fcs
  | _ => false

/-- The loop over the aircraft in `hfdl_pdu_describe`: the length of the header, or nothing if the
buffer is too short. -/
def describeHdrLen (buf : List UInt8) : ℕ → ℕ → Option (Option ℕ)
  | 0, hdrLen => some (some hdrLen)
  | aircraft + 1, hdrLen =>
    if buf.length < hdrLen + 2 then some none
    else do
      let octet ← buf[hdrLen + 1]?
      let lpduCnt := (octet >>> 4).toNat
      describeHdrLen buf aircraft (hdrLen + (2 + lpduCnt))

/-- `hfdl_pdu_describe`. -/
def hfdlPduDescribe (buf : List UInt8) : Option PduText :=
  if buf.length < 3 then some .frameTooShort
  else do
    let b0 ← buf[0]?
    if b0 &&& 1 = 0 then
      if buf.length < spduLen then some .spduTooShort
      else do
        let ok ← hfdlPduFcsCheck crc buf spduHdr
        return .spdu ok
    else if b0 &&& 2 ≠ 0 then
      let lpduCnt := ((b0 >>> 2) &&& 0xf).toNat
      let hdrLen := 6 + lpduCnt
      if buf.length < hdrLen + 2 then some .mpduTooShort
      else do
        let ok ← hfdlPduFcsCheck crc buf hdrLen
        let ac ← buf[2]?
        let gs ← buf[1]?
        return .mpduDownlink ac (gs &&& 0x7f) lpduCnt ok
    else
      let aircraftCnt := ((b0 &&& 0x70) >>> 4).toNat + 1
      match ← describeHdrLen buf aircraftCnt 2 with
      | none => return .mpduUplinkTooShort
      | some hdrLen =>
        if buf.length < hdrLen + 2 then some .mpduUplinkTooShort
        else do
          let ok ← hfdlPduFcsCheck crc buf hdrLen
          let gs ← buf[1]?
          return .mpduUplink (gs &&& 0x7f) aircraftCnt ok

/-! ## LPDUs -/

/-- `REVERSE_BYTE`. -/
def reverseByte (b : UInt8) : UInt8 := ⟨b.toBitVec.reverse⟩

/-- `parse_icao_hex`, of the octets from `i` on. -/
def parseIcaoHex (buf : List UInt8) (i : ℕ) : Option UInt32 := do
  let b0 ← buf[i]?
  let b1 ← buf[i + 1]?
  let b2 ← buf[i + 2]?
  return (reverseByte b0).toUInt32 <<< 16 ||| (reverseByte b1).toUInt32 <<< 8 |||
    (reverseByte b2).toUInt32

/-- The fields of an LPDU that `lpdu_decode` reads itself. -/
inductive LpduFields
  | nothing
  | truncated
  | leave (icao : UInt32) (reason : UInt8)
  | confirm (icao : UInt32) (acId : UInt8)
  | request (icao : UInt32)
  deriving DecidableEq

/-- What `lpdu_decode` makes of an LPDU. `hfnpdu` is what is handed on to `hfnpdu_decode`. -/
inductive Lpdu
  | truncated
  | fcsFail
  | decoded (type : UInt8) (fields : LpduFields) (hfnpdu : Option (List UInt8))
  deriving DecidableEq

/-- The `switch` of `lpdu_decode`, with the number of octets consumed; an early return consumes
all. -/
def lpduFields (buf : List UInt8) (len : ℕ) (type : UInt8) : Option (LpduFields × ℕ) :=
  if type = 0x0d ∨ type = 0x1d then some (.nothing, 1)
  else if type = 0x2f ∨ type = 0x3f then
    if len < 5 then some (.truncated, len)
    else do
      let icao ← parseIcaoHex buf 1
      let reason ← buf[4]?
      return (.leave icao reason, 5)
  else if type = 0x9f ∨ type = 0x5f then
    if len < 8 then some (.truncated, len)
    else do
      let icao ← parseIcaoHex buf 1
      let acId ← buf[4]?
      return (.confirm icao acId, 8)
  else if type = 0x4f ∨ type = 0x8f ∨ type = 0xbf then
    if len < 4 then some (.truncated, len)
    else do
      let icao ← parseIcaoHex buf 1
      return (.request icao, 4)
  else some (.nothing, len)

/-- `lpdu_decode`, of the octets of one LPDU. -/
def lpduDecode (buf : List UInt8) : Option Lpdu :=
  if buf.length < 3 then some .truncated
  else do
    let len := buf.length - 2
    let ok ← hfdlPduFcsCheck crc buf len
    if ok = false then some .fcsFail
    else do
      let type ← buf[0]?
      let (fields, consumed) ← lpduFields buf len type
      return .decoded type fields
        (if 0 < consumed ∧ consumed < len then some ((buf.take len).drop consumed) else none)

/-! ## `hfdl_msg_decode` -/

/-- Where an LPDU is in the frame, and for which aircraft (`current_ac_id`) it is. -/
structure Piece where
  aircraft : UInt8
  offset : ℕ
  len : ℕ
  deriving DecidableEq

/-- The octets of a piece. -/
def Piece.octets (p : Piece) (buf : List UInt8) : List UInt8 := (buf.drop p.offset).take p.len

/-- An LPDU that has been visited. -/
structure Visit where
  piece : Piece
  lpdu : Lpdu
  deriving DecidableEq

/-- `lpdu_list_decode`: the LPDUs visited, and the number of octets consumed unless one of them runs
past the end. -/
def lpduListDecode (buf : List UInt8) (aircraft : UInt8) :
    (sizePtr dataPtr consumed lpduCnt : ℕ) → Option (List Visit × Option ℕ)
  | _, _, consumed, 0 => some ([], some consumed)
  | sizePtr, dataPtr, consumed, lpduCnt + 1 => do
    let size ← buf[sizePtr]?
    let lpduLen := size.toNat + 1
    if dataPtr + lpduLen > buf.length then some ([], none)
    else do
      let piece := { aircraft := aircraft, offset := dataPtr, len := lpduLen : Piece }
      let lpdu ← lpduDecode crc (piece.octets buf)
      let (visits, r) ← lpduListDecode buf aircraft (sizePtr + 1) (dataPtr + lpduLen)
        (consumed + lpduLen) lpduCnt
      return (⟨piece, lpdu⟩ :: visits, r)

/-- The first loop over the aircraft in `hfdl_msg_decode`: the length of the header. -/
def decodeHdrLen (buf : List UInt8) : ℕ → ℕ → Option (Option ℕ)
  | 0, hdrLen => some (some hdrLen)
  | aircraft + 1, hdrLen =>
    if buf.length < hdrLen + 2 then some none
    else do
      let octet ← buf[hdrLen + 1]?
      decodeHdrLen buf aircraft (hdrLen + (2 + (octet >>> 4).toNat))

/-- The second loop over the aircraft: the LPDUs visited, and whether one runs past the end. -/
def uplinkWalk (buf : List UInt8) : (hdrPtr dataPtr aircraftCnt : ℕ) → Option (List Visit × Bool)
  | _, _, 0 => some ([], false)
  | hdrPtr, dataPtr, aircraftCnt + 1 => do
    let dstAc ← buf[hdrPtr]?
    let octet ← buf[hdrPtr + 1]?
    let lpduCnt := ((octet >>> 4) &&& 0xf).toNat
    let (visits, r) ← lpduListDecode crc buf dstAc (hdrPtr + 2) dataPtr 0 lpduCnt
    match r with
    | none => return (visits, true)
    | some consumed => do
      let (more, truncated) ← uplinkWalk buf (hdrPtr + 2 + lpduCnt) (dataPtr + consumed) aircraftCnt
      return (visits ++ more, truncated)

/-- What `hfdl_msg_decode` makes of a frame. -/
inductive Frame
  | frameTooShort
  | spduTooShort
  | spduFcsFail
  | spdu
  | mpduUplinkTooShort
  | mpduTooShort
  | mpduFcsFail
  | mpduDownlink (srcAc dstGs : UInt8) (visits : List Visit) (truncated : Bool)
  | mpduUplink (srcGs : UInt8) (aircraftCnt : ℕ) (visits : List Visit) (truncated : Bool)
  deriving DecidableEq

/-- What `hfdl_msg_decode` returns. -/
def Frame.accepted : Frame → Bool
  | .spdu => true
  | .mpduDownlink .. => true
  | .mpduUplink .. => true
  | _ => false

/-- `hfdl_msg_decode`. -/
def hfdlMsgDecode (buf : List UInt8) : Option Frame :=
  if buf.length < 3 then some .frameTooShort
  else do
    let b0 ← buf[0]?
    if b0 &&& 1 = 0 then
      if buf.length < spduLen then some .spduTooShort
      else do
        let ok ← hfdlPduFcsCheck crc buf spduHdr
        return if ok then .spdu else .spduFcsFail
    else
      let downlink := b0 &&& 2 ≠ 0
      let lpduCnt := ((b0 >>> 2) &&& 0xf).toNat
      let aircraftCnt := ((b0 &&& 0x70) >>> 4).toNat + 1
      match ← if downlink then some (some (6 + lpduCnt)) else decodeHdrLen buf aircraftCnt 2 with
      | none => return .mpduUplinkTooShort
      | some hdrLen =>
        if buf.length < hdrLen + 2 then some .mpduTooShort
        else do
          let ok ← hfdlPduFcsCheck crc buf hdrLen
          if ok = false then some .mpduFcsFail
          else if downlink then do
            let srcAc ← buf[2]?
            let dstGs ← buf[1]?
            let (visits, r) ← lpduListDecode crc buf srcAc 6 (hdrLen + 2) 0 lpduCnt
            return .mpduDownlink srcAc (dstGs &&& 0x7f) visits r.isNone
          else do
            let srcGs ← buf[1]?
            let (visits, truncated) ← uplinkWalk crc buf 2 (hdrLen + 2) aircraftCnt
            return .mpduUplink (srcGs &&& 0x7f) aircraftCnt visits truncated

end

end MacHPSDR.Hfdl
