import MacHPSDR.Ftx.Callsign
import MacHPSDR.Ftx.Symbols

/-!
# Messages

`ftx_message_encode` takes up to three words for a standard message, else for one with a callsign in
full and the hash of another, else the text as it is. A text of whom it is for, a standard callsign
and a third word comes back from its payload as it was (`Standard.decode_encode_text`), and so it
does from its tones (`Standard.received_text`).
-/

namespace MacHPSDR.Ftx

open Ft8.HashTable (Table)

/-- `ftx_message_rc_t`, without `FTX_MESSAGE_RC_OK` -/
inductive RcError
  | callsign1
  | callsign2
  | suffix
  | grid
  | type
  deriving DecidableEq

/-- `ftx_message_type_t` -/
inductive MessageType
  | freeText
  | dxpedition
  | euVhf
  | arrlFd
  | telemetry
  | contesting
  | standard
  | arrlRtty
  | nonstdCall
  | wwrof
  | unknown
  deriving DecidableEq

/-- Byte `i` of a payload. -/
def byteAt (payload : List UInt8) (i : ℕ) : ℕ := (payload.getD i 0).toNat

/-- `ftx_message_get_i3` -/
def getI3 (payload : List UInt8) : ℕ := byteAt payload 9 >>> 3 &&& 0x07

/-- `ftx_message_get_n3` -/
def getN3 (payload : List UInt8) : ℕ :=
  byteAt payload 8 <<< 2 &&& 0x04 ||| byteAt payload 9 >>> 6 &&& 0x03

/-- `ftx_message_get_type` -/
def getType (payload : List UInt8) : MessageType :=
  match getI3 payload with
  | 0 =>
    match getN3 payload with
    | 0 => .freeText
    | 1 => .dxpedition
    | 2 => .euVhf
    | 3 => .arrlFd
    | 4 => .arrlFd
    | 5 => .telemetry
    | _ => .unknown
  | 1 => .standard
  | 2 => .standard
  | 3 => .arrlRtty
  | 4 => .nonstdCall
  | 5 => .wwrof
  | _ => .unknown

/-! ## Standard messages -/

/-- The ten bytes of a standard message. -/
def standardPayload (n29a n29b igrid4 i3 : ℕ) : List UInt8 :=
  [.ofNat (n29a >>> 21), .ofNat (n29a >>> 13), .ofNat (n29a >>> 5),
    .ofNat (n29a <<< 3) ||| .ofNat (n29b >>> 26), .ofNat (n29b >>> 18), .ofNat (n29b >>> 10),
    .ofNat (n29b >>> 2), .ofNat (n29b <<< 6) ||| .ofNat (igrid4 >>> 10), .ofNat (igrid4 >>> 2),
    .ofNat (igrid4 <<< 6) ||| .ofNat (i3 <<< 3)]

/-- Whether a message is a call to all. -/
def isCq (callTo : List Char) : Bool := callTo == ['C', 'Q'] || startsWith callTo ['C', 'Q', ' ']

/-- The part of a callsign from the first slash on, and where it begins. -/
def slash (callDe : List Char) : Option (ℕ × List Char) :=
  (callDe.idxOf? '/').map fun i => (i, callDe.drop i)

/-- `ftx_message_encode_std`, with the table after it. -/
def encodeStd (callTo callDe extra : List Char) (t : Table) :
    Except RcError (List UInt8) × Table :=
  let packedTo := pack28 callTo t
  let t := (packedTo.map fun s => s.2.2).getD t
  let packedDe := pack28 callDe t
  let t := (packedDe.map fun s => s.2.2).getD t
  match packedTo, packedDe with
  | none, _ => (.error .callsign1, t)
  | _, none => (.error .callsign2, t)
  | some (n28a, ipa, _), some (n28b, ipb, _) =>
    let portable := endsWith callTo ['/', 'P'] || endsWith callDe ['/', 'P']
    if portable && (endsWith callTo ['/', 'R'] || endsWith callDe ['/', 'R']) then
      (.error .suffix, t)
    else if isCq callTo && (slash callDe).any fun s =>
        2 ≤ s.1 && !(s.2 == ['/', 'P'] || s.2 == ['/', 'R']) then (.error .callsign2, t)
    else
      let n29a := n28a <<< 1 ||| ipa
      let n29b := n28b <<< 1 ||| ipb
      -- a hashed callsign with a suffix gets the bit as well
      let n29a :=
        if endsWith callTo ['/', 'R'] || endsWith callTo ['/', 'P'] then n29a ||| 1 else n29a
      (.ok (standardPayload n29a n29b (packgrid extra) (if portable then 2 else 1)), t)

/-- The fields of a standard message: `n29a`, `n29b`, `ir` and `igrid4`. -/
def standardFields (payload : List UInt8) : ℕ × ℕ × ℕ × ℕ :=
  let p := byteAt payload
  (p 0 <<< 21 ||| p 1 <<< 13 ||| p 2 <<< 5 ||| p 3 >>> 3,
    (p 3 &&& 0x07) <<< 26 ||| p 4 <<< 18 ||| p 5 <<< 10 ||| p 6 <<< 2 ||| p 7 >>> 6,
    (p 7 &&& 0x20) >>> 5,
    (p 7 &&& 0x1F) <<< 10 ||| p 8 <<< 2 ||| p 9 >>> 6)

/-- The three fields of a message and their kinds. -/
structure Fields where
  callTo : List Char
  callDe : List Char
  extra : List Char
  types : Field × Field × Field

/-- `ftx_message_decode_std`, with the table after it. -/
def decodeStd (payload : List UInt8) (t : Table) : Except RcError Fields × Table :=
  let (n29a, n29b, ir, igrid4) := standardFields payload
  let i3 := getI3 payload
  match unpack28 (n29a >>> 1) (n29a &&& 1) i3 t with
  | none => (.error .callsign1, t)
  | some (callTo, type, t) =>
    match unpack28 (n29b >>> 1) (n29b &&& 1) i3 t with
    | none => (.error .callsign2, t)
    | some (callDe, type', t) =>
      let extra := unpackgrid igrid4 ir
      (.ok ⟨callTo, callDe, extra.1, type, type', extra.2⟩, t)

/-! ## Messages with a callsign in full -/

/-- The loop of `pack58`: the number, and the characters that are saved. -/
def pack58Loop : ℕ → List Char → ℕ → List Char → Option (ℕ × List Char)
  | n + 1, c :: cs, result, c11 =>
    if c = '<' then some (result, c11)
    else (nchar c .alphanumSpaceSlash).bind fun j =>
      pack58Loop n cs (result * 38 + j) (c11 ++ [c])
  | _, _, result, c11 => some (result, c11)

/-- `pack58` -/
def pack58 (callsign : List Char) (t : Table) : Option (ℕ × Table) :=
  let src := if charAt callsign 0 = '<' then callsign.drop 1 else callsign
  (pack58Loop 11 src 0 []).bind fun (n58, c11) => (saveCallsign c11 t).map fun s => (n58, s.2)

/-- `unpack58` -/
def unpack58 (n58 : ℕ) (t : Table) : List Char × Table :=
  let callsign := trim (unpackChars (List.replicate 11 .alphanumSpaceSlash) n58)
  (callsign, if 3 ≤ callsign.length then ((saveCallsign callsign t).map Prod.snd).getD t else t)

/-- The ten bytes of a message with a callsign in full. -/
def nonstdPayload (n12 n58 iflip nrpt icq : ℕ) : List UInt8 :=
  [.ofNat (n12 >>> 4), .ofNat (n12 <<< 4) ||| .ofNat (n58 >>> 54), .ofNat (n58 >>> 46),
    .ofNat (n58 >>> 38), .ofNat (n58 >>> 30), .ofNat (n58 >>> 22), .ofNat (n58 >>> 14),
    .ofNat (n58 >>> 6), .ofNat (n58 <<< 2) ||| .ofNat (iflip <<< 1) ||| .ofNat (nrpt >>> 1),
    .ofNat (nrpt <<< 7) ||| .ofNat (icq <<< 6) ||| .ofNat (4 <<< 3)]

/-- The third word of such a message. -/
def nrptOf (extra : List Char) : ℕ :=
  if extra = ['R', 'R', 'R'] then 1
  else if extra = ['R', 'R', '7', '3'] then 2
  else if extra = ['7', '3'] then 3
  else 0

/-- `ftx_message_encode_nonstd`, with the table after it. -/
def encodeNonstd (callTo callDe extra : List Char) (t : Table) :
    Except RcError (List UInt8) × Table :=
  if isCq callTo = false ∧ callTo.length < 3 then (.error .callsign1, t)
  else if callDe.length < 3 then (.error .callsign2, t)
  else if isCq callTo then
    match pack58 callDe t with
    | none => (.error .callsign2, t)
    | some (n58, t) => (.ok (nonstdPayload 0 n58 0 0 1), t)
  else
    -- the closing bracket is looked for at the length of the other callsign
    let iflip := charAt callDe 0 = '<' ∧ charAt callDe (callTo.length - 1) = '>'
    match saveCallsign (if iflip then callDe else callTo) t with
    | none => (.error .callsign1, t)
    | some (n22, t) =>
      match pack58 (if iflip then callTo else callDe) t with
      | none => (.error .callsign2, t)
      | some (n58, t) =>
        (.ok (nonstdPayload (n22 >>> 10) n58 (if iflip then 1 else 0) (nrptOf extra) 0), t)

/-- The fields of such a message: `n12`, `n58`, `iflip`, `nrpt` and `icq`. -/
def nonstdFields (payload : List UInt8) : ℕ × ℕ × ℕ × ℕ × ℕ :=
  let p := byteAt payload
  (p 0 <<< 4 ||| p 1 >>> 4,
    (p 1 &&& 0x0F) <<< 54 ||| p 2 <<< 46 ||| p 3 <<< 38 ||| p 4 <<< 30 ||| p 5 <<< 22 |||
      p 6 <<< 14 ||| p 7 <<< 6 ||| p 8 >>> 2,
    p 8 >>> 1 &&& 0x01, (p 8 &&& 0x01) <<< 1 ||| p 9 >>> 7, p 9 >>> 6 &&& 0x01)

/-- `ftx_message_decode_nonstd`, with the table after it. -/
def decodeNonstd (payload : List UInt8) (t : Table) : Fields × Table :=
  let (n12, n58, iflip, nrpt, icq) := nonstdFields payload
  let (decoded, t) := unpack58 n58 t
  let call3 := lookupCallsign .bits12 n12 t
  let call1 := if iflip ≠ 0 then decoded else call3
  let call2 := if iflip ≠ 0 then call3 else decoded
  let extra := match nrpt with
    | 1 => (['R', 'R', 'R'], Field.token)
    | 2 => (['R', 'R', '7', '3'], .token)
    | 3 => (['7', '3'], .token)
    | _ => ([], .none)
  if icq = 0 then (⟨call1, call2, extra.1, .call, .call, extra.2⟩, t)
  else (⟨['C', 'Q'], call2, [], .token, .call, .none⟩, t)

/-! ## Texts -/

/-- `copy_token`: the word that is copied and what follows it. -/
def copyToken (length : ℕ) (string : List Char) : List Char × List Char :=
  ((string.takeWhile (· ≠ ' ')).take (length - 1),
    (string.dropWhile (· ≠ ' ')).dropWhile (· = ' '))

/-- Whom a text is for, and what is left. -/
def parseTo (text : List Char) : List Char × List Char :=
  if startsWith text ['C', 'Q', ' '] then
    match parseCqModifier text with
    | some _ => (['C', 'Q', ' '] ++ (copyToken 9 (text.drop 3)).1, (copyToken 9 (text.drop 3)).2)
    | none => (['C', 'Q'], text.drop 3)
  else copyToken 12 text

/-- The words of a text: whom it is for, the sender, the third word, and what is left. A word that
is too long is cut off; the test for it looks at a byte that `copy_token` has set to zero. -/
def parseMessage (text : List Char) : (List Char × List Char × List Char) × List Char :=
  let (callTo, rest) := parseTo text
  let (callDe, rest) := copyToken 12 rest
  let (extra, rest) := copyToken 20 rest
  ((callTo, callDe, extra), rest)

/-- `ftx_message_encode`, with the table after it. -/
def encode (text : List Char) (t : Table) : Option (List UInt8) × Table :=
  let ((callTo, callDe, extra), rest) := parseMessage text
  if rest = [] then
    match encodeStd callTo callDe extra t with
    | (.ok payload, t) => (some payload, t)
    | (.error _, t) =>
      match encodeNonstd callTo callDe extra t with
      | (.ok payload, t) => (some payload, t)
      | (.error _, t) => (encodeFree text, t)
  else (encodeFree text, t)

/-- The fields of a message with blanks between them. -/
def Fields.text (f : Fields) : List Char :=
  f.callTo ++ [' '] ++ f.callDe ++ if f.extra = [] then [] else [' '] ++ f.extra

/-- `ftx_message_decode_telemetry_hex` -/
def telemetryHex (payload : List UInt8) : List Char :=
  let hex (n : ℕ) : Char := Char.ofNat (if n > 9 then n - 10 + 'A'.toNat else n + '0'.toNat)
  (decodeTelemetry 0 (payload.take 9)).flatMap fun b =>
    [hex (b.toNat >>> 4), hex (b.toNat &&& 0x0F)]

/-- `ftx_message_decode`: the text, or nothing on an error, and the table after it. -/
def decode (payload : List UInt8) (t : Table) : Option (List Char) × Table :=
  match getType payload with
  | .standard =>
    match decodeStd payload t with
    | (.ok f, t) => (some f.text, t)
    | (.error _, t) => (none, t)
  | .nonstdCall =>
    let (f, t) := decodeNonstd payload t
    (some f.text, t)
  | .freeText => (some (decodeFree payload), t)
  | .telemetry => (some (telemetryHex payload), t)
  | _ => (none, t)

/-! ## The fields of a payload -/

theorem or_eq_add {x y k : ℕ} (hx : 2 ^ k ∣ x) (hy : y < 2 ^ k) : x ||| y = x + y := by
  obtain ⟨q, rfl⟩ := hx
  exact (Nat.two_pow_add_eq_or_of_lt hy q).symm

/-- A byte of two fields. -/
theorem toNat_or_ofNat {x y k : ℕ} (hk : k ≤ 8) (hx : 2 ^ k ∣ x) (hy : y < 2 ^ k) :
    (UInt8.ofNat x ||| UInt8.ofNat y).toNat = x % 256 + y := by
  have hdvd : 2 ^ k ∣ x % 256 :=
    (Nat.dvd_mod_iff (Nat.pow_dvd_pow 2 hk : 2 ^ k ∣ 2 ^ 8)).2 hx
  have hlt : y < 256 := hy.trans_le (Nat.pow_le_pow_right (by decide) hk)
  rw [UInt8.toNat_or, UInt8.toNat_ofNat', UInt8.toNat_ofNat', Nat.mod_eq_of_lt hlt]
  exact or_eq_add hdvd hy

theorem and_0x20 : ∀ p < 256, (p &&& 0x20) >>> 5 = p / 32 % 2 := by decide +kernel

theorem byteAt_lt (payload : List UInt8) (i : ℕ) : byteAt payload i < 256 := UInt8.toNat_lt _

/-- The fields as numbers. -/
theorem standardFields_eq (payload : List UInt8) :
    standardFields payload =
      (byteAt payload 0 * 2 ^ 21 + byteAt payload 1 * 2 ^ 13 + byteAt payload 2 * 2 ^ 5 +
          byteAt payload 3 / 2 ^ 3,
        byteAt payload 3 % 8 * 2 ^ 26 + byteAt payload 4 * 2 ^ 18 + byteAt payload 5 * 2 ^ 10 +
          byteAt payload 6 * 2 ^ 2 + byteAt payload 7 / 2 ^ 6,
        byteAt payload 7 / 32 % 2,
        byteAt payload 7 % 32 * 2 ^ 10 + byteAt payload 8 * 2 ^ 2 + byteAt payload 9 / 2 ^ 6) := by
  have h (i : ℕ) := byteAt_lt payload i
  have h0 := h 0
  have h1 := h 1
  have h2 := h 2
  have h3 := h 3
  have h4 := h 4
  have h5 := h 5
  have h6 := h 6
  have h7 := h 7
  have h8 := h 8
  have h9 := h 9
  have hseven : byteAt payload 3 &&& 0x07 = byteAt payload 3 % 8 :=
    Nat.and_two_pow_sub_one_eq_mod _ 3
  have hthirtyOne : byteAt payload 7 &&& 0x1F = byteAt payload 7 % 32 :=
    Nat.and_two_pow_sub_one_eq_mod _ 5
  unfold standardFields
  dsimp only
  rw [hseven, hthirtyOne, and_0x20 _ h7]
  simp only [Nat.shiftLeft_eq, Nat.shiftRight_eq_div_pow]
  generalize byteAt payload 0 = p₀ at *
  generalize byteAt payload 1 = p₁ at *
  generalize byteAt payload 2 = p₂ at *
  generalize byteAt payload 3 = p₃ at *
  generalize byteAt payload 4 = p₄ at *
  generalize byteAt payload 5 = p₅ at *
  generalize byteAt payload 6 = p₆ at *
  generalize byteAt payload 7 = p₇ at *
  generalize byteAt payload 8 = p₈ at *
  generalize byteAt payload 9 = p₉ at *
  refine Prod.ext ?_ (Prod.ext ?_ (Prod.ext rfl ?_))
  · dsimp only
    rw [or_eq_add (x := p₀ * 2 ^ 21) (k := 21) (by omega) (by omega),
      or_eq_add (x := _ + p₁ * 2 ^ 13) (k := 13) (by omega) (by omega),
      or_eq_add (x := _ + p₂ * 2 ^ 5) (k := 5) (by omega) (by omega)]
  · dsimp only
    rw [or_eq_add (x := p₃ % 8 * 2 ^ 26) (k := 26) (by omega) (by omega),
      or_eq_add (x := _ + p₄ * 2 ^ 18) (k := 18) (by omega) (by omega),
      or_eq_add (x := _ + p₅ * 2 ^ 10) (k := 10) (by omega) (by omega),
      or_eq_add (x := _ + p₆ * 2 ^ 2) (k := 2) (by omega) (by omega)]
  · dsimp only
    rw [or_eq_add (x := p₇ % 32 * 2 ^ 10) (k := 10) (by omega) (by omega),
      or_eq_add (x := _ + p₈ * 2 ^ 2) (k := 2) (by omega) (by omega)]

/-- **The fields** of a payload that was put together of them. -/
theorem standardFields_standardPayload {n29a n29b igrid4 i3 : ℕ} (ha : n29a < 2 ^ 29)
    (hb : n29b < 2 ^ 29) (hgrid : igrid4 < 2 ^ 16) (hi3 : i3 < 8) :
    standardFields (standardPayload n29a n29b igrid4 i3) =
        (n29a, n29b, igrid4 / 32768, igrid4 % 32768) ∧
      getI3 (standardPayload n29a n29b igrid4 i3) = i3 := by
  have hbyte (i : ℕ) : byteAt (standardPayload n29a n29b igrid4 i3) i =
      [n29a / 2 ^ 21 % 256, n29a / 2 ^ 13 % 256, n29a / 2 ^ 5 % 256,
        n29a * 2 ^ 3 % 256 + n29b / 2 ^ 26, n29b / 2 ^ 18 % 256, n29b / 2 ^ 10 % 256,
        n29b / 2 ^ 2 % 256, n29b * 2 ^ 6 % 256 + igrid4 / 2 ^ 10, igrid4 / 2 ^ 2 % 256,
        igrid4 * 2 ^ 6 % 256 + i3 * 2 ^ 3].getD i 0 := by
    have hmap : (standardPayload n29a n29b igrid4 i3).map UInt8.toNat =
        [n29a / 2 ^ 21 % 256, n29a / 2 ^ 13 % 256, n29a / 2 ^ 5 % 256,
          n29a * 2 ^ 3 % 256 + n29b / 2 ^ 26, n29b / 2 ^ 18 % 256, n29b / 2 ^ 10 % 256,
          n29b / 2 ^ 2 % 256, n29b * 2 ^ 6 % 256 + igrid4 / 2 ^ 10, igrid4 / 2 ^ 2 % 256,
          igrid4 * 2 ^ 6 % 256 + i3 * 2 ^ 3] := by
      simp only [standardPayload, List.map_cons, List.map_nil, UInt8.toNat_ofNat',
        Nat.shiftLeft_eq, Nat.shiftRight_eq_div_pow]
      rw [toNat_or_ofNat (k := 3) (by decide) (by omega) (by omega),
        toNat_or_ofNat (k := 6) (by decide) (by omega) (by omega),
        toNat_or_ofNat (k := 6) (by decide) (by omega) (by omega)]
    rw [← hmap, byteAt]
    exact (List.getD_map ..).symm
  have hseven (n : ℕ) : n &&& 0x07 = n % 8 := Nat.and_two_pow_sub_one_eq_mod n 3
  rw [standardFields_eq, getI3, hseven, Nat.shiftRight_eq_div_pow]
  simp only [hbyte, List.getD_cons_zero, List.getD_cons_succ, Prod.mk.injEq]
  omega

theorem packgrid_lt (extra : List Char) : packgrid extra < 2 ^ 16 := by
  have hmod (n : ℕ) : n % 65536 < 2 ^ 16 := Nat.mod_lt n (by decide)
  unfold packgrid
  split_ifs with _ _ _ _ hsquare
  · decide
  · decide
  · decide
  · decide
  · obtain ⟨ha, hb, hc, hd⟩ := hsquare
    rw [inRange_iff] at ha hb
    rw [isDigit_iff] at hc hd
    have hA : 'A'.toNat = 65 := rfl
    have hR : 'R'.toNat = 82 := rfl
    have h0 : '0'.toNat = 48 := rfl
    unfold gridNumber
    omega
  · exact hmod _
  · exact hmod _

/-! ## Standard messages come back -/

/-- A message of whom it is for, a standard callsign and a third word. -/
structure Standard where
  callTo : Addressee
  callDe : Callsign
  extra : List Char
  exchange : Exchange extra
  /-- A message has one kind of suffix. -/
  suffixes : ∃ i3, callTo.suffix.Fits i3 ∧ callDe.suffix.Fits i3
  /-- `CQ` and three digits would be one word. -/
  letter : ∃ c ∈ callDe.base, isDigit c = false

def Standard.text (m : Standard) : List Char :=
  m.callTo.text ++ [' '] ++ m.callDe.text ++ if m.extra = [] then [] else [' '] ++ m.extra

/-- The type of the message. -/
def Standard.i3 (m : Standard) : ℕ :=
  if m.callTo.suffix = .portable ∨ m.callDe.suffix = .portable then 2 else 1

theorem Standard.fits (m : Standard) :
    m.callTo.suffix.Fits m.i3 ∧ m.callDe.suffix.Fits m.i3 := by
  obtain ⟨i3, hto, hde⟩ := m.suffixes
  unfold Standard.i3
  generalize m.callTo.suffix = s at *
  generalize m.callDe.suffix = s' at *
  cases s <;> cases s' <;> simp_all [Suffix.Fits]

/-- The suffix of an addressee is found. -/
theorem Addressee.endsWith (a : Addressee) :
    (Ftx.endsWith a.text ['/', 'P'] = true ↔ a.suffix = .portable) ∧
      (Ftx.endsWith a.text ['/', 'R'] = true ↔ a.suffix = .rover) := by
  have hslash {x : Char} (h : '/' ∉ a.text) : ¬ Ftx.endsWith a.text ['/', x] = true := by
    intro hends
    obtain ⟨start, hstart⟩ := endsWith_iff.1 hends
    exact h (hstart ▸ List.mem_append_right _ List.mem_cons_self)
  have hnone (h : '/' ∉ a.text) (hs : a.suffix = .none) :
      (Ftx.endsWith a.text ['/', 'P'] = true ↔ a.suffix = .portable) ∧
        (Ftx.endsWith a.text ['/', 'R'] = true ↔ a.suffix = .rover) := by
    rw [hs]
    exact ⟨iff_of_false (hslash h) (by decide), iff_of_false (hslash h) (by decide)⟩
  cases a with
  | de => exact hnone (by decide) rfl
  | qrz => exact hnone (by decide) rfl
  | cq => exact hnone (by decide) rfl
  | cqNumber n hn =>
    refine hnone (fun h => ?_) rfl
    rcases List.mem_append.1 h with h | h
    · exact absurd h (by decide)
    · exact absurd ((length_intToDd hn).2 _ h) (by decide)
  | cqWord word hne hlen hcapital =>
    refine hnone (fun h => ?_) rfl
    rcases List.mem_append.1 h with h | h
    · exact absurd h (by decide)
    · exact absurd (hcapital _ h) (by decide)
  | call c => exact c.endsWith

theorem idxOf?_append_cons {l : List Char} {a : Char} (h : a ∉ l) (l' : List Char) :
    (l ++ a :: l').idxOf? a = some l.length := by
  induction l with
  | nil => simp [List.idxOf?_cons]
  | cons b l ih =>
    obtain ⟨hb, h⟩ := not_or.1 (mt List.mem_cons.2 h)
    rw [List.cons_append, List.idxOf?_cons, ih h, if_neg (by simpa using Ne.symm hb)]
    rfl

/-- The first slash of a standard callsign is that of its suffix. -/
theorem Callsign.slash (c : Callsign) :
    (Ftx.slash c.text).any (fun s =>
      2 ≤ s.1 && !(s.2 == ['/', 'P'] || s.2 == ['/', 'R'])) = false := by
  have hbase : '/' ∉ c.base := fun h => (c.mem_base h).2 rfl
  unfold Ftx.slash Callsign.text
  cases c.suffix with
  | none => rw [Suffix.text, List.append_nil, List.idxOf?_eq_none_iff.2 hbase]; rfl
  | rover => simp [Suffix.text, idxOf?_append_cons hbase]
  | portable => simp [Suffix.text, idxOf?_append_cons hbase]

theorem shl_or_bit {n b : ℕ} (hb : b < 2) : n <<< 1 ||| b = n * 2 + b := by
  rw [Nat.shiftLeft_eq]
  exact or_eq_add (k := 1) (by omega) hb

/-- **The payload** of a standard message. -/
theorem Standard.encodeStd (m : Standard) (t : Table) :
    ∃ n28a n28b t', n28a < 2 ^ 28 ∧ n28b < 2 ^ 28 ∧
      (∀ t, ∃ type t', unpack28 n28a m.callTo.suffix.bit m.i3 t = some (m.callTo.text, type, t')) ∧
      (∀ t, ∃ type t', unpack28 n28b m.callDe.suffix.bit m.i3 t = some (m.callDe.text, type, t')) ∧
      Ftx.encodeStd m.callTo.text m.callDe.text m.extra t =
        (.ok (standardPayload (n28a * 2 + m.callTo.suffix.bit) (n28b * 2 + m.callDe.suffix.bit)
          (packgrid m.extra) m.i3), t') := by
  obtain ⟨n28a, t₁, hlta, hpacka, hbacka⟩ := m.callTo.pack28 t
  obtain ⟨n28b, t₂, hltb, hpackb, hbackb⟩ := (Addressee.call m.callDe).pack28 t₁
  refine ⟨n28a, n28b, t₂, hlta, hltb, hbacka _ m.fits.1, hbackb _ m.fits.2, ?_⟩
  change pack28 m.callDe.text t₁ = some (n28b, m.callDe.suffix.bit, t₂) at hpackb
  have hbit (s : Suffix) : s.bit < 2 := by cases s <;> decide
  obtain ⟨htoP, htoR⟩ := m.callTo.endsWith
  obtain ⟨hdeP, hdeR⟩ := m.callDe.endsWith
  have hportable : (endsWith m.callTo.text ['/', 'P'] || endsWith m.callDe.text ['/', 'P']) =
      decide (m.callTo.suffix = .portable ∨ m.callDe.suffix = .portable) := by
    rw [Bool.eq_iff_iff, Bool.or_eq_true, htoP, hdeP, decide_eq_true_iff]
  have hrover : (endsWith m.callTo.text ['/', 'R'] || endsWith m.callDe.text ['/', 'R']) =
      decide (m.callTo.suffix = .rover ∨ m.callDe.suffix = .rover) := by
    rw [Bool.eq_iff_iff, Bool.or_eq_true, htoR, hdeR, decide_eq_true_iff]
  have hto : (endsWith m.callTo.text ['/', 'R'] || endsWith m.callTo.text ['/', 'P']) =
      decide (m.callTo.suffix ≠ .none) := by
    rw [Bool.eq_iff_iff, Bool.or_eq_true, htoP, htoR, decide_eq_true_iff]
    cases m.callTo.suffix <;> decide
  have hsuffixes : ¬ ((m.callTo.suffix = .portable ∨ m.callDe.suffix = .portable) ∧
      (m.callTo.suffix = .rover ∨ m.callDe.suffix = .rover)) := by
    obtain ⟨i3, hi, hi'⟩ := m.suffixes
    generalize m.callTo.suffix = s at *
    generalize m.callDe.suffix = s' at *
    cases s <;> cases s' <;> simp_all [Suffix.Fits]
  have hshift : (if decide (m.callTo.suffix ≠ .none) = true then
      n28a <<< 1 ||| m.callTo.suffix.bit ||| 1 else n28a <<< 1 ||| m.callTo.suffix.bit) =
        n28a * 2 + m.callTo.suffix.bit := by
    have hor : n28a <<< 1 ||| 1 ||| 1 = n28a <<< 1 ||| 1 := by rw [Nat.or_assoc]; rfl
    rw [← shl_or_bit (hbit _)]
    cases m.callTo.suffix with
    | none => rfl
    | rover => exact hor
    | portable => exact hor
  unfold Ftx.encodeStd
  rw [hpacka]
  dsimp only [Option.map_some, Option.getD_some]
  rw [hpackb]
  dsimp only [Option.map_some, Option.getD_some]
  rw [hportable, hrover, m.callDe.slash, hto, Bool.and_false, if_neg Bool.false_ne_true, hshift,
    shl_or_bit (hbit _), if_neg (by simpa using hsuffixes)]
  unfold Standard.i3
  simp only [decide_eq_true_iff]

/-! ## The words of a text -/

/-- The text with another word behind it, if there is one. -/
def andWord (text word : List Char) : List Char := text ++ if word = [] then [] else ' ' :: word

theorem copyToken_word {word : List Char} (hblank : ' ' ∉ word) {length : ℕ}
    (hlen : word.length ≤ length - 1) {rest : List Char} (hrest : rest.head? ≠ some ' ') :
    copyToken length (andWord word rest) = (word, rest) := by
  have hne : ∀ c ∈ word, decide (c ≠ ' ') = true := by
    intro c hc
    rw [decide_eq_true_iff]
    rintro rfl
    exact hblank hc
  unfold copyToken andWord
  rw [List.takeWhile_append_of_pos hne, List.dropWhile_append_of_pos hne]
  split
  · rename_i hnil
    rw [hnil]
    simp [List.take_of_length_le hlen]
  · rw [List.takeWhile_cons_of_neg (by simp), List.dropWhile_cons_of_neg (by simp),
      List.dropWhile_cons_of_pos (by simp), List.append_nil, List.take_of_length_le hlen]
    cases rest with
    | nil => rfl
    | cons c rest =>
      have hc : c ≠ ' ' := by
        rintro rfl
        exact hrest rfl
      rw [List.dropWhile_cons_of_neg (by simpa using hc)]

theorem head?_ne_blank {word : List Char} (h : ' ' ∉ word) (rest : List Char) (hne : word ≠ []) :
    (andWord word rest).head? ≠ some ' ' := by
  cases word with
  | nil => exact absurd rfl hne
  | cons c word =>
    intro hc
    exact h (Option.some.inj hc ▸ List.mem_cons_self)

theorem Standard.text_eq (m : Standard) :
    m.text = andWord m.callTo.text (andWord m.callDe.text m.extra) := by
  have hne : andWord m.callDe.text m.extra ≠ [] := by
    have hlen := m.callDe.word.1
    unfold andWord
    rintro h
    rw [(List.append_eq_nil_iff.1 h).1] at hlen
    exact absurd hlen (by decide)
  rw [andWord, if_neg hne, Standard.text, andWord]
  simp

theorem andWord_cons (text : List Char) {word : List Char} (h : word ≠ []) :
    andWord text word = text ++ ' ' :: word := by
  rw [andWord, if_neg h]

/-- A callsign does not begin like a call to all. -/
theorem Callsign.not_startsWith_cq (c : Callsign) (rest : List Char) :
    ¬ startsWith (c.text ++ rest) ['C', 'Q', ' '] = true := by
  obtain ⟨hlo, -, hblank⟩ := c.word
  rw [startsWith_iff]
  rintro ⟨rest', h⟩
  match c.text, hlo, hblank, h with
  | x :: y :: z :: word, _, hblank, h =>
    obtain rfl : z = ' ' := (List.cons.inj (List.cons.inj (List.cons.inj h).2).2).1
    exact hblank (by simp)

theorem parseTo_word {word rest : List Char} (hblank : ' ' ∉ word) (hlen : word.length ≤ 11)
    (hrest : rest.head? ≠ some ' ')
    (hcq : ¬ startsWith (andWord word rest) ['C', 'Q', ' '] = true) :
    parseTo (andWord word rest) = (word, rest) := by
  rw [parseTo, if_neg hcq, copyToken_word hblank hlen hrest]

/-- `CQ` with a word. -/
theorem parseTo_cq {c : Char} {word rest : List Char} {v : ℕ} (hc : CString.isSpace c = false)
    (hblank : ' ' ∉ c :: word) (hlen : (c :: word).length ≤ 8) (hrest : rest.head? ≠ some ' ')
    (hne : rest ≠ []) (hparse : parseCqModifier (['C', 'Q', ' '] ++ c :: word) = some v) :
    parseTo (andWord (['C', 'Q', ' '] ++ c :: word) rest) =
      (['C', 'Q', ' '] ++ c :: word, rest) := by
  have htext : andWord (['C', 'Q', ' '] ++ c :: word) rest =
      ['C', 'Q', ' '] ++ c :: word ++ ' ' :: rest := andWord_cons _ hne
  have hdrop : (['C', 'Q', ' '] ++ c :: word ++ ' ' :: rest).drop 3 = andWord (c :: word) rest :=
    (andWord_cons (c :: word) hne).symm
  have hstart : startsWith (['C', 'Q', ' '] ++ c :: word ++ ' ' :: rest) ['C', 'Q', ' '] = true :=
    startsWith_iff.2 ⟨_, List.append_assoc ..⟩
  rw [htext, parseTo, if_pos hstart, parseCqModifier_blank hc, hparse]
  dsimp only
  rw [hdrop, copyToken_word hblank (by omega) hrest]

/-- The first word of a text, which is followed by a callsign. -/
theorem Addressee.parseTo (a : Addressee) {c : Callsign}
    (hletter : ∃ x ∈ c.base, isDigit x = false) (extra : List Char) :
    Ftx.parseTo (andWord a.text (andWord c.text extra)) = (a.text, andWord c.text extra) := by
  obtain ⟨hlo, hhi, hblank⟩ := c.word
  have hne : c.text ≠ [] := List.ne_nil_of_length_pos (by omega)
  have hhead := head?_ne_blank hblank extra hne
  have hrest : andWord c.text extra ≠ [] := fun h => hne (List.append_eq_nil_iff.1 h).1
  cases a with
  | de =>
    refine parseTo_word (by decide) (by decide) hhead ?_
    rw [andWord_cons _ hrest]
    simp [startsWith, Addressee.text]
  | qrz =>
    refine parseTo_word (by decide) (by decide) hhead ?_
    rw [andWord_cons _ hrest]
    simp [startsWith, Addressee.text]
  | cq =>
    have htext : andWord ['C', 'Q'] (andWord c.text extra) =
        ['C', 'Q', ' '] ++ andWord c.text extra := andWord_cons _ hrest
    have hparse : Ftx.parseCqModifier (['C', 'Q', ' '] ++ andWord c.text extra) = none := by
      have hnone := c.parseCqModifier hletter
      by_cases hextra : extra = []
      · rwa [andWord, if_pos hextra, List.append_nil]
      · rw [andWord_cons _ hextra]
        obtain ⟨x, word, htext⟩ := List.exists_cons_of_ne_nil hne
        rw [htext] at hnone ⊢
        rw [← List.append_assoc, parseCqModifier_blank (c.isSpace_head (by rw [htext]; rfl)), hnone]
    rw [Addressee.text, htext, Ftx.parseTo, if_pos (startsWith_iff.2 ⟨_, rfl⟩), hparse]
    rfl
  | cqNumber n hn =>
    obtain ⟨hlen, hdigits⟩ := length_intToDd hn
    have hparse := parseCqModifier_number hn
    rw [Addressee.text]
    generalize intToDd n 3 false = ds at *
    obtain ⟨d, ds, rfl⟩ := List.exists_cons_of_length_eq_add_one hlen
    have hspace := (CString.isDigit_ne (hdigits d List.mem_cons_self)).1
    exact parseTo_cq hspace (fun h => absurd (hdigits _ h) (by decide)) (by omega) hhead hrest
      hparse
  | cqWord word hword hlen hcapital =>
    obtain ⟨m, hparse, -⟩ := parseCqModifier_word hlen hcapital
    obtain ⟨x, word, rfl⟩ := List.exists_cons_of_ne_nil hword
    have hx : 'A'.toNat ≤ x.toNat := (inRange_iff.1 (hcapital x List.mem_cons_self)).1
    have hA : 'A'.toNat = 65 := rfl
    exact parseTo_cq (isSpace_eq_false (by omega)) (fun h => absurd (hcapital _ h) (by decide))
      (by omega) hhead hrest hparse
  | call c' =>
    refine parseTo_word c'.word.2.2 (c'.word.2.1.trans (by decide)) hhead ?_
    exact c'.not_startsWith_cq _

/-- The words of a standard message are found. -/
theorem Standard.parseMessage (m : Standard) :
    Ftx.parseMessage m.text = ((m.callTo.text, m.callDe.text, m.extra), []) := by
  obtain ⟨hlo, hhi, hblank⟩ := m.callDe.word
  obtain ⟨hextra, hextraBlank⟩ := m.exchange.word
  have hde : copyToken 12 (andWord m.callDe.text m.extra) = (m.callDe.text, m.extra) :=
    copyToken_word hblank (by omega) fun h => hextraBlank (List.mem_of_head? h)
  have hthird : copyToken 20 m.extra = (m.extra, []) := by
    have h : copyToken 20 (andWord m.extra []) = (m.extra, []) :=
      copyToken_word hextraBlank (by omega) (by simp)
    rwa [andWord, if_pos rfl, List.append_nil] at h
  unfold Ftx.parseMessage
  rw [m.text_eq, m.callTo.parseTo m.letter m.extra]
  dsimp only
  rw [hde]
  dsimp only
  rw [hthird]

/-! ## Standard messages are received -/

theorem canonical_standardPayload (n29a n29b igrid4 : ℕ) {i3 : ℕ} (hi3 : i3 < 8) :
    Canonical (standardPayload n29a n29b igrid4 i3) := by
  refine ⟨rfl, UInt8.toNat_inj.1 ?_⟩
  change ((.ofNat (igrid4 <<< 6) ||| .ofNat (i3 <<< 3) : UInt8) &&& 0x07).toNat = 0
  rw [UInt8.toNat_and, Nat.shiftLeft_eq, Nat.shiftLeft_eq,
    toNat_or_ofNat (k := 6) (by decide) (by omega) (by omega)]
  refine (Nat.and_two_pow_sub_one_eq_mod _ 3).trans ?_
  omega

theorem getType_standard {payload : List UInt8} (h : getI3 payload = 1 ∨ getI3 payload = 2) :
    getType payload = .standard := by
  rcases h with h | h
  · simp only [getType, h]
  · simp only [getType, h]

/-- The number of a call and its suffix bit. -/
theorem call_fields {n b : ℕ} (hb : b < 2) : (n * 2 + b) >>> 1 = n ∧ n * 2 + b &&& 1 = b := by
  rw [Nat.shiftRight_eq_div_pow, Nat.and_one_is_mod]
  omega

theorem Suffix.bit_lt (s : Suffix) : s.bit < 2 := by cases s <;> decide

theorem Standard.i3_cases (m : Standard) : m.i3 = 1 ∨ m.i3 = 2 := by
  unfold Standard.i3
  split
  · exact .inr rfl
  · exact .inl rfl

/-- A standard message is read back from the payload that is made of it, with any table. -/
theorem Standard.payload (m : Standard) (t : Table) :
    ∃ payload t', Ftx.encode m.text t = (some payload, t') ∧ Canonical payload ∧
      getI3 payload = m.i3 ∧ ∀ t, (Ftx.decode payload t).1 = some m.text := by
  obtain ⟨n28a, n28b, t₁, hlta, hltb, hbacka, hbackb, hencode⟩ := m.encodeStd t
  have hbita := m.callTo.suffix.bit_lt
  have hbitb := m.callDe.suffix.bit_lt
  have hi3 := m.i3_cases
  have hlt {n b : ℕ} (hn : n < 2 ^ 28) (hb : b < 2) : n * 2 + b < 2 ^ 29 := by omega
  obtain ⟨hfields, htype⟩ := standardFields_standardPayload (hlt hlta hbita) (hlt hltb hbitb)
    (packgrid_lt m.extra) (by omega : m.i3 < 8)
  refine ⟨_, t₁, ?_, canonical_standardPayload _ _ _ (by omega), htype, fun t => ?_⟩
  · unfold Ftx.encode
    rw [m.parseMessage]
    dsimp only
    rw [if_pos rfl, hencode]
  · obtain ⟨type, t₂, hcallTo⟩ := hbacka t
    obtain ⟨type', t₃, hcallDe⟩ := hbackb t₂
    rw [Ftx.decode, getType_standard (by rwa [htype])]
    dsimp only
    rw [Ftx.decodeStd, hfields, htype]
    dsimp only
    rw [(call_fields hbita).1, (call_fields hbita).2, (call_fields hbitb).1, (call_fields hbitb).2,
      hcallTo]
    dsimp only
    rw [hcallDe]
    dsimp only [Fields.text, Standard.text]
    rw [m.exchange.unpackgrid]

/-- A payload with the type of a standard message is not sent as zeros. -/
theorem scramble_ne_zeros (p : Protocol) {payload : List UInt8} (hlen : payload.length = 10)
    (hi3 : getI3 payload = 1 ∨ getI3 payload = 2) : p.scramble payload ≠ List.replicate 10 0 := by
  intro hzeros
  have hpayload := scramble_scramble p hlen
  rw [hzeros] at hpayload
  rw [← hpayload] at hi3
  -- the type is 0 without the sequence and 5 with it
  cases p with
  | ft8 => exact absurd hi3 (by decide)
  | ft4 => exact absurd hi3 (by decide)

/-- **From text to text.** A standard message is received by a station that hears the tones of its
payload as the strongest. -/
theorem Standard.received_text (m : Standard) (p : Protocol) (t t' : Table) {payload : List UInt8}
    (hsent : (Ftx.encode m.text t).1 = some payload) {mag : ℤ → ℕ → UInt8}
    {numBlocks timeOffset : ℤ} (hwithin : Within p numBlocks timeOffset)
    (hclear : Clear p payload mag timeOffset) {norm : ℚ} (hnorm : 0 < norm)
    (messages : ℕ → List ℚ → List Bool) {maxIters : ℕ} (hiters : 0 < maxIters) :
    ((decodeCandidate p (guesses norm messages (extractLikelihood p mag numBlocks timeOffset))
      maxIters).bind fun payload => (Ftx.decode payload t').1) = some m.text := by
  obtain ⟨payload', t₁, hencode, hcanonical, htype, hdecode⟩ := m.payload t
  rw [hencode] at hsent
  obtain rfl := Option.some.inj hsent
  have hi3 : getI3 payload' = 1 ∨ getI3 payload' = 2 := htype ▸ m.i3_cases
  rw [decodeCandidate_encode p hcanonical (scramble_ne_zeros p hcanonical.1 hi3) hwithin hclear
    hnorm messages hiters, Option.bind_some, hdecode]

end MacHPSDR.Ftx
