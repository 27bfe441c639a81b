import MacHPSDR.Foundations.Ipfix
import MacHPSDR.Ft8.Qso
import Mathlib

/-!
# The datagram to PSK Reporter

`ft8_pskreporter_report` writes a header, two templates, a record of the station and a record for
each decode that names another station, as long as there is room. The lengths of the sets and of the
datagram are filled in when they are known.

What is read from the datagram by its own templates is the station and those decodes, in order
(`report_faithful`). A frequency has five bytes and a time four: what does not fit them is cut.
-/

namespace MacHPSDR.Ft8.Pskr

open Bytes Ipfix

/-! ## Writing -/

def putU8 (b : List UInt8) (v : ℕ) : List UInt8 := b ++ [UInt8.ofNat v]

def putU16 (b : List UInt8) (v : ℕ) : List UInt8 :=
  b ++ [UInt8.ofNat (v >>> 8 &&& 0xFF), UInt8.ofNat (v &&& 0xFF)]

def putU32 (b : List UInt8) (v : ℕ) : List UInt8 :=
  b ++ [UInt8.ofNat (v >>> 24 &&& 0xFF), UInt8.ofNat (v >>> 16 &&& 0xFF),
    UInt8.ofNat (v >>> 8 &&& 0xFF), UInt8.ofNat (v &&& 0xFF)]

def putU40 (b : List UInt8) (v : ℕ) : List UInt8 :=
  b ++ [UInt8.ofNat (v >>> 32 &&& 0xFF), UInt8.ofNat (v >>> 24 &&& 0xFF),
    UInt8.ofNat (v >>> 16 &&& 0xFF), UInt8.ofNat (v >>> 8 &&& 0xFF), UInt8.ofNat (v &&& 0xFF)]

def putVstr (b s : List UInt8) : List UInt8 :=
  let len := if 254 < s.length then 254 else s.length
  putU8 b len ++ s.take len

/-- `PSKR_PEN` -/
def pskrPen : ℕ := 30351

def putEfield (b : List UInt8) (id len : ℕ) : List UInt8 :=
  putU32 (putU16 (putU16 b (0x8000 ||| id)) len) pskrPen

/-- The loop of `pad4`, which puts three bytes at most. -/
def padLoop : ℕ → List UInt8 → List UInt8
  | 0, b => b
  | n + 1, b => if b.length &&& 3 ≠ 0 then padLoop n (putU8 b 0) else b

def pad4 (b : List UInt8) : List UInt8 := padLoop 3 b

/-- `put_u16` at a place that has been written before. -/
def patchU16 (b : List UInt8) (off v : ℕ) : List UInt8 := putU16 (b.take off) v ++ b.drop (off + 2)

/-- The number of a set, and a place for its length. -/
def openSet (b : List UInt8) (id : ℕ) : List UInt8 := putU16 (putU16 b id) 0

/-- The end of a set that begins at `set`. -/
def closeSet (b : List UInt8) (set : ℕ) : List UInt8 :=
  let b := pad4 b
  patchU16 b (set + 2) (b.length - set)

/-! ## `ft8_pskreporter_report` -/

/-- A string in an array of `size` characters. -/
structure Str (size : ℕ) where
  bytes : List UInt8
  terminated : bytes.length < size
  nonzero : 0 ∉ bytes

/-- What the report reads of an `FT8_DECODE`. -/
structure Decode where
  snr : ℚ
  freq : ℚ
  callDe : Str 14
  extra : Str 16

/-- What the report reads of the radio, and the variables of its header. `frequencyA` is that of the
active receiver, if there is one. -/
structure Reporter where
  ft8Pskr : Bool
  ft8Proto : Bool
  stationCall : Str 16
  stationGrid : Str 8
  frequencyA : Option ℤ
  time : ℕ
  seq : ℕ
  domain : ℕ

/-- `TID_RX` -/
def tidRx : ℕ := 0x50E2

/-- `TID_TX` -/
def tidTx : ℕ := 0x50E3

/-- The characters of a text. -/
def text (s : String) : List UInt8 := s.toUTF8.data.toList

def header (r : Reporter) : List UInt8 :=
  putU32 (putU32 (putU32 (putU16 (putU16 [] 0x000A) 0) r.time) r.seq) r.domain

/-- The options template of the receiver. -/
def receiverTemplate (b : List UInt8) : List UInt8 :=
  let set := b.length
  let b := openSet b 3
  let b := putU16 b tidRx
  let b := putU16 b 4
  let b := putU16 b 0
  let b := putEfield b 0x0002 0xFFFF
  let b := putEfield b 0x0004 0xFFFF
  let b := putEfield b 0x0008 0xFFFF
  let b := putEfield b 0x0009 0xFFFF
  closeSet b set

/-- The template of a reception. -/
def senderTemplate (b : List UInt8) : List UInt8 :=
  let set := b.length
  let b := openSet b 2
  let b := putU16 b tidTx
  let b := putU16 b 7
  let b := putEfield b 0x0001 0xFFFF
  let b := putEfield b 0x0005 5
  let b := putEfield b 0x0006 1
  let b := putEfield b 0x000A 0xFFFF
  let b := putEfield b 0x0003 0xFFFF
  let b := putEfield b 0x000B 1
  let b := putU16 b 0x0096
  let b := putU16 b 4
  closeSet b set

/-- The record of the receiver. -/
def receiverRecord (r : Reporter) (b : List UInt8) : List UInt8 :=
  let set := b.length
  let b := openSet b tidRx
  let b := putVstr b r.stationCall.bytes
  let b := putVstr b r.stationGrid.bytes
  let b := putVstr b (text "MacHPSDR")
  let b := putVstr b (text "")
  closeSet b set

def isAlpha (c : UInt8) : Bool := 65 ≤ c && c ≤ 90 || 97 ≤ c && c ≤ 122

def isDigit (c : UInt8) : Bool := 48 ≤ c && c ≤ 57

/-- `is_grid` -/
def isGrid : List UInt8 → Bool
  | [a, b, c, d] => isAlpha a && isAlpha b && isDigit c && isDigit d
  | [a, b, c, d, e, f] => isAlpha a && isAlpha b && isDigit c && isDigit d && isAlpha e && isAlpha f
  | _ => false

/-- `g_ascii_tolower` -/
def asciiToLower (c : UInt8) : UInt8 := if 65 ≤ c && c ≤ 90 then c + 32 else c

/-- `g_ascii_strcasecmp` finds no difference. -/
def sameIgnoringCase (a b : List UInt8) : Bool := a.map asciiToLower = b.map asciiToLower

section

variable (r : Reporter) (dial : ℤ) (slotTime : ℤ)

def rf (d : Decode) : ℤ := dial + lround d.freq

def grid (d : Decode) : List UInt8 := if isGrid d.extra.bytes then d.extra.bytes else []

/-- `snr`, which has to fit a signed byte. -/
def snr (d : Decode) : ℤ :=
  let snr := (lround d.snr).bmod (2 ^ 32)
  if snr > 127 then 127 else if snr < -128 then -128 else snr

def mode : List UInt8 := if r.ft8Proto then text "FT4" else text "FT8"

/-- `need` -/
def need (d : Decode) : ℕ :=
  1 + d.callDe.bytes.length + 5 + 1 + 1 + 3 + 1 + (grid d).length + 1 + 4

/-- The record of a decode. -/
def putRecord (b : List UInt8) (d : Decode) : List UInt8 :=
  let b := putVstr b d.callDe.bytes
  let b := putU40 b (rf dial d).toNat
  let b := putU8 b (snr d % 256).toNat
  let b := putVstr b (mode r)
  let b := putVstr b (grid d)
  let b := putU8 b 1
  putU32 b (slotTime % 2 ^ 32).toNat

/-- The loop over the decodes, with the number of those that have been reported. -/
def putRecords : List UInt8 → ℕ → List Decode → List UInt8 × ℕ
  | b, reported, [] => (b, reported)
  | b, reported, d :: ds =>
    if d.callDe.bytes = [] then putRecords b reported ds
    else if sameIgnoringCase d.callDe.bytes r.stationCall.bytes then putRecords b reported ds
    else if rf dial d < 0 then putRecords b reported ds
    else if b.length + need d + 8 > 1400 then (b, reported)
    else putRecords (putRecord r dial slotTime b d) (reported + 1) ds

/-- The datagram up to the first reception. -/
def front : List UInt8 :=
  openSet (receiverRecord r (senderTemplate (receiverTemplate (header r)))) tidTx

/-- `ft8_pskreporter_report`, as far as the datagram that it sends. -/
def report (decodes : List Decode) : Option (List UInt8) :=
  if ¬ r.ft8Pskr ∨ decodes = [] ∨ r.stationCall.bytes = [] ∨ r.stationGrid.bytes = [] then none
  else
    match r.frequencyA with
    | none => none
    | some dial =>
      let p := putRecords r dial slotTime (front r) 0 decodes
      if p.2 = 0 then none
      else
        let b := closeSet p.1 ((front r).length - 4)
        some (patchU16 b 2 b.length)

end

/-! ## What is asked of the datagram -/

section

variable (r : Reporter) (dial : ℤ) (slotTime : ℤ)

/-- A decode that names a station other than the own. -/
def Eligible (d : Decode) : Prop :=
  d.callDe.bytes ≠ [] ∧ sameIgnoringCase d.callDe.bytes r.stationCall.bytes = false ∧ 0 ≤ rf dial d

instance : DecidablePred (Eligible r dial) := fun _ => inferInstanceAs (Decidable (_ ∧ _ ∧ _))

/-- The decodes up to the first for which there is no room. -/
def fitting : ℕ → List Decode → List Decode
  | _, [] => []
  | off, d :: ds => if off + need d + 8 > 1400 then [] else d :: fitting (off + need d) ds

/-- The decodes that are reported. -/
def reported (decodes : List Decode) : List Decode :=
  fitting (front r).length (decodes.filter (Eligible r dial))

/-- What a record says of a reception. -/
structure Spot where
  senderCallsign : List UInt8
  frequency : ℕ
  sNR : ℤ
  mode : List UInt8
  senderLocator : List UInt8
  informationSource : ℕ
  dateTimeSeconds : ℕ
  deriving DecidableEq

/-- A byte as a signed number. -/
def signed (b : UInt8) : ℤ := if b.toNat < 128 then b.toNat else b.toNat - 256

/-- The values of a reception. -/
def Spot.ofRecord : Record → Option Spot
  | [call, frequency, [snr], mode, locator, [source], time] =>
    some ⟨call, beNat frequency, signed snr, mode, locator, source.toNat, beNat time⟩
  | _ => none

/-- What is to be said of a decode. -/
def spot (d : Decode) : Spot where
  senderCallsign := d.callDe.bytes
  frequency := (rf dial d % 2 ^ 40).toNat
  sNR := snr d
  mode := mode r
  senderLocator := grid d
  informationSource := 1
  dateTimeSeconds := (slotTime % 2 ^ 32).toNat

/-- The datagram as a reader finds it. -/
structure Faithful (decodes : List Decode) (datagram : List UInt8) : Prop where
  size : datagram.length ≤ 1400
  length : beNat ((datagram.drop 2).take 2) = datagram.length
  parts : ∃ parts, readParts datagram.length (datagram.drop 16) = some parts ∧
    parts.map Prod.fst = [3, 2, tidRx, tidTx] ∧ (∀ p ∈ parts, 4 ∣ p.2.length + 4) ∧
      ∃ records, readData [] parts =
        some [(tidRx, [[r.stationCall.bytes, r.stationGrid.bytes, text "MacHPSDR", text ""]]),
          (tidTx, records)] ∧
        records.map Spot.ofRecord =
          (reported r dial decodes).map fun d => some (spot r dial slotTime d)

end

/-! ## The bytes that are put -/

section

variable (b : List UInt8)

theorem ofNat_and (v : ℕ) : UInt8.ofNat (v &&& 0xFF) = UInt8.ofNat v := by
  have hand : v &&& 0xFF = v % 2 ^ 8 := Nat.and_two_pow_sub_one_eq_mod v 8
  apply UInt8.toNat.inj
  rw [hand, UInt8.toNat_ofNat', UInt8.toNat_ofNat', Nat.mod_mod]

theorem putU8_eq (v : ℕ) : putU8 b v = b ++ beBytes 1 v := rfl

theorem putU16_eq (v : ℕ) : putU16 b v = b ++ beBytes 2 v := by
  unfold putU16
  rw [ofNat_and, ofNat_and, Nat.shiftRight_eq_div_pow]
  rfl

theorem putU32_eq (v : ℕ) : putU32 b v = b ++ beBytes 4 v := by
  unfold putU32
  simp only [ofNat_and, Nat.shiftRight_eq_div_pow, beBytes, Nat.div_div_eq_div_mul]
  rfl

theorem putU40_eq (v : ℕ) : putU40 b v = b ++ beBytes 5 v := by
  unfold putU40
  simp only [ofNat_and, Nat.shiftRight_eq_div_pow, beBytes, Nat.div_div_eq_div_mul]
  rfl

/-- A string that is short enough is put as a whole. -/
theorem putVstr_eq {s : List UInt8} (h : s.length < 255) :
    putVstr b s = b ++ (beBytes 1 s.length ++ s) := by
  unfold putVstr
  dsimp only
  rw [if_neg (by omega), List.take_length, putU8_eq, List.append_assoc]

theorem putEfield_eq {id : ℕ} (h : 0x8000 ||| id = 0x8000 + id) (len : ℕ) :
    putEfield b id len =
      b ++ (beBytes 2 (0x8000 + id) ++ beBytes 2 len ++ beBytes 4 pskrPen) := by
  unfold putEfield
  rw [putU32_eq, putU16_eq, putU16_eq, h]
  simp only [List.append_assoc]

/-- What is put in the place of two bytes. -/
theorem patchU16_append {a bytes : List UInt8} (h : bytes.length = 2) (c : List UInt8) (v : ℕ) :
    patchU16 (a ++ bytes ++ c) a.length v = a ++ beBytes 2 v ++ c := by
  have hdrop : a.length + 2 = (a ++ bytes).length := by rw [List.length_append, h]
  unfold patchU16
  rw [putU16_eq, hdrop, List.drop_left, List.append_assoc a, List.take_left]

theorem and_three (n : ℕ) : n &&& 3 = n % 4 := Nat.and_two_pow_sub_one_eq_mod n 2

/-- A loop that may put as many bytes as are missing ends at a multiple of four. -/
theorem padLoop_eq {n k : ℕ} (hk : k ≤ n) {b : List UInt8} (h : 4 ∣ b.length + k) :
    ∃ padding, padding.length ≤ n ∧ 4 ∣ (b ++ padding).length ∧ padLoop n b = b ++ padding := by
  induction n generalizing k b with
  | zero =>
    obtain rfl := Nat.le_zero.mp hk
    exact ⟨[], le_rfl, by rwa [List.append_nil], (List.append_nil b).symm⟩
  | succ n ih =>
    rw [padLoop, and_three]
    by_cases hb : b.length % 4 = 0
    · refine ⟨[], Nat.zero_le _, ?_, ?_⟩
      · rw [List.append_nil]
        exact Nat.dvd_of_mod_eq_zero hb
      · rw [if_neg (not_not.mpr hb), List.append_nil]
    · have hlength : (putU8 b 0).length = b.length + 1 := List.length_append
      obtain ⟨padding, hle, hdvd, hloop⟩ := ih (k := k - 1) (b := putU8 b 0) (by omega)
        (by rw [hlength]; omega)
      rw [if_pos hb, hloop, putU8_eq] at *
      exact ⟨beBytes 1 0 ++ padding, by rw [List.length_append, length_beBytes]; omega,
        by rwa [List.append_assoc] at hdvd, List.append_assoc ..⟩

/-- Three bytes at most are missing. -/
theorem pad4_eq (b : List UInt8) :
    ∃ padding, padding.length < 4 ∧ 4 ∣ (b ++ padding).length ∧ pad4 b = b ++ padding := by
  obtain ⟨padding, hle, h⟩ := padLoop_eq (n := 3) (k := (4 - b.length % 4) % 4) (b := b) (by omega)
    (by omega)
  exact ⟨padding, Nat.lt_succ_of_le hle, h⟩

/-- **A set**, which begins at a multiple of four, is filled up to one. -/
theorem closeSet_openSet {b : List UInt8} (hb : 4 ∣ b.length) (id : ℕ) (body : List UInt8) :
    ∃ padding, padding.length < 4 ∧ 4 ∣ (body ++ padding).length + 4 ∧
      closeSet (openSet b id ++ body) b.length = b ++ writePart (id, body ++ padding) := by
  obtain ⟨padding, hlt, hdvd, hpad⟩ := pad4_eq (openSet b id ++ body)
  have hopen : openSet b id = b ++ beBytes 2 id ++ beBytes 2 0 := by
    rw [openSet, putU16_eq, putU16_eq]
  have hlength : (openSet b id ++ body ++ padding).length =
      b.length + ((body ++ padding).length + 4) := by
    rw [hopen]
    simp only [List.length_append, length_beBytes]
    omega
  have hoff : b.length + 2 = (b ++ beBytes 2 id).length := by
    rw [List.length_append, length_beBytes]
  refine ⟨padding, hlt, ?_, ?_⟩
  · rw [hlength] at hdvd
    exact (Nat.dvd_add_right hb).mp hdvd
  · unfold closeSet
    dsimp only
    rw [hpad, hlength, Nat.add_sub_cancel_left, hopen, hoff, List.append_assoc _ body,
      patchU16_append (length_beBytes 2 0), writePart]
    simp only [List.append_assoc]

end

/-! ## The templates and the records of the datagram -/

/-- What is said of the receiver. -/
def rxTemplate : Template where
  id := tidRx
  fields := [⟨0x0002, some pskrPen, none⟩, ⟨0x0004, some pskrPen, none⟩,
    ⟨0x0008, some pskrPen, none⟩, ⟨0x0009, some pskrPen, none⟩]

/-- What is said of a reception. -/
def txTemplate : Template where
  id := tidTx
  fields := [⟨0x0001, some pskrPen, none⟩, ⟨0x0005, some pskrPen, some 5⟩,
    ⟨0x0006, some pskrPen, some 1⟩, ⟨0x000A, some pskrPen, none⟩, ⟨0x0003, some pskrPen, none⟩,
    ⟨0x000B, some pskrPen, some 1⟩, ⟨0x0096, none, some 4⟩]

theorem small_rxTemplate : ∀ f ∈ rxTemplate.fields, f.Small := by
  intro f hf
  constructor <;> revert f <;> decide

theorem small_txTemplate : ∀ f ∈ txTemplate.fields, f.Small := by
  intro f hf
  constructor <;> revert f <;> decide

theorem receiverTemplate_eq {b : List UInt8} (hb : 4 ∣ b.length) :
    ∃ padding, padding.length < 4 ∧ 4 ∣ (writeTemplate true rxTemplate ++ padding).length + 4 ∧
      receiverTemplate b = b ++ writePart (3, writeTemplate true rxTemplate ++ padding) := by
  obtain ⟨padding, hlt, hdvd, h⟩ := closeSet_openSet hb 3 (writeTemplate true rxTemplate)
  refine ⟨padding, hlt, hdvd, ?_⟩
  rw [← h]
  unfold receiverTemplate
  simp only [putU16_eq, putEfield_eq _ (show 0x8000 ||| 0x0002 = 0x8000 + 0x0002 from rfl),
    putEfield_eq _ (show 0x8000 ||| 0x0004 = 0x8000 + 0x0004 from rfl),
    putEfield_eq _ (show 0x8000 ||| 0x0008 = 0x8000 + 0x0008 from rfl),
    putEfield_eq _ (show 0x8000 ||| 0x0009 = 0x8000 + 0x0009 from rfl), List.append_assoc]
  rfl

theorem senderTemplate_eq {b : List UInt8} (hb : 4 ∣ b.length) :
    ∃ padding, padding.length < 4 ∧ 4 ∣ (writeTemplate false txTemplate ++ padding).length + 4 ∧
      senderTemplate b = b ++ writePart (2, writeTemplate false txTemplate ++ padding) := by
  obtain ⟨padding, hlt, hdvd, h⟩ := closeSet_openSet hb 2 (writeTemplate false txTemplate)
  refine ⟨padding, hlt, hdvd, ?_⟩
  rw [← h]
  unfold senderTemplate
  simp only [putU16_eq, putEfield_eq _ (show 0x8000 ||| 0x0001 = 0x8000 + 0x0001 from rfl),
    putEfield_eq _ (show 0x8000 ||| 0x0005 = 0x8000 + 0x0005 from rfl),
    putEfield_eq _ (show 0x8000 ||| 0x0006 = 0x8000 + 0x0006 from rfl),
    putEfield_eq _ (show 0x8000 ||| 0x000A = 0x8000 + 0x000A from rfl),
    putEfield_eq _ (show 0x8000 ||| 0x0003 = 0x8000 + 0x0003 from rfl),
    putEfield_eq _ (show 0x8000 ||| 0x000B = 0x8000 + 0x000B from rfl), List.append_assoc]
  rfl

section

variable (r : Reporter) (dial slotTime : ℤ)

/-- The values of the station. -/
def stationRecord : Record :=
  [r.stationCall.bytes, r.stationGrid.bytes, text "MacHPSDR", text ""]

/-- The values of a decode. -/
def record (d : Decode) : Record :=
  [d.callDe.bytes, beBytes 5 (rf dial d).toNat, [UInt8.ofNat (snr d % 256).toNat], mode r, grid d,
    [1], beBytes 4 (slotTime % 2 ^ 32).toNat]

theorem Str.short {size : ℕ} (s : Str size) (h : size ≤ 255) : s.bytes.length < 255 :=
  s.terminated.trans_le h

theorem length_mode : (mode r).length = 3 := by
  unfold mode
  split <;> rfl

theorem length_grid_lt (d : Decode) : (grid d).length < 16 := by
  unfold grid
  split
  · exact d.extra.terminated
  · exact Nat.zero_lt_succ 15

theorem fits_stationRecord : List.Forall₂ Fits rxTemplate.fields (stationRecord r) :=
  .cons (r.stationCall.short (by decide)) (.cons (r.stationGrid.short (by decide))
    (.cons (show (text "MacHPSDR").length < 255 by decide)
      (.cons (show (text "").length < 255 by decide) .nil)))

theorem fits_record (d : Decode) :
    List.Forall₂ Fits txTemplate.fields (record r dial slotTime d) :=
  .cons (d.callDe.short (by decide)) (.cons (length_beBytes 5 _) (.cons rfl
    (.cons (show (mode r).length < 255 by rw [length_mode]; decide)
      (.cons (show (grid d).length < 255 from (length_grid_lt d).trans (by decide))
        (.cons rfl (.cons (length_beBytes 4 _) .nil))))))

theorem receiverRecord_eq {b : List UInt8} (hb : 4 ∣ b.length) :
    ∃ padding, padding.length < 4 ∧
      4 ∣ (writeRecord rxTemplate.fields (stationRecord r) ++ padding).length + 4 ∧
      receiverRecord r b =
        b ++ writePart (tidRx, writeRecord rxTemplate.fields (stationRecord r) ++ padding) := by
  obtain ⟨padding, hlt, hdvd, h⟩ :=
    closeSet_openSet hb tidRx (writeRecord rxTemplate.fields (stationRecord r))
  refine ⟨padding, hlt, hdvd, ?_⟩
  rw [← h]
  unfold receiverRecord
  simp only [putVstr_eq _ (r.stationCall.short (by decide)),
    putVstr_eq _ (r.stationGrid.short (by decide)),
    putVstr_eq _ (show (text "MacHPSDR").length < 255 by decide),
    putVstr_eq _ (show (text "").length < 255 by decide), List.append_assoc]
  rfl

theorem putRecord_eq (b : List UInt8) (d : Decode) :
    putRecord r dial slotTime b d =
      b ++ writeRecord txTemplate.fields (record r dial slotTime d) := by
  unfold putRecord
  simp only [putVstr_eq _ (d.callDe.short (by decide)),
    putVstr_eq _ (show (mode r).length < 255 by rw [length_mode]; decide),
    putVstr_eq _ (show (grid d).length < 255 from (length_grid_lt d).trans (by decide)),
    putU8_eq, putU32_eq, putU40_eq, List.append_assoc]
  rfl

/-- `need` is the length of the record. -/
theorem length_record (d : Decode) :
    (writeRecord txTemplate.fields (record r dial slotTime d)).length = need d := by
  show (beBytes 1 _ ++ d.callDe.bytes ++ (beBytes 5 _ ++ ([_] ++ (beBytes 1 _ ++ mode r ++
    (beBytes 1 _ ++ grid d ++ ([_] ++ (beBytes 4 _ ++ [])))))) : List UInt8).length = _
  simp only [List.length_append, length_beBytes, List.length_singleton, List.length_nil,
    length_mode, need]
  omega

/-! ## The loop -/

/-- A decode that is not to be reported is passed over. -/
theorem putRecords_skip {d : Decode} (hd : ¬ Eligible r dial d) (b : List UInt8) (n : ℕ)
    (ds : List Decode) :
    putRecords r dial slotTime b n (d :: ds) = putRecords r dial slotTime b n ds := by
  rw [putRecords]
  split_ifs with hcall hown hrf hroom
  · rfl
  · rfl
  · rfl
  all_goals exact absurd ⟨hcall, Bool.eq_false_iff.mpr hown, not_lt.mp hrf⟩ hd

/-- **The loop** writes the records of the decodes that are to be reported and fit. -/
theorem putRecords_eq (ds : List Decode) (b : List UInt8) (n : ℕ) :
    putRecords r dial slotTime b n ds =
      (b ++ ((fitting b.length (ds.filter (Eligible r dial))).map
          (record r dial slotTime)).flatMap (writeRecord txTemplate.fields),
        n + (fitting b.length (ds.filter (Eligible r dial))).length) := by
  induction ds generalizing b n with
  | nil => exact Prod.ext (List.append_nil b).symm rfl
  | cons d ds ih =>
    by_cases hd : Eligible r dial d
    · have ⟨hcall, hown, hrf⟩ := hd
      rw [List.filter_cons_of_pos (p := fun d => decide (Eligible r dial d)) (decide_eq_true hd),
        putRecords, if_neg hcall,
        if_neg (by rw [hown]; exact Bool.false_ne_true), if_neg (not_lt.mpr hrf), fitting]
      by_cases hroom : b.length + need d + 8 > 1400
      · rw [if_pos hroom, if_pos hroom]
        exact Prod.ext (List.append_nil b).symm rfl
      · have hlength : (putRecord r dial slotTime b d).length = b.length + need d := by
          rw [putRecord_eq, List.length_append, length_record]
        rw [if_neg hroom, if_neg hroom, ih, hlength, putRecord_eq, List.map_cons,
          List.flatMap_cons, List.append_assoc, List.length_cons]
        exact Prod.ext rfl (by omega)
    · rw [putRecords_skip r dial slotTime hd, List.filter_cons_of_neg (by simpa using hd), ih]

theorem need_fitting_le (ds : List Decode) {off : ℕ} (h : off ≤ 1392) :
    off + ((fitting off ds).map need).sum ≤ 1392 := by
  induction ds generalizing off with
  | nil => exact h
  | cons d ds ih =>
    rw [fitting]
    split
    · exact h
    · have hle := ih (show off + need d ≤ 1392 by omega)
      rw [List.map_cons, List.sum_cons]
      omega

/-- The records leave eight bytes. -/
theorem length_records_le {b : List UInt8} (h : b.length ≤ 1392) (ds : List Decode) :
    b.length + (((fitting b.length ds).map (record r dial slotTime)).flatMap
      (writeRecord txTemplate.fields)).length ≤ 1392 := by
  rw [List.flatMap_map, List.length_flatMap]
  simp only [length_record]
  exact need_fitting_le ds h

/-! ## The datagram -/

/-- The sets before those of the decodes. -/
def frontParts (padRx padTx padStation : List UInt8) : List Part :=
  [(3, writeTemplate true rxTemplate ++ padRx), (2, writeTemplate false txTemplate ++ padTx),
    (tidRx, writeRecord rxTemplate.fields (stationRecord r) ++ padStation)]

theorem dvd_append_writePart {b : List UInt8} (hb : 4 ∣ b.length) {p : Part}
    (hp : 4 ∣ p.2.length + 4) : 4 ∣ (b ++ writePart p).length := by
  rw [List.length_append, length_writePart]
  exact dvd_add hb hp

theorem front_eq : ∃ padRx padTx padStation, padRx.length < 4 ∧ padTx.length < 4 ∧
    padStation.length < 4 ∧ (∀ p ∈ frontParts r padRx padTx padStation, 4 ∣ p.2.length + 4) ∧
      4 ∣ (header r ++ (frontParts r padRx padTx padStation).flatMap writePart).length ∧
        front r =
          openSet (header r ++ (frontParts r padRx padTx padStation).flatMap writePart) tidTx := by
  have hheader : 4 ∣ (header r).length := ⟨4, rfl⟩
  obtain ⟨padRx, hlt, hdvd, heq⟩ := receiverTemplate_eq hheader
  have hlength := dvd_append_writePart (p := (3, _)) hheader hdvd
  obtain ⟨padTx, hlt', hdvd', heq'⟩ := senderTemplate_eq hlength
  have hlength' := dvd_append_writePart (p := (2, _)) hlength hdvd'
  obtain ⟨padStation, hlt'', hdvd'', heq''⟩ := receiverRecord_eq r hlength'
  have hlength'' := dvd_append_writePart (p := (tidRx, _)) hlength' hdvd''
  have hfront : header r ++ (frontParts r padRx padTx padStation).flatMap writePart =
      receiverRecord r (senderTemplate (receiverTemplate (header r))) := by
    rw [heq, heq', heq'']
    simp only [frontParts, List.flatMap_cons, List.flatMap_nil, List.append_nil, List.append_assoc]
  refine ⟨padRx, padTx, padStation, hlt, hlt', hlt'', ?_, ?_, ?_⟩
  · simp only [frontParts, List.forall_mem_cons]
    exact ⟨hdvd, hdvd', hdvd'', List.forall_mem_nil _⟩
  · rw [hfront, heq, heq', heq'']
    exact hlength''
  · rw [hfront]
    rfl

theorem length_header : (header r).length = 16 := rfl

/-- There is room behind the record of the station. -/
theorem length_front_le : (front r).length ≤ 1392 := by
  obtain ⟨padRx, padTx, padStation, hRx, hTx, hStation, -, -, hfront⟩ := front_eq r
  have hlengthRx : (writeTemplate true rxTemplate).length = 38 := rfl
  have hlengthTx : (writeTemplate false txTemplate).length = 56 := rfl
  have hlengthStation : (writeRecord rxTemplate.fields (stationRecord r)).length =
      1 + r.stationCall.bytes.length + (1 + r.stationGrid.bytes.length + (9 + 1)) := by
    show (beBytes 1 _ ++ r.stationCall.bytes ++ (beBytes 1 _ ++ r.stationGrid.bytes ++
      (beBytes 1 _ ++ text "MacHPSDR" ++ (beBytes 1 _ ++ text "" ++ []))) : List UInt8).length = _
    simp only [List.length_append, length_beBytes]
    rfl
  have hcall := r.stationCall.terminated
  have hgrid := r.stationGrid.terminated
  rw [hfront, openSet, putU16_eq, putU16_eq]
  simp only [List.length_append, frontParts, List.flatMap_cons, List.flatMap_nil, length_writePart,
    length_beBytes, List.length_nil, length_header, hlengthRx, hlengthTx, hlengthStation]
  omega

theorem mem_of_mem_fitting {d : Decode} {ds : List Decode} {off : ℕ} (h : d ∈ fitting off ds) :
    d ∈ ds := by
  induction ds generalizing off with
  | nil => exact h
  | cons e ds ih =>
    rw [fitting] at h
    split at h
    · cases h
    · rcases List.mem_cons.mp h with rfl | h
      · exact List.mem_cons_self ..
      · exact List.mem_cons_of_mem e (ih h)

/-- The byte of a report, which fits it. -/
theorem signed_snr (d : Decode) : signed (UInt8.ofNat (snr d % 256).toNat) = snr d := by
  have hrange : -128 ≤ snr d ∧ snr d ≤ 127 := by
    unfold snr
    dsimp only
    split_ifs <;> omega
  have hbyte : (UInt8.ofNat (snr d % 256).toNat).toNat = (snr d % 256).toNat := by
    rw [UInt8.toNat_ofNat']
    omega
  unfold signed
  rw [hbyte]
  split <;> omega

/-- A record says of its decode what is to be said. -/
theorem ofRecord_record {d : Decode} (hd : Eligible r dial d) :
    Spot.ofRecord (record r dial slotTime d) = some (spot r dial slotTime d) := by
  have hrf := hd.2.2
  have hfrequency : (rf dial d).toNat % 256 ^ 5 = (rf dial d % 2 ^ 40).toNat := by omega
  have htime : (slotTime % 2 ^ 32).toNat < 256 ^ 4 := by omega
  unfold record Spot.ofRecord spot
  dsimp only
  rw [beNat_beBytes_mod, hfrequency, signed_snr, beNat_beBytes htime]
  rfl

/-- What the templates and the records of the sets say. -/
theorem readData_parts {padRx padTx padStation padding : List UInt8} (hRx : padRx.length < 4)
    (hTx : padTx.length < 4) (hStation : padStation.length < 4) (hpadding : padding.length < 4)
    (ds : List Decode) :
    readData [] (frontParts r padRx padTx padStation ++
        [(tidTx, (ds.map (record r dial slotTime)).flatMap (writeRecord txTemplate.fields) ++
          padding)]) =
      some [(tidRx, [stationRecord r]), (tidTx, ds.map (record r dial slotTime))] := by
  have hstation : ∀ q ∈ [stationRecord r], List.Forall₂ Fits rxTemplate.fields q :=
    List.forall_mem_singleton.mpr (fits_stationRecord r)
  have hrecords : ∀ q ∈ ds.map (record r dial slotTime), List.Forall₂ Fits txTemplate.fields q :=
    List.forall_mem_map.mpr fun d _ => fits_record r dial slotTime d
  have hsetRx : 3 = if true then 3 else 2 := rfl
  have hsetTx : 2 = if false then 3 else 2 := rfl
  have hone : writeRecord rxTemplate.fields (stationRecord r) =
      [stationRecord r].flatMap (writeRecord rxTemplate.fields) :=
    (List.flatMap_singleton ..).symm
  rw [frontParts, List.cons_append,
    readData_template hsetRx (by decide) (by decide) small_rxTemplate hRx, List.cons_append,
    readData_template hsetTx (by decide) (by decide) small_txTemplate hTx, hone, List.cons_append,
    List.nil_append, readData_records (t := rxTemplate) rfl (by decide) hstation hStation,
    readData_records (t := txTemplate) rfl (by decide) hrecords (hpadding.trans (by decide))]
  rfl

/-- The sets of the datagram. -/
def datagramParts (decodes : List Decode) (padRx padTx padStation padding : List UInt8) :
    List Part :=
  frontParts r padRx padTx padStation ++
    [(tidTx, ((reported r dial decodes).map (record r dial slotTime)).flatMap
      (writeRecord txTemplate.fields) ++ padding)]

theorem lt_of_mem_ids : ∀ id ∈ [3, 2, tidRx, tidTx], id < 256 ^ 2 := by decide

/-- The sets are told apart by one that has as many steps as there are bytes. -/
theorem readParts_datagramParts {decodes : List Decode}
    {padRx padTx padStation padding : List UInt8} {n : ℕ}
    (hn : 16 + ((datagramParts r dial slotTime decodes padRx padTx padStation padding).flatMap
      writePart).length = n) (hsize : n ≤ 1400) :
    readParts n ((datagramParts r dial slotTime decodes padRx padTx padStation padding).flatMap
        writePart) =
      some (datagramParts r dial slotTime decodes padRx padTx padStation padding) := by
  have hfour : (datagramParts r dial slotTime decodes padRx padTx padStation padding).length = 4 :=
    rfl
  refine readParts_writeParts (fun p hp => ⟨?_, ?_⟩) (by omega)
  · exact lt_of_mem_ids p.1 (List.mem_map_of_mem (f := Prod.fst) hp)
  · have hle := length_le_parts hp
    omega

/-- The datagram without its length. -/
theorem closeSet_putRecords (decodes : List Decode) :
    ∃ padRx padTx padStation padding, padRx.length < 4 ∧ padTx.length < 4 ∧
      padStation.length < 4 ∧ padding.length < 4 ∧
        (∀ p ∈ datagramParts r dial slotTime decodes padRx padTx padStation padding,
          4 ∣ p.2.length + 4) ∧
        (header r ++ (datagramParts r dial slotTime decodes padRx padTx padStation
          padding).flatMap writePart).length ≤ 1400 ∧
        closeSet (putRecords r dial slotTime (front r) 0 decodes).1 ((front r).length - 4) =
          header r ++ (datagramParts r dial slotTime decodes padRx padTx padStation
            padding).flatMap writePart := by
  obtain ⟨padRx, padTx, padStation, hRx, hTx, hStation, hparts, hdvd, hfront⟩ := front_eq r
  generalize hfore : header r ++ (frontParts r padRx padTx padStation).flatMap writePart = fore
    at hdvd hfront
  set body := ((reported r dial decodes).map (record r dial slotTime)).flatMap
    (writeRecord txTemplate.fields) with hbody
  obtain ⟨padding, hpadding, hdvd', hclose⟩ := closeSet_openSet hdvd tidTx body
  have hlength : (front r).length = fore.length + 4 := by
    rw [hfront, openSet, putU16_eq, putU16_eq]
    simp only [List.length_append, length_beBytes]
  have hroom : (front r).length + body.length ≤ 1392 :=
    length_records_le r dial slotTime (length_front_le r) _
  have hloop : (putRecords r dial slotTime (front r) 0 decodes).1 = openSet fore tidTx ++ body := by
    rw [putRecords_eq, ← hfront]
    rfl
  have hsets : header r ++ (datagramParts r dial slotTime decodes padRx padTx padStation
      padding).flatMap writePart = fore ++ writePart (tidTx, body ++ padding) := by
    rw [datagramParts, List.flatMap_append, ← List.append_assoc, hfore, List.flatMap_singleton]
  refine ⟨padRx, padTx, padStation, padding, hRx, hTx, hStation, hpadding, ?_, ?_, ?_⟩
  · intro p hp
    rcases List.mem_append.mp hp with hp | hp
    · exact hparts p hp
    · rw [List.mem_singleton.mp hp]
      exact hdvd'
  · rw [hsets, List.length_append, length_writePart, List.length_append]
    omega
  · rw [hsets, hloop, hlength, Nat.add_sub_cancel, hclose]

/-- The length is put into the header. -/
theorem patchU16_header (bs : List UInt8) (n : ℕ) :
    patchU16 (header r ++ bs) 2 n = beBytes 2 0x000A ++ beBytes 2 n ++
      (beBytes 4 r.time ++ beBytes 4 r.seq ++ beBytes 4 r.domain ++ bs) := by
  have hheader : header r ++ bs = beBytes 2 0x000A ++ beBytes 2 0 ++
      (beBytes 4 r.time ++ beBytes 4 r.seq ++ beBytes 4 r.domain ++ bs) := by
    unfold header
    simp only [putU16_eq, putU32_eq, List.append_assoc, List.nil_append]
  rw [hheader]
  exact patchU16_append (a := beBytes 2 0x000A) (length_beBytes 2 0) _ n

end

/-- A datagram that is sent is what the loop has left, with its length. -/
theorem report_eq_some {r : Reporter} {dial slotTime : ℤ} {decodes : List Decode}
    {datagram : List UInt8} (hdial : r.frequencyA = some dial)
    (h : report r slotTime decodes = some datagram) :
    ∃ b, b = closeSet (putRecords r dial slotTime (front r) 0 decodes).1 ((front r).length - 4) ∧
      datagram = patchU16 b 2 b.length := by
  refine ⟨_, rfl, ?_⟩
  unfold report at h
  rw [hdial] at h
  split at h
  · cases h
  · dsimp only at h
    split at h
    · cases h
    · exact (Option.some.inj h).symm

/-- **The datagram is read as it was meant.** It has 1400 bytes at most, which are those of its
header, and four sets, each of a multiple of four bytes. By the templates of the first two, the
others say what the station is and, in order, what has been decoded of others, up to the first
decode for which there was no room. -/
theorem report_faithful {r : Reporter} {dial slotTime : ℤ} {decodes : List Decode}
    {datagram : List UInt8} (hdial : r.frequencyA = some dial)
    (h : report r slotTime decodes = some datagram) :
    Faithful r dial slotTime decodes datagram := by
  obtain ⟨b, hb, hpatch⟩ := report_eq_some hdial h
  obtain ⟨padRx, padTx, padStation, padding, hRx, hTx, hStation, hpadding, hdvd, hsize, hclose⟩ :=
    closeSet_putRecords r dial slotTime decodes
  rw [hclose] at hb
  subst hb
  rw [patchU16_header] at hpatch
  set parts := datagramParts r dial slotTime decodes padRx padTx padStation padding with hparts
  generalize hn : (header r ++ parts.flatMap writePart).length = n at hpatch hsize
  rw [List.length_append, length_header] at hn
  subst hpatch
  have hlength : (beBytes 2 0x000A ++ beBytes 2 n ++ (beBytes 4 r.time ++ beBytes 4 r.seq ++
      beBytes 4 r.domain ++ parts.flatMap writePart)).length = n := by
    simp only [List.length_append, length_beBytes]
    omega
  have hdrop : (beBytes 2 0x000A ++ beBytes 2 n ++ (beBytes 4 r.time ++ beBytes 4 r.seq ++
      beBytes 4 r.domain ++ parts.flatMap writePart)).drop 16 = parts.flatMap writePart := by
    rw [← List.append_assoc]
    refine List.drop_left' ?_
    simp only [List.length_append, length_beBytes]
  have hread : readParts n (parts.flatMap writePart) = some parts :=
    readParts_datagramParts r dial slotTime hn hsize
  refine ⟨hlength.trans_le hsize, ?_, parts, ?_, rfl, hdvd,
    (reported r dial decodes).map (record r dial slotTime), ?_, ?_⟩
  · rw [hlength, List.append_assoc, List.append_assoc, List.drop_left' (length_beBytes 2 _),
      List.take_left' (length_beBytes 2 n), beNat_beBytes (by omega)]
  · rw [hlength, hdrop, hread]
  · exact readData_parts r dial slotTime hRx hTx hStation hpadding (reported r dial decodes)
  · rw [List.map_map]
    refine List.map_congr_left fun d hd => ?_
    exact ofRecord_record r dial slotTime
      (of_decide_eq_true (List.mem_filter.mp (mem_of_mem_fitting hd)).2)

/-- A station on 20 m, or on the frequency that is given. -/
def station (frequency : ℤ) : Reporter where
  ft8Pskr := true
  ft8Proto := false
  stationCall := ⟨text "W1AW", by decide, by decide⟩
  stationGrid := ⟨text "FN31", by decide, by decide⟩
  frequencyA := some frequency
  time := 1700000015
  seq := 1
  domain := 7

/-- A call that is heard at 1500 Hz. -/
def heard : Decode where
  snr := -11
  freq := 1500
  callDe := ⟨text "K1ABC", by decide, by decide⟩
  extra := ⟨text "FN42", by decide, by decide⟩

theorem report_faithful_heard : ∃ datagram,
    report (station 14074000) 1700000000 [heard] = some datagram ∧
      Faithful (station 14074000) 14074000 1700000000 [heard] datagram := by
  have hsome : (report (station 14074000) 1700000000 [heard]).isSome = true := by decide +kernel
  obtain ⟨datagram, h⟩ := Option.isSome_iff_exists.mp hsome
  exact ⟨datagram, h, report_faithful rfl h⟩

/-- What is read from a datagram. -/
def readDatagram (datagram : List UInt8) : Option (List (ℕ × List Record)) :=
  (readParts datagram.length (datagram.drop 16)).bind (readData [])

/-- A frequency of 2⁴⁰ Hz and more is not what is read. -/
theorem not_frequency_faithful :
    ¬ ∀ (r : Reporter) (dial slotTime : ℤ) (decodes : List Decode) (datagram : List UInt8),
      r.frequencyA = some dial → report r slotTime decodes = some datagram →
        ∃ records, readDatagram datagram =
            some [(tidRx, [stationRecord r]), (tidTx, records)] ∧
          records.map Spot.ofRecord = (reported r dial decodes).map fun d =>
            some { spot r dial slotTime d with frequency := (rf dial d).toNat } := by
  intro h
  have hsome : (report (station (2 ^ 40)) 1700000000 [heard]).isSome = true := by decide +kernel
  have hread : ((report (station (2 ^ 40)) 1700000000 [heard]).bind fun datagram =>
      (readDatagram datagram).map fun data => data.map fun p => p.2.map fun q =>
        (Spot.ofRecord q).map Spot.frequency) = some [[none], [some 1500]] := by
    decide +kernel
  have hreported : (reported (station (2 ^ 40)) (2 ^ 40) [heard]).map (fun d =>
      some (rf (2 ^ 40) d).toNat) = [some (2 ^ 40 + 1500)] := by
    decide +kernel
  obtain ⟨datagram, hreport⟩ := Option.isSome_iff_exists.mp hsome
  obtain ⟨records, hdata, hrecords⟩ := h _ (2 ^ 40) 1700000000 [heard] datagram rfl hreport
  rw [hreport, Option.bind_some, hdata] at hread
  have hfrequency : records.map (Option.map Spot.frequency ∘ Spot.ofRecord) = [some 1500] :=
    (List.cons.inj (List.cons.inj (Option.some.inj hread)).2).1
  rw [← List.map_map, hrecords, List.map_map] at hfrequency
  exact absurd (hreported.symm.trans hfrequency) (by decide)

end MacHPSDR.Ft8.Pskr
