import MacHPSDR.Foundations.Bytes
import Mathlib

/-!
# Messages of templates and records

A message consists of sets, each with a number and a length. Some sets have templates, and the
number of any other one is that of the template by which its records are read: a field has a fixed
length, or a byte with the length before it. A set may be filled up with bytes that are too few for
another record.

What has been written by a template is read back by it, and nothing is read from the padding
(`readRecords_writeRecords`).
-/

namespace MacHPSDR.Ipfix

open Bytes

/-- A field of a template: its element, the enterprise that has defined it, and its length, if it is
fixed. -/
structure Field where
  element : ℕ
  enterprise : Option ℕ
  length : Option ℕ
  deriving DecidableEq

structure Template where
  id : ℕ
  fields : List Field
  deriving DecidableEq

/-- The values of a record. -/
abbrev Record := List (List UInt8)

/-- A set: its number, and what comes after its length. -/
abbrev Part := ℕ × List UInt8

/-! ## Reading -/

def takeBytes (n : ℕ) (bs : List UInt8) : Option (List UInt8 × List UInt8) :=
  if n ≤ bs.length then some (bs.take n, bs.drop n) else none

def readNat (n : ℕ) (bs : List UInt8) : Option (ℕ × List UInt8) :=
  (takeBytes n bs).map fun p => (beNat p.1, p.2)

/-- The length of a field, of which one value stands for any. -/
def fieldLength (n : ℕ) : Option ℕ := if n = 0xFFFF then none else some n

/-- A field whose element has the high bit set is an enterprise's. -/
def readField (bs : List UInt8) : Option (Field × List UInt8) := do
  let (element, bs) ← readNat 2 bs
  let (length, bs) ← readNat 2 bs
  if element < 0x8000 then return (⟨element, none, fieldLength length⟩, bs)
  let (enterprise, bs) ← readNat 4 bs
  return (⟨element - 0x8000, some enterprise, fieldLength length⟩, bs)

def readFields : ℕ → List UInt8 → Option (List Field × List UInt8)
  | 0, bs => some ([], bs)
  | n + 1, bs => do
    let (f, bs) ← readField bs
    let (fs, bs) ← readFields n bs
    return (f :: fs, bs)

/-- A template, with the number of its scope fields if it is one of options. -/
def readTemplate (options : Bool) (bs : List UInt8) : Option (Template × List UInt8) := do
  let (id, bs) ← readNat 2 bs
  let (count, bs) ← readNat 2 bs
  let (_, bs) ← if options then readNat 2 bs else some (0, bs)
  let (fields, bs) ← readFields count bs
  return (⟨id, fields⟩, bs)

/-- Templates, as long as there are bytes for another one. -/
def readTemplates (options : Bool) : ℕ → List UInt8 → Option (List Template)
  | 0, _ => none
  | fuel + 1, bs =>
    if bs.length < 4 then some []
    else do
      let (t, bs) ← readTemplate options bs
      let ts ← readTemplates options fuel bs
      return t :: ts

/-- A value, with its length before it if the field has none. -/
def readValue (f : Field) (bs : List UInt8) : Option (List UInt8 × List UInt8) :=
  match f.length with
  | some n => takeBytes n bs
  | none => do
    let (n, bs) ← readNat 1 bs
    if n < 255 then takeBytes n bs
    else do
      let (n, bs) ← readNat 2 bs
      takeBytes n bs

def readRecord : List Field → List UInt8 → Option (Record × List UInt8)
  | [], bs => some ([], bs)
  | f :: fs, bs => do
    let (v, bs) ← readValue f bs
    let (vs, bs) ← readRecord fs bs
    return (v :: vs, bs)

/-- The bytes that a record has at least. -/
def minLength (fields : List Field) : ℕ := (fields.map fun f => f.length.getD 1).sum

/-- Records, as long as there are bytes for another one. -/
def readRecords (fields : List Field) : ℕ → List UInt8 → Option (List Record)
  | 0, _ => none
  | fuel + 1, bs =>
    if bs.length < minLength fields then some []
    else do
      let (r, bs) ← readRecord fields bs
      let rs ← readRecords fields fuel bs
      return r :: rs

/-- The sets one after the other. -/
def readParts : ℕ → List UInt8 → Option (List Part)
  | 0, _ => none
  | fuel + 1, bs =>
    if bs = [] then some []
    else do
      let (id, bs) ← readNat 2 bs
      let (length, bs) ← readNat 2 bs
      let (body, bs) ← if 4 ≤ length then takeBytes (length - 4) bs else none
      let parts ← readParts fuel bs
      return (id, body) :: parts

/-- The records of the sets, by the templates that come before them. -/
def readData : List Template → List Part → Option (List (ℕ × List Record))
  | _, [] => some []
  | known, (id, body) :: parts =>
    if id = 2 ∨ id = 3 then do
      let ts ← readTemplates (id = 3) (body.length + 1) body
      readData (ts ++ known) parts
    else do
      let t ← known.find? fun t => t.id = id
      let rs ← readRecords t.fields (body.length + 1) body
      let rest ← readData known parts
      return (id, rs) :: rest

/-! ## Writing -/

/-- A value fits a field. -/
def Fits (f : Field) (v : List UInt8) : Prop :=
  match f.length with
  | some n => v.length = n
  | none => v.length < 255

def writeValue (f : Field) (v : List UInt8) : List UInt8 :=
  match f.length with
  | some _ => v
  | none => beBytes 1 v.length ++ v

def writeRecord (fields : List Field) (r : Record) : List UInt8 :=
  (List.zipWith writeValue fields r).flatten

def writeField (f : Field) : List UInt8 :=
  match f.enterprise with
  | some n => beBytes 2 (0x8000 + f.element) ++ beBytes 2 (f.length.getD 0xFFFF) ++ beBytes 4 n
  | none => beBytes 2 f.element ++ beBytes 2 (f.length.getD 0xFFFF)

/-- The numbers of a field fit into their bytes. -/
structure Field.Small (f : Field) : Prop where
  element : f.element < 0x8000
  enterprise : ∀ n ∈ f.enterprise, n < 2 ^ 32
  length : ∀ n ∈ f.length, n < 0xFFFF

def writeTemplate (options : Bool) (t : Template) : List UInt8 :=
  beBytes 2 t.id ++ beBytes 2 t.fields.length ++
    ((if options then beBytes 2 0 else []) ++ t.fields.flatMap writeField)

def writePart (p : Part) : List UInt8 := beBytes 2 p.1 ++ beBytes 2 (p.2.length + 4) ++ p.2

/-! ## What is written is read -/

section

variable {rest : List UInt8}

theorem takeBytes_append {n : ℕ} {bs : List UInt8} (h : bs.length = n) :
    takeBytes n (bs ++ rest) = some (bs, rest) := by
  subst h
  unfold takeBytes
  rw [if_pos (by rw [List.length_append]; omega), List.take_left, List.drop_left]

theorem readNat_append {k n : ℕ} (h : n < 256 ^ k) :
    readNat k (beBytes k n ++ rest) = some (n, rest) := by
  unfold readNat
  rw [takeBytes_append (length_beBytes k n), Option.map_some, beNat_beBytes h]

theorem fieldLength_getD {f : Field} (h : f.Small) :
    fieldLength (f.length.getD 0xFFFF) = f.length := by
  unfold fieldLength
  cases hlength : f.length with
  | none => rfl
  | some n =>
    have hlt := h.length n hlength
    exact if_neg (by rw [Option.getD_some]; omega)

theorem length_getD_lt {f : Field} (h : f.Small) : f.length.getD 0xFFFF < 256 ^ 2 := by
  cases hlength : f.length with
  | none => decide
  | some n =>
    have hlt := h.length n hlength
    rw [Option.getD_some]
    omega

theorem readField_writeField {f : Field} (h : f.Small) :
    readField (writeField f ++ rest) = some (f, rest) := by
  have helement := h.element
  obtain ⟨element, enterprise, length⟩ := f
  unfold writeField readField
  cases enterprise with
  | none =>
    dsimp only at helement ⊢
    rw [List.append_assoc, readNat_append (by omega)]
    simp only [Option.bind_eq_bind, Option.bind_some]
    rw [readNat_append (length_getD_lt h)]
    simp only [Option.bind_some]
    rw [if_pos helement, fieldLength_getD h]
    rfl
  | some n =>
    have hn := h.enterprise n rfl
    dsimp only at helement ⊢
    rw [List.append_assoc, List.append_assoc, readNat_append (by omega)]
    simp only [Option.bind_eq_bind, Option.bind_some]
    rw [readNat_append (length_getD_lt h)]
    simp only [Option.bind_some]
    rw [if_neg (by omega), readNat_append (by omega)]
    simp only [Option.bind_some]
    rw [fieldLength_getD h, Nat.add_sub_cancel_left]
    rfl

theorem readFields_flatMap {fs : List Field} (h : ∀ f ∈ fs, f.Small) :
    readFields fs.length (fs.flatMap writeField ++ rest) = some (fs, rest) := by
  induction fs with
  | nil => rfl
  | cons f fs ih =>
    rw [List.length_cons, List.flatMap_cons, List.append_assoc, readFields,
      readField_writeField (h f (List.mem_cons_self ..))]
    simp only [Option.bind_eq_bind, Option.bind_some]
    rw [ih fun g hg => h g (List.mem_cons_of_mem f hg)]
    rfl

theorem readTemplate_writeTemplate {options : Bool} {t : Template} (hid : t.id < 256 ^ 2)
    (hcount : t.fields.length < 256 ^ 2) (h : ∀ f ∈ t.fields, f.Small) :
    readTemplate options (writeTemplate options t ++ rest) = some (t, rest) := by
  unfold writeTemplate readTemplate
  rw [List.append_assoc, List.append_assoc, readNat_append hid]
  simp only [Option.bind_eq_bind, Option.bind_some]
  rw [readNat_append hcount]
  cases options with
  | true =>
    simp only [Option.bind_some, if_true]
    rw [List.append_assoc, readNat_append (by decide)]
    simp only [Option.bind_some]
    rw [readFields_flatMap h]
    rfl
  | false =>
    simp only [Option.bind_some, Bool.false_eq_true, if_false, List.nil_append]
    rw [readFields_flatMap h]
    rfl

theorem four_le_template (options : Bool) (t : Template) (padding : List UInt8) :
    4 ≤ (writeTemplate options t ++ padding).length := by
  unfold writeTemplate
  simp only [List.length_append, length_beBytes]
  omega

/-- One template, filled up. -/
theorem readTemplates_writeTemplate {options : Bool} {t : Template} (hid : t.id < 256 ^ 2)
    (hcount : t.fields.length < 256 ^ 2) (h : ∀ f ∈ t.fields, f.Small) {padding : List UInt8}
    (hpadding : padding.length < 4) {fuel : ℕ} (hfuel : 1 < fuel) :
    readTemplates options fuel (writeTemplate options t ++ padding) = some [t] := by
  obtain ⟨fuel, rfl⟩ := Nat.exists_eq_add_of_le' (Nat.succ_le_of_lt hfuel)
  have hlong := not_lt_of_ge (four_le_template options t padding)
  rw [readTemplates, if_neg hlong, readTemplate_writeTemplate hid hcount h]
  simp only [Option.bind_eq_bind, Option.bind_some]
  rw [readTemplates, if_pos hpadding]
  rfl

theorem readValue_writeValue {f : Field} {v : List UInt8} (h : Fits f v) :
    readValue f (writeValue f v ++ rest) = some (v, rest) := by
  unfold Fits at h
  unfold readValue writeValue
  split
  · rename_i n hn
    rw [hn] at h
    exact takeBytes_append h
  · rename_i hn
    rw [hn] at h
    rw [List.append_assoc, readNat_append (show v.length < 256 ^ 1 by omega)]
    simp only [Option.bind_eq_bind, Option.bind_some]
    rw [if_pos h, takeBytes_append rfl]

theorem readRecord_writeRecord {fields : List Field} {r : Record}
    (h : List.Forall₂ Fits fields r) :
    readRecord fields (writeRecord fields r ++ rest) = some (r, rest) := by
  unfold writeRecord
  induction h with
  | nil => rfl
  | cons hv _ ih =>
    rw [List.zipWith_cons_cons, List.flatten_cons, List.append_assoc, readRecord,
      readValue_writeValue hv]
    simp only [Option.bind_eq_bind, Option.bind_some]
    rw [ih]
    rfl

theorem length_writeValue {f : Field} {v : List UInt8} (h : Fits f v) :
    f.length.getD 1 ≤ (writeValue f v).length := by
  unfold Fits at h
  unfold writeValue
  split at h
  · rename_i n hn
    rw [hn]
    exact h.ge
  · rename_i hn
    rw [hn, Option.getD_none, List.length_append, length_beBytes]
    exact Nat.le_add_right ..

/-- A record has the bytes that its fields have at least. -/
theorem minLength_le {fields : List Field} {r : Record} (h : List.Forall₂ Fits fields r) :
    minLength fields ≤ (writeRecord fields r).length := by
  unfold minLength writeRecord
  induction h with
  | nil => exact le_rfl
  | cons hv _ ih =>
    rw [List.map_cons, List.sum_cons, List.zipWith_cons_cons, List.flatten_cons,
      List.length_append]
    exact Nat.add_le_add (length_writeValue hv) ih

/-- **Records, filled up**, are read back, and nothing else is. -/
theorem readRecords_writeRecords {fields : List Field} {rs : List Record}
    (h : ∀ r ∈ rs, List.Forall₂ Fits fields r) {padding : List UInt8}
    (hpadding : padding.length < minLength fields) {fuel : ℕ} (hfuel : rs.length < fuel) :
    readRecords fields fuel (rs.flatMap (writeRecord fields) ++ padding) = some rs := by
  induction rs generalizing fuel with
  | nil =>
    obtain ⟨fuel, rfl⟩ := Nat.exists_eq_add_of_le' hfuel
    exact if_pos hpadding
  | cons r rs ih =>
    obtain ⟨fuel, rfl⟩ := Nat.exists_eq_add_of_le' (Nat.zero_lt_of_lt hfuel)
    have hr := h r (List.mem_cons_self ..)
    have hlong := minLength_le hr
    rw [readRecords, if_neg (by
      rw [List.flatMap_cons, List.append_assoc, List.length_append]
      omega), List.flatMap_cons, List.append_assoc, readRecord_writeRecord hr]
    simp only [Option.bind_eq_bind, Option.bind_some]
    rw [ih (fun q hq => h q (List.mem_cons_of_mem r hq)) (Nat.lt_of_succ_lt_succ hfuel)]
    rfl

/-- There are as many records as bytes at most. -/
theorem length_le_flatMap {fields : List Field} (hpos : 0 < minLength fields) {rs : List Record}
    (h : ∀ r ∈ rs, List.Forall₂ Fits fields r) :
    rs.length ≤ (rs.flatMap (writeRecord fields)).length := by
  induction rs with
  | nil => exact le_rfl
  | cons r rs ih =>
    have hr := minLength_le (h r (List.mem_cons_self ..))
    have hrs := ih fun q hq => h q (List.mem_cons_of_mem r hq)
    rw [List.flatMap_cons, List.length_append, List.length_cons]
    omega

/-- **The sets** are told apart. -/
theorem readParts_writeParts {parts : List Part}
    (h : ∀ p ∈ parts, p.1 < 256 ^ 2 ∧ p.2.length + 4 < 256 ^ 2) {fuel : ℕ}
    (hfuel : parts.length < fuel) : readParts fuel (parts.flatMap writePart) = some parts := by
  induction parts generalizing fuel with
  | nil =>
    obtain ⟨fuel, rfl⟩ := Nat.exists_eq_add_of_le' hfuel
    exact if_pos rfl
  | cons p parts ih =>
    obtain ⟨fuel, rfl⟩ := Nat.exists_eq_add_of_le' (Nat.zero_lt_of_lt hfuel)
    obtain ⟨hid, hlength⟩ := h p (List.mem_cons_self ..)
    have hne : List.flatMap writePart (p :: parts) ≠ [] := by
      refine List.ne_nil_of_length_pos ?_
      rw [List.flatMap_cons, List.length_append, writePart, List.length_append,
        List.length_append, length_beBytes]
      omega
    rw [readParts, if_neg hne, List.flatMap_cons, writePart, List.append_assoc, List.append_assoc,
      readNat_append hid]
    simp only [Option.bind_eq_bind, Option.bind_some]
    rw [readNat_append hlength]
    simp only [Option.bind_some]
    rw [if_pos (Nat.le_add_left 4 _), Nat.add_sub_cancel, takeBytes_append rfl]
    simp only [Option.bind_some]
    rw [ih (fun q hq => h q (List.mem_cons_of_mem p hq)) (Nat.lt_of_succ_lt_succ hfuel)]
    rfl

theorem length_writePart (p : Part) : (writePart p).length = p.2.length + 4 := by
  unfold writePart
  rw [List.length_append, List.length_append, length_beBytes, length_beBytes]
  omega

/-- A set is no longer than all of them. -/
theorem length_le_parts {parts : List Part} {p : Part} (h : p ∈ parts) :
    p.2.length + 4 ≤ (parts.flatMap writePart).length := by
  rw [← length_writePart, List.flatMap_def]
  exact (List.sublist_flatten_of_mem (List.mem_map_of_mem h)).length_le

/-- A set of one template makes it known. -/
theorem readData_template {options : Bool} {id : ℕ} (hset : id = if options then 3 else 2)
    {t : Template} (hid : t.id < 256 ^ 2) (hcount : t.fields.length < 256 ^ 2)
    (h : ∀ f ∈ t.fields, f.Small) {padding : List UInt8} (hpadding : padding.length < 4)
    (known : List Template) (parts : List Part) :
    readData known ((id, writeTemplate options t ++ padding) :: parts) =
      readData (t :: known) parts := by
  have hlong := four_le_template options t padding
  have hread : readTemplates options ((writeTemplate options t ++ padding).length + 1)
      (writeTemplate options t ++ padding) = some [t] :=
    readTemplates_writeTemplate hid hcount h hpadding (by omega)
  have hoptions : decide (id = 3) = options := by
    subst hset
    cases options <;> rfl
  have hcase : id = 2 ∨ id = 3 := by
    subst hset
    cases options
    exacts [.inl rfl, .inr rfl]
  rw [readData, if_pos hcase, hoptions, hread]
  rfl

/-- A set of records is read by the template of its number. -/
theorem readData_records {known : List Template} {id : ℕ} {t : Template}
    (hknown : known.find? (fun t => t.id = id) = some t) (hid : ¬ (id = 2 ∨ id = 3))
    {rs : List Record} (h : ∀ r ∈ rs, List.Forall₂ Fits t.fields r) {padding : List UInt8}
    (hpadding : padding.length < minLength t.fields) (parts : List Part) :
    readData known ((id, rs.flatMap (writeRecord t.fields) ++ padding) :: parts) =
      (readData known parts).map ((id, rs) :: ·) := by
  have hcount := length_le_flatMap (Nat.zero_lt_of_lt hpadding) h
  have hread : readRecords t.fields ((rs.flatMap (writeRecord t.fields) ++ padding).length + 1)
      (rs.flatMap (writeRecord t.fields) ++ padding) = some rs :=
    readRecords_writeRecords h hpadding (by rw [List.length_append]; omega)
  rw [readData, if_neg hid, hknown]
  simp only [Option.bind_eq_bind, Option.bind_some]
  rw [hread]
  cases readData known parts <;> rfl

end

end MacHPSDR.Ipfix
