import MacHPSDR.Foundations.FlatJson
import Mathlib

/-!
# The grammar of flat JSON objects

RFC 8259 for objects without arrays and objects in them, over the bytes of their UTF-8 text: the
characters of strings (`Chars`), numbers (`IsNumber`) and layouts (`Layout.Rfc`). A text is a flat
object if it has such a layout (`IsFlatObject`); of a loose text it is enough to look at the layout
it has (`isFlatObject_render`).

A string can go wrong in its encoding or in its escapes, and `chars_iff` takes the two apart.
-/

namespace MacHPSDR.FlatJson

/-! ## The grammar -/

def isHexDigit (b : UInt8) : Bool :=
  isDigit b || decide (0x41 ≤ b ∧ b ≤ 0x46) || decide (0x61 ≤ b ∧ b ≤ 0x66)

/-- The bytes that may follow a backslash on their own. -/
def escapeBytes : List UInt8 := ascii "\"\\/bfnrt"

def letterU : UInt8 := 0x75

/-- The characters of a string. -/
inductive Chars : List UInt8 → Prop
  | nil : Chars []
  | unescaped (c : Char) (hc : 0x20 ≤ c.val) (hq : c ≠ '"') (hb : c ≠ '\\') {bs : List UInt8}
    (h : Chars bs) : Chars (String.utf8EncodeChar c ++ bs)
  | escape {b : UInt8} (hb : b ∈ escapeBytes) {bs : List UInt8} (h : Chars bs) :
    Chars (backslash :: b :: bs)
  | unicode {h₁ h₂ h₃ h₄ : UInt8} (hex : ∀ b ∈ [h₁, h₂, h₃, h₄], isHexDigit b) {bs : List UInt8}
    (h : Chars bs) : Chars (backslash :: letterU :: h₁ :: h₂ :: h₃ :: h₄ :: bs)

/-- Digits, one at least. -/
def IsDigits (ds : List UInt8) : Prop := ds ≠ [] ∧ ∀ d ∈ ds, isDigit d

/-- `int`: a zero, or digits that begin with another. -/
def IsInt (ds : List UInt8) : Prop := IsDigits ds ∧ (ds.head? = some 0x30 → ds.length = 1)

def IsFrac (bs : List UInt8) : Prop := bs = [] ∨ ∃ ds, bs = 0x2E :: ds ∧ IsDigits ds

def IsExp (bs : List UInt8) : Prop :=
  bs = [] ∨ ∃ e sign ds, bs = e :: (sign ++ ds) ∧ (e = 0x65 ∨ e = 0x45) ∧
    (sign = [] ∨ sign = [0x2B] ∨ sign = [0x2D]) ∧ IsDigits ds

def IsNumber (bs : List UInt8) : Prop :=
  ∃ sign int frac exp, bs = sign ++ (int ++ (frac ++ exp)) ∧ (sign = [] ∨ sign = [0x2D]) ∧
    IsInt int ∧ IsFrac frac ∧ IsExp exp

def Value.Rfc : Value → Prop
  | .string body => Chars body
  | .bare token => token = ascii "true" ∨ token = ascii "false" ∨ token = ascii "null" ∨
      IsNumber token

structure Member.Rfc (m : Member) : Prop where
  before : ∀ b ∈ m.before, isWs b
  key : Chars m.key
  beforeColon : ∀ b ∈ m.beforeColon, isWs b
  afterColon : ∀ b ∈ m.afterColon, isWs b
  value : m.value.Rfc
  after : ∀ b ∈ m.after, isWs b

def Last.Rfc : Last → Prop
  | .member m => m.Rfc
  | .blank ws => ∀ b ∈ ws, isWs b

/-- A comma stands between members only. -/
def Layout.NoTrailingComma (l : Layout) : Prop := ∀ ws, l.last = .blank ws → l.init = []

structure Layout.Rfc (l : Layout) : Prop where
  before : ∀ b ∈ l.before, isWs b
  init : ∀ m ∈ l.init, m.Rfc
  last : l.last.Rfc
  after : ∀ b ∈ l.after, isWs b
  noTrailingComma : l.NoTrailingComma

/-- The text is a flat JSON object. -/
def IsFlatObject (text : List UInt8) : Prop := ∃ l : Layout, l.Rfc ∧ l.render = text

/-! ## The encoding of characters -/

/-- A character is one byte below 128, or bytes from 128 on. -/
theorem utf8EncodeChar_cases (c : Char) :
    (c.val < 0x80 ∧ String.utf8EncodeChar c = [c.val.toUInt8]) ∨
      0x80 ≤ c.val ∧ ∀ b ∈ String.utf8EncodeChar c, 0x80 ≤ b := by
  have hlarge {n : ℕ} (h1 : 128 ≤ n) (h2 : n < 256) : 0x80 ≤ UInt8.ofNat n := by
    rw [UInt8.le_iff_toNat_le, UInt8.toNat_ofNat_of_lt' h2]
    exact h1
  by_cases hc : c.val < 0x80
  · left
    refine ⟨hc, String.utf8EncodeChar_eq_singleton ?_⟩
    have hle : c.val ≤ 0x7F := by
      rw [UInt32.le_iff_toNat_le]
      have := UInt32.lt_iff_toNat_lt.1 hc
      simp at this ⊢
      omega
    simp [Char.utf8Size, hle]
  · right
    have hgt : ¬ c.val.toNat ≤ 127 := by
      intro hle
      refine hc (UInt32.lt_iff_toNat_lt.2 ?_)
      change c.val.toNat < 128
      omega
    refine ⟨UInt32.not_lt.1 hc, ?_⟩
    unfold String.utf8EncodeChar
    simp only [if_neg hgt]
    split_ifs <;> intro b hb <;> simp only [List.mem_cons, List.not_mem_nil, or_false] at hb
    · obtain rfl | rfl := hb <;> exact hlarge (by omega) (by omega)
    · obtain rfl | rfl | rfl := hb <;> exact hlarge (by omega) (by omega)
    · obtain rfl | rfl | rfl | rfl := hb <;> exact hlarge (by omega) (by omega)

/-- The bytes of a text. -/
def utf8 (cs : List Char) : List UInt8 := cs.flatMap String.utf8EncodeChar

def IsUtf8 (bs : List UInt8) : Prop := ∃ cs, utf8 cs = bs

/-- An ASCII byte at the head is a character of its own. -/
theorem utf8_cons {cs : List Char} {b : UInt8} {bs : List UInt8} (hb : b < 0x80)
    (h : utf8 cs = b :: bs) : ∃ c cs', cs = c :: cs' ∧ utf8 cs' = bs := by
  cases cs with
  | nil => cases h
  | cons c cs =>
    refine ⟨c, cs, rfl, ?_⟩
    rw [utf8, List.flatMap_cons] at h
    obtain ⟨-, hc⟩ | ⟨-, hc⟩ := utf8EncodeChar_cases c
    · rw [hc] at h
      exact (List.cons.inj h).2
    · cases hu : String.utf8EncodeChar c with
      | nil => exact absurd hu String.utf8EncodeChar_ne_nil
      | cons d ds =>
        rw [hu] at h hc
        obtain ⟨rfl, -⟩ := List.cons.inj h
        exact absurd (hc d (by simp)) (UInt8.not_le.2 hb)

theorem utf8_append {cs : List Char} {a bs : List UInt8} (ha : ∀ b ∈ a, b < 0x80)
    (h : utf8 cs = a ++ bs) : ∃ cs', utf8 cs' = bs ∧ cs'.length ≤ cs.length := by
  induction a generalizing cs with
  | nil => exact ⟨cs, h, le_rfl⟩
  | cons b a ih =>
    obtain ⟨c, cs', rfl, h'⟩ := utf8_cons (ha b (by simp)) h
    obtain ⟨ds, hds, hlen⟩ := ih (fun b hb => ha b (by simp [hb])) h'
    exact ⟨ds, hds, hlen.trans (by simp)⟩

/-- A character that is none of the first 32, a quote or a backslash. -/
theorem mem_utf8EncodeChar {c : Char} (hc : 0x20 ≤ c.val) (hq : c ≠ '"') (hb : c ≠ '\\') :
    ∀ b ∈ String.utf8EncodeChar c, 0x20 ≤ b ∧ b ≠ quote ∧ b ≠ backslash := by
  have hval {d : Char} (h : c.val.toUInt8 = d.val.toUInt8) (hd : d.val < 0x80)
      (hlt : c.val < 0x80) : c = d := by
    refine Char.ext (UInt32.toNat_inj.1 ?_)
    have := congrArg UInt8.toNat h
    rw [UInt32.lt_iff_toNat_lt] at hd hlt
    simp only [UInt32.toNat_toUInt8] at this
    change _ < 128 at hd hlt
    omega
  obtain ⟨hlt, hu⟩ | ⟨-, hu⟩ := utf8EncodeChar_cases c
  · rw [hu]
    intro b hb'
    obtain rfl := List.mem_singleton.1 hb'
    refine ⟨?_, fun h => hq (hval h (by decide) hlt), fun h => hb (hval h (by decide) hlt)⟩
    rw [UInt32.le_iff_toNat_le] at hc
    rw [UInt32.lt_iff_toNat_lt] at hlt
    rw [UInt8.le_iff_toNat_le, UInt32.toNat_toUInt8]
    change 32 ≤ _ at hc
    change _ < 128 at hlt
    change 32 ≤ _
    omega
  · intro b hb'
    have h80 : (0x80 : UInt8) ≤ b := hu b hb'
    have h20 : (0x20 : UInt8) ≤ b := UInt8.le_trans (by decide) h80
    refine ⟨h20, ?_, ?_⟩ <;> rintro rfl <;> exact absurd h80 (by decide)

/-! ## Strings -/

/-- Every backslash begins an escape of JSON. -/
inductive Escapes : List UInt8 → Prop
  | nil : Escapes []
  | plain {b : UInt8} (hb : b ≠ backslash) {bs : List UInt8} (h : Escapes bs) : Escapes (b :: bs)
  | escape {b : UInt8} (hb : b ∈ escapeBytes) {bs : List UInt8} (h : Escapes bs) :
    Escapes (backslash :: b :: bs)
  | unicode {h₁ h₂ h₃ h₄ : UInt8} (hex : ∀ b ∈ [h₁, h₂, h₃, h₄], isHexDigit b) {bs : List UInt8}
    (h : Escapes bs) : Escapes (backslash :: letterU :: h₁ :: h₂ :: h₃ :: h₄ :: bs)

theorem Body.not_quote {bs : List UInt8} : ¬ Body (quote :: bs) := by
  intro h
  generalize hq : quote = q at h
  cases h with
  | plain h _ _ => exact h hq.symm
  | escape => exact absurd hq (by decide)

theorem Body.append {a b : List UInt8} (ha : ∀ c ∈ a, c ≠ quote ∧ c ≠ backslash) (hb : Body b) :
    Body (a ++ b) := by
  induction a with
  | nil => exact hb
  | cons c a ih =>
    obtain ⟨hq, hs⟩ := ha c (by simp)
    exact .plain hq hs (ih fun d hd => ha d (by simp [hd]))

theorem Body.of_append {a b : List UInt8} (ha : ∀ c ∈ a, c ≠ backslash) (h : Body (a ++ b)) :
    Body b := by
  induction a with
  | nil => exact h
  | cons c a ih =>
    rw [List.cons_append] at h
    generalize hx : a ++ b = x at h
    cases h with
    | plain _ _ h => exact ih (fun d hd => ha d (by simp [hd])) (hx ▸ h)
    | escape => exact absurd rfl (ha backslash (by simp))

theorem Escapes.append {a b : List UInt8} (ha : ∀ c ∈ a, c ≠ backslash) (hb : Escapes b) :
    Escapes (a ++ b) := by
  induction a with
  | nil => exact hb
  | cons c a ih => exact .plain (ha c (by simp)) (ih fun d hd => ha d (by simp [hd]))

theorem Escapes.of_append {a b : List UInt8} (ha : ∀ c ∈ a, c ≠ backslash)
    (h : Escapes (a ++ b)) : Escapes b := by
  induction a with
  | nil => exact h
  | cons c a ih =>
    rw [List.cons_append] at h
    generalize hx : a ++ b = x at h
    cases h with
    | plain _ h => exact ih (fun d hd => ha d (by simp [hd])) (hx ▸ h)
    | escape => exact absurd rfl (ha backslash (by simp))
    | unicode => exact absurd rfl (ha backslash (by simp))

theorem isHexDigit_bounds {b : UInt8} (h : isHexDigit b) :
    0x20 ≤ b ∧ b < 0x80 ∧ b ≠ quote ∧ b ≠ backslash := by
  simp only [isHexDigit, isDigit] at h
  grind [quote, backslash]

theorem escapeBytes_bounds {b : UInt8} (h : b ∈ escapeBytes) : 0x20 ≤ b ∧ b < 0x80 := by
  have hbytes : escapeBytes = [0x22, 0x5C, 0x2F, 0x62, 0x66, 0x6E, 0x72, 0x74] := by rfl
  rw [hbytes] at h
  simp only [List.mem_cons, List.not_mem_nil, or_false] at h
  obtain rfl | rfl | rfl | rfl | rfl | rfl | rfl | rfl := h <;> decide

theorem Chars.body {bs : List UInt8} (h : Chars bs) : Body bs := by
  induction h with
  | nil => exact .nil
  | unescaped c hc hq hb _ ih =>
    exact .append (fun b hb' => (mem_utf8EncodeChar hc hq hb b hb').2) ih
  | escape hb _ ih => exact .escape _ ih
  | unicode hex _ ih =>
    exact .escape _
      (.append (a := [_, _, _, _]) (fun b hb => (isHexDigit_bounds (hex b hb)).2.2) ih)

theorem Chars.escapes {bs : List UInt8} (h : Chars bs) : Escapes bs := by
  induction h with
  | nil => exact .nil
  | unescaped c hc hq hb _ ih =>
    exact .append (fun b hb' => (mem_utf8EncodeChar hc hq hb b hb').2.2) ih
  | escape hb _ ih => exact .escape hb ih
  | unicode hex _ ih => exact .unicode hex ih

/-- ASCII bytes are their own characters. -/
theorem isUtf8_ascii {a : List UInt8} (ha : ∀ b ∈ a, b < 0x80) : IsUtf8 a := by
  refine ⟨a.map fun b => Char.ofNat b.toNat, ?_⟩
  induction a with
  | nil => rfl
  | cons b a ih =>
    have hb : b.toNat < 128 := UInt8.lt_iff_toNat_lt.1 (ha b (by simp))
    have hvalid : b.toNat.isValidChar := .inl (by omega)
    have hval : (Char.ofNat b.toNat).val.toNat = b.toNat := by
      rw [← Char.toNat, Char.toNat_ofNat, if_pos hvalid]
    have hbyte : String.utf8EncodeChar (Char.ofNat b.toNat) = [b] := by
      rw [String.utf8EncodeChar, hval]
      simp [show b.toNat ≤ 127 by omega]
    rw [List.map_cons, utf8, List.flatMap_cons, hbyte]
    exact congrArg (b :: ·) (ih fun c hc => ha c (by simp [hc]))

theorem utf8_backslash (cs : List Char) : utf8 ('\\' :: cs) = backslash :: utf8 cs := rfl

theorem IsUtf8.append {a b : List UInt8} (ha : IsUtf8 a) (hb : IsUtf8 b) : IsUtf8 (a ++ b) := by
  obtain ⟨cs, rfl⟩ := ha
  obtain ⟨ds, rfl⟩ := hb
  exact ⟨cs ++ ds, List.flatMap_append⟩

theorem Chars.isUtf8 {bs : List UInt8} (h : Chars bs) : IsUtf8 bs := by
  induction h with
  | nil => exact ⟨[], rfl⟩
  | unescaped c _ _ _ _ ih => exact .append ⟨[c], by simp [utf8]⟩ ih
  | escape hb _ ih =>
    refine .append (a := [_, _]) (isUtf8_ascii ?_) ih
    simp [(escapeBytes_bounds hb).2]
    decide
  | unicode hex _ ih =>
    refine .append (a := [_, _, _, _, _, _]) (isUtf8_ascii fun b hb => ?_) ih
    obtain rfl | rfl | hb : b = backslash ∨ b = letterU ∨ b ∈ [_, _, _, _] := by simpa using hb
    · decide
    · decide
    · exact (isHexDigit_bounds (hex b hb)).2.1

theorem Chars.ge {bs : List UInt8} (h : Chars bs) : ∀ b ∈ bs, 0x20 ≤ b := by
  induction h with
  | nil => simp
  | unescaped c hc hq hb _ ih =>
    intro b hb'
    obtain h | h := List.mem_append.1 hb'
    · exact (mem_utf8EncodeChar hc hq hb b h).1
    · exact ih b h
  | escape hb _ ih =>
    intro b hb'
    obtain rfl | rfl | h : b = backslash ∨ b = _ ∨ b ∈ _ := by simpa using hb'
    · decide
    · exact (escapeBytes_bounds hb).1
    · exact ih b h
  | unicode hex _ ih =>
    intro b hb'
    obtain rfl | rfl | h : b = backslash ∨ b = letterU ∨ b ∈ [_, _, _, _] ++ _ := by
      simpa using hb'
    · decide
    · decide
    · obtain h | h := List.mem_append.1 h
      · exact (isHexDigit_bounds (hex b h)).1
      · exact ih b h

/-- A text of characters without control characters, in which every quote has its backslash and
every backslash begins an escape. -/
theorem Chars.of_utf8 (cs : List Char) (hbody : Body (utf8 cs)) (hesc : Escapes (utf8 cs))
    (hge : ∀ b ∈ utf8 cs, 0x20 ≤ b) : Chars (utf8 cs) := by
  induction hn : cs.length using Nat.strong_induction_on generalizing cs with
  | h n ih =>
    cases cs with
    | nil => exact .nil
    | cons c cs =>
      by_cases hb : c = '\\'
      · -- the backslash takes characters that are one byte each
        subst hb
        rw [utf8_backslash] at hbody hesc hge ⊢
        generalize hx : utf8 cs = x at hbody hesc hge ⊢
        cases hesc with
        | plain hb _ => exact absurd rfl hb
        | escape hb hesc =>
          obtain ⟨cs', rfl, hlen⟩ := utf8_append (a := [_])
            (by simpa using (escapeBytes_bounds hb).2) hx
          refine .escape hb (ih cs'.length (by simp [← hn]; omega) cs' ?_ hesc ?_ rfl)
          · cases hbody with
            | plain _ h => exact absurd rfl h
            | escape _ h => exact h
          · exact fun b hb => hge b (by simp [hb])
        | unicode hex hesc =>
          obtain ⟨cs', rfl, hlen⟩ := utf8_append (a := [_, _, _, _, _])
            (by
              rintro b (_ | ⟨_, hb⟩)
              · decide
              · exact (isHexDigit_bounds (hex b hb)).2.1) hx
          refine .unicode hex (ih cs'.length (by simp [← hn]; omega) cs' ?_ hesc ?_ rfl)
          · cases hbody with
            | plain _ h => exact absurd rfl h
            | escape _ h =>
              exact .of_append (a := [_, _, _, _])
                (fun b hb => (isHexDigit_bounds (hex b hb)).2.2.2) h
          · exact fun b hb => hge b (by simp [hb])
      · have hrest : utf8 (c :: cs) = String.utf8EncodeChar c ++ utf8 cs := List.flatMap_cons
        rw [hrest] at hbody hesc hge ⊢
        have hc : 0x20 ≤ c.val := by
          obtain ⟨hlt, hu⟩ | ⟨hge, -⟩ := utf8EncodeChar_cases c
          · have h20 := hge c.val.toUInt8 (by simp [hu])
            rw [UInt8.le_iff_toNat_le, UInt32.toNat_toUInt8] at h20
            rw [UInt32.lt_iff_toNat_lt] at hlt
            rw [UInt32.le_iff_toNat_le]
            change 32 ≤ _ at h20
            change _ < 128 at hlt
            change 32 ≤ _
            omega
          · exact UInt32.le_trans (by decide) hge
        have hq : c ≠ '"' := by
          rintro rfl
          exact Body.not_quote hbody
        have hmem := mem_utf8EncodeChar hc hq hb
        refine .unescaped c hc hq hb (ih cs.length (by simp [← hn]) cs ?_ ?_ ?_ rfl)
        · exact .of_append (fun b hb => (hmem b hb).2.2) hbody
        · exact .of_append (fun b hb => (hmem b hb).2.2) hesc
        · exact fun b hb => hge b (List.mem_append_right _ hb)

/-- **What makes the bytes between two quotes a string.** -/
theorem chars_iff {bs : List UInt8} :
    Chars bs ↔ Body bs ∧ (∀ b ∈ bs, 0x20 ≤ b) ∧ IsUtf8 bs ∧ Escapes bs := by
  constructor
  · exact fun h => ⟨h.body, h.ge, h.isUtf8, h.escapes⟩
  · rintro ⟨hbody, hge, ⟨cs, rfl⟩, hesc⟩
    exact .of_utf8 cs hbody hesc hge

/-! ## The layout of a loose text -/

theorem isSpace_of_isWs {b : UInt8} (h : isWs b) : isSpace b := by
  simp [isSpace, h]

theorem isBare_of_isDigit {b : UInt8} (h : isDigit b) : isBare b := by
  simp [isBare, h]

theorem IsNumber.isBare {bs : List UInt8} (h : IsNumber bs) :
    bs ≠ [] ∧ ∀ b ∈ bs, isBare b := by
  obtain ⟨sign, int, frac, exp, rfl, hsign, ⟨⟨hne, hint⟩, -⟩, hfrac, hexp⟩ := h
  refine ⟨by simp [hne], fun b hb => ?_⟩
  simp only [List.mem_append] at hb
  obtain hb | hb | hb | hb := hb
  · obtain rfl | rfl := hsign
    · cases hb
    · obtain rfl := List.mem_singleton.1 hb
      decide
  · exact isBare_of_isDigit (hint b hb)
  · obtain rfl | ⟨ds, rfl, -, hds⟩ := hfrac
    · cases hb
    · obtain rfl | hb := List.mem_cons.1 hb
      · decide
      · exact isBare_of_isDigit (hds b hb)
  · obtain rfl | ⟨e, s, ds, rfl, he, hs, -, hds⟩ := hexp
    · cases hb
    · obtain rfl | hb := List.mem_cons.1 hb
      · obtain rfl | rfl := he <;> decide
      · obtain hb | hb := List.mem_append.1 hb
        · obtain rfl | rfl | rfl := hs
          · cases hb
          · obtain rfl := List.mem_singleton.1 hb
            decide
          · obtain rfl := List.mem_singleton.1 hb
            decide
        · exact isBare_of_isDigit (hds b hb)

theorem Value.Rfc.loose {v : Value} (h : v.Rfc) : v.Loose := by
  cases v with
  | string body => exact Chars.body h
  | bare token =>
    obtain rfl | rfl | rfl | h := h
    · exact ⟨by decide, List.all_eq_true.1 (by decide)⟩
    · exact ⟨by decide, List.all_eq_true.1 (by decide)⟩
    · exact ⟨by decide, List.all_eq_true.1 (by decide)⟩
    · exact h.isBare

theorem Member.Rfc.loose {m : Member} (h : m.Rfc) : m.Loose where
  before b hb := isSpace_of_isWs (h.before b hb)
  key := h.key.body
  beforeColon b hb := isSpace_of_isWs (h.beforeColon b hb)
  afterColon b hb := isSpace_of_isWs (h.afterColon b hb)
  value := h.value.loose
  after b hb := isSpace_of_isWs (h.after b hb)

theorem Layout.Rfc.loose {l : Layout} (h : l.Rfc) : l.Loose where
  before b hb := isSpace_of_isWs (h.before b hb)
  init m hm := (h.init m hm).loose
  last := by
    have hlast := h.last
    generalize l.last = last at hlast ⊢
    cases last with
    | member m => exact Member.Rfc.loose hlast
    | blank ws => exact fun b hb => isSpace_of_isWs (hlast b hb)
  after b hb := isSpace_of_isWs (h.after b hb)

/-- **A loose text is a flat object if its layout is one.** -/
theorem isFlatObject_render {l : Layout} (hl : l.Loose) : IsFlatObject l.render ↔ l.Rfc := by
  constructor
  · rintro ⟨l', hrfc, h⟩
    obtain rfl := Layout.render_inj hrfc.loose hl h
    exact hrfc
  · exact fun h => ⟨l, h, rfl⟩

end MacHPSDR.FlatJson
