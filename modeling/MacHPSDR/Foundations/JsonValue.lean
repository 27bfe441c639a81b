import MacHPSDR.Foundations.JsonGrammar
import Mathlib

/-!
# JSON values

The values of RFC 8259, objects and arrays in each other included, with a bound on how deep they are
nested (`IsValue`), and what a string says (`Spells`, `characters`): an escape `\uXXXX` is a code
unit of UTF-16, and two of them that are a surrogate pair are one character. A surrogate without its
other half is no character; U+FFFD stands for it.
-/

namespace MacHPSDR.FlatJson

/-! ## Nested values -/

def openBracket : UInt8 := 0x5B
def closeBracket : UInt8 := 0x5D

/-- What holds values. -/
inductive Kind
  | array | object
  deriving DecidableEq

namespace Kind

def opening : Kind → UInt8
  | array => openBracket
  | object => openBrace

def closing : Kind → UInt8
  | array => closeBracket
  | object => closeBrace

/-- What stands in front of a value: white space, or the key and the colon. -/
def IsLead : Kind → List UInt8 → Prop
  | array, lead => ∀ b ∈ lead, isWs b
  | object, lead => ∃ before key beforeColon afterColon,
      lead = before ++ quote :: (key ++ quote :: (beforeColon ++ colon :: afterColon)) ∧
      (∀ b ∈ before, isWs b) ∧ Chars key ∧ (∀ b ∈ beforeColon, isWs b) ∧ ∀ b ∈ afterColon, isWs b

end Kind

/-- A value with what stands before and after it. -/
structure Element where
  lead : List UInt8
  value : List UInt8
  after : List UInt8

/-- The text of elements, with `rest` behind the closing bracket. -/
def renderElements (closing : UInt8) (rest : List UInt8) : Element → List Element → List UInt8
  | e, [] => e.lead ++ (e.value ++ (e.after ++ closing :: rest))
  | e, e' :: es => e.lead ++ (e.value ++ (e.after ++ comma :: renderElements closing rest e' es))

theorem renderElements_append (closing : UInt8) (rest : List UInt8) (e : Element)
    (es : List Element) :
    renderElements closing [] e es ++ rest = renderElements closing rest e es := by
  induction es generalizing e with
  | nil => simp [renderElements]
  | cons e' es ih => simp [renderElements, ih]

def literals : List (List UInt8) := [ascii "true", ascii "false", ascii "null"]

/-- A value in which no more than so many objects and arrays are around another value. -/
inductive IsValue : ℕ → List UInt8 → Prop
  | string {depth : ℕ} {body : List UInt8} (h : Chars body) :
    IsValue depth (quote :: (body ++ [quote]))
  | literal {depth : ℕ} {word : List UInt8} (h : word ∈ literals) : IsValue depth word
  | number {depth : ℕ} {bs : List UInt8} (h : IsNumber bs) : IsValue depth bs
  | blank {depth : ℕ} (kind : Kind) {ws : List UInt8} (h : ∀ b ∈ ws, isWs b) :
    IsValue depth (kind.opening :: (ws ++ [kind.closing]))
  | elements {depth : ℕ} (kind : Kind) {e : Element} {es : List Element}
    (hlead : ∀ x ∈ e :: es, kind.IsLead x.lead) (hvalue : ∀ x ∈ e :: es, IsValue depth x.value)
    (hafter : ∀ x ∈ e :: es, ∀ b ∈ x.after, isWs b) :
    IsValue (depth + 1) (kind.opening :: renderElements kind.closing [] e es)

/-! ## What a string says -/

def hexDigitValue (b : UInt8) : ℕ :=
  if isDigit b then b.toNat - 0x30 else if b < 0x61 then b.toNat - 0x41 + 10
  else b.toNat - 0x61 + 10

/-- The number of four hexadecimal digits. -/
def codeUnit (h₁ h₂ h₃ h₄ : UInt8) : ℕ :=
  ((hexDigitValue h₁ * 16 + hexDigitValue h₂) * 16 + hexDigitValue h₃) * 16 + hexDigitValue h₄

/-- What an escape of one byte stands for. -/
def escapeChars : List (UInt8 × Char) :=
  [(quote, '"'), (backslash, '\\'), (0x2F, '/'), (0x62, '\x08'), (0x66, '\x0c'), (0x6E, '\n'),
    (0x72, '\r'), (0x74, '\t')]

/-- A character that is written as itself or with an escape of one byte, or a code unit. -/
inductive Piece
  | char (c : Char)
  | unit (n : ℕ)
  deriving DecidableEq

/-- The pieces that a string is made of. -/
inductive Spells : List UInt8 → List Piece → Prop
  | nil : Spells [] []
  | unescaped (c : Char) (hc : 0x20 ≤ c.val) (hq : c ≠ '"') (hb : c ≠ '\\') {bs : List UInt8}
    {ps : List Piece} (h : Spells bs ps) : Spells (String.utf8EncodeChar c ++ bs) (.char c :: ps)
  | escape {b : UInt8} {c : Char} (hb : (b, c) ∈ escapeChars) {bs : List UInt8} {ps : List Piece}
    (h : Spells bs ps) : Spells (backslash :: b :: bs) (.char c :: ps)
  | unicode {h₁ h₂ h₃ h₄ : UInt8} (hex : ∀ b ∈ [h₁, h₂, h₃, h₄], isHexDigit b) {bs : List UInt8}
    {ps : List Piece} (h : Spells bs ps) :
    Spells (backslash :: letterU :: h₁ :: h₂ :: h₃ :: h₄ :: bs) (.unit (codeUnit h₁ h₂ h₃ h₄) :: ps)

theorem mem_escapeBytes {b : UInt8} (hb : b ∈ escapeBytes) : ∃ c, (b, c) ∈ escapeChars := by
  have hbytes : escapeBytes = escapeChars.map Prod.fst := by rfl
  rw [hbytes] at hb
  obtain ⟨⟨d, c⟩, hmem, rfl⟩ := List.mem_map.1 hb
  exact ⟨c, hmem⟩

/-- A string is made of pieces. -/
theorem Chars.spells {bs : List UInt8} (h : Chars bs) : ∃ ps, Spells bs ps := by
  induction h with
  | nil => exact ⟨[], .nil⟩
  | unescaped c hc hq hb _ ih =>
    obtain ⟨ps, hps⟩ := ih
    exact ⟨_, .unescaped c hc hq hb hps⟩
  | escape hb _ ih =>
    obtain ⟨ps, hps⟩ := ih
    obtain ⟨c, hc⟩ := mem_escapeBytes hb
    exact ⟨_, .escape hc hps⟩
  | unicode hex _ ih =>
    obtain ⟨ps, hps⟩ := ih
    exact ⟨_, .unicode hex hps⟩

/-- The first half of a surrogate pair. -/
def IsHigh (n : ℕ) : Prop := 0xD800 ≤ n ∧ n ≤ 0xDBFF

/-- The second half. -/
def IsLow (n : ℕ) : Prop := 0xDC00 ≤ n ∧ n ≤ 0xDFFF

instance : DecidablePred IsHigh := fun _ => inferInstanceAs (Decidable (_ ∧ _))

instance : DecidablePred IsLow := fun _ => inferInstanceAs (Decidable (_ ∧ _))

/-- The character of a surrogate pair. -/
def paired (high low : ℕ) : Char := Char.ofNat (0x10000 + (high - 0xD800) * 1024 + (low - 0xDC00))

/-- The character of a code unit on its own. -/
def alone (n : ℕ) : Char := if IsHigh n ∨ IsLow n then '\uFFFD' else Char.ofNat n

/-- The characters that the pieces say. -/
def characters : List Piece → List Char
  | [] => []
  | .char c :: ps => c :: characters ps
  | .unit n :: .unit m :: ps =>
    if IsHigh n ∧ IsLow m then paired n m :: characters ps
    else alone n :: characters (.unit m :: ps)
  | .unit n :: ps => alone n :: characters ps

example : characters [.unit 0xD83D, .unit 0xDE00, .unit 0xD83D] = ['😀', '\uFFFD'] := by decide

/-! ## Bytes that are not zero -/

theorem utf8EncodeChar_nul : String.utf8EncodeChar '\x00' = [0] := by decide

theorem zero_not_mem_utf8EncodeChar {c : Char} (hc : c ≠ '\x00') :
    (0 : UInt8) ∉ String.utf8EncodeChar c := by
  intro hzero
  obtain ⟨hlt, hu⟩ | ⟨-, hu⟩ := utf8EncodeChar_cases c
  · rw [hu, List.mem_singleton] at hzero
    have hval := congrArg UInt8.toNat hzero
    rw [UInt32.lt_iff_toNat_lt] at hlt
    change c.val.toNat < 128 at hlt
    rw [UInt32.toNat_toUInt8] at hval
    refine hc (Char.ext (UInt32.toNat_inj.1 ?_))
    change c.val.toNat = 0
    change 0 = _ at hval
    omega
  · exact absurd (hu 0 hzero) (by decide)

/-- A text ends at its first zero byte where its characters end at the first NUL. -/
theorem takeWhile_utf8 (cs : List Char) :
    (utf8 cs).takeWhile (· ≠ 0) = utf8 (cs.takeWhile (· ≠ '\x00')) := by
  induction cs with
  | nil => rfl
  | cons c cs ih =>
    rw [utf8, List.flatMap_cons]
    by_cases hc : c = '\x00'
    · rw [hc, utf8EncodeChar_nul]
      rfl
    · have hall : ∀ b ∈ String.utf8EncodeChar c, decide (b ≠ 0) = true := fun b hb =>
        decide_eq_true fun h => zero_not_mem_utf8EncodeChar hc (h ▸ hb)
      have hcons : (c :: cs).takeWhile (· ≠ '\x00') = c :: cs.takeWhile (· ≠ '\x00') :=
        List.takeWhile_cons_of_pos (decide_eq_true hc)
      rw [List.takeWhile_append_of_pos hall, hcons]
      exact congrArg _ ih

end MacHPSDR.FlatJson
