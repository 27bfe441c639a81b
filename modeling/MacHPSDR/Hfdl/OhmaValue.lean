import MacHPSDR.Hfdl.OhmaReader
import Mathlib

/-!
# JSON in an OHMA message

On a text that begins with a value of JSON the `js_` functions do what JSON says. A value that is
nested in no more than 32 others is stepped over exactly (`jsSkipValue_complete`), and a string is
read as the characters it says, surrogate pairs put together (`jsString_spells`). Two things are
their own: a C string ends at a NUL that was written as `\u0000`, and what looks like the rest of a
number is taken for one.
-/

namespace MacHPSDR.Hfdl

open FlatJson Cursor

/-! ## What a string says -/

theorem gAsciiXdigitValue_hex {b : UInt8} (h : isHexDigit b = true) :
    gAsciiXdigitValue b = some (hexDigitValue b) := if_pos h

/-- One more digit. -/
theorem xdigits_succ {p : List UInt8} {off i : ℕ} {b : UInt8} {q : List UInt8}
    (hp : p.drop (off + i) = b :: q) (hb : isHexDigit b = true) (n cp : ℕ) :
    xdigits p off (n + 1) i cp = xdigits p off n (i + 1) (cp * 16 + hexDigitValue b) := by
  have hlen : off + i ≤ p.length := by
    by_contra hlt
    rw [List.drop_eq_nil_of_le (by omega)] at hp
    cases hp
  rw [xdigits, index_eq hlen, ok_bind, hp, deref, gAsciiXdigitValue_hex hb]

/-- Four hexadecimal digits are read as a code unit. -/
theorem xdigits_codeUnit {h₁ h₂ h₃ h₄ : UInt8} (hex : ∀ b ∈ [h₁, h₂, h₃, h₄], isHexDigit b)
    {p rest : List UInt8} {off : ℕ} (hp : p.drop off = h₁ :: h₂ :: h₃ :: h₄ :: rest) :
    xdigits p off 4 0 0 = .ok (4, codeUnit h₁ h₂ h₃ h₄) := by
  have hdrop (k : ℕ) : p.drop (off + k) = (h₁ :: h₂ :: h₃ :: h₄ :: rest).drop k := by
    rw [← List.drop_drop, hp]
  simp only [List.mem_cons, List.not_mem_nil, or_false, forall_eq_or_imp, forall_eq] at hex
  obtain ⟨hex₁, hex₂, hex₃, hex₄⟩ := hex
  rw [xdigits_succ (hdrop 0) hex₁, xdigits_succ (hdrop 1) hex₂, xdigits_succ (hdrop 2) hex₃,
    xdigits_succ (hdrop 3) hex₄, Nat.zero_mul, Nat.zero_add]
  rfl

theorem surrogatePair_of_not_high {p : List UInt8} {cp : ℕ} (h : ¬ IsHigh cp) :
    surrogatePair p cp = .ok (cp, p) :=
  if_neg fun hcond => h ⟨hcond.1, hcond.2.1⟩

/-- No second escape follows. -/
theorem surrogatePair_alone {p : List UInt8} {cp : ℕ}
    (h : ∀ q, p ≠ backslash :: letterU :: q) : surrogatePair p cp = .ok (cp, p) := by
  unfold surrogatePair
  split
  · rename_i hcond
    have hp := eq_cons_of_deref hcond.2.2 (by decide)
    have hlen : 1 ≤ p.length := by
      rw [hp]
      exact Nat.succ_le_succ (Nat.zero_le _)
    rw [index_eq hlen, ok_bind]
    refine if_neg fun hu => ?_
    rw [List.drop_one] at hu
    apply h p.tail.tail
    rw [← eq_cons_of_deref hu (by decide)]
    exact hp
  · rfl

/-- A second code unit follows. -/
theorem surrogatePair_unit {h₁ h₂ h₃ h₄ : UInt8} (hex : ∀ b ∈ [h₁, h₂, h₃, h₄], isHexDigit b)
    (q : List UInt8) (n : ℕ) :
    surrogatePair (backslash :: letterU :: h₁ :: h₂ :: h₃ :: h₄ :: q) n =
      if IsHigh n ∧ IsLow (codeUnit h₁ h₂ h₃ h₄) then
        .ok (0x10000 + (n - 0xD800) * 1024 + (codeUnit h₁ h₂ h₃ h₄ - 0xDC00), q)
      else .ok (n, backslash :: letterU :: h₁ :: h₂ :: h₃ :: h₄ :: q) := by
  by_cases hhigh : IsHigh n
  · have hu : index (backslash :: letterU :: h₁ :: h₂ :: h₃ :: h₄ :: q) 1 = .ok letterU := rfl
    rw [surrogatePair, if_pos ⟨hhigh.1, hhigh.2, rfl⟩, hu, ok_bind, if_pos rfl,
      xdigits_codeUnit hex rfl, ok_bind]
    by_cases hlow : IsLow (codeUnit h₁ h₂ h₃ h₄)
    · rw [if_pos ⟨hhigh, hlow⟩]
      exact if_pos ⟨rfl, hlow.1, hlow.2⟩
    · rw [if_neg fun h => hlow h.2]
      exact if_neg fun h => hlow h.2
  · rw [surrogatePair_of_not_high hhigh, if_neg fun h => hhigh h.1]

/-- The code point that is put into the string. -/
theorem append_alone (n : ℕ) :
    gStringAppendUnichar (if 0xD800 ≤ n ∧ n ≤ 0xDFFF then 0xFFFD else n) =
      String.utf8EncodeChar (alone n) := by
  unfold gStringAppendUnichar alone
  by_cases h : IsHigh n ∨ IsLow n
  · rw [if_pos h, if_pos (by unfold IsHigh IsLow at h; omega)]
  · rw [if_neg h, if_neg (by unfold IsHigh IsLow at h; omega)]

theorem append_paired (n m : ℕ) :
    gStringAppendUnichar (if 0xD800 ≤ 0x10000 + (n - 0xD800) * 1024 + (m - 0xDC00) ∧
      0x10000 + (n - 0xD800) * 1024 + (m - 0xDC00) ≤ 0xDFFF then 0xFFFD
      else 0x10000 + (n - 0xD800) * 1024 + (m - 0xDC00)) =
      String.utf8EncodeChar (paired n m) := by
  rw [if_neg (by omega)]
  rfl

theorem unicodeEscape_eq {h₁ h₂ h₃ h₄ : UInt8} (hex : ∀ b ∈ [h₁, h₂, h₃, h₄], isHexDigit b)
    (p : List UInt8) :
    unicodeEscape (h₁ :: h₂ :: h₃ :: h₄ :: p) = (do
      let (cp, q) ← surrogatePair p (codeUnit h₁ h₂ h₃ h₄)
      .ok (gStringAppendUnichar (if 0xD800 ≤ cp ∧ cp ≤ 0xDFFF then 0xFFFD else cp), q)) := by
  rw [unicodeEscape, xdigits_codeUnit hex rfl, ok_bind]
  rfl

/-! ### The loop -/

/-- Bytes that stand for themselves. -/
theorem jsStringLoop_plain {bs : List UInt8} (hbs : ∀ b ∈ bs, b ≠ 0 ∧ b ≠ quote ∧ b ≠ backslash)
    (n : ℕ) (p s : List UInt8) :
    jsStringLoop (bs.length + n) (bs ++ p) s = jsStringLoop n p (s ++ bs) := by
  induction bs generalizing s with
  | nil => simp
  | cons b bs ih =>
    obtain ⟨hzero, hquote, hslash⟩ := hbs b List.mem_cons_self
    have hlen : (b :: bs).length + n = (bs.length + n) + 1 := by
      rw [List.length_cons]
      omega
    rw [hlen, jsStringLoop, List.cons_append, deref, if_pos ⟨hzero, hquote⟩, if_pos hslash]
    refine (ih (fun c hc => hbs c (List.mem_cons_of_mem _ hc)) _).trans ?_
    rw [List.append_assoc, List.singleton_append]

theorem escapeValue_eq {b : UInt8} {c : Char} (h : (b, c) ∈ escapeChars) :
    ∃ byte, escapeValue b = some byte ∧ String.utf8EncodeChar c = [byte] := by
  have hall : ∀ e ∈ escapeChars, escapeValue e.1 = (String.utf8EncodeChar e.2).head? ∧
      (String.utf8EncodeChar e.2).length = 1 := by decide
  obtain ⟨hvalue, hlen⟩ := hall (b, c) h
  obtain ⟨byte, hbyte⟩ := List.length_eq_one_iff.1 hlen
  rw [hbyte] at hvalue
  exact ⟨byte, hvalue, hbyte⟩

theorem jsStringLoop_escape {b : UInt8} {c : Char} (h : (b, c) ∈ escapeChars) (n : ℕ)
    (p s : List UInt8) :
    jsStringLoop (n + 1) (backslash :: b :: p) s =
      jsStringLoop n p (s ++ String.utf8EncodeChar c) := by
  obtain ⟨byte, hvalue, hbyte⟩ := escapeValue_eq h
  have hstep : advance 1 (backslash :: b :: p) = .ok (b :: p) := rfl
  rw [jsStringLoop, deref, if_pos ⟨by decide, by decide⟩, if_neg (by decide), hstep, ok_bind, deref,
    hvalue, hbyte]
  rfl

theorem escapeValue_letterU : escapeValue letterU = none := by decide

theorem jsStringLoop_unicode (n : ℕ) (p s : List UInt8) :
    jsStringLoop (n + 1) (backslash :: letterU :: p) s = (do
      let (bytes, q) ← unicodeEscape p
      jsStringLoop n q (s ++ bytes)) := by
  have hstep : advance 1 (backslash :: letterU :: p) = .ok (letterU :: p) := rfl
  rw [jsStringLoop, deref, if_pos ⟨by decide, by decide⟩, if_neg (by decide), hstep, ok_bind, deref,
    escapeValue_letterU]
  rfl

/-- A code unit with nothing behind it that would make a pair. -/
theorem jsStringLoop_alone {h₁ h₂ h₃ h₄ : UInt8} (hex : ∀ b ∈ [h₁, h₂, h₃, h₄], isHexDigit b)
    {p : List UInt8}
    (hp : surrogatePair p (codeUnit h₁ h₂ h₃ h₄) = .ok (codeUnit h₁ h₂ h₃ h₄, p)) (n : ℕ)
    (s : List UInt8) :
    jsStringLoop (n + 1) (backslash :: letterU :: h₁ :: h₂ :: h₃ :: h₄ :: p) s =
      jsStringLoop n p (s ++ String.utf8EncodeChar (alone (codeUnit h₁ h₂ h₃ h₄))) := by
  rw [jsStringLoop_unicode, unicodeEscape_eq hex, hp, ok_bind]
  dsimp only
  rw [append_alone, ok_bind]

/-- What does not begin with a code unit does not begin with its escape. -/
theorem spells_ne_unicode {body : List UInt8} {ps : List FlatJson.Piece} (h : Spells body ps)
    {rest : List UInt8} (hps : ∀ n ps', ps ≠ .unit n :: ps') (q : List UInt8) :
    body ++ quote :: rest ≠ backslash :: letterU :: q := by
  intro heq
  cases h with
  | nil => exact absurd (List.cons.inj heq).1 (by decide)
  | @unescaped c hc hq hb bs ps h =>
    obtain ⟨b, bs', hbs⟩ := List.exists_cons_of_ne_nil (String.utf8EncodeChar_ne_nil (c := c))
    have hslash := (mem_utf8EncodeChar hc hq hb b (by rw [hbs]; exact List.mem_cons_self)).2.2
    rw [hbs] at heq
    exact hslash (List.cons.inj heq).1
  | escape hb h =>
    have hletter : ∀ e ∈ escapeChars, e.1 ≠ letterU := by decide
    exact hletter _ hb (List.cons.inj (List.cons.inj heq).2).1
  | unicode hex h => exact hps _ _ rfl

/-- **The loop makes of a string the characters that its pieces say.** -/
theorem jsStringLoop_spells {body : List UInt8} {ps : List FlatJson.Piece} (h : Spells body ps)
    (rest : List UInt8) {n : ℕ} (hn : body.length < n) (s : List UInt8) :
    jsStringLoop n (body ++ quote :: rest) s = .ok (s ++ utf8 (characters ps), rest) := by
  induction ps using characters.induct generalizing body n s with
  | case1 =>
    cases h
    obtain ⟨n, rfl⟩ := Nat.exists_eq_add_one_of_ne_zero hn.ne'
    rw [List.nil_append, jsStringLoop, deref, if_neg (by decide), if_neg (by decide), characters,
      utf8, List.flatMap_nil, List.append_nil]
    rfl
  | case2 c ps ih =>
    rw [characters, utf8, List.flatMap_cons, ← List.append_assoc]
    cases h with
    | @unescaped c hc hq hb bs ps h =>
      have hplain : ∀ b ∈ String.utf8EncodeChar c, b ≠ 0 ∧ b ≠ quote ∧ b ≠ backslash := by
        intro b hb'
        obtain ⟨hge, hquote, hslash⟩ := mem_utf8EncodeChar hc hq hb b hb'
        refine ⟨?_, hquote, hslash⟩
        rintro rfl
        exact absurd hge (by decide)
      obtain ⟨k, rfl⟩ := Nat.exists_eq_add_of_lt hn
      rw [List.length_append] at hn
      rw [List.length_append, Nat.add_assoc, Nat.add_assoc, List.append_assoc,
        jsStringLoop_plain hplain]
      exact ih h (by omega) _
    | @escape b c hb bs ps h =>
      obtain ⟨n, rfl⟩ := Nat.exists_eq_add_one_of_ne_zero (Nat.ne_zero_of_lt hn)
      rw [List.cons_append, List.cons_append, jsStringLoop_escape hb]
      exact ih h (by simp at hn; omega) _
  | case3 a m ps hpair ih =>
    rw [characters, if_pos hpair, utf8, List.flatMap_cons, ← List.append_assoc]
    cases h with
    | @unicode h₁ h₂ h₃ h₄ hex bs _ h =>
      cases h with
      | @unicode k₁ k₂ k₃ k₄ hex' bs _ h =>
        obtain ⟨n, rfl⟩ := Nat.exists_eq_add_one_of_ne_zero (Nat.ne_zero_of_lt hn)
        simp only [List.cons_append]
        rw [jsStringLoop_unicode, unicodeEscape_eq hex, surrogatePair_unit hex', if_pos hpair,
          ok_bind]
        dsimp only
        rw [append_paired, ok_bind]
        dsimp only
        exact ih h (by simp at hn; omega) _
  | case4 a m ps hpair ih =>
    rw [characters, if_neg hpair, utf8, List.flatMap_cons, ← List.append_assoc]
    cases h with
    | @unicode h₁ h₂ h₃ h₄ hex bs _ h =>
      have hrest := h
      cases h with
      | @unicode k₁ k₂ k₃ k₄ hex' bs _ h =>
        obtain ⟨n, rfl⟩ := Nat.exists_eq_add_one_of_ne_zero (Nat.ne_zero_of_lt hn)
        simp only [List.cons_append]
        rw [jsStringLoop_alone hex (by rw [surrogatePair_unit hex', if_neg hpair])]
        exact ih hrest (by simp at hn ⊢; omega) _
  | case5 a ps hps ih =>
    rw [characters, utf8, List.flatMap_cons, ← List.append_assoc]
    · cases h with
      | @unicode h₁ h₂ h₃ h₄ hex bs _ h =>
        obtain ⟨n, rfl⟩ := Nat.exists_eq_add_one_of_ne_zero (Nat.ne_zero_of_lt hn)
        simp only [List.cons_append]
        rw [jsStringLoop_alone hex (surrogatePair_alone (spells_ne_unicode h hps))]
        exact ih h (by simp at hn; omega) _
    · exact hps

/-- **A string is read as the characters it says**, up to the first NUL. -/
theorem jsString_spells {body : List UInt8} {ps : List FlatJson.Piece} (h : Spells body ps)
    {ws : List UInt8} (hws : ∀ b ∈ ws, isWs b) (rest : List UInt8) {fuel : ℕ}
    (hfuel : (ws ++ quote :: (body ++ quote :: rest)).length < fuel) :
    jsString fuel (ws ++ quote :: (body ++ quote :: rest)) =
      .ok (utf8 ((characters ps).takeWhile (· ≠ '\x00')), rest) := by
  have hskip : jsWs fuel (ws ++ quote :: (body ++ quote :: rest)) =
      .ok (quote :: (body ++ quote :: rest)) := by
    rw [jsWs, skipWhile_eq isWs_zero hfuel, List.dropWhile_append_of_pos hws]
    rfl
  have hstep : advance 1 (quote :: (body ++ quote :: rest)) = .ok (body ++ quote :: rest) := rfl
  have hbody : body.length < fuel := by
    simp only [List.length_append, List.length_cons] at hfuel
    omega
  rw [jsString, hskip, ok_bind, deref, if_neg (not_not.2 rfl), hstep, ok_bind,
    jsStringLoop_spells h rest hbody, ok_bind, List.nil_append]
  exact congrArg (fun s => Except.ok (s, rest)) (takeWhile_utf8 (characters ps))

/-! ## Stepping over a value -/

theorem jsWs_append {ws : List UInt8} (hws : ∀ b ∈ ws, isWs b) {c : UInt8} (hc : isWs c = false)
    {p : List UInt8} {fuel : ℕ} (hfuel : (ws ++ c :: p).length < fuel) :
    jsWs fuel (ws ++ c :: p) = .ok (c :: p) := by
  have hc' : ¬ isWs c = true := by
    rw [hc]
    exact Bool.false_ne_true
  rw [jsWs, skipWhile_eq isWs_zero hfuel, List.dropWhile_append_of_pos hws,
    List.dropWhile_cons_of_neg hc']

theorem isNumberByte_of_isDigit {b : UInt8} (h : isDigit b = true) : isNumberByte b = true := by
  simp [isNumberByte, h]

/-- A number is made of the bytes that the reader takes, and begins with a minus or a digit. -/
theorem IsNumber.numberBytes {bs : List UInt8} (h : IsNumber bs) :
    (∀ b ∈ bs, isNumberByte b = true) ∧ ∃ c cs, bs = c :: cs ∧ (c = 0x2D ∨ isDigit c = true) := by
  obtain ⟨sign, int, frac, exp, rfl, hsign, ⟨⟨hne, hint⟩, -⟩, hfrac, hexp⟩ := h
  have hfrac' : ∀ b ∈ frac, isNumberByte b = true := by
    obtain rfl | ⟨ds, rfl, -, hds⟩ := hfrac
    · simp
    · exact List.forall_mem_cons.2 ⟨by decide, fun b hb => isNumberByte_of_isDigit (hds b hb)⟩
  have hexp' : ∀ b ∈ exp, isNumberByte b = true := by
    obtain rfl | ⟨e, s, ds, rfl, he, hs, -, hds⟩ := hexp
    · simp
    · have he' : isNumberByte e = true := by
        obtain rfl | rfl := he <;> decide
      have hs' : ∀ b ∈ s, isNumberByte b = true := by
        obtain rfl | rfl | rfl := hs
        · simp
        · exact List.forall_mem_singleton.2 (by decide)
        · exact List.forall_mem_singleton.2 (by decide)
      refine List.forall_mem_cons.2 ⟨he', List.forall_mem_append.2 ⟨hs', fun b hb => ?_⟩⟩
      exact isNumberByte_of_isDigit (hds b hb)
  have hint' : ∀ b ∈ int ++ (frac ++ exp), isNumberByte b = true :=
    List.forall_mem_append.2 ⟨fun b hb => isNumberByte_of_isDigit (hint b hb),
      List.forall_mem_append.2 ⟨hfrac', hexp'⟩⟩
  obtain ⟨d, ds, rfl⟩ := List.exists_cons_of_ne_nil hne
  obtain rfl | rfl := hsign
  · exact ⟨hint', d, _, rfl, .inr (hint d List.mem_cons_self)⟩
  · exact ⟨List.forall_mem_cons.2 ⟨by decide, hint'⟩, 0x2D, _, rfl, .inl rfl⟩

theorem dropWhile_append_stop {cond : UInt8 → Bool} {bs rest : List UInt8}
    (hbs : ∀ b ∈ bs, cond b = true) (hrest : cond (deref rest) = false) :
    (bs ++ rest).dropWhile cond = rest := by
  rw [List.dropWhile_append_of_pos hbs]
  cases rest with
  | nil => rfl
  | cons c rest =>
    have hc : ¬ cond c = true := by
      rw [show cond c = false from hrest]
      exact Bool.false_ne_true
    exact List.dropWhile_cons_of_neg hc

theorem jsNumber_eq {bs : List UInt8} (h : IsNumber bs) {rest : List UInt8}
    (hrest : isNumberByte (deref rest) = false) {fuel : ℕ} (hfuel : (bs ++ rest).length < fuel) :
    jsNumber fuel (bs ++ rest) = .ok rest := by
  obtain ⟨hbytes, c, cs, rfl, -⟩ := IsNumber.numberBytes h
  have hcs : ∀ b ∈ cs, isNumberByte b = true := fun b hb => hbytes b (List.mem_cons_of_mem _ hb)
  have hshorter : rest.length < (c :: cs ++ rest).length := by
    rw [List.length_append, List.length_cons]
    omega
  have hcsfuel : (cs ++ rest).length < fuel := by
    rw [List.cons_append, List.length_cons] at hfuel
    omega
  rw [jsNumber, jsSign]
  split
  · have hstep : advance 1 (c :: cs ++ rest) = .ok (cs ++ rest) := rfl
    rw [hstep, ok_bind, skipWhile_eq isNumberByte_zero hcsfuel, ok_bind,
      dropWhile_append_stop hcs hrest, if_pos hshorter]
  · rw [ok_bind, skipWhile_eq isNumberByte_zero hfuel, ok_bind,
      dropWhile_append_stop hbytes hrest, if_pos hshorter]

theorem jsWord_eq {word : List UInt8} (hword : (0 : UInt8) ∉ word) (rest : List UInt8) :
    jsWord word (word ++ rest) = .ok rest := by
  have hfound : word.isPrefixOf (word ++ rest) = true :=
    List.isPrefixOf_iff_prefix.2 (List.prefix_append word rest)
  have hlen : word.length ≤ (word ++ rest).length := by
    rw [List.length_append]
    exact Nat.le_add_right _ _
  rw [jsWord, startsWith_eq hword, ok_bind, hfound, if_pos rfl, advance_eq hlen, List.drop_left]

/-- How a value begins. -/
theorem IsValue.head {depth : ℕ} {bs : List UInt8} (h : IsValue depth bs) :
    ∃ c cs, bs = c :: cs ∧ isWs c = false ∧ c ≠ closeBracket := by
  cases h with
  | string h => exact ⟨_, _, rfl, by decide, by decide⟩
  | literal h =>
    simp only [literals, List.mem_cons, List.not_mem_nil, or_false] at h
    rcases h with rfl | rfl | rfl <;> exact ⟨_, _, rfl, by decide, by decide⟩
  | number h =>
    obtain ⟨-, c, cs, rfl, hc⟩ := IsNumber.numberBytes h
    refine ⟨c, cs, rfl, ?_⟩
    rcases hc with rfl | hdigit
    · decide
    · simp only [isDigit, decide_eq_true_eq] at hdigit
      unfold isWs closeBracket
      grind
  | blank kind h => exact ⟨_, _, rfl, by cases kind <;> decide, by cases kind <;> decide⟩
  | elements kind => exact ⟨_, _, rfl, by cases kind <;> decide, by cases kind <;> decide⟩

/-- What a value is stepped over with, once the white space is behind the cursor. -/
theorem jsSkipValue_eq {fuel depth : ℕ} (hdepth : depth ≤ 32) (frames : ℕ) {ws : List UInt8}
    (hws : ∀ b ∈ ws, isWs b) {c : UInt8} (hc : isWs c = false) {p : List UInt8}
    (hfuel : (ws ++ c :: p).length < fuel) :
    jsSkipValue fuel (frames + 1) (ws ++ c :: p) depth =
      if c = quote then do
        let (_, p) ← jsString fuel (c :: p)
        .ok p
      else if c = openBrace then
        jsSkipContainer (jsSkipValue fuel frames) fuel .object (c :: p) depth
      else if c = openBracket then
        jsSkipContainer (jsSkipValue fuel frames) fuel .array (c :: p) depth
      else if c = 0x74 then jsWord (ascii "true") (c :: p)
      else if c = 0x66 then jsWord (ascii "false") (c :: p)
      else if c = 0x6E then jsWord (ascii "null") (c :: p)
      else jsNumber fuel (c :: p) := by
  rw [jsSkipValue, if_neg (not_lt.2 hdepth), jsWs_append hws hc hfuel, ok_bind]
  rfl

section

variable {fuel depth : ℕ} {skip : List UInt8 → ℕ → Except Stop (List UInt8)} {kind : Kind}

/-- `skip` steps over the value, whatever is around it. -/
def Skips (fuel : ℕ) (skip : List UInt8 → ℕ → Except Stop (List UInt8)) (depth : ℕ)
    (value : List UInt8) : Prop :=
  ∀ ws rest, (∀ b ∈ ws, isWs b) → isNumberByte (deref rest) = false →
    (ws ++ (value ++ rest)).length < fuel → skip (ws ++ (value ++ rest)) depth = .ok rest

/-- What stands in front of a value is stepped over, but for white space. -/
theorem jsLead_eq {lead : List UInt8} (hlead : kind.IsLead lead) {p : List UInt8}
    (hfuel : (lead ++ p).length < fuel) :
    ∃ ws, (∀ b ∈ ws, isWs b) ∧ jsLead fuel kind (lead ++ p) = .ok (ws ++ p) ∧
      (ws ++ p).length ≤ (lead ++ p).length := by
  cases kind with
  | array => exact ⟨lead, hlead, rfl, le_rfl⟩
  | object =>
    obtain ⟨before, key, beforeColon, afterColon, rfl, hbefore, hkey, hcolon, hafter⟩ := hlead
    obtain ⟨ps, hps⟩ := hkey.spells
    refine ⟨afterColon, hafter, ?_, ?_⟩
    · simp only [List.append_assoc, List.cons_append] at hfuel ⊢
      have hcolonfuel : (beforeColon ++ colon :: (afterColon ++ p)).length < fuel := by
        simp only [List.length_append, List.length_cons] at hfuel ⊢
        omega
      have hstep : advance 1 (colon :: (afterColon ++ p)) = .ok (afterColon ++ p) := rfl
      rw [jsLead, if_pos rfl, jsString_spells hps hbefore _ hfuel, ok_bind]
      dsimp only
      have hws : isWs colon = false := by decide
      rw [jsWs_append hcolon hws hcolonfuel, ok_bind, deref, if_neg (not_not.2 rfl), hstep]
    · simp only [List.length_append, List.length_cons]
      omega

theorem isNumberByte_of_isWs {b : UInt8} (h : isWs b = true) : isNumberByte b = false := by
  simp only [isWs, Bool.or_eq_true, beq_iff_eq] at h
  obtain ((rfl | rfl) | rfl) | rfl := h <;> decide

/-- Behind a value comes white space, a comma or a bracket. -/
theorem deref_after {after q : List UInt8} {c : UInt8} (hafter : ∀ b ∈ after, isWs b)
    (hc : isNumberByte c = false) : isNumberByte (deref (after ++ c :: q)) = false := by
  cases after with
  | nil => exact hc
  | cons b after => exact isNumberByte_of_isWs (hafter b List.mem_cons_self)

theorem jsSkipElements_eq {e : Element} {es : List Element}
    (hlead : ∀ x ∈ e :: es, kind.IsLead x.lead)
    (hskip : ∀ x ∈ e :: es, Skips fuel skip (depth + 1) x.value)
    (hafter : ∀ x ∈ e :: es, ∀ b ∈ x.after, isWs b) (rest : List UInt8) {n : ℕ}
    (hn : es.length < n) (hfuel : (renderElements kind.closing rest e es).length < fuel) :
    jsSkipElements skip fuel kind depth n (renderElements kind.closing rest e es) = .ok rest := by
  induction n generalizing e es with
  | zero => exact absurd hn (Nat.not_lt_zero _)
  | succ n ih =>
    have hclosing : isNumberByte kind.closing = false := by cases kind <;> decide
    have hclosingWs : isWs kind.closing = false := by cases kind <;> decide
    have hcommaWs : isWs comma = false := by decide
    have hafter' := hafter e List.mem_cons_self
    rw [jsSkipElements]
    cases es with
    | nil =>
      rw [renderElements] at hfuel ⊢
      obtain ⟨ws, hws, hread, hle⟩ := jsLead_eq (hlead e List.mem_cons_self) hfuel
      have hwsfuel := hle.trans_lt hfuel
      have hafterfuel : (e.after ++ kind.closing :: rest).length < fuel := by
        simp only [List.length_append] at hwsfuel ⊢
        omega
      have hne : kind.closing ≠ comma := by cases kind <;> decide
      rw [hread, ok_bind, hskip e List.mem_cons_self ws _ hws (deref_after hafter' hclosing)
        hwsfuel, ok_bind, jsWs_append hafter' hclosingWs hafterfuel, ok_bind, deref, if_neg hne,
        if_pos rfl]
      rfl
    | cons e' es =>
      rw [renderElements] at hfuel ⊢
      obtain ⟨ws, hws, hread, hle⟩ := jsLead_eq (hlead e List.mem_cons_self) hfuel
      have hwsfuel := hle.trans_lt hfuel
      have hafterfuel : (e.after ++ comma :: renderElements kind.closing rest e' es).length <
          fuel := by
        simp only [List.length_append] at hwsfuel ⊢
        omega
      have hrestfuel : (renderElements kind.closing rest e' es).length < fuel := by
        simp only [List.length_append, List.length_cons] at hafterfuel
        omega
      have hstep : advance 1 (comma :: renderElements kind.closing rest e' es) =
          .ok (renderElements kind.closing rest e' es) := rfl
      rw [hread, ok_bind, hskip e List.mem_cons_self ws _ hws (deref_after hafter' (by decide))
        hwsfuel, ok_bind, jsWs_append hafter' hcommaWs hafterfuel, ok_bind, deref, if_pos rfl,
        hstep, ok_bind]
      exact ih (fun x hx => hlead x (List.mem_cons_of_mem _ hx))
        (fun x hx => hskip x (List.mem_cons_of_mem _ hx))
        (fun x hx => hafter x (List.mem_cons_of_mem _ hx)) (Nat.lt_of_succ_lt_succ hn) hrestfuel

/-- The white space at the front of an element. -/
theorem jsWs_element {lead : List UInt8} (hlead : kind.IsLead lead) {value : List UInt8}
    (hvalue : ∃ c cs, value = c :: cs ∧ isWs c = false ∧ c ≠ closeBracket) (q : List UInt8)
    (hfuel : (lead ++ (value ++ q)).length < fuel) :
    ∃ lead', kind.IsLead lead' ∧ jsWs fuel (lead ++ (value ++ q)) = .ok (lead' ++ (value ++ q)) ∧
      deref (lead' ++ (value ++ q)) ≠ kind.closing ∧ lead'.length ≤ lead.length := by
  obtain ⟨c, cs, rfl, hc, hne⟩ := hvalue
  cases kind with
  | array =>
    exact ⟨[], by simp [Kind.IsLead], jsWs_append hlead hc hfuel, hne, Nat.zero_le _⟩
  | object =>
    obtain ⟨before, key, beforeColon, afterColon, rfl, hbefore, hkey, hcolon, hafter⟩ := hlead
    refine ⟨quote :: (key ++ quote :: (beforeColon ++ colon :: afterColon)), ?_, ?_, ?_, ?_⟩
    · exact ⟨[], key, beforeColon, afterColon, rfl, by simp, hkey, hcolon, hafter⟩
    · have hws : isWs quote = false := by decide
      rw [List.append_assoc] at hfuel ⊢
      exact jsWs_append hbefore hws hfuel
    · have hne' : quote ≠ Kind.object.closing := by decide
      exact hne'
    · rw [List.length_append]
      exact Nat.le_add_left _ _

theorem jsSkipContainer_blank {ws : List UInt8} (hws : ∀ b ∈ ws, isWs b) (rest : List UInt8)
    (hfuel : (ws ++ kind.closing :: rest).length < fuel) :
    jsSkipContainer skip fuel kind (kind.opening :: (ws ++ kind.closing :: rest)) depth =
      .ok rest := by
  have hstep : advance 1 (kind.opening :: (ws ++ kind.closing :: rest)) =
      .ok (ws ++ kind.closing :: rest) := rfl
  have hclosing : isWs kind.closing = false := by cases kind <;> decide
  rw [jsSkipContainer, hstep, ok_bind, jsWs_append hws hclosing hfuel, ok_bind, deref, if_pos rfl]
  rfl

/-- The rest of the elements, behind what stands in front of the first value. -/
theorem exists_renderElements (closing : UInt8) (rest : List UInt8) (e : Element)
    (es : List Element) : ∃ q, ∀ lead, renderElements closing rest { e with lead := lead } es =
      lead ++ (e.value ++ q) := by
  cases es with
  | nil => exact ⟨e.after ++ closing :: rest, fun _ => rfl⟩
  | cons e' es => exact ⟨e.after ++ comma :: renderElements closing rest e' es, fun _ => rfl⟩

theorem length_elements (closing : UInt8) (rest : List UInt8) (e : Element) (es : List Element) :
    es.length < (renderElements closing rest e es).length := by
  induction es generalizing e with
  | nil => simp [renderElements]
  | cons e' es ih =>
    have hlt := ih e'
    simp only [renderElements, List.length_append, List.length_cons]
    omega

theorem jsSkipContainer_elements {e : Element} {es : List Element}
    (hlead : ∀ x ∈ e :: es, kind.IsLead x.lead)
    (hvalue : ∃ c cs, e.value = c :: cs ∧ isWs c = false ∧ c ≠ closeBracket)
    (hskip : ∀ x ∈ e :: es, Skips fuel skip (depth + 1) x.value)
    (hafter : ∀ x ∈ e :: es, ∀ b ∈ x.after, isWs b) (rest : List UInt8)
    (hfuel : (renderElements kind.closing rest e es).length < fuel) :
    jsSkipContainer skip fuel kind (kind.opening :: renderElements kind.closing rest e es) depth =
      .ok rest := by
  obtain ⟨q, hq⟩ := exists_renderElements kind.closing rest e es
  have hfirst : renderElements kind.closing rest e es = e.lead ++ (e.value ++ q) := hq e.lead
  rw [hfirst] at hfuel ⊢
  obtain ⟨lead, hlead', hread, hclose, hle⟩ :=
    jsWs_element (hlead e List.mem_cons_self) hvalue q hfuel
  have hstep : advance 1 (kind.opening :: (e.lead ++ (e.value ++ q))) =
      .ok (e.lead ++ (e.value ++ q)) := rfl
  have hlen : (lead ++ (e.value ++ q)).length < fuel := by
    simp only [List.length_append] at hfuel ⊢
    omega
  rw [jsSkipContainer, hstep, ok_bind, hread, ok_bind, if_neg hclose, ← hq lead]
  rw [← hq lead] at hlen
  refine jsSkipElements_eq ?_ ?_ ?_ rest ((length_elements _ _ _ _).trans hlen) hlen
  · exact List.forall_mem_cons.2 ⟨hlead', (List.forall_mem_cons.1 hlead).2⟩
  · exact List.forall_mem_cons.2 (List.forall_mem_cons.1 hskip)
  · exact List.forall_mem_cons.2 (List.forall_mem_cons.1 hafter)

end

/-- **A value is stepped over exactly**, unless it is a number and more bytes of a number follow. -/
theorem jsSkipValue_complete {d : ℕ} {bs : List UInt8} (h : IsValue d bs) {fuel frames depth : ℕ}
    (hdepth : depth + d ≤ 32) (hframes : d < frames) {ws rest : List UInt8}
    (hws : ∀ b ∈ ws, isWs b) (hrest : IsNumber bs → isNumberByte (deref rest) = false)
    (hfuel : (ws ++ (bs ++ rest)).length < fuel) :
    jsSkipValue fuel frames (ws ++ (bs ++ rest)) depth = .ok rest := by
  obtain ⟨frames, rfl⟩ := Nat.exists_eq_add_one_of_ne_zero (Nat.ne_zero_of_lt hframes)
  induction h generalizing frames depth ws rest with
  | @string d body hbody =>
    obtain ⟨ps, hps⟩ := hbody.spells
    have htext : quote :: (body ++ [quote]) ++ rest = quote :: (body ++ quote :: rest) := by simp
    have hquote : isWs quote = false := by decide
    rw [htext] at hfuel ⊢
    have hstring : jsString fuel ([] ++ quote :: (body ++ quote :: rest)) =
        .ok (utf8 ((characters ps).takeWhile (· ≠ '\x00')), rest) :=
      jsString_spells hps (List.forall_mem_nil _) rest (by simp at hfuel ⊢; omega)
    rw [List.nil_append] at hstring
    rw [jsSkipValue_eq (by omega) frames hws hquote hfuel, if_pos rfl, hstring]
    rfl
  | literal hword =>
    simp only [literals, List.mem_cons, List.not_mem_nil, or_false] at hword
    have hword' (c : UInt8) (w : List UInt8) (hzero : (0 : UInt8) ∉ c :: w) :
        jsWord (c :: w) (c :: (w ++ rest)) = .ok rest := jsWord_eq hzero rest
    rcases hword with rfl | rfl | rfl
    · exact (jsSkipValue_eq (by omega) frames hws (by decide) hfuel).trans
        (hword' 0x74 [0x72, 0x75, 0x65] (by decide))
    · exact (jsSkipValue_eq (by omega) frames hws (by decide) hfuel).trans
        (hword' 0x66 [0x61, 0x6C, 0x73, 0x65] (by decide))
    · exact (jsSkipValue_eq (by omega) frames hws (by decide) hfuel).trans
        (hword' 0x6E [0x75, 0x6C, 0x6C] (by decide))
  | number hnumber =>
    have hread : jsNumber fuel (_ ++ rest) = .ok rest :=
      jsNumber_eq hnumber (hrest hnumber) (by simp only [List.length_append] at hfuel ⊢; omega)
    obtain ⟨-, c, cs, rfl, hc⟩ := IsNumber.numberBytes hnumber
    have hother : isWs c = false ∧ c ≠ quote ∧ c ≠ openBrace ∧ c ≠ openBracket ∧ c ≠ 0x74 ∧
        c ≠ 0x66 ∧ c ≠ 0x6E := by
      rcases hc with rfl | hdigit
      · decide
      · simp only [isDigit, decide_eq_true_eq] at hdigit
        unfold isWs quote openBrace openBracket
        grind
    obtain ⟨hcws, hquote, hbrace, hbracket, ht, hf, hn⟩ := hother
    rw [List.cons_append] at hfuel hread ⊢
    rw [jsSkipValue_eq (by omega) frames hws hcws hfuel, if_neg hquote, if_neg hbrace,
      if_neg hbracket, if_neg ht, if_neg hf, if_neg hn]
    exact hread
  | @blank d kind blank hblank =>
    have htext : kind.opening :: (blank ++ [kind.closing]) ++ rest =
        kind.opening :: (blank ++ kind.closing :: rest) := by simp
    have hopening : isWs kind.opening = false := by cases kind <;> decide
    rw [htext] at hfuel ⊢
    have hskip : jsSkipContainer (jsSkipValue fuel frames) fuel kind
        (kind.opening :: (blank ++ kind.closing :: rest)) depth = .ok rest :=
      jsSkipContainer_blank hblank rest (by simp at hfuel ⊢; omega)
    rw [jsSkipValue_eq (by omega) frames hws hopening hfuel]
    cases kind with
    | array => exact hskip
    | object => exact hskip
  | @elements d kind e es hlead hvalue hafter ih =>
    have htext : kind.opening :: renderElements kind.closing [] e es ++ rest =
        kind.opening :: renderElements kind.closing rest e es := by
      rw [List.cons_append, renderElements_append]
    have hopening : isWs kind.opening = false := by cases kind <;> decide
    rw [htext] at hfuel ⊢
    have hskips : ∀ x ∈ e :: es, Skips fuel (jsSkipValue fuel frames) (depth + 1) x.value := by
      intro x hx ws' rest' hws' hrest' hfuel'
      obtain ⟨frames, rfl⟩ := Nat.exists_eq_add_one_of_ne_zero (n := frames) (by omega)
      exact ih x hx (by omega) hws' (fun _ => hrest') hfuel' frames (by omega)
    have hskip : jsSkipContainer (jsSkipValue fuel frames) fuel kind
        (kind.opening :: renderElements kind.closing rest e es) depth = .ok rest :=
      jsSkipContainer_elements hlead (IsValue.head (hvalue e List.mem_cons_self)) hskips hafter rest
        (by simp at hfuel ⊢; omega)
    rw [jsSkipValue_eq (by omega) frames hws hopening hfuel]
    cases kind with
    | array => exact hskip
    | object => exact hskip

/-- **The reader of an OHMA envelope.** Whatever the text is, the string, the value and the envelope
are read to an end inside it, with no more than 34 calls in each other. In front of a value of JSON
that is not nested too deep, the cursor goes just behind it; a string comes out as the characters it
says, up to the first NUL. -/
theorem js_reader (text : List UInt8) (fuel frames : ℕ) (hfuel : text.length < fuel)
    (hframes : 34 ≤ frames) :
    Within Prod.snd text (jsString fuel text) ∧
    Within id text (jsSkipValue fuel frames text 0) ∧
    Within Prod.snd text (ohmaJsonParse fuel frames text) ∧
    (∀ ws bs rest d, text = ws ++ (bs ++ rest) → (∀ b ∈ ws, isWs b) → IsValue d bs → d ≤ 32 →
      (IsNumber bs → isNumberByte (deref rest) = false) →
        jsSkipValue fuel frames text 0 = .ok rest) ∧
    ∀ ws body ps rest, text = ws ++ quote :: (body ++ quote :: rest) → (∀ b ∈ ws, isWs b) →
      Spells body ps →
        jsString fuel text = .ok (utf8 ((characters ps).takeWhile (· ≠ '\x00')), rest) := by
  refine ⟨within_jsString hfuel, within_jsSkipValue (by omega) (by omega) hfuel,
    within_ohmaJsonParse hframes hfuel, ?_, ?_⟩
  · rintro ws bs rest d rfl hws h hd hrest
    exact jsSkipValue_complete h (by omega) (by omega) hws hrest hfuel
  · rintro ws body ps rest rfl hws h
    exact jsString_spells h hws rest hfuel

/-- The escapes of a surrogate pair. -/
def pairEscapes : List UInt8 :=
  [backslash, letterU, 0x64, 0x38, 0x33, 0x64, backslash, letterU, 0x64, 0x65, 0x30, 0x30]

theorem spells_pair : Spells pairEscapes
    [.unit (codeUnit 0x64 0x38 0x33 0x64), .unit (codeUnit 0x64 0x65 0x30 0x30)] :=
  .unicode (List.all_eq_true.1 (by decide)) (.unicode (List.all_eq_true.1 (by decide)) .nil)

theorem js_reader_pair :
    jsString 20 (quote :: (pairEscapes ++ [quote])) = .ok (utf8 ['😀'], []) := by
  have hpair := (js_reader (quote :: (pairEscapes ++ [quote])) 20 34 (by decide)
    (le_refl 34)).2.2.2.2 [] pairEscapes _ [] rfl (List.forall_mem_nil _) spells_pair
  have hchars : characters [.unit (codeUnit 0x64 0x38 0x33 0x64),
      .unit (codeUnit 0x64 0x65 0x30 0x30)] = ['😀'] := by decide
  rw [hchars] at hpair
  exact hpair

theorem spells_nul : Spells [backslash, letterU, 0x30, 0x30, 0x30, 0x30]
    [.unit (codeUnit 0x30 0x30 0x30 0x30)] :=
  .unicode (List.all_eq_true.1 (by decide)) .nil

theorem isNumber_one : IsNumber [0x31] :=
  ⟨[], [0x31], [], [], rfl, .inl rfl, ⟨⟨List.cons_ne_nil _ _, List.forall_mem_singleton.2 rfl⟩,
    fun _ => rfl⟩, .inl rfl, .inl rfl⟩

/-- A NUL cuts a string off, and a number takes a minus behind it. -/
theorem js_reader_inexact :
    (¬ ∀ body ps fuel, Spells body ps → (quote :: (body ++ [quote])).length < fuel →
      jsString fuel (quote :: (body ++ [quote])) = .ok (utf8 (characters ps), [])) ∧
    ¬ ∀ bs rest fuel, IsValue 0 bs → (bs ++ rest).length < fuel →
      jsSkipValue fuel 34 (bs ++ rest) 0 = .ok rest := by
  constructor
  · intro h
    have hnul := h _ _ 20 spells_nul (by decide)
    have hcut : jsString 20 [quote, backslash, letterU, 0x30, 0x30, 0x30, 0x30, quote] =
        .ok ([], []) := by decide
    cases hcut.symm.trans hnul
  · intro h
    have hminus := h [0x31] [0x2D] 20 (.number isNumber_one) (by decide)
    have hgone : jsSkipValue 20 34 [0x31, 0x2D] 0 = .ok [] := by decide
    cases hgone.symm.trans hminus

end MacHPSDR.Hfdl
