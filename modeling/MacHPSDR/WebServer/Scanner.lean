import MacHPSDR.Foundations.FlatJson
import Mathlib

/-!
# Scanning a browser request

The readers of `web_protocol.c` for the parts of a JSON text: keys and short strings without
escapes, the booleans and integers, and the long strings of the signalling messages, whose escapes
are checked and decoded only later. A reader gets the text from its position on and gives what
follows it. `parseString_iff`, `scanString_iff` and `parseValue_iff` say what each one takes.
-/

namespace MacHPSDR.WebServer

open FlatJson

/-- `JSON_VALUE` -/
inductive JsonValue
  | string (s : List UInt8)
  | integer (i : ℤ)
  | boolean (b : Bool)
  deriving DecidableEq

/-- `skip_ws` (`g_ascii_isspace` is `isSpace`). -/
def skipWs (p : List UInt8) : List UInt8 := p.dropWhile isSpace

/-- The loop of `parse_string`, with `n` bytes in the buffer. -/
def parseStringLoop (outLen : ℕ) : ℕ → List UInt8 → Option (List UInt8 × List UInt8)
  | _, [] => none
  | n, c :: p =>
    if c = quote then some ([], p)
    else if c = backslash ∨ c < 0x20 ∨ n + 1 ≥ outLen then none
    else (parseStringLoop outLen (n + 1) p).map fun r => (c :: r.1, r.2)

/-- `parse_string` -/
def parseString (outLen : ℕ) : List UInt8 → Option (List UInt8 × List UInt8)
  | [] => none
  | c :: p => if c = quote then parseStringLoop outLen 0 p else none

/-- `g_ascii_strtoll` on digits with or without a minus: a number out of range is brought into
it. -/
def gAsciiStrtoll (negative : Bool) (digits : List UInt8) : ℤ :=
  let n : ℕ := digits.foldl (fun n d => 10 * n + (d.toNat - 48)) 0
  max (-2 ^ 63) (min (2 ^ 63 - 1) (if negative then -(n : ℤ) else n))

def minus (negative : Bool) : List UInt8 := if negative then [0x2D] else []

/-- The digits of `parse_value`, after a minus if there is one. -/
def parseInteger (negative : Bool) (p : List UInt8) : Option (JsonValue × List UInt8) :=
  let digits := p.takeWhile isDigit
  if digits = [] ∨ (minus negative ++ digits).length ≥ 32 then none
  else some (.integer (gAsciiStrtoll negative digits), p.dropWhile isDigit)

/-- `parse_value` -/
def parseValue : List UInt8 → Option (JsonValue × List UInt8)
  | [] => none
  | c :: p =>
    if c = quote then (parseString 64 (c :: p)).map fun r => (.string r.1, r.2)
    else if ascii "true" <+: c :: p then some (.boolean true, (c :: p).drop 4)
    else if ascii "false" <+: c :: p then some (.boolean false, (c :: p).drop 5)
    else if c = 0x2D then parseInteger true p
    else parseInteger false (c :: p)

/-- The loop of `scan_string`. -/
def scanStringLoop : List UInt8 → Option (List UInt8 × List UInt8)
  | [] => none
  | [c] => if c = quote then some ([], []) else none
  | c :: d :: p =>
    if c = quote then some ([], d :: p)
    else if c = backslash then (scanStringLoop p).map fun r => (c :: d :: r.1, r.2)
    else if c < 0x20 then none
    else (scanStringLoop (d :: p)).map fun r => (c :: r.1, r.2)

/-- `scan_string`: the text between the quotes. -/
def scanString : List UInt8 → Option (List UInt8 × List UInt8)
  | [] => none
  | c :: p => if c = quote then scanStringLoop p else none

/-! ## What the readers take -/

/-- A short string: no escapes, no control characters. -/
def Plain (s : List UInt8) : Prop := ∀ c ∈ s, c ≠ quote ∧ c ≠ backslash ∧ ¬ c < 0x20

instance : DecidablePred Plain := fun s => List.decidableBAll _ s

/-- A long string: a byte that no backslash takes is no control character. -/
inductive Span : List UInt8 → Prop
  | nil : Span []
  | plain {c : UInt8} (hq : c ≠ quote) (hb : c ≠ backslash) (hc : ¬ c < 0x20) {s : List UInt8}
    (h : Span s) : Span (c :: s)
  | escape (c : UInt8) {s : List UInt8} (h : Span s) : Span (backslash :: c :: s)

theorem parseStringLoop_sound {outLen n : ℕ} {p s rest : List UInt8}
    (h : parseStringLoop outLen n p = some (s, rest)) :
    p = s ++ quote :: rest ∧ Plain s ∧ (s = [] ∨ n + s.length < outLen) := by
  induction p generalizing n s with
  | nil => cases h
  | cons c p ih =>
    unfold parseStringLoop at h
    split_ifs at h with hq hc
    · obtain ⟨rfl, rfl⟩ := Prod.mk.inj (Option.some.inj h)
      exact ⟨by rw [hq]; rfl, nofun, .inl rfl⟩
    · obtain ⟨⟨t, r⟩, hr, h⟩ := Option.map_eq_some_iff.1 h
      obtain ⟨rfl, rfl⟩ := Prod.mk.inj h
      obtain ⟨hp, hplain, hlen⟩ := ih hr
      push Not at hc
      refine ⟨by rw [hp]; rfl, ?_, .inr ?_⟩
      · rintro d (_ | ⟨_, hd⟩)
        · exact ⟨hq, hc.1, fun h => hc.2.1 h⟩
        · exact hplain d hd
      · obtain rfl | hlen := hlen
        · simpa using hc.2.2
        · simp only [List.length_cons]
          omega

theorem parseStringLoop_complete {outLen n : ℕ} {s : List UInt8} (hplain : Plain s)
    (hlen : s = [] ∨ n + s.length < outLen) (rest : List UInt8) :
    parseStringLoop outLen n (s ++ quote :: rest) = some (s, rest) := by
  induction s generalizing n with
  | nil => simp [parseStringLoop]
  | cons c s ih =>
    obtain ⟨hq, hb, hc⟩ := hplain c (by simp)
    have hlt : n + (s.length + 1) < outLen := by simpa using hlen
    have hstop : ¬ (c = backslash ∨ c < 0x20 ∨ n + 1 ≥ outLen) := by
      rintro (h | h | h)
      · exact hb h
      · exact hc h
      · omega
    rw [List.cons_append, parseStringLoop, if_neg hq, if_neg hstop,
      ih (fun d hd => hplain d (by simp [hd])) (.inr (by omega))]
    rfl

/-- **`parse_string`**: a short string that fits the buffer. -/
theorem parseString_iff {outLen : ℕ} (hlen : 0 < outLen) {p s rest : List UInt8} :
    parseString outLen p = some (s, rest) ↔
      p = quote :: (s ++ quote :: rest) ∧ Plain s ∧ s.length < outLen := by
  constructor
  · intro h
    cases p with
    | nil => cases h
    | cons c p =>
      simp only [parseString] at h
      split_ifs at h with hq
      obtain ⟨rfl, hplain, hfit⟩ := parseStringLoop_sound h
      refine ⟨by rw [hq], hplain, ?_⟩
      obtain rfl | hfit := hfit
      · exact hlen
      · omega
  · rintro ⟨rfl, hplain, hfit⟩
    simp only [parseString, if_true]
    exact parseStringLoop_complete hplain (.inr (by omega)) rest

theorem scanStringLoop_sound {p s rest : List UInt8} (h : scanStringLoop p = some (s, rest)) :
    p = s ++ quote :: rest ∧ Span s := by
  induction p using scanStringLoop.induct generalizing s with
  | case1 => cases h
  | case2 =>
    obtain ⟨rfl, rfl⟩ := Prod.mk.inj (Option.some.inj h)
    exact ⟨rfl, .nil⟩
  | case3 c hq => simp [scanStringLoop, hq] at h
  | case4 d p =>
    obtain ⟨rfl, rfl⟩ := Prod.mk.inj (Option.some.inj h)
    exact ⟨rfl, .nil⟩
  | case5 d p hq ih =>
    rw [scanStringLoop, if_neg hq, if_pos rfl] at h
    obtain ⟨⟨t, r⟩, hr, h⟩ := Option.map_eq_some_iff.1 h
    obtain ⟨rfl, rfl⟩ := Prod.mk.inj h
    obtain ⟨hp, hspan⟩ := ih hr
    exact ⟨by rw [hp]; rfl, .escape d hspan⟩
  | case6 c d p hq hb hc =>
    rw [scanStringLoop, if_neg hq, if_neg hb, if_pos hc] at h
    cases h
  | case7 c d p hq hb hc ih =>
    rw [scanStringLoop, if_neg hq, if_neg hb, if_neg hc] at h
    obtain ⟨⟨t, r⟩, hr, h⟩ := Option.map_eq_some_iff.1 h
    obtain ⟨rfl, rfl⟩ := Prod.mk.inj h
    obtain ⟨hp, hspan⟩ := ih hr
    exact ⟨by rw [hp]; rfl, .plain hq hb hc hspan⟩

theorem scanStringLoop_complete {s : List UInt8} (h : Span s) (rest : List UInt8) :
    scanStringLoop (s ++ quote :: rest) = some (s, rest) := by
  induction h with
  | nil => cases rest <;> simp [scanStringLoop]
  | @plain c hq hb hc s _ ih =>
    cases hs : s ++ quote :: rest with
    | nil => exact absurd hs (by simp)
    | cons d p =>
      rw [hs] at ih
      rw [List.cons_append, hs, scanStringLoop, if_neg hq, if_neg hb, if_neg hc, ih]
      rfl
  | @escape c s _ ih =>
    have hq : ¬ backslash = quote := by decide
    rw [List.cons_append, List.cons_append, scanStringLoop, if_neg hq, if_pos rfl, ih]
    rfl

/-- **`scan_string`**: a long string. -/
theorem scanString_iff {p s rest : List UInt8} :
    scanString p = some (s, rest) ↔ p = quote :: (s ++ quote :: rest) ∧ Span s := by
  constructor
  · intro h
    cases p with
    | nil => cases h
    | cons c p =>
      simp only [scanString] at h
      split_ifs at h with hq
      obtain ⟨rfl, hspan⟩ := scanStringLoop_sound h
      exact ⟨by rw [hq], hspan⟩
  · rintro ⟨rfl, hspan⟩
    simp only [scanString, if_true]
    exact scanStringLoop_complete hspan rest

theorem Plain.body {s : List UInt8} (h : Plain s) : Body s := by
  induction s with
  | nil => exact .nil
  | cons c s ih =>
    obtain ⟨hq, hb, -⟩ := h c (by simp)
    exact .plain hq hb (ih fun d hd => h d (by simp [hd]))

theorem Span.body {s : List UInt8} (h : Span s) : Body s := by
  induction h with
  | nil => exact .nil
  | plain hq hb _ _ ih => exact .plain hq hb ih
  | escape c _ ih => exact .escape c ih

/-- The values of `parse_value`, and what stands for them. -/
inductive Reads : Value → JsonValue → Prop
  | string {s : List UInt8} (h : Plain s) (hlen : s.length < 64) : Reads (.string s) (.string s)
  | boolTrue : Reads (.bare (ascii "true")) (.boolean true)
  | boolFalse : Reads (.bare (ascii "false")) (.boolean false)
  | integer (negative : Bool) {ds : List UInt8} (hne : ds ≠ []) (hds : ∀ d ∈ ds, isDigit d)
    (hlen : (minus negative ++ ds).length < 32) :
    Reads (.bare (minus negative ++ ds)) (.integer (gAsciiStrtoll negative ds))

theorem Reads.loose {w : Value} {v : JsonValue} (h : Reads w v) : w.Loose := by
  cases h with
  | string h _ => exact h.body
  | boolTrue => exact ⟨by decide, List.all_eq_true.1 (by decide)⟩
  | boolFalse => exact ⟨by decide, List.all_eq_true.1 (by decide)⟩
  | integer negative hne hds _ =>
    refine ⟨by simp [hne], fun b hb => ?_⟩
    obtain hb | hb := List.mem_append.1 hb
    · cases negative
      · cases hb
      · obtain rfl := List.mem_singleton.1 hb
        decide
    · simp [isBare, hds b hb]

theorem parseInteger_sound {negative : Bool} {p rest : List UInt8} {v : JsonValue}
    (h : parseInteger negative p = some (v, rest)) :
    ∃ ds, p = ds ++ rest ∧ Reads (.bare (minus negative ++ ds)) v := by
  unfold parseInteger at h
  dsimp only at h
  split_ifs at h with hstop
  obtain ⟨rfl, rfl⟩ := Prod.mk.inj (Option.some.inj h)
  obtain ⟨hne, hlen⟩ := not_or.1 hstop
  refine ⟨p.takeWhile isDigit, List.takeWhile_append_dropWhile.symm, ?_⟩
  exact .integer negative hne (fun d hd => List.mem_takeWhile_imp hd) (not_le.1 hlen)

theorem parseInteger_complete {negative : Bool} {ds : List UInt8} (hne : ds ≠ [])
    (hds : ∀ d ∈ ds, isDigit d) (hlen : (minus negative ++ ds).length < 32) {rest : List UInt8}
    (hrest : ∀ c ∈ rest.head?, isDigit c = false) :
    parseInteger negative (ds ++ rest) = some (.integer (gAsciiStrtoll negative ds), rest) := by
  have hstop : rest.takeWhile isDigit = [] ∧ rest.dropWhile isDigit = rest := by
    cases rest with
    | nil => exact ⟨rfl, rfl⟩
    | cons c rest => simp [hrest c (by simp)]
  have htake : (ds ++ rest).takeWhile isDigit = ds := by
    rw [List.takeWhile_append_of_pos hds, hstop.1, List.append_nil]
  have hdrop : (ds ++ rest).dropWhile isDigit = rest := by
    rw [List.dropWhile_append_of_pos hds, hstop.2]
  have hfit : ¬ (ds = [] ∨ (minus negative ++ ds).length ≥ 32) :=
    not_or.2 ⟨hne, not_le.2 hlen⟩
  unfold parseInteger
  simp only [htake, hdrop, if_neg hfit]

/-- **`parse_value`, what it takes.** -/
theorem parseValue_sound {p rest : List UInt8} {v : JsonValue}
    (h : parseValue p = some (v, rest)) : ∃ w, p = w.render ++ rest ∧ Reads w v := by
  cases p with
  | nil => cases h
  | cons c p =>
    simp only [parseValue] at h
    split_ifs at h with hq htrue hfalse hminus
    · obtain ⟨⟨s, r⟩, hs, h⟩ := Option.map_eq_some_iff.1 h
      obtain ⟨rfl, rfl⟩ := Prod.mk.inj h
      obtain ⟨hp, hplain, hlen⟩ := (parseString_iff (by decide)).1 hs
      exact ⟨.string s, by rw [hp]; simp [Value.render], .string hplain hlen⟩
    · obtain ⟨rfl, rfl⟩ := Prod.mk.inj (Option.some.inj h)
      obtain ⟨t, ht⟩ := htrue
      exact ⟨.bare (ascii "true"), by rw [← ht]; rfl, .boolTrue⟩
    · obtain ⟨rfl, rfl⟩ := Prod.mk.inj (Option.some.inj h)
      obtain ⟨t, ht⟩ := hfalse
      exact ⟨.bare (ascii "false"), by rw [← ht]; rfl, .boolFalse⟩
    · obtain ⟨ds, rfl, hreads⟩ := parseInteger_sound h
      exact ⟨_, by rw [hminus]; rfl, hreads⟩
    · obtain ⟨ds, hp, hreads⟩ := parseInteger_sound h
      exact ⟨.bare (minus false ++ ds), hp, hreads⟩

/-- **`parse_value`, what it does not refuse.** -/
theorem parseValue_complete {w : Value} {v : JsonValue} (h : Reads w v) {rest : List UInt8}
    (hrest : ∀ c ∈ rest.head?, isBare c = false) :
    parseValue (w.render ++ rest) = some (v, rest) := by
  cases h with
  | string h hlen =>
    have hs : parseString 64 (quote :: (_ ++ quote :: rest)) = some (_, rest) :=
      (parseString_iff (by decide)).2 ⟨rfl, h, hlen⟩
    simp only [Value.render, List.cons_append, List.append_assoc, List.nil_append, parseValue,
      if_true]
    rw [hs]
    rfl
  | boolTrue =>
    have hbytes : ascii "true" = [0x74, 0x72, 0x75, 0x65] := by rfl
    simp [Value.render, parseValue, hbytes, quote]
  | boolFalse =>
    have hbytes : ascii "false" = [0x66, 0x61, 0x6C, 0x73, 0x65] := by rfl
    have htrue : ascii "true" = [0x74, 0x72, 0x75, 0x65] := by rfl
    simp [Value.render, parseValue, hbytes, htrue, quote]
  | integer negative hne hds hlen =>
    rename_i ds
    have hdigit : ∀ c ∈ rest.head?, isDigit c = false := fun c hc => by
      have hc := hrest c hc
      simp only [isBare, Bool.or_eq_false_iff] at hc
      exact hc.1.1.1.1.1
    have hint := parseInteger_complete hne hds hlen hdigit
    have htrue : ascii "true" = [0x74, 0x72, 0x75, 0x65] := by rfl
    have hfalse : ascii "false" = [0x66, 0x61, 0x6C, 0x73, 0x65] := by rfl
    cases negative with
    | true => simpa [Value.render, parseValue, minus, htrue, hfalse, quote] using hint
    | false =>
      cases ds with
      | nil => exact absurd rfl hne
      | cons d ds =>
        have hd := hds d (by simp)
        have hq : d ≠ quote := by rintro rfl; exact absurd hd (by decide)
        have ht : ¬ (0x74 : UInt8) = d := by rintro rfl; exact absurd hd (by decide)
        have hf : ¬ (0x66 : UInt8) = d := by rintro rfl; exact absurd hd (by decide)
        have hm : d ≠ 0x2D := by rintro rfl; exact absurd hd (by decide)
        simpa [Value.render, parseValue, minus, htrue, hfalse, hq, ht, hf, hm] using hint

end MacHPSDR.WebServer
