import MacHPSDR.Foundations.Cursor
import MacHPSDR.Foundations.JsonValue
import Mathlib

/-!
# The envelope of an OHMA message

A message of the OHMA application is a JSON object of which a few members are wanted. The `js_`
functions read it with a cursor, and step over what is not wanted value by value: whatever the text
is, they come to an end inside it (`within_jsSkipValue`, `within_ohmaJsonParse`).

A loop has `fuel` to go round, and `js_skip_value` has `frames` to call itself.
-/

namespace MacHPSDR.Hfdl

open FlatJson Cursor

/-! ## Strings -/

/-- `js_ws` -/
def jsWs (fuel : ℕ) (p : List UInt8) : Except Stop (List UInt8) := skipWhile isWs fuel p

/-- `g_ascii_isxdigit` and `g_ascii_xdigit_value` -/
def gAsciiXdigitValue (c : UInt8) : Option ℕ :=
  if isHexDigit c then some (hexDigitValue c) else none

/-- A loop over hexadecimal digits from `p[off]` on, `n` at most: their number and value. -/
def xdigits (p : List UInt8) (off : ℕ) : ℕ → ℕ → ℕ → Except Stop (ℕ × ℕ)
  | 0, i, cp => .ok (i, cp)
  | n + 1, i, cp => do
    let c ← index p (off + i)
    match gAsciiXdigitValue c with
    | none => .ok (i, cp)
    | some v => xdigits p off n (i + 1) (cp * 16 + v)

/-- `g_string_append_unichar`, of a code point that is a character. -/
def gStringAppendUnichar (cp : ℕ) : List UInt8 := String.utf8EncodeChar (Char.ofNat cp)

/-- The second half of a surrogate pair, if it is there. -/
def surrogatePair (p : List UInt8) (cp : ℕ) : Except Stop (ℕ × List UInt8) :=
  if 0xD800 ≤ cp ∧ cp ≤ 0xDBFF ∧ deref p = backslash then do
    let c ← index p 1
    if c = letterU then do
      let (k, lo) ← xdigits p 2 4 0 0
      if k = 4 ∧ 0xDC00 ≤ lo ∧ lo ≤ 0xDFFF then do
        let p ← advance 6 p
        .ok (0x10000 + (cp - 0xD800) * 1024 + (lo - 0xDC00), p)
      else .ok (cp, p)
    else .ok (cp, p)
  else .ok (cp, p)

/-- The case of a `\u`, with the cursor behind it. -/
def unicodeEscape (p : List UInt8) : Except Stop (List UInt8 × List UInt8) := do
  let (i, cp) ← xdigits p 0 4 0 0
  if i < 4 then .error .refused
  else do
    let p ← advance 4 p
    let (cp, p) ← surrogatePair p cp
    let cp := if 0xD800 ≤ cp ∧ cp ≤ 0xDFFF then 0xFFFD else cp
    .ok (gStringAppendUnichar cp, p)

/-- What a backslash and the byte stand for. -/
def escapeValue (c : UInt8) : Option UInt8 :=
  if c = quote then some quote
  else if c = backslash then some backslash
  else if c = 0x2F then some 0x2F
  else if c = 0x62 then some 0x08
  else if c = 0x66 then some 0x0C
  else if c = 0x6E then some 0x0A
  else if c = 0x72 then some 0x0D
  else if c = 0x74 then some 0x09
  else none

/-- The loop of `js_string`. -/
def jsStringLoop : ℕ → List UInt8 → List UInt8 → Except Stop (List UInt8 × List UInt8)
  | 0, _, _ => .error .outOfFuel
  | n + 1, p, s =>
    if deref p ≠ 0 ∧ deref p ≠ quote then
      if deref p ≠ backslash then do
        let q ← advance 1 p
        jsStringLoop n q (s ++ [deref p])
      else do
        let p ← advance 1 p
        match escapeValue (deref p) with
        | some b => do
          let p ← advance 1 p
          jsStringLoop n p (s ++ [b])
        | none =>
          if deref p = letterU then do
            let p ← advance 1 p
            let (bytes, p) ← unicodeEscape p
            jsStringLoop n p (s ++ bytes)
          else .error .refused
    else if deref p ≠ quote then .error .refused
    else do
      let p ← advance 1 p
      .ok (s, p)

/-- `js_string`: the string, which ends at its first NUL, and the cursor behind it. -/
def jsString (fuel : ℕ) (p : List UInt8) : Except Stop (List UInt8 × List UInt8) := do
  let p ← jsWs fuel p
  if deref p ≠ quote then .error .refused
  else do
    let p ← advance 1 p
    let (s, p) ← jsStringLoop fuel p []
    .ok (s.takeWhile (· ≠ 0), p)

/-! ## Values -/

/-- What stands in front of a value: in an object, a key and a colon. -/
def jsLead (fuel : ℕ) (kind : Kind) (p : List UInt8) : Except Stop (List UInt8) :=
  if kind = .object then do
    let (_, p) ← jsString fuel p
    let p ← jsWs fuel p
    if deref p ≠ colon then .error .refused else advance 1 p
  else .ok p

/-- The loop of `js_skip_container`. -/
def jsSkipElements (skip : List UInt8 → ℕ → Except Stop (List UInt8)) (fuel : ℕ) (kind : Kind)
    (depth : ℕ) : ℕ → List UInt8 → Except Stop (List UInt8)
  | 0, _ => .error .outOfFuel
  | n + 1, p => do
    let p ← jsLead fuel kind p
    let p ← skip p (depth + 1)
    let p ← jsWs fuel p
    if deref p = comma then do
      let p ← advance 1 p
      jsSkipElements skip fuel kind depth n p
    else if deref p = kind.closing then advance 1 p
    else .error .refused

/-- `js_skip_container` -/
def jsSkipContainer (skip : List UInt8 → ℕ → Except Stop (List UInt8)) (fuel : ℕ) (kind : Kind)
    (p : List UInt8) (depth : ℕ) : Except Stop (List UInt8) := do
  let p ← advance 1 p
  let p ← jsWs fuel p
  if deref p = kind.closing then advance 1 p
  else jsSkipElements skip fuel kind depth fuel p

/-- A byte of a number. -/
def isNumberByte (c : UInt8) : Bool :=
  isDigit c || c == 0x2E || c == 0x65 || c == 0x45 || c == 0x2B || c == 0x2D

/-- A word that has to stand at the cursor. -/
def jsWord (word p : List UInt8) : Except Stop (List UInt8) := do
  let found ← startsWith word p
  if found then advance word.length p else .error .refused

/-- A sign, if there is one. -/
def jsSign (p : List UInt8) : Except Stop (List UInt8) :=
  if deref p = 0x2D ∨ deref p = 0x2B then advance 1 p else .ok p

/-- The `default` of `js_skip_value`. -/
def jsNumber (fuel : ℕ) (p : List UInt8) : Except Stop (List UInt8) := do
  let q ← jsSign p
  let q ← skipWhile isNumberByte fuel q
  if q.length < p.length then .ok q else .error .refused

/-- `js_skip_value` -/
def jsSkipValue (fuel : ℕ) : ℕ → List UInt8 → ℕ → Except Stop (List UInt8)
  | 0, _, _ => .error .outOfFrames
  | frames + 1, p, depth =>
    if depth > 32 then .error .refused
    else do
      let p ← jsWs fuel p
      if deref p = quote then do
        let (_, p) ← jsString fuel p
        .ok p
      else if deref p = openBrace then
        jsSkipContainer (jsSkipValue fuel frames) fuel .object p depth
      else if deref p = openBracket then
        jsSkipContainer (jsSkipValue fuel frames) fuel .array p depth
      else if deref p = 0x74 then jsWord (ascii "true") p
      else if deref p = 0x66 then jsWord (ascii "false") p
      else if deref p = 0x6E then jsWord (ascii "null") p
      else jsNumber fuel p

/-! ## The envelope -/

/-- `OHMA_JSON` -/
structure OhmaEnvelope where
  version : Option (List UInt8)
  convoId : Option (List UInt8)
  message : Option (List UInt8)
  symKey : Option (List UInt8)
  iv : Option (List UInt8)
  signature : Option (List UInt8)
  msgSeq : ℤ
  msgTotal : ℤ
  parsed : Bool
  deriving DecidableEq

namespace OhmaEnvelope

def empty : OhmaEnvelope := ⟨none, none, none, none, none, none, 0, 0, false⟩

/-- `str_dst`: where a string with the key goes. -/
def strDst (key : List UInt8) : Option (OhmaEnvelope → List UInt8 → OhmaEnvelope) :=
  if key = ascii "version" then some fun o v => { o with version := v }
  else if key = ascii "convo_id" then some fun o v => { o with convoId := v }
  else if key = ascii "message" then some fun o v => { o with message := v }
  else if key = ascii "sym_key" then some fun o v => { o with symKey := v }
  else if key = ascii "iv" then some fun o v => { o with iv := v }
  else if key = ascii "signature" then some fun o v => { o with signature := v }
  else none

/-- `int_dst` -/
def intDst (key : List UInt8) : Option (OhmaEnvelope → ℤ → OhmaEnvelope) :=
  if key = ascii "msg_seq" then some fun o v => { o with msgSeq := v }
  else if key = ascii "msg_total" then some fun o v => { o with msgTotal := v }
  else none

end OhmaEnvelope

/-- `g_ascii_strtoll`, where a digit or a minus stands. -/
def gAsciiStrtoll (p : List UInt8) : ℤ :=
  let negative := deref p = 0x2D
  let digits := (if negative then p.tail else p).takeWhile isDigit
  let n : ℕ := digits.foldl (fun n d => n * 10 + (d.toNat - 0x30)) 0
  max (-2 ^ 63) (min (2 ^ 63 - 1) (if negative then -n else n))

/-- The value of a member. -/
def ohmaValue (fuel frames : ℕ) (key p : List UInt8) (o : OhmaEnvelope) :
    Except Stop (OhmaEnvelope × List UInt8) :=
  match OhmaEnvelope.strDst key, OhmaEnvelope.intDst key with
  | some store, _ =>
    if deref p = quote then do
      let (v, p) ← jsString fuel p
      .ok (store o v, p)
    else do
      let p ← jsSkipValue fuel frames p 0
      .ok (o, p)
  | none, some store =>
    if isDigit (deref p) ∨ deref p = 0x2D then do
      let q ← jsSkipValue fuel frames p 0
      .ok (store o (gAsciiStrtoll p), q)
    else do
      let p ← jsSkipValue fuel frames p 0
      .ok (o, p)
  | none, none => do
    let p ← jsSkipValue fuel frames p 0
    .ok (o, p)

/-- The loop of `ohma_json_parse`. -/
def ohmaMembers (fuel frames : ℕ) :
    ℕ → List UInt8 → OhmaEnvelope → Except Stop (OhmaEnvelope × List UInt8)
  | 0, _, _ => .error .outOfFuel
  | n + 1, p, o => do
    let (key, p) ← jsString fuel p
    let p ← jsWs fuel p
    if deref p ≠ colon then .error .refused
    else do
      let p ← advance 1 p
      let p ← jsWs fuel p
      let (o, p) ← ohmaValue fuel frames key p o
      let p ← jsWs fuel p
      if deref p = comma then do
        let p ← advance 1 p
        let p ← jsWs fuel p
        ohmaMembers fuel frames n p o
      else if deref p = closeBrace then do
        let p ← advance 1 p
        .ok ({ o with parsed := true }, p)
      else .error .refused

/-- `ohma_json_parse` -/
def ohmaJsonParse (fuel frames : ℕ) (json : List UInt8) :
    Except Stop (OhmaEnvelope × List UInt8) := do
  let p ← jsWs fuel json
  if deref p ≠ openBrace then .error .refused
  else do
    let p ← advance 1 p
    let p ← jsWs fuel p
    if deref p = closeBrace then .ok ({ OhmaEnvelope.empty with parsed := true }, p)
    else ohmaMembers fuel frames fuel p .empty

/-! ## Inside the text -/

theorem isWs_zero : isWs 0 = false := by decide

theorem isNumberByte_zero : isNumberByte 0 = false := by decide

theorem within_jsWs {fuel : ℕ} {p : List UInt8} (h : p.length < fuel) :
    Within id p (jsWs fuel p) := within_skipWhile isWs_zero h

/-- The cursor is at a byte that is not the terminator. -/
theorem within_next {p : List UInt8} {c : UInt8} (h : deref p = c) (hc : c ≠ 0) :
    Within id p (advance 1 p) := by
  rw [eq_cons_of_deref h hc]
  exact within_advance (Nat.succ_le_succ (Nat.zero_le _))

theorem gAsciiXdigitValue_zero : gAsciiXdigitValue 0 = none := by decide

/-- The loop reads no further than the digits that it counts. -/
theorem xdigits_ok (p : List UInt8) (off n i cp : ℕ) (h : off + i ≤ p.length) :
    ∃ j v, xdigits p off n i cp = .ok (j, v) ∧ off + j ≤ p.length ∧ j ≤ i + n := by
  induction n generalizing i cp with
  | zero => exact ⟨i, cp, rfl, h, le_rfl⟩
  | succ n ih =>
    rw [xdigits, index_eq h, ok_bind]
    cases hv : gAsciiXdigitValue (deref (p.drop (off + i))) with
    | none => exact ⟨i, cp, rfl, h, Nat.le_add_right _ _⟩
    | some v =>
      have hlt : off + i < p.length := by
        by_contra hge
        rw [List.drop_eq_nil_of_le (not_lt.1 hge), deref, gAsciiXdigitValue_zero] at hv
        cases hv
      obtain ⟨j, w, hj, hle, hn⟩ := ih (i + 1) (cp * 16 + v) hlt
      exact ⟨j, w, hj, hle, by omega⟩

theorem within_surrogatePair (p : List UInt8) (cp : ℕ) :
    Within Prod.snd p (surrogatePair p cp) := by
  have hsame : Within Prod.snd p (.ok (cp, p)) := List.suffix_refl p
  unfold surrogatePair
  split
  · rename_i h
    have hp := eq_cons_of_deref h.2.2 (by decide)
    have hlen : 1 ≤ p.length := by
      rw [hp]
      exact Nat.succ_le_succ (Nat.zero_le _)
    rw [index_eq hlen, ok_bind]
    split
    · rename_i hu
      have hlen2 : 2 ≤ p.length := by
        by_contra hlt
        rw [List.drop_eq_nil_of_le (by omega)] at hu
        exact absurd hu (by decide)
      obtain ⟨k, lo, hk, hle, -⟩ := xdigits_ok p 2 4 0 0 hlen2
      rw [hk, ok_bind]
      dsimp only
      split
      · rename_i hfour
        rw [advance_eq (by omega), ok_bind]
        exact List.drop_suffix 6 p
      · exact hsame
    · exact hsame
  · exact hsame

theorem within_unicodeEscape (p : List UInt8) : Within Prod.snd p (unicodeEscape p) := by
  obtain ⟨i, cp, hi, hle, hn⟩ := xdigits_ok p 0 4 0 0 (Nat.zero_le _)
  rw [unicodeEscape, hi, ok_bind]
  dsimp only
  split
  · exact .refuse
  · refine (within_advance (by omega)).bind fun q _ => ?_
    exact (within_surrogatePair q cp).bind fun r _ => List.suffix_refl r.2

theorem escapeValue_zero : escapeValue 0 = none := by decide

theorem within_jsStringLoop {n : ℕ} {p s : List UInt8} (h : p.length < n) :
    Within Prod.snd p (jsStringLoop n p s) := by
  induction n generalizing p s with
  | zero => exact absurd h (Nat.not_lt_zero _)
  | succ n ih =>
    -- the loop goes on from a cursor that is further on
    have hnext {q s' : List UInt8} (hq : q <:+ p) (hlt : q.length < p.length) :
        Within Prod.snd q (jsStringLoop n q s') := ih (by omega)
    rw [jsStringLoop]
    split
    · rename_i hloop
      have hp := eq_cons_of_deref rfl hloop.1
      have hstep : advance 1 p = .ok p.tail := by rw [hp]; rfl
      have hlen : p.tail.length < p.length := by
        conv_rhs => rw [hp]
        exact Nat.lt_succ_self _
      rw [hstep, ok_bind, ok_bind]
      have htail : p.tail <:+ p := List.tail_suffix p
      split
      · exact (hnext htail hlen).mono htail
      · refine Within.mono htail ?_
        split
        · rename_i b hb
          have hne : deref p.tail ≠ 0 := by
            intro hzero
            rw [hzero, escapeValue_zero] at hb
            cases hb
          refine (within_next rfl hne).bind fun q hq => ?_
          have hqlen : q.length ≤ p.tail.length := hq.length_le
          exact ih (show q.length < n by omega)
        · split
          · rename_i hu
            refine (within_next hu (by decide)).bind fun q hq => ?_
            refine (within_unicodeEscape q).bind fun r hr => ?_
            have hqlen : q.length ≤ p.tail.length := hq.length_le
            have hrlen : r.2.length ≤ q.length := hr.length_le
            exact ih (by omega)
          · exact .refuse
    · split
      · exact .refuse
      · rename_i hquote
        refine (within_next (not_not.1 hquote) (by decide)).bind fun q _ => ?_
        exact List.suffix_refl q

theorem within_jsString {fuel : ℕ} {p : List UInt8} (h : p.length < fuel) :
    Within Prod.snd p (jsString fuel p) := by
  refine (within_jsWs h).bind fun q hq => ?_
  split
  · exact .refuse
  · rename_i hquote
    refine (within_next (not_not.1 hquote) (by decide)).bind fun r hr => ?_
    refine (within_jsStringLoop ?_).bind fun x _ => List.suffix_refl x.2
    exact (hr.length_le.trans hq.length_le).trans_lt h

/-- A cursor that is further on leaves the fuel enough. -/
theorem fits {fuel : ℕ} {p q : List UInt8} (h : p.length < fuel) (hq : q <:+ p) :
    q.length < fuel :=
  hq.length_le.trans_lt h

theorem closing_ne_zero (kind : Kind) : kind.closing ≠ 0 := by cases kind <;> decide

section

variable {fuel : ℕ} {skip : List UInt8 → ℕ → Except Stop (List UInt8)} {depth : ℕ}

theorem within_jsLead (kind : Kind) {p : List UInt8} (h : p.length < fuel) :
    Within id p (jsLead fuel kind p) := by
  unfold jsLead
  split
  · refine (within_jsString h).bind fun x hx => ?_
    refine (within_jsWs (fits h hx)).bind fun q _ => ?_
    split
    · exact .refuse
    · rename_i hcolon
      exact within_next (not_not.1 hcolon) (by decide)
  · exact List.suffix_refl p

theorem within_jsSkipElements (hskip : ∀ p, p.length < fuel → Within id p (skip p (depth + 1)))
    (kind : Kind) {n : ℕ} {p : List UInt8} (hn : p.length < n) (h : p.length < fuel) :
    Within id p (jsSkipElements skip fuel kind depth n p) := by
  induction n generalizing p with
  | zero => exact absurd hn (Nat.not_lt_zero _)
  | succ n ih =>
    rw [jsSkipElements]
    refine (within_jsLead kind h).bind fun q hq => ?_
    have hqfuel := fits h hq
    refine (hskip q hqfuel).bind fun r hr => ?_
    have hrfuel := fits hqfuel hr
    refine (within_jsWs hrfuel).bind fun t ht => ?_
    have htfuel := fits hrfuel ht
    split
    · rename_i hcomma
      have hcons := eq_cons_of_deref hcomma (by decide)
      have hlen : t.tail.length < p.length := by
        have htp : t.length ≤ p.length := ht.length_le.trans (hr.length_le.trans hq.length_le)
        rw [hcons] at htp
        exact htp
      have hstep : advance 1 t = .ok t.tail := by rw [hcons]; rfl
      have htail : t.tail <:+ t := List.tail_suffix t
      rw [hstep, ok_bind]
      exact (ih (by omega) (fits htfuel htail)).mono htail
    · split
      · rename_i hclose
        exact within_next hclose (closing_ne_zero kind)
      · exact .refuse

theorem within_jsSkipContainer (hskip : ∀ p, p.length < fuel → Within id p (skip p (depth + 1)))
    (kind : Kind) {p : List UInt8} {c : UInt8} (hc : deref p = c) (hne : c ≠ 0)
    (h : p.length < fuel) : Within id p (jsSkipContainer skip fuel kind p depth) := by
  refine (within_next hc hne).bind fun q hq => ?_
  have hqfuel := fits h hq
  refine (within_jsWs hqfuel).bind fun r hr => ?_
  split
  · rename_i hclose
    exact within_next hclose (closing_ne_zero kind)
  · exact within_jsSkipElements hskip kind (fits hqfuel hr) (fits hqfuel hr)

end

theorem within_jsWord {word : List UInt8} (hword : (0 : UInt8) ∉ word) (p : List UInt8) :
    Within id p (jsWord word p) := by
  rw [jsWord, startsWith_eq hword, ok_bind]
  split
  · rename_i hfound
    exact within_advance (List.isPrefixOf_iff_prefix.1 hfound).length_le
  · exact .refuse

theorem within_jsSign (p : List UInt8) : Within id p (jsSign p) := by
  unfold jsSign
  split
  · rename_i hsign
    rcases hsign with hminus | hplus
    · exact within_next hminus (by decide)
    · exact within_next hplus (by decide)
  · exact List.suffix_refl p

theorem within_jsNumber {fuel : ℕ} {p : List UInt8} (h : p.length < fuel) :
    Within id p (jsNumber fuel p) := by
  refine (within_jsSign p).bind fun q hq => ?_
  refine (within_skipWhile isNumberByte_zero (fits h hq)).bind fun r _ => ?_
  split
  · exact List.suffix_refl r
  · exact .refuse

/-- A call that is 34 levels deep or less has a frame for each of the calls below it. -/
theorem within_jsSkipValue {fuel frames depth : ℕ} (hframes : 0 < frames)
    (hdepth : 34 ≤ frames + depth) {p : List UInt8} (h : p.length < fuel) :
    Within id p (jsSkipValue fuel frames p depth) := by
  induction frames generalizing p depth with
  | zero => exact absurd hframes (lt_irrefl 0)
  | succ frames ih =>
    rw [jsSkipValue]
    split
    · exact .refuse
    · rename_i hlimit
      have hskip : ∀ p, p.length < fuel → Within id p (jsSkipValue fuel frames p (depth + 1)) :=
        fun p hp => ih (by omega) (by omega) hp
      refine (within_jsWs h).bind fun q hq => ?_
      have hqfuel := fits h hq
      split
      · exact (within_jsString hqfuel).bind fun x _ => List.suffix_refl x.2
      · split
        · rename_i hopen
          exact within_jsSkipContainer hskip .object hopen (by decide) hqfuel
        · split
          · rename_i hopen
            exact within_jsSkipContainer hskip .array hopen (by decide) hqfuel
          · split
            · exact within_jsWord (by decide) q
            · split
              · exact within_jsWord (by decide) q
              · split
                · exact within_jsWord (by decide) q
                · exact within_jsNumber hqfuel

section

variable {fuel frames : ℕ} (hframes : 34 ≤ frames)
include hframes

theorem within_ohmaValue {p : List UInt8} (h : p.length < fuel) (key : List UInt8)
    (o : OhmaEnvelope) : Within Prod.snd p (ohmaValue fuel frames key p o) := by
  have hskip : Within id p (jsSkipValue fuel frames p 0) :=
    within_jsSkipValue (by omega) (by omega) h
  have hpass : Within Prod.snd p (do
      let p ← jsSkipValue fuel frames p 0
      Except.ok (o, p)) := hskip.bind fun q _ => List.suffix_refl q
  unfold ohmaValue
  split
  · split
    · exact (within_jsString h).bind fun x _ => List.suffix_refl x.2
    · exact hpass
  · split
    · exact hskip.bind fun q _ => List.suffix_refl q
    · exact hpass
  · exact hpass

theorem within_ohmaMembers {n : ℕ} {p : List UInt8} (hn : p.length < n) (h : p.length < fuel)
    (o : OhmaEnvelope) : Within Prod.snd p (ohmaMembers fuel frames n p o) := by
  induction n generalizing p o with
  | zero => exact absurd hn (Nat.not_lt_zero _)
  | succ n ih =>
    rw [ohmaMembers]
    refine (within_jsString h).bind fun x hx => ?_
    have hxfuel := fits h hx
    refine (within_jsWs hxfuel).bind fun q hq => ?_
    have hqfuel := fits hxfuel hq
    split
    · exact .refuse
    · rename_i hcolon
      refine (within_next (not_not.1 hcolon) (by decide)).bind fun r hr => ?_
      have hrfuel := fits hqfuel hr
      refine (within_jsWs hrfuel).bind fun s hs => ?_
      have hsfuel := fits hrfuel hs
      refine (within_ohmaValue hframes hsfuel x.1 o).bind fun y hy => ?_
      have hyfuel := fits hsfuel hy
      refine (within_jsWs hyfuel).bind fun t ht => ?_
      have htfuel := fits hyfuel ht
      split
      · rename_i hcomma
        have hcons := eq_cons_of_deref hcomma (by decide)
        have hlen : t.tail.length < p.length := by
          have hty : t.length ≤ y.2.length := ht.length_le
          have hys : y.2.length ≤ s.length := hy.length_le
          have hsr : s.length ≤ r.length := hs.length_le
          have hrq : r.length ≤ q.length := hr.length_le
          have hqx : q.length ≤ x.2.length := hq.length_le
          have hxp : x.2.length ≤ p.length := hx.length_le
          have htail : t.tail.length + 1 = t.length := (congrArg List.length hcons).symm
          omega
        have hstep : advance 1 t = .ok t.tail := by rw [hcons]; rfl
        have htail : t.tail <:+ t := List.tail_suffix t
        rw [hstep, ok_bind]
        refine Within.mono htail ((within_jsWs (fits htfuel htail)).bind fun u hu => ?_)
        have hulen : u.length ≤ t.tail.length := hu.length_le
        exact ih (show u.length < n by omega) (show u.length < fuel by omega) y.1
      · split
        · rename_i hclose
          exact (within_next hclose (by decide)).bind fun u _ => List.suffix_refl u
        · exact .refuse

theorem within_ohmaJsonParse {json : List UInt8} (h : json.length < fuel) :
    Within Prod.snd json (ohmaJsonParse fuel frames json) := by
  refine (within_jsWs h).bind fun p hp => ?_
  have hpfuel := fits h hp
  split
  · exact .refuse
  · rename_i hopen
    refine (within_next (not_not.1 hopen) (by decide)).bind fun q hq => ?_
    have hqfuel := fits hpfuel hq
    refine (within_jsWs hqfuel).bind fun r hr => ?_
    split
    · exact List.suffix_refl r
    · exact within_ohmaMembers hframes (fits hqfuel hr) (fits hqfuel hr) .empty

end

end MacHPSDR.Hfdl
