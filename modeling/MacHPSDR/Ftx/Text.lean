import MacHPSDR.Foundations.Radix
import MacHPSDR.Ft8.HashTable

/-!
# Characters and their numbers

`charn` and `nchar` number the characters of six tables; a code word is a number with one digit to a
character (`packChars`), and its characters come back by division (`unpackChars_packChars`).
-/

namespace MacHPSDR.Ftx

open Radix

/-- `ft8_char_table_e` -/
inductive CharTable
  | full
  | alphanumSpaceSlash
  | alphanumSpace
  | lettersSpace
  | alphanum
  | numeric
  deriving DecidableEq

namespace CharTable

/-- The table begins with a blank. -/
def space (t : CharTable) : Bool := t != .alphanum && t != .numeric

def digits (t : CharTable) : Bool := t != .lettersSpace

def letters (t : CharTable) : Bool := t != .numeric

/-- What comes last in the table. -/
def signs : CharTable → List Char
  | .full => ['+', '-', '.', '/', '?']
  | .alphanumSpaceSlash => ['/']
  | _ => []

/-- How many characters the table has. -/
def size (t : CharTable) : ℕ :=
  t.space.toNat + 10 * t.digits.toNat + 26 * t.letters.toNat + t.signs.length

end CharTable

/-- `charn` -/
def charn (c : ℕ) (t : CharTable) : Char :=
  if t.space ∧ c = 0 then ' '
  else
    let c := c - t.space.toNat
    if t.digits ∧ c < 10 then Char.ofNat ('0'.toNat + c)
    else
      let c := c - 10 * t.digits.toNat
      if t.letters ∧ c < 26 then Char.ofNat ('A'.toNat + c)
      else t.signs.getD (c - 26 * t.letters.toNat) '_'

/-- `nchar` -/
def nchar (c : Char) (t : CharTable) : Option ℕ :=
  if t.space ∧ c = ' ' then some 0
  else if t.digits ∧ '0' ≤ c ∧ c ≤ '9' then some (t.space.toNat + (c.toNat - '0'.toNat))
  else if t.letters ∧ 'A' ≤ c ∧ c ≤ 'Z' then
    some (t.space.toNat + 10 * t.digits.toNat + (c.toNat - 'A'.toNat))
  else
    (t.signs.idxOf? c).map
      (t.space.toNat + 10 * t.digits.toNat + 26 * t.letters.toNat + ·)

/-- The callsign tables use the same numbers. -/
theorem nchar_alphanumSpaceSlash (c : Char) :
    nchar c .alphanumSpaceSlash = Ft8.HashTable.nchar c := by
  have hslash : (CharTable.signs .alphanumSpaceSlash).idxOf? c =
      if c = '/' then some 0 else none := by
    by_cases h : c = '/'
    · rw [h]
      rfl
    · rw [if_neg h, List.idxOf?_eq_none_iff]
      exact fun hc => h (List.mem_singleton.1 hc)
  unfold nchar Ft8.HashTable.nchar
  have hspace : CharTable.space .alphanumSpaceSlash = true := rfl
  have hdigits : CharTable.digits .alphanumSpaceSlash = true := rfl
  have hletters : CharTable.letters .alphanumSpaceSlash = true := rfl
  rw [hslash, hspace, hdigits, hletters]
  simp only [true_and, apply_ite (Option.map _), Option.map_some, Option.map_none]
  rfl

theorem nchar_charn : ∀ t : CharTable, ∀ c < t.size, nchar (charn c t) t = some c := by
  intro t
  cases t <;> decide

theorem toNat_lt_of_nchar {c : Char} {t : CharTable} {n : ℕ} (h : nchar c t = some n) :
    c.toNat < 128 := by
  have hle (d : Char) (hd : d.toNat < 128) (hc : c ≤ d) : c.toNat < 128 :=
    Nat.lt_of_le_of_lt (UInt32.le_iff_toNat_le.1 hc) hd
  unfold nchar at h
  split_ifs at h with hspace hdigit hletter
  · rw [hspace.2]
    decide
  · exact hle '9' (by decide) hdigit.2.2
  · exact hle 'Z' (by decide) hletter.2.2
  · obtain ⟨i, hi, -⟩ := Option.map_eq_some_iff.1 h
    have hmem : c ∈ t.signs := List.isSome_idxOf?.1 (Option.isSome_of_eq_some hi)
    have hsigns : ∀ t : CharTable, ∀ d ∈ t.signs, d.toNat < 128 := by
      intro t
      cases t <;> simp [CharTable.signs]
    exact hsigns t c hmem

theorem charn_nchar {c : Char} {t : CharTable} {n : ℕ} (h : nchar c t = some n) :
    n < t.size ∧ charn n t = c := by
  have hall : ∀ t ∈ [CharTable.full, .alphanumSpaceSlash, .alphanumSpace, .lettersSpace, .alphanum,
      .numeric], ∀ k < 128, ∀ n ∈ nchar (Char.ofNat k) t,
        n < t.size ∧ charn n t = Char.ofNat k := by
    decide +kernel
  have hk := hall t (by cases t <;> decide) c.toNat (toNat_lt_of_nchar h) n
  rw [Char.ofNat_toNat] at hk
  exact hk h

/-! ## Words -/

/-- The characters of a word as digits, each in its table. -/
def charDigits : List CharTable → List Char → Option (List (ℕ × ℕ))
  | t :: ts, c :: cs =>
    (nchar c t).bind fun n => (charDigits ts cs).map fun ds => (t.size, n) :: ds
  | _, _ => some []

/-- The number of a word: `n = n * size + nchar(c, table)`, from the first character on. -/
def packChars (ts : List CharTable) (cs : List Char) : Option ℕ :=
  (charDigits ts cs).map Radix.number

/-- The characters of a number: `charn(n % size, table)`, `n /= size` from the last one on. -/
def unpackChars (ts : List CharTable) (n : ℕ) : List Char :=
  ((digits (ts.map CharTable.size).reverse n).zipWith charn ts.reverse).reverse

theorem unpackChars_concat (ts : List CharTable) (t : CharTable) (n : ℕ) :
    unpackChars (ts ++ [t]) n = unpackChars ts (n / t.size) ++ [charn (n % t.size) t] := by
  rw [unpackChars, List.map_append, List.reverse_append, List.reverse_append]
  exact List.reverse_cons ..

theorem charDigits_spec {ts : List CharTable} {cs : List Char} {ds : List (ℕ × ℕ)}
    (h : charDigits ts cs = some ds) (hlen : ts.length = cs.length) :
    ds.map Prod.fst = ts.map CharTable.size ∧ Proper ds ∧
      (ds.map Prod.snd).zipWith charn ts = cs := by
  induction ts generalizing cs ds with
  | nil =>
    cases cs with
    | nil =>
      obtain rfl := Option.some.inj h
      exact ⟨rfl, List.forall_mem_nil _, rfl⟩
    | cons c cs => cases hlen
  | cons t ts ih =>
    cases cs with
    | nil => cases hlen
    | cons c cs =>
      obtain ⟨n, hn, h⟩ := Option.bind_eq_some_iff.1 h
      obtain ⟨ds, hds, rfl⟩ := Option.map_eq_some_iff.1 h
      obtain ⟨hsizes, hproper, hchars⟩ := ih hds (Nat.succ.inj hlen)
      obtain ⟨hlt, hchar⟩ := charn_nchar hn
      refine ⟨?_, List.forall_mem_cons.2 ⟨hlt, hproper⟩, ?_⟩
      · rw [List.map_cons, List.map_cons, hsizes]
      · rw [List.map_cons, List.zipWith_cons_cons, hchar, hchars]

/-- **The characters** of the number of a word are the word. -/
theorem unpackChars_packChars {ts : List CharTable} {cs : List Char} {n : ℕ}
    (h : packChars ts cs = some n) (hlen : ts.length = cs.length) :
    unpackChars ts n = cs ∧ n < (ts.map CharTable.size).prod := by
  obtain ⟨ds, hds, rfl⟩ := Option.map_eq_some_iff.1 h
  obtain ⟨hsizes, hproper, hchars⟩ := charDigits_spec hds hlen
  have hds : (ds.map Prod.snd).length = ts.length := by
    have := congrArg List.length hsizes
    simpa using this
  refine ⟨?_, hsizes ▸ Radix.number_lt hproper⟩
  rw [unpackChars, ← hsizes, digits_number hproper, ← List.reverse_zipWith hds, hchars,
    List.reverse_reverse]

/-- A word in one table has a number if its characters are in the table. -/
theorem packChars_replicate_isSome_iff (t : CharTable) (cs : List Char) :
    (packChars (List.replicate cs.length t) cs).isSome = true ↔
      ∀ c ∈ cs, (nchar c t).isSome = true := by
  rw [packChars, Option.isSome_map]
  induction cs with
  | nil => simp [charDigits]
  | cons c cs ih =>
    rw [List.length_cons, List.replicate_succ, charDigits, List.forall_mem_cons, ← ih]
    cases nchar c t with
    | none => simp
    | some n => simp

/-! ## Blanks -/

/-- `trim` -/
def trim (s : List Char) : List Char := (s.dropWhile (· == ' ')).rdropWhile (· == ' ')

theorem trim_append_replicate (s : List Char) (k : ℕ) :
    trim (s ++ List.replicate k ' ') = trim s := by
  have hblank : ∀ c ∈ List.replicate k ' ', (c == ' ') = true := by
    intro c hc
    rw [List.eq_of_mem_replicate hc]
    rfl
  unfold trim
  rw [List.dropWhile_append]
  split
  · rename_i hnil
    rw [List.isEmpty_iff.1 hnil, List.dropWhile_eq_nil_iff.2 hblank]
  · rw [List.rdropWhile, List.reverse_append, List.dropWhile_append_of_pos]
    · rfl
    · exact fun c hc => hblank c (List.mem_reverse.1 hc)

/-- A word comes out of the blanks around it. -/
theorem trim_word {w : List Char} (hw : ' ' ∉ w) (k : ℕ) :
    trim (w ++ List.replicate k ' ') = w ∧ trim (' ' :: w ++ List.replicate k ' ') = w := by
  have hword : trim w = w := by
    unfold trim
    rw [List.dropWhile_eq_self_iff.2, List.rdropWhile_eq_self_iff.2]
    · intro hne hlast
      exact hw (beq_iff_eq.1 hlast ▸ List.getLast_mem hne)
    · intro hpos hfirst
      exact hw (beq_iff_eq.1 hfirst ▸ List.getElem_mem hpos)
  refine ⟨by rw [trim_append_replicate, hword], ?_⟩
  rw [trim_append_replicate, trim, List.dropWhile_cons_of_pos rfl]
  exact hword

end MacHPSDR.Ftx
