import MacHPSDR.Foundations.CString
import MacHPSDR.Ftx.FreeText
import MacHPSDR.Ftx.Grid

/-!
# Callsigns in 28 bits

`pack28` has a number for `DE`, `QRZ`, `CQ`, `CQ` with three digits or up to four letters, and for
every callsign of the standard form; of any other it sends a hash. The prefixes `3DA0` and `3X` do
not fit the form and take the numbers of callsigns that nobody has, so that those are the ones that
come back as another callsign (`unpackBasecall_packBasecall_iff`).
-/

namespace MacHPSDR.Ftx

open Ft8.HashTable (callsignHash Table HashType)

/-- `MAX22` -/
def max22 : ℕ := 4194304

/-- `NTOKENS` -/
def ntokens : ℕ := 2063592

/-! ## Texts -/

/-- `is_letter` -/
def isLetter (c : Char) : Bool := inRange c 'A' 'Z' || inRange c 'a' 'z'

/-- `starts_with` -/
def startsWith (string start : List Char) : Bool := start.isPrefixOf string

/-- `ends_with` -/
def endsWith (string suffix : List Char) : Bool := suffix.isSuffixOf string

/-! ## The table of the callsigns -/

/-- `save_callsign`: the hash of 22 bits and the table. -/
def saveCallsign (callsign : List Char) (t : Table) : Option (ℕ × Table) :=
  (callsignHash callsign).map fun n22 => (n22, Ft8.HashTable.add callsign n22 t)

/-- `lookup_callsign` -/
def lookupCallsign (type : HashType) (hash : ℕ) (t : Table) : List Char :=
  match Ft8.HashTable.lookup type hash t with
  | none => ['<', '.', '.', '.', '>']
  | some callsign => '<' :: callsign ++ ['>']

/-! ## Callsigns of the standard form -/

/-- What `pack_basecall` copies to the six blanks of `c6`, from the first one on. -/
def basecallWord (callsign : List Char) (length : ℕ) : List Char :=
  if startsWith callsign ['3', 'D', 'A', '0'] ∧ 4 < length ∧ length ≤ 7 then
    ['3', 'D', '0'] ++ (callsign.drop 4).take (length - 4)
  else if startsWith callsign ['3', 'X'] ∧ isLetter (charAt callsign 2) ∧ length ≤ 7 then
    'Q' :: (callsign.drop 2).take (length - 2)
  else if isDigit (charAt callsign 2) ∧ length ≤ 6 then callsign.take length
  else if isDigit (charAt callsign 1) ∧ length ≤ 5 then ' ' :: callsign.take length
  else []

/-- The six characters `c6`. -/
def padded (word : List Char) : List Char := word ++ List.replicate (6 - word.length) ' '

def basecallTables : List CharTable :=
  [.alphanumSpace, .alphanum, .numeric, .lettersSpace, .lettersSpace, .lettersSpace]

/-- `pack_basecall`; -1 is nothing. -/
def packBasecall (callsign : List Char) (length : ℕ) : Option ℕ :=
  if 2 < length then packChars basecallTables (padded (basecallWord callsign length)) else none

/-- The standard callsign of `unpack28`. -/
def unpackBasecall (n : ℕ) : List Char :=
  let callsign := unpackChars basecallTables n
  if startsWith callsign ['3', 'D', '0'] ∧ charAt callsign 3 ≠ ' ' then
    ['3', 'D', 'A', '0'] ++ trim (callsign.drop 3)
  else if charAt callsign 0 = 'Q' ∧ isLetter (charAt callsign 1) then
    ['3', 'X'] ++ trim (callsign.drop 1)
  else trim callsign

/-! ## Calls to all -/

/-- The loop of `parse_cq_modifier`: the digits, the letters and the number of the letters. -/
def cqLoop : ℕ → List Char → ℕ → ℕ → ℕ → Option (ℕ × ℕ × ℕ)
  | n + 1, c :: cs, nnum, nlet, m =>
    if c = ' ' then some (nnum, nlet, m)
    else if isDigit c then cqLoop n cs (nnum + 1) nlet m
    else if isLetter c then cqLoop n cs nnum (nlet + 1) (27 * m + (c.toNat - 'A'.toNat + 1))
    else none
  | _, _, nnum, nlet, m => some (nnum, nlet, m)

/-- `parse_cq_modifier`; -1 is nothing. -/
def parseCqModifier (string : List Char) : Option ℕ :=
  (cqLoop 5 (string.drop 3) 0 0 0).bind fun (nnum, nlet, m) =>
    if nnum = 3 ∧ nlet = 0 then some (CString.atoi (string.drop 3)).toNat
    else if nnum = 0 ∧ nlet ≤ 4 then some (1000 + m)
    else none

/-! ## The number of a callsign -/

/-- `pack28`: the number, the suffix bit and the table; -1 is nothing. -/
def pack28 (callsign : List Char) (t : Table) : Option (ℕ × ℕ × Table) :=
  if callsign = ['D', 'E'] then some (0, 0, t)
  else if callsign = ['Q', 'R', 'Z'] then some (1, 0, t)
  else if callsign = ['C', 'Q'] then some (2, 0, t)
  else if startsWith callsign ['C', 'Q', ' '] ∧ callsign.length < 8 then
    (parseCqModifier callsign).map fun v => (3 + v, 0, t)
  else
    let suffix := endsWith callsign ['/', 'P'] || endsWith callsign ['/', 'R']
    match packBasecall callsign (callsign.length - if suffix then 2 else 0) with
    | some n28 => (saveCallsign callsign t).map fun s => (ntokens + max22 + n28, suffix.toNat, s.2)
    | none =>
      if 3 ≤ callsign.length ∧ callsign.length ≤ 11 then
        (saveCallsign callsign t).map fun s => (ntokens + s.1, 0, s.2)
      else none

/-- `unpack28`: the text, its kind and the table; an error is nothing. -/
def unpack28 (n28 ip i3 : ℕ) (t : Table) : Option (List Char × Field × Table) :=
  if n28 < ntokens then
    if n28 = 0 then some (['D', 'E'], .token, t)
    else if n28 = 1 then some (['Q', 'R', 'Z'], .token, t)
    else if n28 = 2 then some (['C', 'Q'], .token, t)
    else if n28 ≤ 1002 then
      some (['C', 'Q', ' '] ++ intToDd ((n28 : ℤ) - 3) 3 false, .tokenWithArg, t)
    else if n28 ≤ 532443 then
      some (['C', 'Q', ' '] ++ (unpackChars (List.replicate 4 .lettersSpace) (n28 - 1003)).dropWhile
        (· == ' '), .tokenWithArg, t)
    else none
  else if n28 - ntokens < max22 then
    some (lookupCallsign .bits22 (n28 - ntokens) t, .call, t)
  else
    let result := unpackBasecall (n28 - ntokens - max22)
    if result.length < 3 then none
    else
      (if ip = 0 then some result
        else if i3 = 1 then some (result ++ ['/', 'R'])
        else if i3 = 2 then some (result ++ ['/', 'P'])
        else none).map fun result =>
          (result, .call, ((saveCallsign result t).map Prod.snd).getD t)

/-! ## The standard form -/

/-- The forms of a standard callsign, and the characters that are packed for it. -/
inductive Form : List Char → List Char → Prop
  | swazi (d : Char) (rest : List Char) (hlen : rest.length ≤ 2) :
      Form ('3' :: 'D' :: 'A' :: '0' :: d :: rest) ('3' :: 'D' :: '0' :: d :: rest)
  | guinea (c : Char) (rest : List Char) (hc : isLetter c = true) (hlen : rest.length ≤ 4) :
      Form ('3' :: 'X' :: c :: rest) ('Q' :: c :: rest)
  | two (a b c : Char) (rest : List Char) (hc : isDigit c = true) (hlen : rest.length ≤ 3) :
      Form (a :: b :: c :: rest) (a :: b :: c :: rest)
  | one (a b c : Char) (rest : List Char) (hb : isDigit b = true) (hc : isDigit c = false)
      (hlen : rest.length ≤ 2) : Form (a :: b :: c :: rest) (' ' :: a :: b :: c :: rest)

theorem isDigit_eq_false_of_isLetter {c : Char} (h : isLetter c = true) : isDigit c = false := by
  rw [isLetter, Bool.or_eq_true, inRange_iff, inRange_iff] at h
  have hA : 'A'.toNat = 65 := rfl
  have ha : 'a'.toNat = 97 := rfl
  rw [← Bool.not_eq_true, isDigit_iff]
  omega

/-- What is copied for a callsign of one of the forms, whatever follows it. -/
theorem basecallWord_append {base c6 : List Char} (h : Form base c6) (s : List Char) :
    basecallWord (base ++ s) base.length = c6 := by
  unfold basecallWord
  cases h with
  | swazi d rest hlen =>
    have hle : rest.length + 5 ≤ 7 := by omega
    simp [startsWith, hle]
  | guinea c rest hc hlen =>
    have hle : rest.length + 3 ≤ 7 := by omega
    simp [startsWith, charAt, hc, hle]
  | two a b c rest hc hlen =>
    have hA : 'A' ≠ c := by
      rintro rfl
      exact absurd hc (by decide)
    have hletter : isLetter c ≠ true := by
      intro h
      rw [isDigit_eq_false_of_isLetter h] at hc
      exact Bool.false_ne_true hc
    have hle : rest.length + 3 ≤ 6 := by omega
    simp [startsWith, charAt, hc, hA, hletter, hle]
  | one a b c rest hb hc hlen =>
    have hD : 'D' ≠ b := by
      rintro rfl
      exact absurd hb (by decide)
    have hX : 'X' ≠ b := by
      rintro rfl
      exact absurd hb (by decide)
    have hle : rest.length + 3 ≤ 5 := by omega
    simp [startsWith, charAt, hb, hc, hD, hX, hle]

theorem packBasecall_append {base c6 : List Char} (h : Form base c6) (s : List Char) :
    packBasecall (base ++ s) base.length = packChars basecallTables (padded c6) := by
  have hlen : 2 < base.length := by cases h <;> simp
  rw [packBasecall, if_pos hlen, basecallWord_append h]

theorem length_padded {base c6 : List Char} (h : Form base c6) : (padded c6).length = 6 := by
  cases h <;> simp [padded] <;> omega

/-- The characters of a callsign are packed, or belong to the prefixes. -/
theorem mem_padded {base c6 : List Char} (h : Form base c6) {x : Char} (hx : x ∈ base) :
    x ∈ padded c6 ∨ x ∈ ['3', 'D', 'A', '0', 'X'] := by
  rw [padded, List.mem_append]
  cases h <;> simp at hx ⊢ <;> tauto

theorem startsWith_iff {string start : List Char} :
    startsWith string start = true ↔ ∃ rest, string = start ++ rest := by
  rw [startsWith, List.isPrefixOf_iff_prefix]
  exact exists_congr fun rest => eq_comm

/-- A callsign that is packed has one of the forms. -/
theorem form_of_packBasecall {base : List Char} {n : ℕ}
    (h : packBasecall base base.length = some n) : ∃ c6, Form base c6 := by
  unfold packBasecall basecallWord at h
  split_ifs at h with hlen hswazi hguinea htwo hone
  · obtain ⟨hstart, hlo, hhi⟩ := hswazi
    obtain ⟨rest, rfl⟩ := startsWith_iff.1 hstart
    match rest, hlo, hhi with
    | d :: rest, _, hhi =>
      exact ⟨_, .swazi d rest (by simp only [List.length_append, List.length_cons] at hhi; omega)⟩
  · obtain ⟨hstart, hletter, hhi⟩ := hguinea
    obtain ⟨rest, rfl⟩ := startsWith_iff.1 hstart
    match rest, hlen, hletter, hhi with
    | c :: rest, _, hletter, hhi =>
      exact ⟨_, .guinea c rest hletter
        (by simp only [List.length_append, List.length_cons] at hhi; omega)⟩
  · match base, hlen, htwo with
    | a :: b :: c :: rest, _, ⟨hc, hle⟩ =>
      exact ⟨_, .two a b c rest hc (by simp only [List.length_cons] at hle; omega)⟩
  · match base, hlen, htwo, hone with
    | a :: b :: c :: rest, _, htwo, ⟨hb, hle⟩ =>
      simp only [List.length_cons] at hle htwo
      have hc : isDigit c = false := by
        rw [← Bool.not_eq_true]
        exact fun hc => htwo ⟨hc, by omega⟩
      exact ⟨_, .one a b c rest hb hc (by omega)⟩
  · have hnone : packChars basecallTables (padded []) = none := by decide
    exact absurd (hnone.symm.trans h) (Option.some_ne_none n).symm

/-! ## There and back -/

/-- The callsigns whose number is that of another one. -/
def Renamed (callsign : List Char) : Prop :=
  startsWith callsign ['3', 'D', '0'] = true ∧ 3 < callsign.length ∨
    charAt callsign 0 = 'Q' ∧ isLetter (charAt callsign 1) = true

/-- **A standard callsign** without blanks comes back, unless it begins with `3D0` or with `Q` and
a letter. -/
theorem unpackBasecall_packBasecall_iff {base : List Char} {n : ℕ}
    (h : packBasecall base base.length = some n) (hblank : ' ' ∉ base) :
    unpackBasecall n = base ↔ ¬ Renamed base := by
  obtain ⟨c6, hform⟩ := form_of_packBasecall h
  have hpack := packBasecall_append hform []
  rw [List.append_nil, h] at hpack
  have hlen : basecallTables.length = (padded c6).length := (length_padded hform).symm
  have hchars := (unpackChars_packChars hpack.symm hlen).1
  unfold unpackBasecall
  rw [hchars]
  unfold padded
  obtain ⟨k, hk⟩ : ∃ k, 6 - c6.length = k := ⟨_, rfl⟩
  rw [hk]
  dsimp only
  cases hform with
  | swazi d rest _ =>
    have hd : ' ' ∉ d :: rest := fun h => hblank (by simp at h ⊢; tauto)
    have hne : d ≠ ' ' := fun h => hd (h ▸ List.mem_cons_self)
    rw [if_pos ⟨rfl, hne⟩]
    refine iff_of_true (congrArg (['3', 'D', 'A', '0'] ++ ·) (trim_word hd k).1) ?_
    rintro (⟨h, -⟩ | ⟨h, -⟩)
    · exact absurd h (by simp [startsWith])
    · exact absurd (show '3' = 'Q' from h) (by decide)
  | guinea c rest hc _ =>
    have hrest : ' ' ∉ c :: rest := fun h => hblank (by simp at h ⊢; tauto)
    rw [if_neg fun h => absurd h.1 (by simp [startsWith]), if_pos ⟨rfl, hc⟩]
    refine iff_of_true (congrArg (['3', 'X'] ++ ·) (trim_word hrest k).1) ?_
    rintro (⟨h, -⟩ | ⟨h, -⟩)
    · exact absurd h (by simp [startsWith])
    · exact absurd (show '3' = 'Q' from h) (by decide)
  | two a b c rest hc _ =>
    have hstart : startsWith (a :: b :: c :: rest ++ List.replicate k ' ') ['3', 'D', '0'] = true ↔
        startsWith (a :: b :: c :: rest) ['3', 'D', '0'] = true := by
      simp [startsWith]
    have hfourth : charAt (a :: b :: c :: rest ++ List.replicate k ' ') 3 ≠ ' ' ↔
        3 < (a :: b :: c :: rest).length := by
      cases rest with
      | nil =>
        obtain rfl : k = 3 := hk.symm
        exact iff_of_false (fun h => h rfl) (by simp)
      | cons d rest =>
        refine iff_of_true (fun h => hblank ?_) (by simp)
        rw [← show d = ' ' from h]
        simp
    have hboth := and_congr hstart hfourth
    unfold Renamed
    by_cases hswazi : startsWith (a :: b :: c :: rest) ['3', 'D', '0'] = true ∧
        3 < (a :: b :: c :: rest).length
    · rw [if_pos (hboth.2 hswazi)]
      refine iff_of_false (fun h => ?_) fun h => h (.inl hswazi)
      obtain rfl : 'A' = c := (List.cons.inj (List.cons.inj (List.cons.inj h).2).2).1
      exact absurd hc (by decide)
    · rw [if_neg (mt hboth.1 hswazi)]
      by_cases hguinea : charAt (a :: b :: c :: rest ++ List.replicate k ' ') 0 = 'Q' ∧
          isLetter (charAt (a :: b :: c :: rest ++ List.replicate k ' ') 1) = true
      · rw [if_pos hguinea]
        refine iff_of_false (fun h => ?_) fun h => h (.inr hguinea)
        exact absurd ((List.cons.inj h).1.trans hguinea.1) (by decide)
      · rw [if_neg hguinea]
        exact iff_of_true (trim_word hblank k).1 (not_or.2 ⟨hswazi, hguinea⟩)
  | one a b c rest hb hc _ =>
    have hnot : ¬ Renamed (a :: b :: c :: rest) := by
      rintro (⟨h, -⟩ | ⟨-, h⟩)
      · obtain ⟨rest', h⟩ := startsWith_iff.1 h
        obtain rfl : b = 'D' := by simp at h; exact h.2.1
        exact absurd hb (by decide)
      · exact absurd (hb.symm.trans (isDigit_eq_false_of_isLetter h)) (by decide)
    rw [if_neg fun h => absurd h.1 (by simp [startsWith]),
      if_neg fun h => absurd (show ' ' = 'Q' from h.1) (by decide)]
    exact iff_of_true (trim_word hblank k).2 hnot

/-! ## The calls that a message carries -/

inductive Suffix
  | none
  | rover
  | portable
  deriving DecidableEq

def Suffix.text : Suffix → List Char
  | .none => []
  | .rover => ['/', 'R']
  | .portable => ['/', 'P']

/-- The suffix bit of a call. -/
def Suffix.bit : Suffix → ℕ
  | .none => 0
  | .rover => 1
  | .portable => 1

/-- The suffix is the one of the messages of a type. -/
def Suffix.Fits (s : Suffix) (i3 : ℕ) : Prop :=
  match s with
  | .none => True
  | .rover => i3 = 1
  | .portable => i3 = 2

/-- A standard callsign with its own number, perhaps with a suffix. -/
structure Callsign where
  base : List Char
  suffix : Suffix
  standard : (packBasecall base base.length).isSome = true
  blank : ' ' ∉ base
  own : ¬ Renamed base

def Callsign.text (c : Callsign) : List Char := c.base ++ c.suffix.text

theorem exists_nchar {ts : List CharTable} {cs : List Char} {n : ℕ}
    (h : packChars ts cs = some n) (hlen : ts.length = cs.length) :
    ∀ c ∈ cs, ∃ t ∈ ts, (nchar c t).isSome = true := by
  obtain ⟨ds, hds, -⟩ := Option.map_eq_some_iff.1 h
  clear h
  induction ts generalizing cs ds with
  | nil =>
    rw [List.length_eq_zero_iff.1 hlen.symm]
    exact List.forall_mem_nil _
  | cons t ts ih =>
    cases cs with
    | nil => cases hlen
    | cons c cs =>
      obtain ⟨k, hk, h⟩ := Option.bind_eq_some_iff.1 hds
      obtain ⟨ds', hds', -⟩ := Option.map_eq_some_iff.1 h
      refine List.forall_mem_cons.2 ⟨⟨t, List.mem_cons_self, Option.isSome_of_eq_some hk⟩, ?_⟩
      intro d hd
      obtain ⟨t', ht', h'⟩ := ih (Nat.succ.inj hlen) ds' hds' d hd
      exact ⟨t', List.mem_cons_of_mem _ ht', h'⟩

/-- The characters of a standard callsign are letters and digits. -/
theorem Callsign.mem_base (c : Callsign) {x : Char} (hx : x ∈ c.base) :
    (Ft8.HashTable.nchar x).isSome = true ∧ x ≠ '/' := by
  obtain ⟨n, hn⟩ := Option.isSome_iff_exists.1 c.standard
  obtain ⟨c6, hform⟩ := form_of_packBasecall hn
  have hpack := packBasecall_append hform []
  rw [List.append_nil, hn] at hpack
  have hlen : basecallTables.length = (padded c6).length := (length_padded hform).symm
  have hall : ∀ t ∈ basecallTables, ∀ k < 128, (nchar (Char.ofNat k) t).isSome = true →
      (Ft8.HashTable.nchar (Char.ofNat k)).isSome = true ∧ Char.ofNat k ≠ '/' := by
    decide +kernel
  rcases mem_padded hform hx with hmem | hmem
  · obtain ⟨t, ht, hsome⟩ := exists_nchar hpack.symm hlen x hmem
    obtain ⟨k, hk⟩ := Option.isSome_iff_exists.1 hsome
    have hchar := hall t ht x.toNat (toNat_lt_of_nchar hk)
    rw [Char.ofNat_toNat] at hchar
    exact hchar hsome
  · have hprefix : ∀ y ∈ ['3', 'D', 'A', '0', 'X'],
        (Ft8.HashTable.nchar y).isSome = true ∧ y ≠ '/' := by
      simp [Ft8.HashTable.nchar]
    exact hprefix x hmem

theorem packLoop_isSome {cs : List Char} (h : ∀ c ∈ cs, (Ft8.HashTable.nchar c).isSome = true)
    (k n : ℕ) : (Ft8.HashTable.packLoop k cs n).isSome = true := by
  induction k generalizing cs n with
  | zero => rfl
  | succ k ih =>
    cases cs with
    | nil => exact ih h _
    | cons c cs =>
      obtain ⟨hc, h⟩ := List.forall_mem_cons.1 h
      obtain ⟨j, hj⟩ := Option.isSome_iff_exists.1 hc
      rw [Ft8.HashTable.packLoop, hj, Option.bind_some]
      exact ih h _

/-- A standard callsign can be saved. -/
theorem Callsign.saves (c : Callsign) (t : Table) : ∃ s, saveCallsign c.text t = some s := by
  have hchars : ∀ x ∈ c.text, (Ft8.HashTable.nchar x).isSome = true := by
    intro x hx
    rcases List.mem_append.1 hx with hx | hx
    · exact (c.mem_base hx).1
    · have hsuffix : ∀ s : Suffix, ∀ y ∈ s.text, (Ft8.HashTable.nchar y).isSome = true := by
        intro s
        cases s <;> simp [Suffix.text, Ft8.HashTable.nchar]
      exact hsuffix c.suffix x hx
  obtain ⟨n58, hn58⟩ := Option.isSome_iff_exists.1 (packLoop_isSome hchars 11 0)
  rw [saveCallsign, callsignHash, hn58]
  exact ⟨_, rfl⟩

theorem endsWith_iff {string suffix : List Char} :
    endsWith string suffix = true ↔ ∃ start, string = start ++ suffix := by
  rw [endsWith, List.isSuffixOf_iff_suffix]
  exact exists_congr fun start => eq_comm

/-- The suffix of a callsign is found. -/
theorem Callsign.endsWith (c : Callsign) :
    (Ftx.endsWith c.text ['/', 'P'] = true ↔ c.suffix = .portable) ∧
      (Ftx.endsWith c.text ['/', 'R'] = true ↔ c.suffix = .rover) := by
  have hnone {x : Char} (h : c.suffix = .none) : ¬ Ftx.endsWith c.text ['/', x] = true := by
    intro hends
    obtain ⟨start, hstart⟩ := endsWith_iff.1 hends
    rw [Callsign.text, h] at hstart
    have hslash : '/' ∈ c.base := by
      rw [← List.append_nil c.base]
      exact hstart ▸ List.mem_append_right _ List.mem_cons_self
    exact (c.mem_base hslash).2 rfl
  have hother {s : Suffix} {x y : Char} (h : c.suffix = s) (hs : s.text = ['/', x]) :
      Ftx.endsWith c.text ['/', y] = true ↔ x = y := by
    rw [endsWith_iff, Callsign.text, h, hs]
    constructor
    · rintro ⟨start, hstart⟩
      exact (List.cons.inj (List.cons.inj (List.append_inj_right' hstart rfl)).2).1
    · rintro rfl
      exact ⟨c.base, rfl⟩
  cases h : c.suffix with
  | none => exact ⟨iff_of_false (hnone h) (by decide), iff_of_false (hnone h) (by decide)⟩
  | rover =>
    exact ⟨(hother h rfl).trans (iff_of_false (by decide) (by decide)),
      (hother h rfl).trans (iff_of_true rfl rfl)⟩
  | portable =>
    exact ⟨(hother h rfl).trans (iff_of_true rfl rfl),
      (hother h rfl).trans (iff_of_false (by decide) (by decide))⟩

/-- A callsign has a digit or the prefixes among its first characters, which no other word has. -/
theorem charAt_of_form {base c6 : List Char} (h : Form base c6) (s : List Char) :
    2 < base.length ∧ (charAt (base ++ s) 0 = '3' ∨ isDigit (charAt (base ++ s) 1) = true ∨
      isDigit (charAt (base ++ s) 2) = true) := by
  cases h with
  | swazi => exact ⟨by simp, .inl rfl⟩
  | guinea => exact ⟨by simp, .inl rfl⟩
  | two a b c rest hc => exact ⟨by simp, .inr (.inr hc)⟩
  | one a b c rest hb => exact ⟨by simp, .inr (.inl hb)⟩

/-- **The number of a standard callsign** is above the hashes, and belongs to it alone. -/
theorem Callsign.pack28 (c : Callsign) (t : Table) :
    ∃ n t', n < 262177560 ∧ unpackBasecall n = c.base ∧
      Ftx.pack28 c.text t = some (ntokens + max22 + n, c.suffix.bit, t') := by
  obtain ⟨n, hn⟩ := Option.isSome_iff_exists.1 c.standard
  obtain ⟨c6, hform⟩ := form_of_packBasecall hn
  obtain ⟨s, hs⟩ := c.saves t
  have hpack := packBasecall_append hform []
  rw [List.append_nil, hn] at hpack
  have hlt := (unpackChars_packChars hpack.symm (length_padded hform).symm).2
  refine ⟨n, s.2, hlt, (unpackBasecall_packBasecall_iff hn c.blank).2 c.own, ?_⟩
  obtain ⟨hlen, hfirst⟩ := charAt_of_form hform c.suffix.text
  change charAt c.text 0 = '3' ∨ isDigit (charAt c.text 1) = true ∨
    isDigit (charAt c.text 2) = true at hfirst
  have hword {w : List Char} (hw : ¬ (charAt w 0 = '3' ∨ isDigit (charAt w 1) = true ∨
      isDigit (charAt w 2) = true)) : c.text ≠ w := by
    rintro h
    rw [h] at hfirst
    exact hw hfirst
  have hcq : ¬ (startsWith c.text ['C', 'Q', ' '] = true ∧ c.text.length < 8) := by
    rintro ⟨hstart, -⟩
    obtain ⟨rest, hrest⟩ := startsWith_iff.1 hstart
    rw [hrest] at hfirst
    exact absurd hfirst (by simp [charAt, isDigit])
  have hsuffix : (Ftx.endsWith c.text ['/', 'P'] || Ftx.endsWith c.text ['/', 'R']) =
      decide (c.suffix ≠ .none) := by
    rw [Bool.eq_iff_iff, Bool.or_eq_true, c.endsWith.1, c.endsWith.2, decide_eq_true_iff]
    cases c.suffix <;> decide
  have hbase : packBasecall c.text
      (c.text.length - if decide (c.suffix ≠ .none) = true then 2 else 0) = some n := by
    have hlength : (c.text.length - if decide (c.suffix ≠ .none) = true then 2 else 0) =
        c.base.length := by
      rw [Callsign.text, List.length_append]
      cases c.suffix <;> simp [Suffix.text]
    rw [hlength, Callsign.text, packBasecall_append hform, ← hpack]
  have hbit : (decide (c.suffix ≠ .none)).toNat = c.suffix.bit := by cases c.suffix <;> rfl
  rw [Ftx.pack28, if_neg (hword (by decide)), if_neg (hword (by decide)),
    if_neg (hword (by decide)), if_neg hcq]
  dsimp only
  rw [hsuffix, hbase, hs, hbit]
  rfl

/-- **A standard callsign** is unpacked with the suffix of the message type. -/
theorem unpack28_standard {n i3 : ℕ} {c : Callsign} (h : unpackBasecall n = c.base)
    (hfits : c.suffix.Fits i3) (t : Table) :
    ∃ t', unpack28 (ntokens + max22 + n) c.suffix.bit i3 t = some (c.text, .call, t') := by
  have hlen : ¬ c.base.length < 3 := by
    obtain ⟨k, hk⟩ := Option.isSome_iff_exists.1 c.standard
    obtain ⟨c6, hform⟩ := form_of_packBasecall hk
    exact Nat.not_lt.2 (charAt_of_form hform []).1
  have hsub : ntokens + max22 + n - ntokens - max22 = n := by omega
  rw [unpack28, if_neg (by omega), if_neg (by omega), hsub]
  dsimp only
  rw [h, if_neg hlen]
  unfold Callsign.text
  cases hs : c.suffix with
  | none => exact ⟨_, by rw [Suffix.bit, if_pos rfl, Suffix.text, List.append_nil]; rfl⟩
  | rover =>
    rw [hs] at hfits
    exact ⟨_, by rw [Suffix.bit, if_neg Nat.one_ne_zero, if_pos (show i3 = 1 from hfits)]; rfl⟩
  | portable =>
    rw [hs] at hfits
    have hi3 : i3 = 2 := hfits
    exact ⟨_, by rw [Suffix.bit, if_neg Nat.one_ne_zero, if_neg (by omega), if_pos hi3]; rfl⟩

theorem length_of_form {base c6 : List Char} (h : Form base c6) : base.length ≤ 7 := by
  cases h <;> simp <;> omega

/-- A callsign fits into its field, and is one word. -/
theorem Callsign.word (c : Callsign) :
    2 < c.text.length ∧ c.text.length ≤ 9 ∧ ' ' ∉ c.text := by
  obtain ⟨n, hn⟩ := Option.isSome_iff_exists.1 c.standard
  obtain ⟨c6, hform⟩ := form_of_packBasecall hn
  have hlo := (charAt_of_form hform []).1
  have hhi := length_of_form hform
  have hsuffix : ∀ s : Suffix, s.text.length ≤ 2 ∧ ' ' ∉ s.text := by
    intro s
    cases s <;> decide
  obtain ⟨hlen, hblank⟩ := hsuffix c.suffix
  rw [Callsign.text, List.length_append, List.mem_append, not_or]
  exact ⟨by omega, by omega, c.blank, hblank⟩

/-- One of the first three characters is a digit. -/
theorem Callsign.exists_digit (c : Callsign) : ∃ x ∈ c.text.take 3, isDigit x = true := by
  obtain ⟨n, hn⟩ := Option.isSome_iff_exists.1 c.standard
  obtain ⟨c6, hform⟩ := form_of_packBasecall hn
  obtain ⟨hlen, hdigit⟩ := charAt_of_form hform c.suffix.text
  have hmem (i : ℕ) (hi : i < 3) : charAt c.text i ∈ c.text.take 3 := by
    have hlength := c.word.1
    have hi' : i < (c.text.take 3).length := by rw [List.length_take]; omega
    rw [charAt, List.getD_eq_getElem _ _ (by omega), ← List.getElem_take (h := hi')]
    exact List.getElem_mem hi'
  rcases hdigit with h | h | h
  · exact ⟨_, hmem 0 (by decide), by rw [show charAt c.text 0 = '3' from h]; decide⟩
  · exact ⟨_, hmem 1 (by decide), h⟩
  · exact ⟨_, hmem 2 (by decide), h⟩

/-! ## Whom a message is for -/

/-- A capital letter. -/
def isCapital (c : Char) : Bool := inRange c 'A' 'Z'

/-- Whom a message can be for. -/
inductive Addressee
  | de
  | qrz
  | cq
  | cqNumber (n : ℕ) (hn : n < 1000)
  | cqWord (word : List Char) (hne : word ≠ []) (hlen : word.length ≤ 4)
      (hcapital : ∀ c ∈ word, isCapital c = true)
  | call (c : Callsign)

/-- What stands after `CQ`. -/
def Addressee.modifier : Addressee → List Char
  | .cqNumber n _ => intToDd n 3 false
  | .cqWord word .. => word
  | _ => []

def Addressee.text : Addressee → List Char
  | .de => ['D', 'E']
  | .qrz => ['Q', 'R', 'Z']
  | .cq => ['C', 'Q']
  | .cqNumber n _ => ['C', 'Q', ' '] ++ intToDd n 3 false
  | .cqWord word .. => ['C', 'Q', ' '] ++ word
  | .call c => c.text

def Addressee.suffix : Addressee → Suffix
  | .call c => c.suffix
  | _ => .none

theorem cqLoop_capital {word : List Char} (h : ∀ c ∈ word, isCapital c = true) {n : ℕ}
    (hn : word.length ≤ n) (nlet m : ℕ) :
    cqLoop n word 0 nlet m =
      some (0, nlet + word.length, word.foldl (fun m c => m * 27 + (c.toNat - 64)) m) := by
  induction word generalizing n nlet m with
  | nil => cases n <;> rfl
  | cons c word ih =>
    obtain ⟨hc, h⟩ := List.forall_mem_cons.1 h
    cases n with
    | zero => exact absurd hn (by simp)
    | succ n =>
      have hcode : 65 ≤ c.toNat ∧ c.toNat ≤ 90 := inRange_iff.1 hc
      have hletter : isLetter c = true := Bool.or_eq_true .. ▸ .inl hc
      have hblank : c ≠ ' ' := by
        rintro rfl
        exact absurd hc (by decide)
      have hvalue : 27 * m + (c.toNat - 'A'.toNat + 1) = m * 27 + (c.toNat - 64) := by
        have hA : 'A'.toNat = 65 := rfl
        omega
      rw [cqLoop, if_neg hblank, isDigit_eq_false_of_isLetter hletter, if_neg Bool.false_ne_true,
        if_pos hletter, hvalue, ih h (Nat.le_of_succ_le_succ hn), List.length_cons,
        List.foldl_cons, Nat.add_right_comm]
      rfl

theorem nchar_capital {c : Char} (h : isCapital c = true) :
    nchar c .lettersSpace = some (c.toNat - 64) := by
  have hcode : 65 ≤ c.toNat ∧ c.toNat ≤ 90 := inRange_iff.1 h
  have hall : ∀ k < 128, 65 ≤ k → k ≤ 90 →
      nchar (Char.ofNat k) .lettersSpace = some (k - 64) := by
    decide +kernel
  have hc := hall c.toNat (by omega) hcode.1 hcode.2
  rwa [Char.ofNat_toNat] at hc

/-- The letters after `CQ` as digits, with blanks before them. -/
theorem charDigits_capital {word : List Char} (h : ∀ c ∈ word, isCapital c = true) (k : ℕ) :
    charDigits (List.replicate (k + word.length) .lettersSpace) (List.replicate k ' ' ++ word) =
      some (List.replicate k (27, 0) ++ word.map fun c => (27, c.toNat - 64)) := by
  induction k with
  | zero =>
    rw [Nat.zero_add]
    induction word with
    | nil => rfl
    | cons c word ih =>
      obtain ⟨hc, h⟩ := List.forall_mem_cons.1 h
      have hword := ih h
      rw [List.replicate_zero, List.nil_append] at hword ⊢
      rw [List.length_cons, List.replicate_succ, charDigits, nchar_capital hc, Option.bind_some,
        hword]
      rfl
  | succ k ih =>
    rw [Nat.add_right_comm, List.replicate_succ, List.replicate_succ, List.cons_append, charDigits,
      ih]
    rfl

/-- The characters above the blank are no space. -/
theorem isSpace_eq_false {c : Char} (h : 32 < c.toNat) : CString.isSpace c = false := by
  have hr : '\r'.toNat = 13 := rfl
  have hblank : c ≠ ' ' := by
    rintro rfl
    exact absurd h (by decide)
  have hreturn : ¬ c ≤ '\r' := fun hle => by
    have : c.toNat ≤ '\r'.toNat := hle
    omega
  simp [CString.isSpace, hblank, hreturn]

theorem toNat_of_nchar {c : Char} (h : (Ft8.HashTable.nchar c).isSome = true) (hblank : c ≠ ' ') :
    32 < c.toNat := by
  obtain ⟨n, hn⟩ := Option.isSome_iff_exists.1 h
  have hall : ∀ k < 128, (Ft8.HashTable.nchar (Char.ofNat k)).isSome = true →
      Char.ofNat k ≠ ' ' → 32 < k := by
    decide +kernel
  have hlt : c.toNat < 128 :=
    toNat_lt_of_nchar (t := .alphanumSpaceSlash) ((nchar_alphanumSpaceSlash c).trans hn)
  have hc := hall c.toNat hlt
  rw [Char.ofNat_toNat] at hc
  exact hc h hblank

/-- **A call to all with a word** is above the calls with a number. -/
theorem parseCqModifier_word {word : List Char} (hlen : word.length ≤ 4)
    (hcapital : ∀ c ∈ word, isCapital c = true) :
    ∃ m, parseCqModifier (['C', 'Q', ' '] ++ word) = some (1000 + m) ∧ m < 27 ^ 4 ∧
      (unpackChars (List.replicate 4 .lettersSpace) m).dropWhile (· == ' ') = word := by
  have hdigits := charDigits_capital hcapital (4 - word.length)
  rw [Nat.sub_add_cancel hlen] at hdigits
  have hnumber : Radix.number (List.replicate (4 - word.length) (27, 0) ++
      word.map fun c => (27, c.toNat - 64)) =
        word.foldl (fun m c => m * 27 + (c.toNat - 64)) 0 := by
    have hzero (k : ℕ) : (List.replicate k (27, 0)).foldl (fun n d => n * d.1 + d.2) 0 = 0 := by
      induction k with
      | zero => rfl
      | succ k ih => rwa [List.replicate_succ, List.foldl_cons]
    rw [Radix.number, List.foldl_append, hzero, List.foldl_map]
  have hpack : packChars (List.replicate 4 .lettersSpace)
      (List.replicate (4 - word.length) ' ' ++ word) =
        some (word.foldl (fun m c => m * 27 + (c.toNat - 64)) 0) := by
    rw [packChars, hdigits, Option.map_some, hnumber]
  obtain ⟨hchars, hlt⟩ := unpackChars_packChars hpack (by simp; omega)
  refine ⟨_, ?_, hlt, ?_⟩
  · have hdrop : (['C', 'Q', ' '] ++ word).drop 3 = word := rfl
    rw [parseCqModifier, hdrop, cqLoop_capital hcapital (by omega)]
    rw [Option.bind_some]
    dsimp only
    rw [if_neg (by omega), if_pos ⟨rfl, by omega⟩]
  · rw [hchars, List.dropWhile_append_of_pos fun c hc => by
      rw [List.eq_of_mem_replicate hc]; rfl]
    rw [List.dropWhile_eq_self_iff]
    intro hpos hblank
    exact absurd (hcapital _ (List.getElem_mem hpos)) (by rw [beq_iff_eq.1 hblank]; decide)

/-- The numbers after `CQ` have three digits. -/
theorem intToDd_digits : ∀ a b c : Fin 10, ∀ n : ℕ, n = a * 100 + b * 10 + c →
    cqLoop 5 (intToDd n 3 false) 0 0 0 = some (3, 0, 0) ∧
      CString.digitsValue (intToDd n 3 false) = n ∧ (intToDd n 3 false).length = 3 ∧
      (intToDd n 3 false).all Char.isDigit = true := by
  intro a b c n hn
  subst hn
  revert a b c
  decide +kernel

theorem length_intToDd {n : ℕ} (hn : n < 1000) :
    (intToDd n 3 false).length = 3 ∧ ∀ x ∈ intToDd n 3 false, Char.isDigit x = true := by
  have h := intToDd_digits ⟨n / 100, by omega⟩ ⟨n / 10 % 10, by omega⟩ ⟨n % 10, by omega⟩ n
    (by dsimp only; omega)
  exact ⟨h.2.2.1, List.all_eq_true.1 h.2.2.2⟩

theorem parseCqModifier_number {n : ℕ} (hn : n < 1000) :
    parseCqModifier (['C', 'Q', ' '] ++ intToDd n 3 false) = some n := by
  obtain ⟨hloop, hvalue, hlen, hdigits⟩ :=
    intToDd_digits ⟨n / 100, by omega⟩ ⟨n / 10 % 10, by omega⟩ ⟨n % 10, by omega⟩ n
      (by dsimp only; omega)
  have hdrop : (['C', 'Q', ' '] ++ intToDd n 3 false).drop 3 = intToDd n 3 false := rfl
  have hspells : CString.Spells (intToDd n 3 false) n := by
    refine ⟨intToDd n 3 false, ?_, List.all_eq_true.1 hdigits, .inl ⟨rfl, ?_⟩⟩
    · exact List.ne_nil_of_length_pos (by omega)
    · rw [hvalue]
  have hatoi := CString.atoi_of_spells hspells (by omega) (by omega)
  rw [parseCqModifier, hdrop, hloop, Option.bind_some]
  dsimp only
  rw [if_pos ⟨rfl, rfl⟩, hatoi, Int.toNat_natCast]

theorem cqLoop_blank (word rest : List Char) (n nnum nlet m : ℕ) :
    cqLoop n (word ++ ' ' :: rest) nnum nlet m = cqLoop n word nnum nlet m := by
  induction word generalizing n nnum nlet m with
  | nil => cases n <;> rfl
  | cons c word ih =>
    cases n with
    | zero => rfl
    | succ n => rw [List.cons_append, cqLoop, cqLoop, ih, ih]

theorem readDigits_blank (word rest : List Char) (v : ℕ) :
    CString.readDigits v (word ++ ' ' :: rest) = CString.readDigits v word := by
  induction word generalizing v with
  | nil => rfl
  | cons c word ih => rw [List.cons_append, CString.readDigits, CString.readDigits, ih]

theorem readNumber_cons {c : Char} (hc : CString.isSpace c = false) (word : List Char) :
    CString.readNumber (c :: word) =
      if c = '-' then -(CString.readDigits 0 word : ℤ)
      else if c = '+' then (CString.readDigits 0 word : ℤ)
      else CString.readDigits 0 (c :: word) := by
  rw [CString.readNumber, List.dropWhile_cons_of_neg (by rw [hc]; exact Bool.false_ne_true)]
  split
  · simp_all
  · simp_all
  · simp_all

/-- The loop counts the digits, and the characters. -/
theorem cqLoop_some {word : List Char} (hblank : ' ' ∉ word) {n nnum nlet m nnum' nlet' m' : ℕ}
    (h : cqLoop n word nnum nlet m = some (nnum', nlet', m')) :
    nnum' = nnum + (word.take n).countP isDigit ∧
      nnum' + nlet' = nnum + nlet + (word.take n).length := by
  induction word generalizing n nnum nlet m with
  | nil =>
    cases n <;> (cases h; simp)
  | cons c word ih =>
    obtain ⟨hc, hblank⟩ := not_or.1 (mt List.mem_cons.2 hblank)
    cases n with
    | zero => cases h; simp
    | succ n =>
      rw [cqLoop, if_neg (Ne.symm hc)] at h
      rw [List.take_succ_cons, List.countP_cons, List.length_cons]
      split_ifs at h with hdigit hletter
      · obtain ⟨h1, h2⟩ := ih hblank h
        rw [if_pos hdigit]
        omega
      · obtain ⟨h1, h2⟩ := ih hblank h
        rw [if_neg hdigit]
        omega

/-- What stands behind the word after `CQ` does not matter. -/
theorem parseCqModifier_blank {c : Char} (hc : CString.isSpace c = false) (word rest : List Char) :
    parseCqModifier (['C', 'Q', ' '] ++ c :: word ++ ' ' :: rest) =
      parseCqModifier (['C', 'Q', ' '] ++ c :: word) := by
  have hdrop (s : List Char) : (['C', 'Q', ' '] ++ s).drop 3 = s := rfl
  have hatoi : CString.atoi (c :: word ++ ' ' :: rest) = CString.atoi (c :: word) := by
    rw [CString.atoi, CString.atoi, List.cons_append, readNumber_cons hc, readNumber_cons hc,
      readDigits_blank, ← List.cons_append, readDigits_blank]
  rw [parseCqModifier, parseCqModifier, List.append_assoc, hdrop, hdrop, cqLoop_blank, hatoi]

theorem pack28_cq {word : List Char} (hlen : word.length ≤ 4) (t : Table) :
    pack28 (['C', 'Q', ' '] ++ word) t =
      (parseCqModifier (['C', 'Q', ' '] ++ word)).map fun v => (3 + v, 0, t) := by
  have hcq : startsWith (['C', 'Q', ' '] ++ word) ['C', 'Q', ' '] = true ∧
      (['C', 'Q', ' '] ++ word).length < 8 := by
    refine ⟨startsWith_iff.2 ⟨word, rfl⟩, ?_⟩
    rw [List.length_append, List.length_cons, List.length_cons, List.length_cons, List.length_nil]
    omega
  rw [pack28, if_neg (by simp), if_neg (by simp), if_neg (by simp), if_pos hcq]

/-- **The number of an addressee** gives its text back. -/
theorem Addressee.pack28 (a : Addressee) (t : Table) :
    ∃ n t', n < 2 ^ 28 ∧ Ftx.pack28 a.text t = some (n, a.suffix.bit, t') ∧
      ∀ i3, a.suffix.Fits i3 → ∀ t, ∃ type t',
        unpack28 n a.suffix.bit i3 t = some (a.text, type, t') := by
  cases a with
  | de => exact ⟨0, t, by decide, rfl, fun i3 _ t => ⟨_, t, rfl⟩⟩
  | qrz => exact ⟨1, t, by decide, rfl, fun i3 _ t => ⟨_, t, rfl⟩⟩
  | cq => exact ⟨2, t, by decide, rfl, fun i3 _ t => ⟨_, t, rfl⟩⟩
  | cqNumber n hn =>
    refine ⟨3 + n, t, by omega, ?_, fun i3 _ t => ⟨.tokenWithArg, t, ?_⟩⟩
    · exact (pack28_cq (by rw [(length_intToDd hn).1]; decide) t).trans
        (by rw [parseCqModifier_number hn]; rfl)
    · have htokens : ntokens = 2063592 := rfl
      have hvalue : ((3 + n : ℕ) : ℤ) - 3 = n := by omega
      rw [unpack28, if_pos (by omega), if_neg (by omega), if_neg (by omega), if_neg (by omega),
        if_pos (by omega), hvalue]
      rfl
  | cqWord word hne hlen hcapital => 
    obtain ⟨m, hparse, hlt, hback⟩ := parseCqModifier_word hlen hcapital
    refine ⟨3 + (1000 + m), t, by omega, ?_, fun i3 _ t => ⟨.tokenWithArg, t, ?_⟩⟩
    · exact (pack28_cq hlen t).trans (by rw [hparse]; rfl)
    · have htokens : ntokens = 2063592 := rfl
      have hvalue : 3 + (1000 + m) - 1003 = m := by omega
      rw [unpack28, if_pos (by omega), if_neg (by omega), if_neg (by omega), if_neg (by omega),
        if_neg (by omega), if_pos (by omega), hvalue, hback]
      rfl
  | call c =>
    obtain ⟨n, t', hn, hback, hpack⟩ := c.pack28 t
    refine ⟨_, t', ?_, hpack, fun i3 hfits t => ?_⟩
    · have hmax : ntokens + max22 = 6257896 := rfl
      omega
    · obtain ⟨t', ht'⟩ := unpack28_standard hback hfits t
      exact ⟨_, t', ht'⟩

/-- A callsign after `CQ` is not taken for a number or a word. -/
theorem Callsign.parseCqModifier (c : Callsign) (hletter : ∃ x ∈ c.base, isDigit x = false) :
    Ftx.parseCqModifier (['C', 'Q', ' '] ++ c.text) = none := by
  obtain ⟨hlo, -, hblank⟩ := c.word
  have hdrop : (['C', 'Q', ' '] ++ c.text).drop 3 = c.text := rfl
  rw [Ftx.parseCqModifier, hdrop]
  cases hloop : cqLoop 5 c.text 0 0 0 with
  | none => rfl
  | some s =>
    obtain ⟨nnum, nlet, m⟩ := s
    obtain ⟨hdigits, hlen⟩ := cqLoop_some hblank hloop
    rw [List.length_take] at hlen
    have hthree : ¬ (nnum = 3 ∧ nlet = 0) := by
      rintro ⟨rfl, rfl⟩
      -- three characters, all of them digits
      have hlength : c.text.length = 3 := by omega
      rw [List.take_of_length_le (by omega), Nat.zero_add, ← hlength] at hdigits
      obtain ⟨x, hx, hdigit⟩ := hletter
      have hall := List.countP_eq_length.1 hdigits.symm x (List.mem_append_left _ hx)
      rw [hdigit] at hall
      exact Bool.false_ne_true hall
    have hnone : ¬ (nnum = 0 ∧ nlet ≤ 4) := by
      rintro ⟨rfl, -⟩
      obtain ⟨x, hx, hdigit⟩ := c.exists_digit
      rw [Nat.zero_add, eq_comm, List.countP_eq_zero] at hdigits
      exact hdigits x ((List.take_subset_take_left _ (by decide : 3 ≤ 5)) hx) hdigit
    exact (if_neg hthree).trans (if_neg hnone)

theorem Callsign.isSpace_head (c : Callsign) {x : Char} (h : c.text.head? = some x) :
    CString.isSpace x = false := by
  have hmem : x ∈ c.base := by
    obtain ⟨n, hn⟩ := Option.isSome_iff_exists.1 c.standard
    obtain ⟨c6, hform⟩ := form_of_packBasecall hn
    have hlen := (charAt_of_form hform []).1
    rw [Callsign.text, List.head?_append_of_ne_nil _ (List.ne_nil_of_length_pos (by omega))] at h
    exact List.mem_of_head? h
  have hblank : x ≠ ' ' := by
    rintro rfl
    exact c.blank hmem
  exact isSpace_eq_false (toNat_of_nchar (c.mem_base hmem).1 hblank)

end MacHPSDR.Ftx
