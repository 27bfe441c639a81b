import Mathlib

/-!
# Reading lines and tokens

`fgets` with a buffer of a fixed size and `strtok`, over any type of characters with a newline, the
copy of a string into a buffer of a fixed size (`strlcpy`), and numbers in decimal digits (`atoi`).

A buffer of `size` characters takes a line of at most `size - 1` characters at a time, so a longer
line comes in several pieces (`lines`). What can be said of every piece is in `mem_lines`; text
that ends a line can be read apart from what follows (`lines_append`), and a line that fits is read
whole (`lines_line`), up to the boundary case in which its newline comes as a piece of its own
(`lines_full_line`).
-/

namespace MacHPSDR.CString

variable {α : Type*}

section Lines

variable [DecidableEq α] (nl : α)

/-- Read up to and including the newline, but at most `n` characters. -/
def fgetsLoop : ℕ → List α → List α × List α
  | 0, t => ([], t)
  | _ + 1, [] => ([], [])
  | n + 1, c :: t =>
    if c = nl then ([c], t) else (c :: (fgetsLoop n t).1, (fgetsLoop n t).2)

/-- One call `fgets(string, size, f)`: the piece read and the rest of the file. -/
def fgets (size : ℕ) (t : List α) : Option (List α × List α) :=
  if t = [] then none else some (fgetsLoop nl (size - 1) t)

/-- The pieces that repeated calls read, as many as the fuel allows. -/
def linesLoop (size : ℕ) : ℕ → List α → List (List α)
  | 0, _ => []
  | fuel + 1, t =>
    match fgets nl size t with
    | none => []
    | some (l, t) => l :: linesLoop size fuel t

/-- The pieces that repeated calls of `fgets` read up to the end of the file. -/
def lines (size : ℕ) (t : List α) : List (List α) := linesLoop nl size t.length t

theorem fgetsLoop_append_eq (n : ℕ) (t : List α) :
    (fgetsLoop nl n t).1 ++ (fgetsLoop nl n t).2 = t := by
  induction n generalizing t with
  | zero => rfl
  | succ n ih =>
    cases t with
    | nil => rfl
    | cons c t =>
      by_cases hc : c = nl <;> simp [fgetsLoop, hc, ih]

theorem length_fgetsLoop_le (n : ℕ) (t : List α) : (fgetsLoop nl n t).1.length ≤ n := by
  induction n generalizing t with
  | zero => exact Nat.le_refl _
  | succ n ih =>
    cases t with
    | nil => simp [fgetsLoop]
    | cons c t =>
      have := ih t
      by_cases hc : c = nl <;> simp [fgetsLoop, hc]
      exact this

theorem length_fgetsLoop_pos (n : ℕ) (hn : 0 < n) {t : List α} (ht : t ≠ []) :
    0 < (fgetsLoop nl n t).1.length := by
  obtain ⟨n, rfl⟩ : ∃ k, n = k + 1 := ⟨n - 1, by omega⟩
  cases t with
  | nil => exact (ht rfl).elim
  | cons c t => by_cases hc : c = nl <;> simp [fgetsLoop, hc]

variable {nl}

/-- A piece has a newline at its end only. -/
theorem not_mem_dropLast_fgetsLoop (n : ℕ) (t : List α) :
    nl ∉ (fgetsLoop nl n t).1.dropLast := by
  induction n generalizing t with
  | zero => simp [fgetsLoop]
  | succ n ih =>
    cases t with
    | nil => simp [fgetsLoop]
    | cons c t =>
      by_cases hc : c = nl
      · simp [fgetsLoop, hc]
      · simp only [fgetsLoop, hc, if_false]
        cases hl : (fgetsLoop nl n t).1 with
        | nil => simp
        | cons d l =>
          have := ih t
          rw [hl] at this
          simp only [List.dropLast_cons_cons, List.mem_cons, not_or]
          exact ⟨fun h => hc h.symm, this⟩

/-- Reading from text that ends a line does not look beyond it. -/
theorem fgetsLoop_append (n : ℕ) {t : List α} (ht : t.getLast? = some nl) (r : List α) :
    fgetsLoop nl n (t ++ r) = ((fgetsLoop nl n t).1, (fgetsLoop nl n t).2 ++ r) ∧
      ((fgetsLoop nl n t).2 = [] ∨ (fgetsLoop nl n t).2.getLast? = some nl) := by
  induction n generalizing t with
  | zero => exact ⟨rfl, Or.inr ht⟩
  | succ n ih =>
    cases t with
    | nil => simp at ht
    | cons c t =>
      by_cases hc : c = nl
      · cases t with
        | nil => simp [fgetsLoop, hc]
        | cons d t => simpa [fgetsLoop, hc, List.getLast?_cons_cons] using ht
      · cases t with
        | nil => simp [hc] at ht
        | cons d t =>
          rw [List.getLast?_cons_cons] at ht
          obtain ⟨h₁, h₂⟩ := ih ht
          rw [List.cons_append] at h₁
          simp [fgetsLoop, hc, h₁, h₂]

variable {size : ℕ}

/-- Reading shortens the file, so fuel for its length is enough. -/
theorem linesLoop_fuel (hsize : 1 < size) {fuel fuel' : ℕ} {t : List α} (h : t.length ≤ fuel)
    (h' : t.length ≤ fuel') : linesLoop nl size fuel t = linesLoop nl size fuel' t := by
  induction fuel generalizing fuel' t with
  | zero =>
    obtain rfl := List.length_eq_zero_iff.1 (Nat.le_zero.1 h)
    cases fuel' <;> simp [linesLoop, fgets]
  | succ fuel ih =>
    by_cases ht : t = []
    · subst ht
      cases fuel' <;> simp [linesLoop, fgets]
    · have hpos := List.length_pos_iff.2 ht
      obtain ⟨fuel', rfl⟩ : ∃ k, fuel' = k + 1 := ⟨fuel' - 1, by omega⟩
      have hlen := congrArg List.length (fgetsLoop_append_eq nl (size - 1) t)
      have hread := length_fgetsLoop_pos nl (size - 1) (by omega) ht
      rw [List.length_append] at hlen
      simp only [linesLoop, fgets, ht, if_false]
      have htail : linesLoop nl size fuel (fgetsLoop nl (size - 1) t).2 =
          linesLoop nl size fuel' (fgetsLoop nl (size - 1) t).2 := ih (by omega) (by omega)
      rw [htail]

theorem lines_nil : lines nl size [] = [] := rfl

theorem lines_of_ne_nil (hsize : 1 < size) {t : List α} (ht : t ≠ []) :
    lines nl size t =
      (fgetsLoop nl (size - 1) t).1 :: lines nl size (fgetsLoop nl (size - 1) t).2 := by
  have hpos := List.length_pos_iff.2 ht
  have hlen := congrArg List.length (fgetsLoop_append_eq nl (size - 1) t)
  have hread := length_fgetsLoop_pos nl (size - 1) (by omega) ht
  rw [List.length_append] at hlen
  obtain ⟨k, hk⟩ : ∃ k, t.length = k + 1 := ⟨t.length - 1, by omega⟩
  unfold lines
  rw [hk]
  simp only [linesLoop, fgets, ht, if_false]
  rw [linesLoop_fuel hsize (by omega) (Nat.le_refl _)]

/-- **What is known of a piece**: it fits the buffer, and a newline can only be its last
character. -/
theorem mem_lines (hsize : 1 < size) {t l : List α} (h : l ∈ lines nl size t) :
    l.length < size ∧ nl ∉ l.dropLast := by
  induction hn : t.length using Nat.strong_induction_on generalizing t with
  | _ n ih =>
    by_cases ht : t = []
    · simp [ht, lines_nil] at h
    · rw [lines_of_ne_nil hsize ht, List.mem_cons] at h
      have hlen := congrArg List.length (fgetsLoop_append_eq nl (size - 1) t)
      have hread := length_fgetsLoop_pos nl (size - 1) (by omega) ht
      rw [List.length_append] at hlen
      rcases h with rfl | h
      · have := length_fgetsLoop_le nl (size - 1) t
        exact ⟨by omega, not_mem_dropLast_fgetsLoop _ _⟩
      · exact ih _ (by omega) h rfl

/-- Text that ends a line is read apart from what follows it. -/
theorem lines_append (hsize : 1 < size) {t : List α} (ht : t.getLast? = some nl) (r : List α) :
    lines nl size (t ++ r) = lines nl size t ++ lines nl size r := by
  induction hn : t.length using Nat.strong_induction_on generalizing t with
  | _ n ih =>
    have hne : t ≠ [] := by
      rintro rfl
      simp at ht
    have hne' : t ++ r ≠ [] := by simp [hne]
    have hlen := congrArg List.length (fgetsLoop_append_eq nl (size - 1) t)
    have hread := length_fgetsLoop_pos nl (size - 1) (by omega) hne
    rw [List.length_append] at hlen
    obtain ⟨happ, hrest⟩ := fgetsLoop_append (size - 1) ht r
    rw [lines_of_ne_nil hsize hne', lines_of_ne_nil hsize hne, happ, List.cons_append]
    congr 1
    rcases hrest with hnil | hlast
    · rw [hnil, lines_nil, List.nil_append, List.nil_append]
    · exact ih _ (by omega) hlast rfl

theorem fgetsLoop_line {n : ℕ} {l : List α} (hl : nl ∉ l) (hn : l.length < n) :
    fgetsLoop nl n (l ++ [nl]) = (l ++ [nl], []) := by
  induction l generalizing n with
  | nil =>
    obtain ⟨n, rfl⟩ : ∃ k, n = k + 1 := ⟨n - 1, by simp at hn; omega⟩
    simp [fgetsLoop]
  | cons c l ih =>
    obtain ⟨hc, hl⟩ := List.ne_and_not_mem_of_not_mem_cons hl
    obtain ⟨n, rfl⟩ : ∃ k, n = k + 1 := ⟨n - 1, by simp at hn; omega⟩
    rw [List.length_cons] at hn
    have hrest : fgetsLoop nl n (l ++ [nl]) = (l ++ [nl], []) := ih hl (by omega)
    simp [fgetsLoop, hc.symm, hrest]

theorem fgetsLoop_full {l : List α} (hl : nl ∉ l) (r : List α) :
    fgetsLoop nl l.length (l ++ r) = (l, r) := by
  induction l with
  | nil => rfl
  | cons c l ih =>
    obtain ⟨hc, hl⟩ := List.ne_and_not_mem_of_not_mem_cons hl
    simp [fgetsLoop, hc.symm, ih hl]

/-- A line that fits with its newline is one piece. -/
theorem lines_line (hsize : 1 < size) {l : List α} (hl : nl ∉ l) (hlen : l.length + 1 < size) :
    lines nl size (l ++ [nl]) = [l ++ [nl]] := by
  rw [lines_of_ne_nil hsize (by simp), fgetsLoop_line hl (by omega), lines_nil]

/-- A line that fills the buffer leaves its newline for a piece of its own. -/
theorem lines_full_line (hsize : 1 < size) {l : List α} (hl : nl ∉ l)
    (hlen : l.length + 1 = size) : lines nl size (l ++ [nl]) = [l, [nl]] := by
  have hfull : fgetsLoop nl (size - 1) (l ++ [nl]) = (l, [nl]) := by
    rw [← hlen]
    exact fgetsLoop_full hl [nl]
  rw [lines_of_ne_nil hsize (by simp), hfull, ← List.nil_append [nl],
    lines_line hsize (by simp) (by simpa using hsize)]

end Lines

/-! ## Tokens -/

/-- One call of `strtok` with the given delimiters: the token and where the next call goes on. -/
def strtok (delim : α → Bool) (s : List α) : Option (List α × List α) :=
  let s := s.dropWhile delim
  if s = [] then none
  else some (s.takeWhile fun c => !delim c, (s.dropWhile fun c => !delim c).tail)

theorem dropWhile_eq_self {p : α → Bool} {t : List α} (ht : ∀ c ∈ t.head?, p c = false) :
    t.dropWhile p = t := by
  cases t with
  | nil => rfl
  | cons c t => simp [ht c rfl]

/-- A token followed by a delimiter. -/
theorem strtok_append {delim : α → Bool} {t : List α} {d : α} (hne : t ≠ [])
    (ht : ∀ c ∈ t, delim c = false) (hd : delim d = true) (r : List α) :
    strtok delim (t ++ d :: r) = some (t, r) := by
  have htok : ∀ c ∈ t, (!delim c) = true := fun c hc => by simp [ht c hc]
  have hskip : (t ++ d :: r).dropWhile delim = t ++ d :: r := by
    refine dropWhile_eq_self fun c hc => ?_
    cases t with
    | nil => exact (hne rfl).elim
    | cons b t =>
      obtain rfl : b = c := by simpa using hc
      exact ht b (List.mem_cons_self ..)
  simp [strtok, hskip, List.takeWhile_append_of_pos htok, List.dropWhile_append_of_pos htok, hd]

/-- A token at the end of the string. -/
theorem strtok_end {delim : α → Bool} {t : List α} (hne : t ≠ [])
    (ht : ∀ c ∈ t, delim c = false) : strtok delim t = some (t, []) := by
  have htok : ∀ c ∈ t, (!delim c) = true := fun c hc => by simp [ht c hc]
  have hskip : t.dropWhile delim = t :=
    dropWhile_eq_self fun c hc => ht c (List.mem_of_mem_head? hc)
  have htake : t.takeWhile (fun c => !delim c) = t := by
    simpa using @List.takeWhile_append_of_pos _ _ t [] htok
  have hdrop : t.dropWhile (fun c => !delim c) = [] := by
    simpa using @List.dropWhile_append_of_pos _ _ t [] htok
  simp [strtok, hskip, htake, hdrop, hne]

/-- A string of delimiters holds no token. -/
theorem strtok_eq_none {delim : α → Bool} {s : List α} (h : ∀ c ∈ s, delim c = true) :
    strtok delim s = none := by
  have hdrop : s.dropWhile delim = [] := by
    simpa using @List.dropWhile_append_of_pos _ _ s [] h
  simp [strtok, hdrop]

/-- **What a token is**: characters that are no delimiters, after delimiters that are skipped; what
is left comes after one more delimiter or is nothing. -/
theorem strtok_some {delim : α → Bool} {s t r : List α} (h : strtok delim s = some (t, r)) :
    t ≠ [] ∧ (∀ c ∈ t, delim c = false) ∧ ∃ p q, s = p ++ (t ++ q) ∧
      (q = [] ∧ r = [] ∨ ∃ d, q = d :: r) := by
  simp only [strtok] at h
  split at h
  · cases h
  · rename_i hne
    obtain ⟨rfl, rfl⟩ := by simpa only [Option.some.injEq, Prod.mk.injEq] using h
    refine ⟨fun hnil => ?_, fun c hc => by simpa using List.mem_takeWhile_imp hc,
      s.takeWhile delim, (s.dropWhile delim).dropWhile fun c => !delim c, ?_, ?_⟩
    · cases hs : s.dropWhile delim with
      | nil => exact hne hs
      | cons c l =>
        have hc : delim c = false := by
          have := @List.head_dropWhile_not _ delim s (by simp [hs])
          simpa [hs] using this
        simp [hs, hc] at hnil
    · rw [List.takeWhile_append_dropWhile, List.takeWhile_append_dropWhile]
    · cases (s.dropWhile delim).dropWhile fun c => !delim c with
      | nil => exact Or.inl ⟨rfl, rfl⟩
      | cons d q => exact Or.inr ⟨d, rfl⟩

/-! ## Copies -/

/-- `g_strlcpy` into a buffer of `size` characters. -/
def strlcpy (size : ℕ) (s : List α) : List α := s.take (size - 1)

/-- A string that fits is copied whole. -/
theorem strlcpy_eq_self {size : ℕ} {s : List α} (h : s.length < size) : strlcpy size s = s :=
  List.take_of_length_le (Nat.le_sub_one_of_lt h)

/-! ## Numbers -/

/-- `isspace`, in the C locale. -/
def isSpace (c : Char) : Bool := c == ' ' || ('\t' ≤ c && c ≤ '\r')

/-- The digits at the front of a text, after those that spell `v`. -/
def readDigits (v : ℕ) : List Char → ℕ
  | [] => v
  | c :: s => if c.isDigit then readDigits (v * 10 + (c.toNat - '0'.toNat)) s else v

/-- The number at the front of a text, after white space and a sign; 0 if there is none. -/
def readNumber (s : List Char) : ℤ :=
  match s.dropWhile isSpace with
  | '-' :: s => -readDigits 0 s
  | '+' :: s => readDigits 0 s
  | s => readDigits 0 s

/-- `atoi`, where `long` has 64 bits: `strtol` stops at the bounds of `long`, and the rest is cut
off. -/
def atoi (s : List Char) : ℤ := (max (-2 ^ 63) (min (2 ^ 63 - 1) (readNumber s))).bmod (2 ^ 32)

/-- The value of a string of digits. -/
def digitsValue (ds : List Char) : ℕ :=
  ds.foldl (fun v c => v * 10 + (c.toNat - '0'.toNat)) 0

/-- The text is the number `v` in decimal digits, perhaps with a sign. -/
def Spells (s : List Char) (v : ℤ) : Prop :=
  ∃ ds, ds ≠ [] ∧ (∀ c ∈ ds, c.isDigit = true) ∧
    (s = ds ∧ v = digitsValue ds ∨ s = '+' :: ds ∧ v = digitsValue ds ∨
      s = '-' :: ds ∧ v = -(digitsValue ds : ℤ))

theorem readDigits_of_digits {ds : List Char} (h : ∀ c ∈ ds, c.isDigit = true) (v : ℕ) :
    readDigits v ds = ds.foldl (fun v c => v * 10 + (c.toNat - '0'.toNat)) v := by
  induction ds generalizing v with
  | nil => rfl
  | cons c ds ih =>
    rw [List.forall_mem_cons] at h
    rw [readDigits, if_pos h.1, List.foldl_cons]
    exact ih h.2 _

/-- A digit is neither white space nor a sign. -/
theorem isDigit_ne {c : Char} (h : c.isDigit = true) : isSpace c = false ∧ c ≠ '-' ∧ c ≠ '+' := by
  simp only [Char.isDigit, Bool.and_eq_true, decide_eq_true_eq, ge_iff_le] at h
  refine ⟨?_, ?_, ?_⟩
  · simp only [isSpace, Bool.or_eq_false_iff, beq_eq_false_iff_ne, Bool.and_eq_false_iff,
      decide_eq_false_iff_not]
    refine ⟨?_, .inr ?_⟩
    · rintro rfl
      exact absurd h.1 (by decide)
    · intro hr
      have : ('0' : Char).val ≤ ('\r' : Char).val := h.1.trans hr
      exact absurd this (by decide)
  · rintro rfl
    exact absurd h.1 (by decide)
  · rintro rfl
    exact absurd h.1 (by decide)

theorem readNumber_of_spells {s : List Char} {v : ℤ} (h : Spells s v) : readNumber s = v := by
  obtain ⟨ds, hne, hds, ⟨rfl, rfl⟩ | ⟨rfl, rfl⟩ | ⟨rfl, rfl⟩⟩ := h
  · obtain ⟨c, ds, rfl⟩ := List.exists_cons_of_ne_nil hne
    obtain ⟨hsp, hminus, hplus⟩ := isDigit_ne (hds c (List.mem_cons_self ..))
    have hdrop : (c :: ds).dropWhile isSpace = c :: ds := by simp [hsp]
    unfold readNumber
    rw [hdrop]
    split
    · rename_i heq
      exact absurd (List.cons.inj heq).1 hminus
    · rename_i heq
      exact absurd (List.cons.inj heq).1 hplus
    · rw [readDigits_of_digits hds]
      rfl
  · have hdrop : ('+' :: ds).dropWhile isSpace = '+' :: ds := by
      simp [show isSpace '+' = false by decide]
    simp only [readNumber, hdrop, readDigits_of_digits hds, digitsValue]
  · have hdrop : ('-' :: ds).dropWhile isSpace = '-' :: ds := by
      simp [show isSpace '-' = false by decide]
    simp only [readNumber, hdrop, readDigits_of_digits hds, digitsValue]

/-- A number that fits into an `int` is read as it is. -/
theorem atoi_of_spells {s : List Char} {v : ℤ} (h : Spells s v) (hlo : -2 ^ 31 ≤ v)
    (hhi : v < 2 ^ 31) : atoi s = v := by
  rw [atoi, readNumber_of_spells h, min_eq_right (by omega), max_eq_right (by omega)]
  exact Int.bmod_eq_of_le (by norm_num; omega) (by norm_num; omega)

end MacHPSDR.CString
