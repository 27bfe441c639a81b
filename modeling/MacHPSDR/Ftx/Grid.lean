import MacHPSDR.Ftx.Text

/-!
# The third word of a standard message

The third word is a grid square, a signal report, `RRR`, `RR73`, `73` or missing. `packgrid` makes a
number of 16 bits of it, whose top bit is the `R` before a report, and takes whatever it does not
know for a report. The word comes back if and only if it is one of these words and the report is
from -30 to +99 (`unpackgrid_packgrid_iff`): the numbers of lower reports are those of the other
words.
-/

namespace MacHPSDR.Ftx

/-- `MAXGRID4` -/
def maxGrid4 : ℕ := 32400

/-- `ftx_field_t` -/
inductive Field
  | unknown
  | none
  | token
  | tokenWithArg
  | call
  | grid
  | rst
  deriving DecidableEq

/-- `is_digit` -/
def isDigit (c : Char) : Bool := '0' ≤ c && c ≤ '9'

/-- `in_range` -/
def inRange (c min max : Char) : Bool := min ≤ c && c ≤ max

/-- Character `i` of a string, with the zero byte behind it. -/
def charAt (s : List Char) (i : ℕ) : Char := s.getD i '\x00'

/-! ## Numbers in a text -/

/-- The loop of `dd_to_int` over at most `n` more characters. -/
def ddDigits : ℕ → List Char → ℕ → ℕ
  | n + 1, c :: cs, result =>
    if isDigit c then ddDigits n cs (result * 10 + (c.toNat - '0'.toNat)) else result
  | _, _, result => result

/-- `dd_to_int` -/
def ddToInt (str : List Char) (length : ℕ) : ℤ :=
  match str with
  | '-' :: cs => -(ddDigits (length - 1) cs 0 : ℤ)
  | '+' :: cs => ddDigits (length - 1) cs 0
  | cs => ddDigits length cs 0

/-- The loop of `int_to_dd`: the quotient by the divisor `10 ^ w`, and then the rest. -/
def ddLoop : ℕ → ℕ → List Char
  | 0, _ => []
  | w + 1, value => Char.ofNat ('0'.toNat + value / 10 ^ w) :: ddLoop w (value % 10 ^ w)

/-- `int_to_dd` -/
def intToDd (value : ℤ) (width : ℕ) (fullSign : Bool) : List Char :=
  (if value < 0 then ['-'] else if fullSign then ['+'] else []) ++ ddLoop width value.natAbs

/-! ## The word -/

/-- The number of a grid square. -/
def gridNumber (grid4 : List Char) : ℕ :=
  ((((charAt grid4 0).toNat - 'A'.toNat) * 18 + ((charAt grid4 1).toNat - 'A'.toNat)) * 10 +
    ((charAt grid4 2).toNat - '0'.toNat)) * 10 + ((charAt grid4 3).toNat - '0'.toNat)

/-- `MAXGRID4 + irpt`, where `irpt` has 16 bits. -/
def reportNumber (dd : ℤ) : ℕ := maxGrid4 + ((35 + dd) % 65536).toNat

/-- `packgrid` -/
def packgrid (grid4 : List Char) : ℕ :=
  if grid4 = [] then maxGrid4 + 1
  else if grid4 = ['R', 'R', 'R'] then maxGrid4 + 2
  else if grid4 = ['R', 'R', '7', '3'] then maxGrid4 + 3
  else if grid4 = ['7', '3'] then maxGrid4 + 4
  else if inRange (charAt grid4 0) 'A' 'R' ∧ inRange (charAt grid4 1) 'A' 'R' ∧
      isDigit (charAt grid4 2) ∧ isDigit (charAt grid4 3) then gridNumber grid4
  else if charAt grid4 0 = 'R' then (reportNumber (ddToInt (grid4.drop 1) 3) ||| 0x8000) % 65536
  else reportNumber (ddToInt grid4 3) % 65536

/-- `unpackgrid` -/
def unpackgrid (igrid4 ir : ℕ) : List Char × Field :=
  if igrid4 ≤ maxGrid4 then
    ((if ir > 0 then ['R', ' '] else []) ++
      [Char.ofNat ('A'.toNat + igrid4 / 10 / 10 / 18 % 18),
        Char.ofNat ('A'.toNat + igrid4 / 10 / 10 % 18),
        Char.ofNat ('0'.toNat + igrid4 / 10 % 10), Char.ofNat ('0'.toNat + igrid4 % 10)], .grid)
  else
    match igrid4 - maxGrid4 with
    | 1 => ([], .none)
    | 2 => (['R', 'R', 'R'], .token)
    | 3 => (['R', 'R', '7', '3'], .token)
    | 4 => (['7', '3'], .token)
    | irpt => ((if ir > 0 then ['R'] else []) ++ intToDd ((irpt : ℤ) - 35) 2 true, .rst)

/-- The third word as it comes back: the message has 15 bits and one bit for it. -/
def gridBack (extra : List Char) : List Char × Field :=
  unpackgrid (packgrid extra % 32768) (packgrid extra / 32768)

/-! ## The words that come back -/

/-- A square of the Maidenhead grid. -/
def GridSquare : List Char → Prop
  | [a, b, c, d] => inRange a 'A' 'R' = true ∧ inRange b 'A' 'R' = true ∧ isDigit c = true ∧
      isDigit d = true
  | _ => False

/-- What may stand third in a message. -/
inductive Exchange : List Char → Prop
  | nothing : Exchange []
  | rrr : Exchange ['R', 'R', 'R']
  | rr73 : Exchange ['R', 'R', '7', '3']
  | seventyThree : Exchange ['7', '3']
  | grid {square : List Char} (h : GridSquare square) : Exchange square
  | report (n : ℤ) (hlo : -30 ≤ n) (hhi : n ≤ 99) : Exchange (intToDd n 2 true)
  | roger (n : ℤ) (hlo : -30 ≤ n) (hhi : n ≤ 99) : Exchange ('R' :: intToDd n 2 true)

theorem inRange_iff {c min max : Char} :
    inRange c min max = true ↔ min.toNat ≤ c.toNat ∧ c.toNat ≤ max.toNat := by
  rw [inRange, Bool.and_eq_true, decide_eq_true_iff, decide_eq_true_iff]
  exact Iff.rfl

theorem isDigit_iff {c : Char} : isDigit c = true ↔ 48 ≤ c.toNat ∧ c.toNat ≤ 57 := by
  have h : inRange c '0' '9' = true ↔ '0'.toNat ≤ c.toNat ∧ c.toNat ≤ '9'.toNat := inRange_iff
  exact h

theorem ofNat_of_toNat {c : Char} {n : ℕ} (h : n = c.toNat) : Char.ofNat n = c := by
  rw [h, Char.ofNat_toNat]

/-- **A grid square** is a number below `MAXGRID4` and comes back. -/
theorem gridBack_square {square : List Char} (h : GridSquare square) :
    (gridBack square).1 = square := by
  match square, h with
  | [a, b, c, d], h =>
    by_cases hrr73 : [a, b, c, d] = ['R', 'R', '7', '3']
    · rw [hrr73]
      decide
    have hpack : packgrid [a, b, c, d] = gridNumber [a, b, c, d] := by
      rw [packgrid, if_neg (by simp), if_neg (by simp), if_neg hrr73, if_neg (by simp)]
      exact if_pos h
    obtain ⟨ha, hb, hc, hd⟩ := h
    rw [inRange_iff] at ha hb
    rw [isDigit_iff] at hc hd
    have hA : 'A'.toNat = 65 := rfl
    have hR : 'R'.toNat = 82 := rfl
    have h0 : '0'.toNat = 48 := rfl
    rw [hA, hR] at ha hb
    have hnumber : gridNumber [a, b, c, d] =
        (((a.toNat - 65) * 18 + (b.toNat - 65)) * 10 + (c.toNat - 48)) * 10 + (d.toNat - 48) := rfl
    have hlt : gridNumber [a, b, c, d] < 32400 := by omega
    have hle : gridNumber [a, b, c, d] ≤ maxGrid4 := hlt.le
    rw [gridBack, hpack, Nat.mod_eq_of_lt (by omega), Nat.div_eq_of_lt (by omega), unpackgrid,
      if_pos hle, if_neg (lt_irrefl 0), hA, h0, List.nil_append]
    dsimp only
    rw [ofNat_of_toNat (c := a) (by omega), ofNat_of_toNat (c := b) (by omega),
      ofNat_of_toNat (c := c) (by omega), ofNat_of_toNat (c := d) (by omega)]

/-- **Reports** come back. -/
theorem gridBack_reports : ∀ n ∈ List.range 130, ∀ r ∈ [[], ['R']],
    (gridBack (r ++ intToDd ((n : ℤ) - 30) 2 true)).1 = r ++ intToDd ((n : ℤ) - 30) 2 true := by
  decide +kernel

theorem gridBack_report {n : ℤ} (hlo : -30 ≤ n) (hhi : n ≤ 99) {r : List Char}
    (hr : r ∈ [[], ['R']]) : (gridBack (r ++ intToDd n 2 true)).1 = r ++ intToDd n 2 true := by
  have h := gridBack_reports (n + 30).toNat (List.mem_range.2 (by omega)) r hr
  rwa [Int.toNat_of_nonneg (by omega), add_sub_cancel_right] at h

/-- The texts for the reports above +99 are not read as these reports. -/
theorem packgrid_report_ne : ∀ irpt ∈ List.range 368, ∀ r ∈ [[], ['R']], 134 < irpt →
    packgrid (r ++ intToDd ((irpt : ℤ) - 35) 2 true) % 32768 ≠ maxGrid4 + irpt := by
  decide +kernel

theorem unpackgrid_report {igrid4 ir : ℕ} (h : maxGrid4 + 5 ≤ igrid4) :
    (unpackgrid igrid4 ir).1 =
      (if ir > 0 then ['R'] else []) ++ intToDd (((igrid4 - maxGrid4 : ℕ) : ℤ) - 35) 2 true := by
  obtain ⟨k, rfl⟩ := Nat.exists_eq_add_of_le h
  have hsub : maxGrid4 + 5 + k - maxGrid4 = k + 5 := by omega
  rw [unpackgrid, if_neg (by omega), hsub]
  rfl

/-- A blank after `R` is read as the report +00. -/
theorem packgrid_blank (s : List Char) :
    packgrid ('R' :: ' ' :: s) = (reportNumber 0 ||| 0x8000) % 65536 := by
  have hsquare : ¬ (inRange 'R' 'A' 'R' = true ∧ inRange ' ' 'A' 'R' = true ∧
      isDigit (charAt ('R' :: ' ' :: s) 2) = true ∧ isDigit (charAt ('R' :: ' ' :: s) 3) = true) :=
    fun h => absurd h.2.1 (by decide)
  rw [packgrid, if_neg (by simp), if_neg (by simp), if_neg (by simp), if_neg (by simp)]
  exact (if_neg hsquare).trans (if_pos rfl)

theorem charAt_square (n : ℕ) : GridSquare
    [Char.ofNat ('A'.toNat + n / 10 / 10 / 18 % 18), Char.ofNat ('A'.toNat + n / 10 / 10 % 18),
      Char.ofNat ('0'.toNat + n / 10 % 10), Char.ofNat ('0'.toNat + n % 10)] := by
  have hletter : ∀ k < 18, inRange (Char.ofNat ('A'.toNat + k)) 'A' 'R' = true := by decide
  have hdigit : ∀ k < 10, isDigit (Char.ofNat ('0'.toNat + k)) = true := by decide
  exact ⟨hletter _ (Nat.mod_lt _ (by decide)), hletter _ (Nat.mod_lt _ (by decide)),
    hdigit _ (Nat.mod_lt _ (by decide)), hdigit _ (Nat.mod_lt _ (by decide))⟩

theorem Exchange.unpackgrid {extra : List Char} (h : Exchange extra) :
    (Ftx.unpackgrid (packgrid extra % 32768) (packgrid extra / 32768)).1 = extra := by
  cases h with
  | nothing => decide
  | rrr => decide
  | rr73 => decide
  | seventyThree => decide
  | grid hsquare => exact gridBack_square hsquare
  | report n hlo hhi => exact gridBack_report hlo hhi (r := []) (by decide)
  | roger n hlo hhi => exact gridBack_report hlo hhi (r := ['R']) (by decide)

/-- **The third word** comes back if and only if it is a square, a report from -30 to +99, one of
the three words, or missing. -/
theorem unpackgrid_packgrid_iff (extra : List Char) :
    (unpackgrid (packgrid extra % 32768) (packgrid extra / 32768)).1 = extra ↔ Exchange extra := by
  refine ⟨?_, Exchange.unpackgrid⟩
  · intro h
    have hlt : packgrid extra % 32768 < 32768 := Nat.mod_lt _ (by decide)
    by_cases hgrid : packgrid extra % 32768 ≤ maxGrid4
    · rw [unpackgrid, if_pos hgrid] at h
      by_cases hir : packgrid extra / 32768 > 0
      · -- `packgrid` takes a blank after `R` for the report +00
        rw [if_pos hir] at h
        rw [← h] at hgrid
        exact absurd ((congrArg (· % 32768) (packgrid_blank _)).symm.trans_le hgrid) (by decide)
      · rw [if_neg hir] at h
        exact h ▸ .grid (charAt_square _)
    · obtain ⟨irpt, hirpt⟩ : ∃ irpt, packgrid extra % 32768 = maxGrid4 + (irpt + 1) :=
        ⟨packgrid extra % 32768 - maxGrid4 - 1, by omega⟩
      have hmax : maxGrid4 = 32400 := rfl
      rw [hirpt] at h
      match irpt, hirpt with
      | 0, _ => exact (show [] = extra from h) ▸ .nothing
      | 1, _ => exact (show ['R', 'R', 'R'] = extra from h) ▸ .rrr
      | 2, _ => exact (show ['R', 'R', '7', '3'] = extra from h) ▸ .rr73
      | 3, _ => exact (show ['7', '3'] = extra from h) ▸ .seventyThree
      | k + 4, hirpt =>
        rw [unpackgrid_report (by omega), Nat.add_sub_cancel_left] at h
        have hr : (if packgrid extra / 32768 > 0 then ['R'] else []) ∈ [[], ['R']] := by
          split <;> decide
        have hle : k + 4 + 1 ≤ 134 := by
          by_contra hle
          refine packgrid_report_ne (k + 4 + 1) (List.mem_range.2 (by omega)) _ hr (by omega) ?_
          rw [h]
          exact hirpt
        rw [← h]
        split
        · exact .roger _ (by omega) (by omega)
        · exact .report _ (by omega) (by omega)

/-- The third word is one word. -/
theorem Exchange.word {extra : List Char} (h : Exchange extra) :
    extra.length ≤ 4 ∧ ' ' ∉ extra := by
  have hreports : ∀ n ∈ List.range 130, ∀ r ∈ [[], ['R']],
      (r ++ intToDd ((n : ℤ) - 30) 2 true).length ≤ 4 ∧
        ' ' ∉ r ++ intToDd ((n : ℤ) - 30) 2 true := by
    decide +kernel
  have hreport {n : ℤ} (hlo : -30 ≤ n) (hhi : n ≤ 99) {r : List Char} (hr : r ∈ [[], ['R']]) :
      (r ++ intToDd n 2 true).length ≤ 4 ∧ ' ' ∉ r ++ intToDd n 2 true := by
    have hn := hreports (n + 30).toNat (List.mem_range.2 (by omega)) r hr
    rwa [Int.toNat_of_nonneg (by omega), add_sub_cancel_right] at hn
  cases h with
  | nothing => decide
  | rrr => decide
  | rr73 => decide
  | seventyThree => decide
  | grid hsquare =>
    match extra, hsquare with
    | [a, b, c, d], ⟨ha, hb, hc, hd⟩ =>
      refine ⟨le_rfl, fun hblank => ?_⟩
      have hno : inRange ' ' 'A' 'R' = false ∧ isDigit ' ' = false := by decide
      simp only [List.mem_cons, List.not_mem_nil, or_false] at hblank
      rcases hblank with rfl | rfl | rfl | rfl
      · exact absurd (ha.symm.trans hno.1) (by decide)
      · exact absurd (hb.symm.trans hno.1) (by decide)
      · exact absurd (hc.symm.trans hno.2) (by decide)
      · exact absurd (hd.symm.trans hno.2) (by decide)
  | report n hlo hhi => exact hreport hlo hhi (r := []) (by decide)
  | roger n hlo hhi => exact hreport hlo hhi (r := ['R']) (by decide)

end MacHPSDR.Ftx
