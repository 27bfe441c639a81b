import MacHPSDR.Rigctl.Format
import MacHPSDR.Rigctl.Reply
import Mathlib

/-!
# `IF` and the single reads

`IF;` prints the state in fixed columns, by its own code. `FA;` answers with the cursor under
`ctun` and under `freetune`, `IF` looks at `ctun` alone; `FT;` answers whether there is a split,
`IF` prints which.
-/

namespace MacHPSDR.Rigctl

/-- What `IF;` prints after its letters, field by field. -/
def informationFields (r : Rig) : List (List Char) :=
  [zeros 11 (if r.ctun ≠ 0 then r.ctunFrequency else r.frequencyA),
    zeros 4 (max 0 (min 9999 r.step)), zeroed true 6 (max (-99999) (min 99999 r.rit)),
    dec r.ritEnabled, dec (r.tx (·.xitEnabled)), dec 0, zeros 2 0, dec (isTransmitting r),
    dec (ts2000Mode r.modeA), dec 0, dec 0, dec r.split,
    dec (if r.tx (·.ctcssEnabled) ≠ 0 then 2 else 0), zeros 2 (r.tx (·.ctcss)), dec 0]

theorem information_eq (r : Rig) : information r = (informationFields r).flatten := by
  simp [information, informationFields]

/-- The columns of the TS-2000. -/
def informationWidths : List ℕ := [11, 4, 6, 1, 1, 1, 2, 1, 1, 1, 1, 1, 1, 2, 1]

/-- The reply to a command. -/
def replyTo (r : Rig) (command : String) : List (List Char) :=
  (parseCmd (some r) command.toList).frames

/-- `width` characters of a frame, from the column `k`. -/
def column (k width : ℕ) (frame : List Char) : List Char := (frame.drop k).take width

/-- `IF;` keeps to its columns, and has in them what the single reads answer. -/
structure InformationAgrees (r : Rig) (frame : List Char) : Prop where
  reply : replyTo r "IF;" = [frame]
  length : frame.length = 38
  columns : frame = "IF".toList ++ ((informationFields r).flatten ++ [';']) ∧
    (informationFields r).map List.length = informationWidths
  frequency : replyTo r "FA;" = ["FA".toList ++ (column 2 11 frame ++ [';'])]
  mode : replyTo r "MD;" = ["MD".toList ++ (column 29 1 frame ++ [';'])]
  split : replyTo r "FT;" = ["FT".toList ++ (column 32 1 frame ++ [';'])]

/-- The numbers that are not held to a column by the code fit theirs. -/
structure InformationFits (r : Rig) : Prop where
  frequency : -10 ^ 10 < (if r.ctun ≠ 0 then r.ctunFrequency else r.frequencyA) ∧
    (if r.ctun ≠ 0 then r.ctunFrequency else r.frequencyA) < 10 ^ 11
  ritEnabled : 0 ≤ r.ritEnabled ∧ r.ritEnabled ≤ 9
  xitEnabled : 0 ≤ r.tx (·.xitEnabled) ∧ r.tx (·.xitEnabled) ≤ 9
  transmitting : 0 ≤ isTransmitting r ∧ isTransmitting r ≤ 9
  ctcss : -10 < r.tx (·.ctcss) ∧ r.tx (·.ctcss) < 100

theorem length_ts2000Mode (m : Radio.Mode) : (dec (ts2000Mode m)).length = 1 := by
  cases m <;> rfl

theorem length_rit (rit : ℤ) : (zeroed true 6 (max (-99999) (min 99999 rit))).length = 6 := by
  have hdigits : (digits (max (-99999) (min 99999 rit))).length ≤ 5 :=
    (length_digits_le_iff (by decide)).2 (by omega)
  rw [length_zeroed, max_eq_left_iff]
  unfold sign
  split
  · rw [List.length_singleton]
    omega
  · rw [if_pos rfl, List.length_singleton]
    omega

/-- The columns are kept if and only if the numbers fit, the split among them. -/
theorem columns_iff (r : Rig) : (informationFields r).map List.length = informationWidths ↔
    InformationFits r ∧ (dec r.split).length = 1 := by
  have hstep : (zeros 4 (max 0 (min 9999 r.step))).length = 4 :=
    (length_zeros_eq_iff (by decide) _).2 ⟨by omega, by omega⟩
  have htone : (dec (if r.tx (·.ctcssEnabled) ≠ 0 then 2 else 0)).length = 1 := by
    split <;> rfl
  have hfields : (informationFields r).map List.length = informationWidths ↔
      (zeros 11 (if r.ctun ≠ 0 then r.ctunFrequency else r.frequencyA)).length = 11 ∧
        (dec r.ritEnabled).length = 1 ∧ (dec (r.tx (·.xitEnabled))).length = 1 ∧
        (dec (isTransmitting r)).length = 1 ∧ (dec r.split).length = 1 ∧
        (zeros 2 (r.tx (·.ctcss))).length = 2 := by
    have hzero : (dec 0).length = 1 ∧ (zeros 2 0).length = 2 := by decide
    unfold informationFields informationWidths
    simp only [List.map_cons, List.map_nil, List.cons.injEq, hstep, length_rit, hzero, htone,
      length_ts2000Mode, true_and, and_true]
  rw [hfields, length_zeros_eq_iff (by decide), length_zeros_eq_iff (by decide),
    length_dec_eq_one_iff r.ritEnabled, length_dec_eq_one_iff (r.tx (·.xitEnabled)),
    length_dec_eq_one_iff (isTransmitting r)]
  constructor
  · rintro ⟨hfrequency, hrit, hxit, htransmitting, hsplit, hctcss⟩
    exact ⟨⟨hfrequency, hrit, hxit, htransmitting, by simpa using hctcss⟩, hsplit⟩
  · rintro ⟨⟨hfrequency, hrit, hxit, htransmitting, hctcss⟩, hsplit⟩
    exact ⟨hfrequency, hrit, hxit, htransmitting, hsplit, by simpa using hctcss⟩

/-- The frame of `IF;`. -/
def informationFrame (r : Rig) : List Char :=
  "IF".toList ++ ((informationFields r).flatten ++ [';'])

theorem replyTo_if (r : Rig) : replyTo r "IF;" = [informationFrame r] := by
  have h : replyTo r "IF;" = ["IF".toList ++ (information r ++ [';'])] := rfl
  rw [h, information_eq]
  rfl

/-- A field is in its columns if those before it are. -/
theorem column_field {r : Rig} (h : (informationFields r).map List.length = informationWidths)
    {k : ℕ} (hk : k < (informationFields r).length) :
    column (2 + (informationWidths.take k).sum) (informationFields r)[k].length
      (informationFrame r) = (informationFields r)[k] := by
  have hbefore :
      ((informationFields r).take k).flatten.length = (informationWidths.take k).sum := by
    rw [List.length_flatten, ← h, List.map_take]
  have hsplit : informationFrame r = "IF".toList ++ (((informationFields r).take k).flatten ++
      ((informationFields r)[k] ++ (((informationFields r).drop (k + 1)).flatten ++ [';']))) := by
    have hfields : (informationFields r).flatten = ((informationFields r).take k).flatten ++
        ((informationFields r)[k] ++ ((informationFields r).drop (k + 1)).flatten) := by
      rw [← List.flatten_cons, ← List.drop_eq_getElem_cons hk, ← List.flatten_append,
        List.take_append_drop]
    unfold informationFrame
    rw [hfields]
    simp only [List.append_assoc]
  have hpre : (2 + (informationWidths.take k).sum) =
      ("IF".toList ++ ((informationFields r).take k).flatten).length := by
    rw [List.length_append, hbefore]
    rfl
  unfold column
  rw [hsplit, hpre, ← List.append_assoc "IF".toList, List.drop_left, List.take_left]

/-- The three columns that the single reads are compared with. -/
theorem columns_read {r : Rig} (h : (informationFields r).map List.length = informationWidths) :
    column 2 11 (informationFrame r) =
        zeros 11 (if r.ctun ≠ 0 then r.ctunFrequency else r.frequencyA) ∧
      column 29 1 (informationFrame r) = dec (ts2000Mode r.modeA) ∧
      column 32 1 (informationFrame r) = dec r.split := by
  have hwidth (k : ℕ) : ((informationFields r).map List.length)[k]? = informationWidths[k]? := by
    rw [h]
  have hfrequency : (zeros 11 (if r.ctun ≠ 0 then r.ctunFrequency else r.frequencyA)).length = 11 :=
    Option.some.inj (hwidth 0)
  have hsplit : (dec r.split).length = 1 := Option.some.inj (hwidth 11)
  have h0 := column_field h (show 0 < 15 by decide)
  have h8 := column_field h (show 8 < 15 by decide)
  have h11 := column_field h (show 11 < 15 by decide)
  change column 2 (zeros 11 _).length _ = zeros 11 _ at h0
  change column 29 (dec (ts2000Mode r.modeA)).length _ = dec _ at h8
  change column 32 (dec r.split).length _ = dec _ at h11
  rw [hfrequency] at h0
  rw [length_ts2000Mode] at h8
  rw [hsplit] at h11
  exact ⟨h0, h8, h11⟩

/-- `FA;` answers with what `IF;` prints, unless the cursor is moved under `freetune` alone. -/
theorem tunedFrequency_eq_iff (r : Rig) :
    tunedFrequency r = (if r.ctun ≠ 0 then r.ctunFrequency else r.frequencyA) ↔
      r.ctun ≠ 0 ∨ r.freetune = 0 ∨ r.ctunFrequency = r.frequencyA := by
  unfold tunedFrequency
  by_cases hctun : r.ctun = 0
  · by_cases hfreetune : r.freetune = 0 <;> simp [hctun, hfreetune]
  · simp [hctun]

/-- `FT;` answers with what `IF;` prints for a split that is off or on. -/
theorem splitOn_eq_iff (split : ℤ) :
    (if split ≠ splitOff then 1 else 0) = split ↔ split = splitOff ∨ split = splitOn := by
  unfold splitOff splitOn
  split <;> omega

/-- **`IF;` agrees with the single reads** if and only if its numbers fit their columns, the cursor
is not moved by `freetune` alone, and the split is off or on. -/
theorem informationAgrees_iff (r : Rig) : (∃ frame, InformationAgrees r frame) ↔
    InformationFits r ∧ (r.ctun ≠ 0 ∨ r.freetune = 0 ∨ r.ctunFrequency = r.frequencyA) ∧
      (r.split = splitOff ∨ r.split = splitOn) := by
  have hfa : replyTo r "FA;" = ["FA".toList ++ (zeros 11 (tunedFrequency r) ++ [';'])] := rfl
  have hmd : replyTo r "MD;" = ["MD".toList ++ (dec (ts2000Mode r.modeA) ++ [';'])] := rfl
  have hft : replyTo r "FT;" =
      ["FT".toList ++ (dec (if r.split ≠ splitOff then 1 else 0) ++ [';'])] := rfl
  rw [← tunedFrequency_eq_iff, ← splitOn_eq_iff]
  constructor
  · rintro ⟨frame, h⟩
    obtain rfl : informationFrame r = frame :=
      (List.cons.inj ((replyTo_if r).symm.trans h.reply)).1
    obtain ⟨hfrequency, -, hsplit⟩ := columns_read h.columns.2
    have hFA := h.frequency
    have hFT := h.split
    rw [hfa, hfrequency] at hFA
    rw [hft, hsplit] at hFT
    have hfreq := List.append_cancel_right
      (List.append_cancel_left (List.cons.inj hFA).1)
    have hspl := List.append_cancel_right
      (List.append_cancel_left (List.cons.inj hFT).1)
    exact ⟨((columns_iff r).1 h.columns.2).1, zeroed_injective false 11 hfreq,
      dec_injective hspl⟩
  · rintro ⟨hfits, hfrequency, hsplit⟩
    have hlength : (dec r.split).length = 1 := by
      rcases (splitOn_eq_iff r.split).1 hsplit with h | h <;> rw [h] <;> rfl
    have hcolumns := (columns_iff r).2 ⟨hfits, hlength⟩
    obtain ⟨hcol2, hcol29, hcol32⟩ := columns_read hcolumns
    refine ⟨informationFrame r, replyTo_if r, ?_, ⟨rfl, hcolumns⟩, ?_, ?_, ?_⟩
    · unfold informationFrame
      rw [List.length_append, List.length_append, List.length_flatten, hcolumns]
      rfl
    · rw [hfa, hcol2, hfrequency]
    · rw [hmd, hcol29]
    · rw [hft, hcol32, hsplit]

/-- On 14.205 MHz with freetune, the span still at 14.2 MHz. -/
def freetuneRig : Rig := { quietRig with freetune := 1, ctunFrequency := 14205000 }

/-- `FA;` answers 14205000, and `IF;` prints 14200000. -/
theorem not_informationAgrees : ¬ ∃ frame, InformationAgrees freetuneRig frame := by
  rintro ⟨frame, h⟩
  have hframe := (List.cons.inj ((replyTo_if freetuneRig).symm.trans h.reply)).1
  have hfa := h.frequency
  rw [← hframe] at hfa
  exact absurd hfa (by decide)

end MacHPSDR.Rigctl
