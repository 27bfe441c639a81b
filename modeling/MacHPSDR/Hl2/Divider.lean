import MacHPSDR.Hl2.I2c
import Mathlib

/-!
# The divider of the second clock

The divisor of the clock generator has eight integer bits and 24 fractional ones, which go into a
field of 30 bits over four registers. `HL2cl2Enable` shifts the fraction up by two bits to cut it
into bytes, and shifts the last byte up once more for its register: there two bits of the divisor
fall out, and the four below them take their places (`reassembled_programming`). So the registers
hold the divisor if and only if the last six bits are zero (`lossless_iff`).
-/

namespace MacHPSDR.Hl2

/-! ## `HL2cl2Enable` -/

section

variable (integerMode : Bool) (clock2Freq : ℤ)

/-- `divisor_f`, in exact arithmetic -/
def divisorF : ℚ :=
  let divisor : ℚ := 2611200000 / clock2Freq / 2
  if integerMode then (⌊divisor⌋₊ : ℚ) else divisor

/-- The frequencies that are programmed. -/
def Accepts : Prop :=
  0 < clock2Freq ∧ ¬ (divisorF integerMode clock2Freq < 1 ∨ divisorF integerMode clock2Freq > 255)

instance : Decidable (Accepts integerMode clock2Freq) := inferInstanceAs (Decidable (_ ∧ _))

/-- `div` -/
def dividerWord : ℕ := ⌊divisorF integerMode clock2Freq * 2 ^ 24 + 1 / 10⌋₊

end

/-- The writes for a divisor. -/
def programming (div : ℕ) : List ℕ :=
  let intgr := div >>> 24
  let frac := (div &&& 0xFFFFFF) <<< 2
  [versa5Word 0x62 0x3B,
    versa5Word 0x2C 0x00,
    versa5Word 0x31 0x81,
    versa5Word 0x3D (intgr >>> 4),
    versa5Word 0x3E ((intgr <<< 4) &&& 0xFF),
    versa5Word 0x32 (frac >>> 24),
    versa5Word 0x33 (frac >>> 16),
    versa5Word 0x34 (frac >>> 8),
    versa5Word 0x35 ((frac &&& 0xFF) <<< 2),
    versa5Word 0x63 0x01]

/-- The writes of `HL2cl2Enable`. -/
def cl2Enable (integerMode : Bool) (clock2Freq : ℤ) : List ℕ :=
  if Accepts integerMode clock2Freq then programming (dividerWord integerMode clock2Freq) else []

/-! ## The registers -/

/-- What a register holds after the writes, 0 if they leave it alone. -/
def written (words : List ℕ) (command : ℕ) : ℕ := (registerOf words command).getD 0

/-- The integer part, of which the first register has the upper half and the second the lower. -/
def integerPart (words : List ℕ) : ℕ := written words 0x3D <<< 4 ||| written words 0x3E >>> 4

/-- The fraction: its bits 29 to 22, 21 to 14, 13 to 6 and 5 to 0. -/
def fraction (words : List ℕ) : ℕ :=
  written words 0x32 <<< 22 ||| written words 0x33 <<< 14 ||| written words 0x34 <<< 6 |||
    written words 0x35 >>> 2

/-- The divisor that the registers hold. -/
def reassembled (words : List ℕ) : ℕ := integerPart words * 2 ^ 24 + fraction words

/-- The registers hold the divisor of this frequency, and no frequency with another divisor has the
same. -/
structure Lossless (integerMode : Bool) (freq : ℤ) : Prop where
  represents : reassembled (cl2Enable integerMode freq) = dividerWord integerMode freq
  distinct : ∀ freq', Accepts integerMode freq' →
    dividerWord integerMode freq' ≠ dividerWord integerMode freq →
      cl2Enable integerMode freq' ≠ cl2Enable integerMode freq

/-- The two divisors differ in the bits 5 and 4 at most. -/
def Alike (div div' : ℕ) : Prop := div / 64 = div' / 64 ∧ div % 16 = div' % 16

instance (div div' : ℕ) : Decidable (Alike div div') := inferInstanceAs (Decidable (_ ∧ _))

theorem sendTargetAddr_versa5Word (command value : ℕ) (hcommand : command < 2 ^ 8) :
    sendTargetAddr (versa5Word command value) = addrVersa5 >>> 1 ||| 0x80 := by
  unfold sendTargetAddr versa5Word
  rw [and_byte]
  show BitField.field 16 8 _ = _
  rw [field_i2cWord value 16 (by decide), BitField.field_shiftLeft_of_le i2c1Write (by decide),
    BitField.field_shiftLeft 16 (by decide),
    BitField.field_of_lt (k := 16) (by rw [Nat.shiftLeft_eq]; omega) le_rfl,
    BitField.field_of_lt (k := 8) (Nat.mod_lt value (by decide)) (by decide)]
  simp

theorem sendCommand_versa5Word (command value : ℕ) (hcommand : command < 2 ^ 8) :
    sendCommand (versa5Word command value) = command :=
  sendCommand_i2cWord value hcommand

theorem sendValue_versa5Word (command value : ℕ) :
    sendValue (versa5Word command value) = value % 2 ^ 8 :=
  sendValue_i2cWord value

/-- The last of some writes to a register. -/
theorem written_map (writes : List (ℕ × ℕ)) (h : ∀ w ∈ writes, w.1 < 2 ^ 8) (command : ℕ) :
    written (writes.map fun w => versa5Word w.1 w.2) command =
      ((writes.reverse.find? fun w => w.1 = command).map fun w => w.2 % 2 ^ 8).getD 0 := by
  have hfind : (writes.reverse.find? ((fun w => decide (sendTargetAddr w =
      addrVersa5 >>> 1 ||| 0x80 ∧ sendCommand w = command)) ∘ fun w => versa5Word w.1 w.2)) =
      writes.reverse.find? fun w => w.1 = command := by
    refine List.find?_congr fun w hw => ?_
    have hlt := h w (List.mem_reverse.1 hw)
    simp [sendTargetAddr_versa5Word _ _ hlt, sendCommand_versa5Word _ _ hlt]
  unfold written registerOf
  rw [← List.map_reverse, List.find?_map, hfind, Option.map_map]
  congr 2
  funext w
  exact sendValue_versa5Word w.1 w.2

/-- A word has the value only as far as a byte holds it. -/
theorem versa5Word_mod (command value : ℕ) :
    versa5Word command value = versa5Word command (value % 256) := by
  have hmod : value % 256 % 2 ^ 8 = value % 2 ^ 8 := Nat.mod_mod value 256
  unfold versa5Word i2cWord
  rw [and_byte, and_byte, hmod]

/-- The writes for a divisor, as registers and values. -/
def writes (div : ℕ) : List (ℕ × ℕ) :=
  let frac := div % 2 ^ 24 * 4
  [(0x62, 0x3B), (0x2C, 0x00), (0x31, 0x81), (0x3D, div / 2 ^ 24 / 2 ^ 4),
    (0x3E, div / 2 ^ 24 * 2 ^ 4 % 2 ^ 8), (0x32, frac / 2 ^ 24), (0x33, frac / 2 ^ 16),
    (0x34, frac / 2 ^ 8), (0x35, frac % 2 ^ 8 * 4), (0x63, 0x01)]

theorem programming_eq (div : ℕ) :
    programming div = (writes div).map fun w => versa5Word w.1 w.2 := by
  have hmask : div &&& 0xFFFFFF = div % 2 ^ 24 := Nat.and_two_pow_sub_one_eq_mod div 24
  unfold programming writes
  dsimp only
  rw [hmask, and_byte, and_byte]
  simp only [Nat.shiftRight_eq_div_pow, Nat.shiftLeft_eq, List.map_cons, List.map_nil,
    Nat.reducePow]

theorem written_programming (div command : ℕ) : written (programming div) command =
    (((writes div).reverse.find? fun w => w.1 = command).map fun w => w.2 % 2 ^ 8).getD 0 := by
  rw [programming_eq, written_map]
  intro w hw
  have hall : ∀ c ∈ (writes div).map Prod.fst, c < 2 ^ 8 := by
    show ∀ c ∈ [0x62, 0x2C, 0x31, 0x3D, 0x3E, 0x32, 0x33, 0x34, 0x35, 0x63], c < 2 ^ 8
    decide
  exact hall _ (List.mem_map_of_mem hw)

/-- A byte behind others. -/
theorem shiftLeft_or_byte (x n : ℕ) {y : ℕ} (hy : y < 2 ^ 8) :
    x <<< (n + 8) ||| y <<< n = (x * 2 ^ 8 + y) <<< n := by
  rw [Nat.add_comm n 8, Nat.shiftLeft_add, ← Nat.shiftLeft_or_distrib,
    ← Nat.shiftLeft_add_eq_or_of_lt hy, Nat.shiftLeft_eq x]

/-- **What the registers hold**: of the last six bits of the divisor the upper two are lost, and the
lower four stand in their places. -/
theorem reassembled_programming {div : ℕ} (hdiv : div < 2 ^ 32) :
    reassembled (programming div) = div / 64 * 64 + div % 16 * 4 := by
  have hint : integerPart (programming div) = div / 2 ^ 24 := by
    unfold integerPart
    rw [written_programming, written_programming]
    show (div / 2 ^ 24 / 2 ^ 4 % 2 ^ 8) <<< 4 ||| (div / 2 ^ 24 * 2 ^ 4 % 2 ^ 8 % 2 ^ 8) >>> 4 = _
    rw [← Nat.shiftLeft_add_eq_or_of_lt (by rw [Nat.shiftRight_eq_div_pow]; omega),
      Nat.shiftLeft_eq, Nat.shiftRight_eq_div_pow]
    omega
  have hfrac : fraction (programming div) = div % 2 ^ 24 / 64 * 64 + div % 16 * 4 := by
    unfold fraction
    rw [written_programming, written_programming, written_programming, written_programming]
    show (div % 2 ^ 24 * 4 / 2 ^ 24 % 2 ^ 8) <<< 22 |||
      (div % 2 ^ 24 * 4 / 2 ^ 16 % 2 ^ 8) <<< 14 |||
        (div % 2 ^ 24 * 4 / 2 ^ 8 % 2 ^ 8) <<< 6 |||
          (div % 2 ^ 24 * 4 % 2 ^ 8 * 4 % 2 ^ 8) >>> 2 = _
    rw [shiftLeft_or_byte _ 14 (Nat.mod_lt _ (by decide)),
      shiftLeft_or_byte _ 6 (Nat.mod_lt _ (by decide)),
      ← Nat.shiftLeft_add_eq_or_of_lt (by rw [Nat.shiftRight_eq_div_pow]; omega),
      Nat.shiftLeft_eq, Nat.shiftRight_eq_div_pow]
    omega
  unfold reassembled
  rw [hint, hfrac]
  omega

/-- The writes see nothing else of a divisor. -/
theorem programming_inj {div div' : ℕ} (hdiv : div < 2 ^ 32) (hdiv' : div' < 2 ^ 32) :
    programming div' = programming div ↔ Alike div' div := by
  constructor
  · intro h
    have hsame := congrArg reassembled h
    rw [reassembled_programming hdiv, reassembled_programming hdiv'] at hsame
    unfold Alike
    omega
  · rintro ⟨hhigh, hlow⟩
    have hbytes (div : ℕ) : programming div = ((writes div).map fun w => (w.1, w.2 % 256)).map
        fun w => versa5Word w.1 w.2 := by
      rw [programming_eq, List.map_map]
      exact List.map_congr_left fun w _ => versa5Word_mod w.1 w.2
    -- each byte depends on the bits above the last six, or on the last four
    have hint (div : ℕ) : div / 2 ^ 24 = div / 64 / 2 ^ 18 := by omega
    have h32 (div : ℕ) : div % 2 ^ 24 * 4 / 2 ^ 24 % 256 = div / 64 / 2 ^ 16 % 4 := by omega
    have h33 (div : ℕ) : div % 2 ^ 24 * 4 / 2 ^ 16 % 256 = div / 64 / 2 ^ 8 % 256 := by omega
    have h34 (div : ℕ) : div % 2 ^ 24 * 4 / 2 ^ 8 % 256 = div / 64 % 256 := by omega
    have h35 (div : ℕ) : div % 2 ^ 24 * 4 % 2 ^ 8 * 4 % 256 = div % 16 * 16 := by omega
    have hwrites : ((writes div').map fun w => (w.1, w.2 % 256)) =
        (writes div).map fun w => (w.1, w.2 % 256) := by
      unfold writes
      simp only [List.map_cons, List.map_nil]
      rw [h32, h33, h34, h35, h32, h33, h34, h35, hint div, hint div', hhigh, hlow]
    rw [hbytes div', hbytes div, hwrites]

section

variable {integerMode : Bool} {freq : ℤ}

theorem dividerWord_lt (h : Accepts integerMode freq) : dividerWord integerMode freq < 2 ^ 32 := by
  obtain ⟨-, hrange⟩ := h
  obtain ⟨hlow, hhigh⟩ := not_or.1 hrange
  refine (Nat.floor_lt (by linarith)).2 ?_
  push_cast
  linarith

theorem cl2Enable_of_accepts (h : Accepts integerMode freq) :
    cl2Enable integerMode freq = programming (dividerWord integerMode freq) := if_pos h

/-- **The registers hold the divisor** of an accepted frequency if and only if its last six bits are
zero, and another one has the same registers only if it differs in the bits 5 and 4 alone. -/
theorem lossless_iff (h : Accepts integerMode freq) : Lossless integerMode freq ↔
    64 ∣ dividerWord integerMode freq ∧ ∀ freq', Accepts integerMode freq' →
      Alike (dividerWord integerMode freq') (dividerWord integerMode freq) →
        dividerWord integerMode freq' = dividerWord integerMode freq := by
  have hlt := dividerWord_lt h
  constructor
  · rintro ⟨hrep, hdistinct⟩
    rw [cl2Enable_of_accepts h, reassembled_programming hlt] at hrep
    refine ⟨by omega, fun freq' h' halike => ?_⟩
    by_contra hne
    refine hdistinct freq' h' hne ?_
    rw [cl2Enable_of_accepts h, cl2Enable_of_accepts h']
    exact (programming_inj hlt (dividerWord_lt h')).2 halike
  · rintro ⟨hdvd, halike⟩
    constructor
    · rw [cl2Enable_of_accepts h, reassembled_programming hlt]
      omega
    · intro freq' h' hne heq
      rw [cl2Enable_of_accepts h, cl2Enable_of_accepts h'] at heq
      exact hne (halike freq' h' ((programming_inj hlt (dividerWord_lt h')).1 heq))

end

/-! ## Three frequencies -/

/-- In integer mode the divisors have no fraction, and the registers hold them. -/
theorem lossless_iff_integer : Accepts true 130560000 ∧ Lossless true 130560000 := by
  have haccepts : Accepts true 130560000 := by decide +kernel
  refine ⟨haccepts, (lossless_iff haccepts).2 ⟨by decide +kernel, fun freq' h' halike => ?_⟩⟩
  have hword (freq : ℤ) : 2 ^ 24 ∣ dividerWord true freq := by
    unfold dividerWord divisorF
    dsimp only
    rw [if_pos rfl]
    generalize ⌊(2611200000 / (freq : ℚ) / 2 : ℚ)⌋₊ = n
    have hfloor : ⌊(n : ℚ) * 2 ^ 24 + 1 / 10⌋₊ = n * 2 ^ 24 := by
      rw [Nat.floor_eq_iff (by positivity)]
      push_cast
      constructor <;> linarith
    rw [hfloor]
    exact Nat.dvd_mul_left _ _
  have hown := hword 130560000
  have hother := hword freq'
  obtain ⟨hhigh, -⟩ := halike
  omega

/-- The converter of 2 m to 10 m loses two bits of its divisor, and two frequencies at 1152 MHz have
one programming. -/
theorem not_lossless : (Accepts false 116000000 ∧ ¬ Lossless false 116000000) ∧
    Accepts false 1152000000 ∧ Accepts false 1152000923 ∧
      dividerWord false 1152000000 ≠ dividerWord false 1152000923 ∧
        cl2Enable false 1152000000 = cl2Enable false 1152000923 := by
  have haccepts : Accepts false 116000000 := by decide +kernel
  have hlost : reassembled (cl2Enable false 116000000) ≠ dividerWord false 116000000 := by
    decide +kernel
  exact ⟨⟨haccepts, fun h => hlost h.represents⟩, by decide +kernel, by decide +kernel,
    by decide +kernel, by decide +kernel⟩

end MacHPSDR.Hl2
