import Mathlib

/-!
# Bit fields

A register is put together by `|||` from values that are shifted to their places. `field` reads one
place back. The rules compute it on each of the parts: a part at the place itself gives its value,
the parts above and below give nothing.
-/

namespace MacHPSDR.BitField

/-- The `width` bits from the bit `off` on. -/
def field (off width x : ℕ) : ℕ := x >>> off % 2 ^ width

/-- Bits that are set on a condition. -/
def flag (b : Bool) (bits : ℕ) : ℕ := if b then bits else 0

variable (off width : ℕ)

theorem field_or (x y : ℕ) :
    field off width (x ||| y) = field off width x ||| field off width y := by
  unfold field
  rw [Nat.shiftRight_or_distrib, Nat.or_mod_two_pow]

@[simp] theorem field_zero : field off width 0 = 0 := by simp [field]

theorem field_flag (b : Bool) (bits : ℕ) :
    field off width (flag b bits) = flag b (field off width bits) := by
  cases b
  · exact field_zero off width
  · rfl

@[simp] theorem flag_zero (b : Bool) : flag b 0 = 0 := by cases b <;> rfl

@[simp] theorem flag_true (bits : ℕ) : flag true bits = bits := rfl

@[simp] theorem flag_false (bits : ℕ) : flag false bits = 0 := rfl

/-- The part at the place itself. -/
theorem field_shiftLeft {width x : ℕ} (hx : x < 2 ^ width) : field off width (x <<< off) = x := by
  unfold field
  rw [Nat.shiftLeft_shiftRight, Nat.mod_eq_of_lt hx]

theorem field_self {width x : ℕ} (hx : x < 2 ^ width) : field 0 width x = x :=
  field_shiftLeft 0 hx

/-- A part below. -/
theorem field_of_lt {off width k x : ℕ} (hx : x < 2 ^ k) (h : k ≤ off) :
    field off width x = 0 := by
  unfold field
  have hlt : x < 2 ^ off := hx.trans_le (Nat.pow_le_pow_right Nat.two_pos h)
  rw [Nat.shiftRight_eq_div_pow, Nat.div_eq_of_lt hlt, Nat.zero_mod]

/-- A part above. -/
theorem field_of_dvd {off width k x : ℕ} (hx : 2 ^ k ∣ x) (h : off + width ≤ k) :
    field off width x = 0 := by
  obtain ⟨y, rfl⟩ := (pow_dvd_pow 2 h).trans hx
  unfold field
  rw [Nat.shiftRight_eq_div_pow, pow_add, Nat.mul_assoc, Nat.mul_div_cancel_left _ (by positivity),
    Nat.mul_mod_right]

theorem field_shiftLeft_of_le {off width k : ℕ} (x : ℕ) (h : off + width ≤ k) :
    field off width (x <<< k) = 0 :=
  field_of_dvd (Nat.shiftLeft_eq .. ▸ Nat.dvd_mul_left ..) h

/-- A register of `n` bits drops what is above it. -/
theorem field_mod {off width n : ℕ} (x : ℕ) (h : off + width ≤ n) :
    field off width (x % 2 ^ n) = field off width x := by
  unfold field
  rw [Nat.shiftRight_eq_div_pow, Nat.shiftRight_eq_div_pow]
  apply Nat.eq_of_testBit_eq
  intro i
  rw [Nat.testBit_mod_two_pow, Nat.testBit_mod_two_pow, Nat.testBit_div_two_pow,
    Nat.testBit_div_two_pow, Nat.testBit_mod_two_pow]
  by_cases hi : i < width
  · have hin : i + off < n := by omega
    simp [hi, hin]
  · simp [hi]

/-- A register of one byte. -/
def byte (x : ℕ) : UInt8 := .ofNat x

theorem field_byte {off width : ℕ} (x : ℕ) (h : off + width ≤ 8) :
    field off width (byte x).toNat = field off width x := by
  unfold byte
  rw [UInt8.toNat_ofNat']
  exact field_mod x h

/-- A register of 32 bits is the four bytes it is cut into. -/
theorem word_bytes {x : ℕ} (hx : x < 2 ^ 32) :
    (byte (x >>> 24 &&& 0xFF)).toNat <<< 24 ||| (byte (x >>> 16 &&& 0xFF)).toNat <<< 16 |||
      (byte (x >>> 8 &&& 0xFF)).toNat <<< 8 ||| (byte (x &&& 0xFF)).toNat = x := by
  have hbyte (y : ℕ) : (byte (y &&& 0xFF)).toNat = y % 2 ^ 8 := by
    have hmask : y &&& 0xFF = y % 2 ^ 8 := Nat.and_two_pow_sub_one_eq_mod y 8
    unfold byte
    rw [hmask, UInt8.toNat_ofNat', Nat.mod_mod]
  have hjoin (y n : ℕ) : (y >>> n) <<< n ||| y % 2 ^ n = y := by
    rw [Nat.shiftLeft_eq, Nat.shiftRight_eq_div_pow, Nat.mul_comm,
      ← Nat.two_pow_add_eq_or_of_lt (Nat.mod_lt y (Nat.two_pow_pos n)), Nat.div_add_mod]
  have hstep (y n : ℕ) : (y >>> 8) <<< (n + 8) ||| (y % 2 ^ 8) <<< n = y <<< n := by
    rw [Nat.add_comm, Nat.shiftLeft_add, ← Nat.shiftLeft_or_distrib, hjoin]
  have htop : x >>> 24 % 2 ^ 8 = x >>> 16 >>> 8 := by
    rw [← Nat.shiftRight_add, Nat.shiftRight_eq_div_pow]
    omega
  have hmid : x >>> 16 = x >>> 8 >>> 8 := by rw [← Nat.shiftRight_add]
  simp only [hbyte]
  rw [htop, hstep (x >>> 16) 16, hmid, hstep (x >>> 8) 8]
  exact hjoin x 8

/-- A bit. -/
theorem flag_one (b : Bool) : flag b 1 = b.toNat := by cases b <;> rfl

end MacHPSDR.BitField
