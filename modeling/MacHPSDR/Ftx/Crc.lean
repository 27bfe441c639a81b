import Mathlib

/-!
# The checksum of FT8 and FT4

The payload of 77 bits gets a checksum of 14 bits, which is computed as if five zero bits came
between the two. A block of 91 bits in 12 bytes has the right checksum if and only if it is what
`ftx_add_crc` makes of its payload (`crcOk_iff`).
-/

namespace MacHPSDR.Ftx

/-- `FT8_CRC_POLYNOMIAL` -/
def crcPolynomial : UInt16 := 0x2757

/-- `TOPBIT` -/
def topBit : UInt16 := 0x2000

/-- The loop of `ftx_compute_crc` over the bits. -/
def crcLoop (message : List UInt8) : ℕ → ℕ → ℕ → UInt16 → UInt16
  | 0, _, _, remainder => remainder
  | n + 1, idxBit, idxByte, remainder =>
    let fed := if idxBit % 8 = 0 then
        (remainder ^^^ ((message.getD idxByte 0).toUInt16 <<< 6), idxByte + 1)
      else (remainder, idxByte)
    let divided := if fed.1 &&& topBit ≠ 0 then (fed.1 <<< 1) ^^^ crcPolynomial else fed.1 <<< 1
    crcLoop message n (idxBit + 1) fed.2 divided

/-- `ftx_compute_crc` -/
def ftxComputeCrc (message : List UInt8) (numBits : ℕ) : UInt16 :=
  crcLoop message numBits 0 0 0 &&& ((topBit <<< 1) - 1)

/-- `ftx_extract_crc` -/
def ftxExtractCrc (a91 : List UInt8) : UInt16 :=
  ((a91.getD 9 0 &&& 0x07).toUInt16 <<< 11) ||| ((a91.getD 10 0).toUInt16 <<< 3) |||
    (a91.getD 11 0 >>> 5).toUInt16

/-- The block with the three bits after the payload and the byte after them cleared. -/
def clearCrc (a91 : List UInt8) : List UInt8 := (a91.modify 9 (· &&& 0xF8)).set 10 0

/-- `ftx_add_crc`; what was in the twelve bytes before does not matter. -/
def ftxAddCrc (payload : List UInt8) : List UInt8 :=
  let a91 := clearCrc (payload ++ [0, 0])
  let checksum := ftxComputeCrc a91 (96 - 14)
  ((a91.modify 9 (· ||| (checksum >>> 11).toUInt8)).set 10 (checksum >>> 3).toUInt8).set 11
    (checksum <<< 5).toUInt8

/-- The test of `ftx_decode_candidate`. -/
def crcOk (a91 : List UInt8) : Bool := ftxExtractCrc a91 == ftxComputeCrc (clearCrc a91) (96 - 14)

/-! ## The fields of a block -/

theorem computeCrc_lt (message : List UInt8) (n : ℕ) :
    (ftxComputeCrc message n).toNat < 2 ^ 14 := by
  have hmask : ((topBit <<< 1) - 1 : UInt16).toNat = 2 ^ 14 - 1 := by decide
  rw [ftxComputeCrc, UInt16.toNat_and, hmask, Nat.and_two_pow_sub_one_eq_mod]
  exact Nat.mod_lt _ (by decide)

/-- The bytes after the last bit do not take part in the checksum. -/
theorem crcLoop_congr {message message' : List UInt8} {n idxBit : ℕ} (remainder : UInt16)
    (h : ∀ i < (idxBit + n + 7) / 8, message.getD i 0 = message'.getD i 0) :
    crcLoop message n idxBit ((idxBit + 7) / 8) remainder =
      crcLoop message' n idxBit ((idxBit + 7) / 8) remainder := by
  induction n generalizing idxBit remainder with
  | zero => rfl
  | succ n ih =>
    have hnext : ∀ i < (idxBit + 1 + n + 7) / 8, message.getD i 0 = message'.getD i 0 := by
      intro i hi
      exact h i (by omega)
    unfold crcLoop
    by_cases hbyte : idxBit % 8 = 0
    · have hidx : (idxBit + 7) / 8 + 1 = (idxBit + 1 + 7) / 8 := by omega
      simp only [hbyte, if_true, hidx, h ((idxBit + 7) / 8) (by omega)]
      exact ih _ hnext
    · have hidx : (idxBit + 7) / 8 = (idxBit + 1 + 7) / 8 := by omega
      simp only [hbyte, if_false, hidx]
      exact ih _ hnext

theorem toNat_and_seven (b : UInt8) : (b &&& 0x07).toNat = b.toNat % 8 := by
  rw [UInt8.toNat_and]
  exact Nat.and_two_pow_sub_one_eq_mod b.toNat 3

/-- The three bits of the checksum beside the payload. -/
theorem low_bits : ∀ c : Fin 8, ∀ b : Fin 256,
    (UInt8.ofNat b &&& 0xF8 ||| UInt8.ofNat c).toNat = b.val / 8 * 8 + c := by decide +kernel

theorem toNat_low_bits (b : UInt8) {c : UInt8} (hc : c.toNat < 8) :
    (b &&& 0xF8 ||| c).toNat = b.toNat / 8 * 8 + c.toNat := by
  have h := low_bits ⟨c.toNat, hc⟩ ⟨b.toNat, b.toNat_lt⟩
  rwa [UInt8.ofNat_toNat, UInt8.ofNat_toNat] at h

/-- The checksum field as a number. -/
theorem toNat_crcField (b₉ b₁₀ b₁₁ : UInt8) :
    ((b₉ &&& 0x07).toUInt16 <<< 11 ||| b₁₀.toUInt16 <<< 3 ||| (b₁₁ >>> 5).toUInt16).toNat =
      b₉.toNat % 8 * 2048 + b₁₀.toNat * 8 + b₁₁.toNat / 32 := by
  have hb₁₀ := b₁₀.toNat_lt
  have hb₁₁ := b₁₁.toNat_lt
  have hhigh : (b₉.toNat % 8) <<< 11 % 2 ^ 16 = (b₉.toNat % 8) <<< 11 := by
    rw [Nat.shiftLeft_eq]
    omega
  have hmiddle : b₁₀.toNat <<< 3 % 2 ^ 16 = b₁₀.toNat <<< 3 := by
    rw [Nat.shiftLeft_eq]
    omega
  have hlow : b₁₁.toNat >>> 5 = b₁₁.toNat / 32 := Nat.shiftRight_eq_div_pow _ 5
  have h11 : UInt16.toNat 11 % 16 = 11 := rfl
  have h3 : UInt16.toNat 3 % 16 = 3 := rfl
  have h5 : UInt8.toNat 5 % 8 = 5 := rfl
  simp only [UInt16.toNat_or, UInt16.toNat_shiftLeft, UInt8.toNat_toUInt16, toNat_and_seven,
    UInt8.toNat_shiftRight, h11, h3, h5, hhigh, hmiddle, hlow]
  have hinner : b₁₀.toNat <<< 3 ||| b₁₁.toNat / 32 = b₁₀.toNat <<< 3 + b₁₁.toNat / 32 :=
    (Nat.shiftLeft_add_eq_or_of_lt (by omega) _).symm
  have hinner_lt : b₁₀.toNat <<< 3 + b₁₁.toNat / 32 < 2 ^ 11 := by
    rw [Nat.shiftLeft_eq]
    omega
  rw [Nat.or_assoc, hinner, ← Nat.shiftLeft_add_eq_or_of_lt hinner_lt, Nat.shiftLeft_eq,
    Nat.shiftLeft_eq]
  omega

/-- **The checksum** is right if and only if adding it to the payload gives the block back. -/
theorem crcOk_iff {a91 : List UInt8} (hlen : a91.length = 12) (hpad : a91.getD 11 0 &&& 0x1F = 0) :
    crcOk a91 = true ↔ ftxAddCrc ((clearCrc a91).take 10) = a91 := by
  match a91, hlen, hpad with
  | [a₀, a₁, a₂, a₃, a₄, a₅, a₆, a₇, a₈, b₉, b₁₀, b₁₁], _, hpad =>
    have hidem : b₉ &&& 0xF8 &&& 0xF8 = b₉ &&& 0xF8 := by
      rw [UInt8.and_assoc]
      rfl
    have hbytes : ∀ i < (0 + 82 + 7) / 8,
        [a₀, a₁, a₂, a₃, a₄, a₅, a₆, a₇, a₈, b₉ &&& 0xF8, 0, 0].getD i 0 =
          [a₀, a₁, a₂, a₃, a₄, a₅, a₆, a₇, a₈, b₉ &&& 0xF8, 0, b₁₁].getD i 0 := by
      intro i hi
      have hi' : i < 11 := hi
      interval_cases i <;> rfl
    have hcrc : ftxComputeCrc [a₀, a₁, a₂, a₃, a₄, a₅, a₆, a₇, a₈, b₉ &&& 0xF8, 0, 0] 82 =
        ftxComputeCrc [a₀, a₁, a₂, a₃, a₄, a₅, a₆, a₇, a₈, b₉ &&& 0xF8, 0, b₁₁] 82 :=
      congrArg (· &&& ((topBit <<< 1) - 1)) (crcLoop_congr 0 hbytes)
    have hadd : ftxAddCrc ((clearCrc
        [a₀, a₁, a₂, a₃, a₄, a₅, a₆, a₇, a₈, b₉, b₁₀, b₁₁]).take 10) =
        (fun c : UInt16 => [a₀, a₁, a₂, a₃, a₄, a₅, a₆, a₇, a₈,
          b₉ &&& (0xF8 : UInt8) ||| (c >>> 11).toUInt8, (c >>> 3).toUInt8, (c <<< 5).toUInt8])
          (ftxComputeCrc [a₀, a₁, a₂, a₃, a₄, a₅, a₆, a₇, a₈, b₉ &&& 0xF8, 0, b₁₁] 82) := by
      rw [← hcrc]
      conv_rhs => rw [← hidem]
      rfl
    have hok : crcOk [a₀, a₁, a₂, a₃, a₄, a₅, a₆, a₇, a₈, b₉, b₁₀, b₁₁] = true ↔
        b₉.toNat % 8 * 2048 + b₁₀.toNat * 8 + b₁₁.toNat / 32 =
          (ftxComputeCrc [a₀, a₁, a₂, a₃, a₄, a₅, a₆, a₇, a₈, b₉ &&& 0xF8, 0, b₁₁] 82).toNat := by
      rw [← toNat_crcField, UInt16.toNat_inj]
      exact beq_iff_eq
    rw [hok, hadd]
    have hlt := computeCrc_lt [a₀, a₁, a₂, a₃, a₄, a₅, a₆, a₇, a₈, b₉ &&& 0xF8, 0, b₁₁] 82
    generalize ftxComputeCrc [a₀, a₁, a₂, a₃, a₄, a₅, a₆, a₇, a₈, b₉ &&& 0xF8, 0, b₁₁] 82 = c
      at hlt ⊢
    have hb₁₀ := b₁₀.toNat_lt
    have hb₁₁ := b₁₁.toNat_lt
    have hhigh : (c >>> 11).toUInt8.toNat = c.toNat / 2048 := by
      have h11 : UInt16.toNat 11 % 16 = 11 := rfl
      rw [UInt16.toNat_toUInt8, UInt16.toNat_shiftRight, h11, Nat.shiftRight_eq_div_pow]
      omega
    have hmiddle : (c >>> 3).toUInt8.toNat = c.toNat / 8 % 256 := by
      rw [UInt16.toNat_toUInt8, UInt16.toNat_shiftRight]
      exact congrArg (· % 256) (Nat.shiftRight_eq_div_pow c.toNat 3)
    have hlow : (c <<< 5).toUInt8.toNat = c.toNat * 32 % 256 := by
      have h5 : UInt16.toNat 5 % 16 = 5 := rfl
      rw [UInt16.toNat_toUInt8, UInt16.toNat_shiftLeft, h5, Nat.shiftLeft_eq]
      omega
    have hpad' : b₁₁.toNat % 32 = 0 :=
      (Nat.and_two_pow_sub_one_eq_mod b₁₁.toNat 5).symm.trans (congrArg UInt8.toNat hpad)
    simp only [List.cons.injEq, true_and, and_true, ← UInt8.toNat_inj]
    rw [toNat_low_bits b₉ (hhigh ▸ by omega), hhigh, hmiddle, hlow]
    omega

/-! ## Blocks with a checksum -/

theorem length_clearCrc (a91 : List UInt8) : (clearCrc a91).length = a91.length := by
  simp [clearCrc]

theorem length_addCrc {payload : List UInt8} (h : payload.length = 10) :
    (ftxAddCrc payload).length = 12 := by
  simp [ftxAddCrc, clearCrc, h]

/-- What follows the checksum is zero. -/
theorem addCrc_pad {payload : List UInt8} (h : payload.length = 10) :
    (ftxAddCrc payload).getD 11 0 &&& 0x1F = 0 := by
  have hlast (bs : List UInt8) (hbs : bs.length = 12) (c : UInt16) :
      (bs.set 11 (c <<< 5).toUInt8).getD 11 0 &&& 0x1F = 0 := by
    have hget : (bs.set 11 (c <<< 5).toUInt8).getD 11 0 = (c <<< 5).toUInt8 := by
      rw [List.getD_eq_getElem?_getD, List.getElem?_set_self (by omega), Option.getD_some]
    have h5 : UInt16.toNat 5 % 16 = 5 := rfl
    rw [hget, ← UInt8.toNat_inj, UInt8.toNat_and, UInt16.toNat_toUInt8, UInt16.toNat_shiftLeft, h5,
      Nat.shiftLeft_eq]
    refine (Nat.and_two_pow_sub_one_eq_mod _ 5).trans ?_
    show _ = 0
    omega
  refine hlast _ ?_ _
  simp [clearCrc, h]

/-- The checksum beside the payload is cleared without a trace. -/
theorem clear_low_bits : ∀ c : Fin 8, ∀ b : Fin 256, UInt8.ofNat b &&& 0x07 = 0 →
    (UInt8.ofNat b &&& 0xF8 ||| UInt8.ofNat c) &&& 0xF8 = UInt8.ofNat b := by decide +kernel

/-- The payload of a block with a checksum. -/
theorem take_clearCrc_addCrc {payload : List UInt8} (h : payload.length = 10)
    (hzero : payload.getD 9 0 &&& 0x07 = 0) :
    (clearCrc (ftxAddCrc payload)).take 10 = payload := by
  match payload, h, hzero with
  | [a₀, a₁, a₂, a₃, a₄, a₅, a₆, a₇, a₈, b₉], _, hzero =>
    have hclear (c : UInt8) (hc : c.toNat < 8) : (b₉ &&& 0xF8 ||| c) &&& 0xF8 = b₉ := by
      have hbits := clear_low_bits ⟨c.toNat, hc⟩ ⟨b₉.toNat, b₉.toNat_lt⟩
      rw [UInt8.ofNat_toNat, UInt8.ofNat_toNat] at hbits
      exact hbits hzero
    have hcrc := computeCrc_lt (clearCrc [a₀, a₁, a₂, a₃, a₄, a₅, a₆, a₇, a₈, b₉, 0, 0]) 82
    have hhigh : (ftxComputeCrc (clearCrc [a₀, a₁, a₂, a₃, a₄, a₅, a₆, a₇, a₈, b₉, 0, 0])
        82 >>> 11).toUInt8.toNat < 8 := by
      have h11 : UInt16.toNat 11 % 16 = 11 := rfl
      rw [UInt16.toNat_toUInt8, UInt16.toNat_shiftRight, h11, Nat.shiftRight_eq_div_pow]
      omega
    exact congrArg (fun b => [a₀, a₁, a₂, a₃, a₄, a₅, a₆, a₇, a₈, b]) (hclear _ hhigh)

theorem clearCrc_unused {a91 : List UInt8} (h : a91.length = 12) :
    ((clearCrc a91).take 10).length = 10 ∧ ((clearCrc a91).take 10).getD 9 0 &&& 0x07 = 0 := by
  match a91, h with
  | [a₀, a₁, a₂, a₃, a₄, a₅, a₆, a₇, a₈, b₉, b₁₀, b₁₁], _ =>
    refine ⟨rfl, ?_⟩
    show b₉ &&& 0xF8 &&& 0x07 = 0
    rw [UInt8.and_assoc]
    exact UInt8.and_zero

end MacHPSDR.Ftx
