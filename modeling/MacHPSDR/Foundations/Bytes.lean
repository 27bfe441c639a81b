import Mathlib

/-!
# Big-endian numbers

`beBytes k n` are the `k` low bytes of `n`, the high byte first, and `beNat` reads such a string
the way a decoder does: shift by eight bits and add the next byte. The two are inverse to each
other (`beNat_beBytes`, `beBytes_beNat`).
-/

namespace MacHPSDR.Bytes

/-- The number that a big-endian byte string spells, after the bytes that spell `acc`. -/
def beNatFrom (acc : ℕ) (bs : List UInt8) : ℕ := bs.foldl (fun n b => n <<< 8 ||| b.toNat) acc

/-- The number that a big-endian byte string spells. -/
def beNat (bs : List UInt8) : ℕ := beNatFrom 0 bs

/-- The low `k` bytes of `n`, high byte first. -/
def beBytes : ℕ → ℕ → List UInt8
  | 0, _ => []
  | k + 1, n => beBytes k (n / 256) ++ [UInt8.ofNat n]

theorem shift_or_byte (n : ℕ) (b : UInt8) : n <<< 8 ||| b.toNat = n * 256 + b.toNat := by
  rw [← Nat.shiftLeft_add_eq_or_of_lt b.toNat_lt, Nat.shiftLeft_eq]

@[simp] theorem length_beBytes (k n : ℕ) : (beBytes k n).length = k := by
  induction k generalizing n with
  | zero => rfl
  | succ k ih => simp [beBytes, ih]

theorem beNat_concat (bs : List UInt8) (b : UInt8) :
    beNat (bs ++ [b]) = beNat bs * 256 + b.toNat := by
  simp [beNat, beNatFrom, shift_or_byte]

/-- The bytes of a number keep its low end. -/
theorem beNat_beBytes_mod (k n : ℕ) : beNat (beBytes k n) = n % 256 ^ k := by
  induction k generalizing n with
  | zero => simp [beBytes, beNat, beNatFrom, Nat.mod_one]
  | succ k ih =>
    have hbyte : (UInt8.ofNat n).toNat = n % 256 := by simp
    rw [beBytes, beNat_concat, ih, hbyte, Nat.pow_succ, Nat.mul_comm (256 ^ k), Nat.mod_mul]
    omega

theorem beNat_beBytes {k n : ℕ} (h : n < 256 ^ k) : beNat (beBytes k n) = n := by
  rw [beNat_beBytes_mod, Nat.mod_eq_of_lt h]

theorem beNat_lt (bs : List UInt8) : beNat bs < 256 ^ bs.length := by
  induction bs using List.reverseRecOn with
  | nil => simp [beNat, beNatFrom]
  | append_singleton bs b ih =>
    have hb := b.toNat_lt
    rw [beNat_concat, List.length_append, List.length_singleton, Nat.pow_succ]
    omega

theorem beBytes_beNat (bs : List UInt8) : beBytes bs.length (beNat bs) = bs := by
  induction bs using List.reverseRecOn with
  | nil => rfl
  | append_singleton bs b ih =>
    have hb := b.toNat_lt
    have hdiv : (beNat bs * 256 + b.toNat) / 256 = beNat bs := by omega
    have hbyte : UInt8.ofNat (beNat bs * 256 + b.toNat) = b := by
      apply UInt8.toNat.inj
      simp
    rw [beNat_concat, List.length_append, List.length_singleton, beBytes, hdiv, ih, hbyte]

theorem beBytes_mod (k n : ℕ) : beBytes k (n % 256 ^ k) = beBytes k n := by
  have h := beBytes_beNat (beBytes k n)
  rwa [length_beBytes, beNat_beBytes_mod] at h

end MacHPSDR.Bytes
