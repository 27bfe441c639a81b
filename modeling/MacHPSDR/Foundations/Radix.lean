import MacHPSDR.Foundations.Bytes

/-!
# Numerals of mixed radix

A code word is often a number whose digits have radixes of their own: `(a * r₁ + b) * r₂ + c`. The
digits come back by division, low digit first (`digits_ofDigits`), and every number below the
product of the radixes is one of digits below their radixes (`ofDigits_digits`).

A number too large for a machine word is kept in bytes, high byte first. It is multiplied and
divided by a small factor in one pass over the bytes (`beNat_mulAdd`, `beNat_divMod`).
-/

namespace MacHPSDR.Radix

open Bytes

/-! ## Digits -/

/-- The number with the digits `ds`, high digit first, each after its radix. -/
def number (ds : List (ℕ × ℕ)) : ℕ := ds.foldl (fun n d => n * d.1 + d.2) 0

/-- The same, low digit first. -/
def ofDigits : List (ℕ × ℕ) → ℕ
  | [] => 0
  | d :: ds => d.2 + d.1 * ofDigits ds

/-- The digits of a number in the radixes `rs`, low digit first. -/
def digits : List ℕ → ℕ → List ℕ
  | [], _ => []
  | r :: rs, n => n % r :: digits rs (n / r)

/-- Every digit is below its radix. -/
def Proper (ds : List (ℕ × ℕ)) : Prop := ∀ d ∈ ds, d.2 < d.1

theorem number_eq (ds : List (ℕ × ℕ)) : number ds = ofDigits ds.reverse := by
  induction ds using List.reverseRecOn with
  | nil => rfl
  | append_singleton ds d ih =>
    rw [number, List.foldl_append, List.reverse_concat, ofDigits, ← ih]
    show number ds * d.1 + d.2 = _
    ring

theorem length_digits (rs : List ℕ) (n : ℕ) : (digits rs n).length = rs.length := by
  induction rs generalizing n with
  | nil => rfl
  | cons r rs ih => rw [digits, List.length_cons, List.length_cons, ih]

/-- **The digits** of a number of proper digits are these digits. -/
theorem digits_ofDigits {ds : List (ℕ × ℕ)} (h : Proper ds) :
    digits (ds.map Prod.fst) (ofDigits ds) = ds.map Prod.snd := by
  induction ds with
  | nil => rfl
  | cons d ds ih =>
    obtain ⟨hd, h⟩ := List.forall_mem_cons.1 h
    rw [List.map_cons, List.map_cons, ofDigits, digits, Nat.add_mul_mod_self_left,
      Nat.mod_eq_of_lt hd, Nat.add_mul_div_left _ _ (Nat.zero_lt_of_lt hd), Nat.div_eq_of_lt hd,
      Nat.zero_add, ih h]

/-- **A number** is the number of its digits, up to the product of the radixes. -/
theorem ofDigits_digits (rs : List ℕ) (n : ℕ) :
    ofDigits (rs.zip (digits rs n)) = n % rs.prod := by
  induction rs generalizing n with
  | nil => simp [digits, ofDigits, Nat.mod_one]
  | cons r rs ih => rw [digits, List.zip_cons_cons, ofDigits, ih, List.prod_cons, Nat.mod_mul]

theorem ofDigits_lt {ds : List (ℕ × ℕ)} (h : Proper ds) : ofDigits ds < (ds.map Prod.fst).prod := by
  induction ds with
  | nil => exact Nat.one_pos
  | cons d ds ih =>
    obtain ⟨hd, h⟩ := List.forall_mem_cons.1 h
    have hds := ih h
    rw [List.map_cons, List.prod_cons, ofDigits]
    calc d.2 + d.1 * ofDigits ds < d.1 + d.1 * ofDigits ds := Nat.add_lt_add_right hd _
      _ = d.1 * (ofDigits ds + 1) := by ring
      _ ≤ d.1 * (ds.map Prod.fst).prod := Nat.mul_le_mul_left _ hds

theorem number_lt {ds : List (ℕ × ℕ)} (h : Proper ds) : number ds < (ds.map Prod.fst).prod := by
  have hproper : Proper ds.reverse := fun d hd => h d (List.mem_reverse.1 hd)
  have hlt := ofDigits_lt hproper
  rwa [← number_eq, List.map_reverse, List.prod_reverse] at hlt

/-- The digits of a number that was put together high digit first. -/
theorem digits_number {ds : List (ℕ × ℕ)} (h : Proper ds) :
    digits (ds.map Prod.fst).reverse (number ds) = (ds.map Prod.snd).reverse := by
  rw [number_eq, ← List.map_reverse, ← List.map_reverse]
  exact digits_ofDigits fun d hd => h d (List.mem_reverse.1 hd)

/-! ## Numbers in bytes -/

/-- The bytes times `m`, plus `c`, from the low byte on: the carry and the bytes. -/
def mulAdd (m : ℕ) (bs : List UInt8) (c : ℕ) : ℕ × List UInt8 :=
  bs.foldr (fun b s => ((b.toNat * m + s.1) / 256, UInt8.ofNat (b.toNat * m + s.1) :: s.2)) (c, [])

/-- The bytes by `m`, from the high byte on, after the rest `rem`: the quotient and the rest. -/
def divMod (m : ℕ) : List UInt8 → ℕ → List UInt8 × ℕ
  | [], rem => ([], rem)
  | b :: bs, rem =>
    let n := rem * 256 + b.toNat
    let s := divMod m bs (n % m)
    (UInt8.ofNat (n / m) :: s.1, s.2)

theorem beNat_cons (b : UInt8) (bs : List UInt8) :
    beNat (b :: bs) = b.toNat * 256 ^ bs.length + beNat bs := by
  induction bs using List.reverseRecOn with
  | nil => simp [beNat, beNatFrom]
  | append_singleton bs c ih =>
    rw [← List.cons_append, beNat_concat, beNat_concat, ih, List.length_append,
      List.length_singleton, Nat.pow_succ]
    ring

theorem beBytes_succ (k n : ℕ) : beBytes (k + 1) n = UInt8.ofNat (n / 256 ^ k) :: beBytes k n := by
  induction k generalizing n with
  | zero => simp [beBytes]
  | succ k ih => rw [beBytes, ih, beBytes, List.cons_append, Nat.div_div_eq_div_mul, Nat.pow_succ']

/-- **Multiplication** by a small factor. -/
theorem mulAdd_eq (m : ℕ) (bs : List UInt8) (c : ℕ) :
    mulAdd m bs c =
      ((beNat bs * m + c) / 256 ^ bs.length, beBytes bs.length (beNat bs * m + c)) := by
  suffices hfold : ∀ out : List UInt8,
      bs.foldr (fun b s => ((b.toNat * m + s.1) / 256, UInt8.ofNat (b.toNat * m + s.1) :: s.2))
        (c, out) = ((beNat bs * m + c) / 256 ^ bs.length,
          beBytes bs.length (beNat bs * m + c) ++ out) by
    rw [mulAdd, hfold, List.append_nil]
  induction bs using List.reverseRecOn generalizing c with
  | nil => intro out; simp [beNat, beNatFrom, beBytes]
  | append_singleton bs b ih =>
    intro out
    have hnumber : beNat (bs ++ [b]) * m + c = beNat bs * m * 256 + (b.toNat * m + c) := by
      rw [beNat_concat]
      ring
    have hcarry : (beNat bs * m * 256 + (b.toNat * m + c)) / 256 =
        beNat bs * m + (b.toNat * m + c) / 256 := by
      omega
    have hbyte : UInt8.ofNat (beNat bs * m * 256 + (b.toNat * m + c)) =
        UInt8.ofNat (b.toNat * m + c) := by
      apply UInt8.toNat.inj
      rw [UInt8.toNat_ofNat', UInt8.toNat_ofNat']
      omega
    rw [List.foldr_append, List.foldr_cons, List.foldr_nil, ih, hnumber, List.length_append,
      List.length_singleton, beBytes, hcarry, hbyte, Nat.pow_succ', ← Nat.div_div_eq_div_mul,
      hcarry, List.append_assoc]
    rfl

/-- **Division** by a small number. -/
theorem divMod_eq {m : ℕ} (bs : List UInt8) {rem : ℕ} (hrem : rem < m) :
    divMod m bs rem = (beBytes bs.length ((rem * 256 ^ bs.length + beNat bs) / m),
      (rem * 256 ^ bs.length + beNat bs) % m) := by
  induction bs generalizing rem with
  | nil => simp [divMod, beBytes, beNat, beNatFrom, Nat.mod_eq_of_lt hrem]
  | cons b bs ih =>
    have hm : 0 < m := Nat.zero_lt_of_lt hrem
    have hlt := beNat_lt bs
    have hpow : 0 < 256 ^ bs.length := Nat.pow_pos (by decide)
    have hnumber : rem * 256 ^ (b :: bs).length + beNat (b :: bs) =
        (rem * 256 + b.toNat) * 256 ^ bs.length + beNat bs := by
      rw [beNat_cons, List.length_cons, Nat.pow_succ]
      ring
    rw [divMod, ih (Nat.mod_lt _ hm), hnumber, List.length_cons, beBytes_succ]
    generalize rem * 256 + b.toNat = n
    have hsplit : n * 256 ^ bs.length + beNat bs =
        m * (n / m * 256 ^ bs.length) + (n % m * 256 ^ bs.length + beNat bs) := by
      conv_lhs => rw [← Nat.div_add_mod n m]
      ring
    have hhigh : (n * 256 ^ bs.length + beNat bs) / m / 256 ^ bs.length = n / m := by
      rw [Nat.div_div_eq_div_mul, Nat.mul_comm m, ← Nat.div_div_eq_div_mul, Nat.mul_comm n,
        Nat.mul_add_div hpow, Nat.div_eq_of_lt hlt, Nat.add_zero]
    have hlow : beBytes bs.length ((n * 256 ^ bs.length + beNat bs) / m) =
        beBytes bs.length ((n % m * 256 ^ bs.length + beNat bs) / m) := by
      rw [← beBytes_mod, hsplit, Nat.mul_add_div hm, Nat.mul_add_mod', beBytes_mod]
    rw [hhigh, hlow, hsplit, Nat.mul_add_mod]

end MacHPSDR.Radix
