import Mathlib

/-!
# Strings of bits in bytes

Programs that write or read a string of bits, the high bit of each byte first, walk it with a mask
and the index of a byte (`Cursor`). `bits` is the string that the bytes hold. A cursor that is at
place `i` of the string stays in step with it (`next_place`), reads bit `i` (`readBit_place`) and
writes bit `i` (`bits_setBit`); `writeBits` writes a string from a place on, over zeros
(`bits_writeBits`), and `readBits` reads one (`readBits_place`).
-/

namespace MacHPSDR.BitString

/-- The bits of a byte, high bit first. -/
def byteBits (b : UInt8) : List Bool := (List.range 8).map b.toBitVec.getMsbD

/-- The bits that the bytes hold. -/
def bits (bs : List UInt8) : List Bool := bs.flatMap byteBits

@[simp] theorem length_byteBits (b : UInt8) : (byteBits b).length = 8 := rfl

@[simp] theorem bits_nil : bits [] = [] := rfl

@[simp] theorem bits_cons (b : UInt8) (bs : List UInt8) : bits (b :: bs) = byteBits b ++ bits bs :=
  List.flatMap_cons

@[simp] theorem bits_append (as bs : List UInt8) : bits (as ++ bs) = bits as ++ bits bs :=
  List.flatMap_append

@[simp] theorem length_bits (bs : List UInt8) : (bits bs).length = 8 * bs.length := by
  induction bs with
  | nil => rfl
  | cons b bs ih => simp [ih]; omega

theorem byteBits_zero : byteBits 0 = List.replicate 8 false := by decide

theorem bits_replicate (n : ℕ) : bits (List.replicate n 0) = List.replicate (8 * n) false := by
  induction n with
  | zero => rfl
  | succ n ih =>
    rw [List.replicate_succ, bits_cons, ih, byteBits_zero, ← List.replicate_add]
    congr 1
    omega

theorem getElem?_byteBits (b : UInt8) {i : ℕ} (hi : i < 8) :
    (byteBits b)[i]? = some (b.toBitVec.getMsbD i) := by
  rw [byteBits, List.getElem?_map, List.getElem?_range hi]
  rfl

theorem byteBits_injective : Function.Injective byteBits := by
  intro a b h
  rw [← UInt8.toBitVec_inj]
  refine BitVec.eq_of_getMsbD_eq fun i hi => ?_
  have hget := congrArg (fun l : List Bool => l[i]?) h
  simp only [getElem?_byteBits _ hi, Option.some.injEq] at hget
  exact hget

theorem bits_injective : Function.Injective bits := by
  intro as bs h
  induction as generalizing bs with
  | nil =>
    cases bs with
    | nil => rfl
    | cons b bs =>
      have hlen := congrArg List.length h
      simp only [length_bits, List.length_nil, List.length_cons] at hlen
      omega
  | cons a as ih =>
    cases bs with
    | nil =>
      have hlen := congrArg List.length h
      simp only [length_bits, List.length_nil, List.length_cons] at hlen
      omega
    | cons b bs =>
      rw [bits_cons, bits_cons] at h
      obtain ⟨hbyte, hrest⟩ := List.append_inj h (by simp)
      rw [byteBits_injective hbyte, ih hrest]

/-- Bit `i` is bit `i % 8` of byte `i / 8`. -/
theorem getElem?_bits (bs : List UInt8) (i : ℕ) :
    (bits bs)[i]? = bs[i / 8]?.map fun b => b.toBitVec.getMsbD (i % 8) := by
  induction bs generalizing i with
  | nil => simp
  | cons b bs ih =>
    rw [bits_cons]
    by_cases hi : i < 8
    · rw [List.getElem?_append_left (by simpa using hi), getElem?_byteBits b hi,
        Nat.div_eq_of_lt hi, Nat.mod_eq_of_lt hi]
      rfl
    · have hdiv : i / 8 = (i - 8) / 8 + 1 := by omega
      have hmod : i % 8 = (i - 8) % 8 := by omega
      rw [List.getElem?_append_right (by simpa using not_lt.1 hi), length_byteBits, ih, hdiv, hmod,
        List.getElem?_cons_succ]

/-! ## Cursors -/

/-- A place in a string of bits, as programs keep it. -/
structure Cursor where
  mask : UInt8
  idx : ℕ

namespace Cursor

/-- `mask >>= 1`, and on to the next byte when the mask is used up. -/
def next (c : Cursor) : Cursor :=
  if c.mask >>> 1 = 0 then ⟨0x80, c.idx + 1⟩ else ⟨c.mask >>> 1, c.idx⟩

/-- The cursor at place `i`. -/
def place (i : ℕ) : Cursor := ⟨0x80 >>> UInt8.ofNat (i % 8), i / 8⟩

/-- What the mask does on its way through a byte. -/
theorem mask_next : ∀ r : Fin 8, ((0x80 : UInt8) >>> UInt8.ofNat r) >>> 1 =
    if r.val = 7 then (0 : UInt8) else 0x80 >>> UInt8.ofNat (r.val + 1) := by
  decide

theorem mask_ne_zero : ∀ r : Fin 8, (0x80 : UInt8) >>> UInt8.ofNat r ≠ 0 := by decide

theorem next_place (i : ℕ) : (place i).next = place (i + 1) := by
  have hmask : (0x80 : UInt8) >>> UInt8.ofNat (i % 8) >>> 1 = _ :=
    mask_next ⟨i % 8, Nat.mod_lt i (by decide)⟩
  unfold next place
  dsimp only at hmask ⊢
  rw [hmask]
  by_cases h : i % 8 = 7
  · have hmod : (i + 1) % 8 = 0 := by omega
    have hdiv : (i + 1) / 8 = i / 8 + 1 := by omega
    rw [if_pos h, if_pos rfl, hmod, hdiv]
    rfl
  · have hmod : (i + 1) % 8 = i % 8 + 1 := by omega
    have hdiv : (i + 1) / 8 = i / 8 := by omega
    have hne : (0x80 : UInt8) >>> UInt8.ofNat (i % 8 + 1) ≠ 0 := mask_ne_zero ⟨i % 8 + 1, by omega⟩
    rw [if_neg h, if_neg hne, hmod, hdiv]

end Cursor

open Cursor

/-- `bytes[idx] & mask` -/
def readBit (bs : List UInt8) (c : Cursor) : Bool := bs.getD c.idx 0 &&& c.mask ≠ 0

/-- `bytes[idx] |= mask` -/
def setBit (bs : List UInt8) (c : Cursor) : List UInt8 := bs.modify c.idx (· ||| c.mask)

theorem mask_bit (r i : Fin 8) :
    ((0x80 : UInt8) >>> UInt8.ofNat r).toBitVec.getMsbD i = decide (r = i) := by
  revert r i
  decide

theorem and_mask (b : UInt8) (r : Fin 8) :
    b &&& (0x80 >>> UInt8.ofNat r) ≠ 0 ↔ b.toBitVec.getMsbD r = true := by
  have hbit (i : Fin 8) : (b &&& (0x80 >>> UInt8.ofNat r)).toBitVec.getMsbD i =
      (b.toBitVec.getMsbD i && decide (r = i)) := by
    rw [UInt8.toBitVec_and, BitVec.getMsbD_and, mask_bit]
  rw [← Bool.not_eq_false, not_iff_not]
  constructor
  · intro hzero
    have hr := hbit r
    rw [hzero, decide_eq_true rfl, Bool.and_true] at hr
    rw [← hr]
    simp
  · intro hr
    rw [← UInt8.toBitVec_inj]
    refine BitVec.eq_of_getMsbD_eq fun i hi => (hbit ⟨i, hi⟩).trans ?_
    by_cases hri : r = ⟨i, hi⟩
    · rw [← hri, hr]
      simp
    · simp [hri]

theorem readBit_place (bs : List UInt8) (i : ℕ) :
    readBit bs (place i) = (bits bs).getD i false := by
  rw [List.getD_eq_getElem?_getD, getElem?_bits, readBit, place, List.getD_eq_getElem?_getD]
  cases bs[i / 8]? with
  | none => simp
  | some b =>
    rw [Option.getD_some, Option.map_some, Option.getD_some]
    rw [Bool.eq_iff_iff, decide_eq_true_iff]
    exact and_mask b ⟨i % 8, Nat.mod_lt i (by decide)⟩

theorem or_mask (b : UInt8) (i j : ℕ) :
    (b ||| (0x80 >>> UInt8.ofNat (i % 8))).toBitVec.getMsbD (j % 8) =
      (b.toBitVec.getMsbD (j % 8) || decide (i % 8 = j % 8)) := by
  have hmask : ((0x80 : UInt8) >>> UInt8.ofNat (i % 8)).toBitVec.getMsbD (j % 8) =
      decide (i % 8 = j % 8) :=
    (mask_bit ⟨i % 8, Nat.mod_lt i (by decide)⟩ ⟨j % 8, Nat.mod_lt j (by decide)⟩).trans
      (decide_eq_decide.2 Fin.mk.inj_iff)
  rw [UInt8.toBitVec_or, BitVec.getMsbD_or, hmask]

theorem bits_setBit (bs : List UInt8) (i : ℕ) :
    bits (setBit bs (place i)) = (bits bs).set i true := by
  refine List.ext_getElem? fun j => ?_
  rw [getElem?_bits, setBit, place, List.getElem?_modify, List.getElem?_set, getElem?_bits]
  dsimp only
  by_cases hbyte : i / 8 = j / 8
  · simp only [hbyte, if_true]
    cases hb : bs[j / 8]? with
    | none =>
      have hlen : bs.length ≤ j / 8 := List.getElem?_eq_none_iff.1 hb
      have hout : ¬ i < (bits bs).length := by
        rw [length_bits]
        omega
      rw [if_neg hout]
      exact (ite_self none).symm
    | some b =>
      obtain ⟨hlen, -⟩ := List.getElem?_eq_some_iff.1 hb
      have hin : i < (bits bs).length := by
        rw [length_bits]
        omega
      rw [if_pos hin]
      refine (congrArg some (or_mask b i j)).trans ?_
      by_cases hij : i = j
      · rw [if_pos hij, hij, decide_eq_true rfl, Bool.or_true]
      · have hmod : i % 8 ≠ j % 8 := by omega
        rw [if_neg hij, decide_eq_false hmod, Bool.or_false]
        rfl
  · have hij : i ≠ j := fun h => hbyte (h ▸ rfl)
    simp [hbyte, hij]

/-! ## Strings from a cursor on -/

/-- The loop that writes a string of bits over zeros. -/
def writeBits : List Bool → List UInt8 → Cursor → List UInt8
  | [], bs, _ => bs
  | b :: x, bs, c => writeBits x (if b then setBit bs c else bs) c.next

/-- **What is written** over zeros is there, and the bits before and after it stay. -/
theorem bits_writeBits (x : List Bool) {bs : List UInt8} {before after : List Bool}
    (h : bits bs = before ++ (List.replicate x.length false ++ after)) :
    bits (writeBits x bs (place before.length)) = before ++ (x ++ after) := by
  induction x generalizing bs before with
  | nil => exact h
  | cons b x ih =>
    have hstep : bits (if b then setBit bs (place before.length) else bs) =
        before ++ [b] ++ (List.replicate x.length false ++ after) := by
      rw [List.length_cons, List.replicate_succ] at h
      cases b with
      | true =>
        rw [if_pos rfl, bits_setBit, h]
        simp
      | false =>
        rw [if_neg Bool.false_ne_true, h]
        simp
    have hnext := ih hstep
    rw [List.length_append, List.length_singleton] at hnext
    rw [writeBits, next_place, hnext]
    simp

/-- The loop that reads the next `n` bits. -/
def readBits (bs : List UInt8) : ℕ → Cursor → List Bool
  | 0, _ => []
  | n + 1, c => readBit bs c :: readBits bs n c.next

theorem readBits_place {bs : List UInt8} {n i : ℕ} (h : i + n ≤ 8 * bs.length) :
    readBits bs n (place i) = ((bits bs).drop i).take n := by
  induction n generalizing i with
  | zero => simp [readBits]
  | succ n ih =>
    have hi : i < (bits bs).length := by
      rw [length_bits]
      omega
    rw [readBits, next_place, ih (by omega), readBit_place, List.drop_eq_getElem_cons hi,
      List.take_succ_cons, List.getD_eq_getElem _ _ hi]

/-- `n` bits in as few bytes as hold them. -/
def packBits (x : List Bool) : List UInt8 :=
  writeBits x (List.replicate ((x.length + 7) / 8) 0) ⟨0x80, 0⟩

theorem bits_packBits (x : List Bool) :
    bits (packBits x) = x ++ List.replicate (8 * ((x.length + 7) / 8) - x.length) false := by
  have hsplit : 8 * ((x.length + 7) / 8) =
      x.length + (8 * ((x.length + 7) / 8) - x.length) := by omega
  have hzero : bits (List.replicate ((x.length + 7) / 8) 0) =
      [] ++ (List.replicate x.length false ++
        List.replicate (8 * ((x.length + 7) / 8) - x.length) false) := by
    rw [bits_replicate, List.nil_append, ← List.replicate_add, ← hsplit]
  exact bits_writeBits x hzero

end MacHPSDR.BitString
