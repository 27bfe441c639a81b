import MacHPSDR.Foundations.ShiftRegister
import MacHPSDR.Hfdl.Crc
import Mathlib

/-!
# The repair of an ACARS block

The bytes of a block have odd parity, and its checksum leaves zero. `repair` tries the bits of the
one byte that fails the parity, or those of the checksum, until the checksum leaves zero.

The table of `crc16_ccitt` is eight shifts of a register with feedback (`crc16Ccitt_eq`), so it is
known what each flipped bit leaves. `repair_right`: a flipped bit is always put right, and with two
flipped bits no other text is ever taken for good.
-/

namespace MacHPSDR.Acars

open ShiftRegister Hfdl

/-! ## Blocks -/

/-- `txt` and `crc` -/
structure Block where
  txt : List UInt8
  crc : List UInt8
deriving DecidableEq

/-- `block_crc` -/
def Block.blockCrc (k : Block) : UInt16 := crc16Ccitt k.crc (crc16Ccitt k.txt 0)

/-- `parity_bad` -/
def parityBad (b : UInt8) : Bool := b.toBitVec.cpop.toNat % 2 = 0

/-- A byte with one of its bits flipped. -/
def flipByte (b : ℕ) (x : UInt8) : UInt8 := x ^^^ (1 <<< UInt8.ofNat b)

def flipTxt (k : Block) (i b : ℕ) : Block := { k with txt := k.txt.modify i (flipByte b) }

def flipCrc (k : Block) (i b : ℕ) : Block := { k with crc := k.crc.modify i (flipByte b) }

/-- The bytes that fail the parity. -/
def badBytes (txt : List UInt8) : List ℕ :=
  (List.range txt.length).filter fun i => parityBad (txt.getD i 0)

/-- The result of `repair`: the block that it leaves, what it returns, and `corrected`. -/
structure Repaired where
  block : Block
  ok : Bool
  corrected : Bool
deriving DecidableEq

/-- `repair` -/
def repair (k : Block) : Repaired :=
  if k.blockCrc = 0 then ⟨k, true, false⟩
  else
    match badBytes k.txt with
    | [bad] =>
      match (List.range 8).find? fun b => (flipTxt k bad b).blockCrc = 0 with
      | some b => ⟨flipTxt k bad b, true, true⟩
      | none => ⟨k, false, false⟩
    | _ :: _ :: _ => ⟨k, false, false⟩
    | [] =>
      match ((List.range 2).product (List.range 8)).find? fun p =>
        (flipCrc k p.1 p.2).blockCrc = 0 with
      | some p => ⟨flipCrc k p.1 p.2, true, true⟩
      | none => ⟨k, false, false⟩

/-! ## Valid blocks -/

/-- A block as it is sent. -/
structure ValidBlock where
  block : Block
  length_crc : block.crc.length = 2
  long : 13 ≤ block.txt.length
  short : block.txt.length ≤ 250
  odd : ∀ x ∈ block.txt, parityBad x = false
  check : block.blockCrc = 0

/-- A bit of a block: of its text or of its checksum. -/
abbrev ValidBlock.Bit (v : ValidBlock) := (Fin v.block.txt.length ⊕ Fin 2) × Fin 8

/-- Flip a bit. -/
def ValidBlock.flip (v : ValidBlock) (p : v.Bit) (k : Block) : Block :=
  match p.1 with
  | .inl i => flipTxt k i p.2
  | .inr i => flipCrc k i p.2

/-! ## The checksum -/

/-- The polynomial, with its low bit first. -/
def crcPoly : BitVec 16 := 0x8408#16

/-- The table is eight shifts of each byte. -/
theorem crctable_eq (n : Fin 256) :
    (crctable.getD n 0).toBitVec = (shift crcPoly)^[8] (BitVec.ofNat 16 n) := by
  decide +kernel +revert

/-- Eight shifts: those of the low byte, and the rest is moved. -/
theorem shift_eight (x : BitVec 16) :
    (shift crcPoly)^[8] x = (x >>> 8) ^^^ (shift crcPoly)^[8] (x &&& 255#16) := by
  have hlow : ∀ i < 8, (x &&& 65280#16).getLsbD i = false := by
    intro i hi
    rw [BitVec.getLsbD_and]
    interval_cases i <;> simp
  have hhigh : (x &&& 65280#16) >>> 8 = x >>> 8 := by
    ext i hi
    simp only [BitVec.getElem_ushiftRight, BitVec.getLsbD_and]
    interval_cases i <;> simp
  have hsplit : x = (x &&& 65280#16) ^^^ (x &&& 255#16) := by
    ext i hi
    simp only [BitVec.getElem_xor, BitVec.getElem_and]
    interval_cases i <;> simp
  conv_lhs => rw [hsplit]
  rw [iterate_xor, iterate_of_low _ hlow, hhigh]

theorem crcStep_eq (crc : UInt16) (b : UInt8) :
    ((crc >>> 8) ^^^ crctable.getD ((crc ^^^ b.toUInt16) &&& 0xff).toNat 0).toBitVec =
      feed crcPoly crc.toBitVec b.toBitVec := by
  set i := (crc ^^^ b.toUInt16) &&& 0xff with hi
  have hbits : i.toBitVec = (crc.toBitVec ^^^ b.toBitVec.setWidth 16) &&& 255#16 := by
    rw [hi, UInt16.toBitVec_and, UInt16.toBitVec_xor]
    rfl
  have hlt : i.toNat < 256 := by
    rw [hi, UInt16.toNat_and]
    exact Nat.lt_of_le_of_lt Nat.and_le_right (by decide)
  have htable := crctable_eq ⟨i.toNat, hlt⟩
  have hbyte : (b.toBitVec.setWidth 16) >>> 8 = 0#16 := by
    ext j hj
    rw [BitVec.getElem_ushiftRight, BitVec.getLsbD_setWidth,
      BitVec.getLsbD_of_ge b.toBitVec (8 + j) (by omega)]
    simp
  have hof : BitVec.ofNat 16 i.toNat = i.toBitVec := by
    show BitVec.ofNat 16 i.toBitVec.toNat = _
    rw [BitVec.ofNat_toNat, BitVec.setWidth_eq]
  dsimp only at htable
  unfold feed
  rw [UInt16.toBitVec_xor, htable, hof, hbits, shift_eight (_ ^^^ _),
    BitVec.ushiftRight_xor_distrib, hbyte, BitVec.xor_zero]
  rfl

/-- `crc16_ccitt` is the remainder in the register. -/
theorem crc16Ccitt_eq (data : List UInt8) (crc : UInt16) :
    (crc16Ccitt data crc).toBitVec = run crcPoly crc.toBitVec (data.map UInt8.toBitVec) := by
  induction data generalizing crc with
  | nil => rfl
  | cons b data ih =>
    rw [List.map_cons, run_cons, ← crcStep_eq, ← ih]
    rfl

/-- What the checksum of a block leaves. -/
def Block.residue (k : Block) : BitVec 16 := k.blockCrc.toBitVec

theorem blockCrc_eq_zero_iff (k : Block) : k.blockCrc = 0 ↔ k.residue = 0#16 :=
  UInt16.toBitVec_inj.symm

theorem residue_eq (k : Block) :
    k.residue = run crcPoly 0#16 ((k.txt ++ k.crc).map UInt8.toBitVec) := by
  unfold Block.residue Block.blockCrc
  rw [crc16Ccitt_eq, crc16Ccitt_eq, List.map_append]
  exact (List.foldl_append ..).symm

/-! ## A flipped bit -/

theorem flipByte_toBitVec {b : ℕ} (hb : b < 8) (x : UInt8) :
    (flipByte b x).toBitVec = x.toBitVec ^^^ BitVec.twoPow 8 b := by
  have hbit : ∀ b : Fin 8, ((1 : UInt8) <<< UInt8.ofNat b).toBitVec = BitVec.twoPow 8 b := by
    decide +kernel
  unfold flipByte
  rw [UInt8.toBitVec_xor, hbit ⟨b, hb⟩]

@[simp] theorem flipByte_flipByte (b : ℕ) (x : UInt8) : flipByte b (flipByte b x) = x := by
  unfold flipByte
  rw [UInt8.xor_assoc, UInt8.xor_self, UInt8.xor_zero]

theorem map_modify_flipByte {bs : List UInt8} {i b : ℕ} (hb : b < 8) :
    (bs.modify i (flipByte b)).map UInt8.toBitVec =
      ShiftRegister.flip (bs.map UInt8.toBitVec) i b := by
  induction bs generalizing i with
  | nil => cases i <;> rfl
  | cons x bs ih =>
    cases i with
    | zero =>
      show (flipByte b x).toBitVec :: _ = _
      rw [flipByte_toBitVec hb]
      rfl
    | succ i =>
      show x.toBitVec :: (bs.modify i (flipByte b)).map UInt8.toBitVec = _
      rw [ih]
      rfl

theorem modify_append_left {α : Type*} (f : α → α) {l : List α} {i : ℕ} (hi : i < l.length)
    (l' : List α) : (l ++ l').modify i f = l.modify i f ++ l' := by
  induction l generalizing i with
  | nil => exact absurd hi (Nat.not_lt_zero i)
  | cons x l ih =>
    cases i with
    | zero => rfl
    | succ i =>
      rw [List.cons_append, List.modify_succ_cons, List.modify_succ_cons,
        ih (Nat.lt_of_succ_lt_succ hi), List.cons_append]

theorem modify_append_right {α : Type*} (f : α → α) (l l' : List α) (i : ℕ) :
    (l ++ l').modify (l.length + i) f = l ++ l'.modify i f := by
  induction l with
  | nil => rw [List.length_nil, Nat.zero_add]; rfl
  | cons x l ih =>
    rw [List.length_cons, Nat.add_right_comm, List.cons_append, List.modify_succ_cons, ih]
    rfl

/-- A flipped bit of the text. -/
theorem residue_flipTxt {k : Block} {i b : ℕ} (hi : i < k.txt.length) (hb : b < 8) :
    (flipTxt k i b).residue =
      k.residue ^^^ flipped crcPoly (8 * (k.txt.length + k.crc.length - i) - b) := by
  have hlen : i < ((k.txt ++ k.crc).map UInt8.toBitVec).length := by
    rw [List.length_map, List.length_append]
    omega
  have happ : (flipTxt k i b).txt ++ (flipTxt k i b).crc =
      (k.txt ++ k.crc).modify i (flipByte b) := (modify_append_left _ hi _).symm
  rw [residue_eq, residue_eq, happ, map_modify_flipByte hb, run_flip crcPoly (by decide) _ hlen hb,
    List.length_map, List.length_append]

/-- A flipped bit of the checksum. -/
theorem residue_flipCrc {k : Block} {i b : ℕ} (hi : i < k.crc.length) (hb : b < 8) :
    (flipCrc k i b).residue = k.residue ^^^ flipped crcPoly (8 * (k.crc.length - i) - b) := by
  have hlen : k.txt.length + i < ((k.txt ++ k.crc).map UInt8.toBitVec).length := by
    rw [List.length_map, List.length_append]
    omega
  have happ : (flipCrc k i b).txt ++ (flipCrc k i b).crc =
      (k.txt ++ k.crc).modify (k.txt.length + i) (flipByte b) := by
    rw [modify_append_right]
    rfl
  rw [residue_eq, residue_eq, happ, map_modify_flipByte hb, run_flip crcPoly (by decide) _ hlen hb,
    List.length_map, List.length_append]
  congr 2
  omega

/-! ## Places -/

theorem crcPoly_msb : crcPoly.msb = true := by decide

theorem crcPoly_parity : parity crcPoly = 1 := by decide +kernel

/-- The register after some shifts comes back to one nowhere. -/
def neverOne : ℕ → BitVec 16 → Bool
  | 0, _ => true
  | n + 1, c => c ≠ 1#16 && neverOne n (shift crcPoly c)

theorem iterate_ne_one {n : ℕ} {c : BitVec 16} (h : neverOne n c = true) :
    ∀ k < n, (shift crcPoly)^[k] c ≠ 1#16 := by
  induction n generalizing c with
  | zero => exact fun k hk => absurd hk (Nat.not_lt_zero k)
  | succ n ih =>
    intro k hk
    unfold neverOne at h
    rw [Bool.and_eq_true, decide_eq_true_eq] at h
    cases k with
    | zero => exact h.1
    | succ k => exact ih h.2 k (by omega)

/-- The register does not come back to one over a block. -/
theorem crcPoly_period : ∀ k, 0 < k → k < 2017 → flipped crcPoly k ≠ 1#16 := by
  have h : neverOne 2016 (shift crcPoly 1#16) = true := by decide +kernel
  intro k hpos hk
  obtain ⟨k, rfl⟩ : ∃ j, k = j + 1 := ⟨k - 1, by omega⟩
  exact iterate_ne_one h k (by omega)

namespace ValidBlock

variable (v : ValidBlock)

/-- The number of shifts that a bit takes part in. -/
def place (p : v.Bit) : ℕ :=
  match p.1 with
  | .inl i => 8 * (v.block.txt.length + 2 - i) - p.2
  | .inr i => 8 * (2 - i) - p.2

theorem place_lt (p : v.Bit) : v.place p < 2017 := by
  obtain ⟨i | i, b⟩ := p
  · have := v.short
    show 8 * (v.block.txt.length + 2 - i) - b < 2017
    omega
  · show 8 * (2 - i.val) - b < 2017
    omega

theorem place_injective : Function.Injective v.place := by
  rintro ⟨i | i, b⟩ ⟨j | j, c⟩ h
  · have h : 8 * (v.block.txt.length + 2 - i) - b.val =
        8 * (v.block.txt.length + 2 - j) - c.val := h
    obtain rfl : i = j := Fin.ext (by omega)
    obtain rfl : b = c := Fin.ext (by omega)
    rfl
  · have h : 8 * (v.block.txt.length + 2 - i) - b.val = 8 * (2 - j.val) - c.val := h
    omega
  · have h : 8 * (2 - i.val) - b.val = 8 * (v.block.txt.length + 2 - j) - c.val := h
    omega
  · have h : 8 * (2 - i.val) - b.val = 8 * (2 - j.val) - c.val := h
    obtain rfl : i = j := Fin.ext (by omega)
    obtain rfl : b = c := Fin.ext (by omega)
    rfl

/-- A block of the size of a valid one. -/
structure Sized (k : Block) : Prop where
  txt : k.txt.length = v.block.txt.length
  crc : k.crc.length = 2

theorem sized : v.Sized v.block := ⟨rfl, v.length_crc⟩

variable {v}

theorem Sized.flip {k : Block} (h : v.Sized k) (p : v.Bit) : v.Sized (v.flip p k) := by
  obtain ⟨i | i, b⟩ := p
  · exact ⟨(List.length_modify ..).trans h.txt, h.crc⟩
  · exact ⟨h.txt, (List.length_modify ..).trans h.crc⟩

/-- **A flipped bit** changes what is left by its place. -/
theorem Sized.residue_flip {k : Block} (h : v.Sized k) (p : v.Bit) :
    (v.flip p k).residue = k.residue ^^^ flipped crcPoly (v.place p) := by
  obtain ⟨i | i, b⟩ := p
  · have hi : i.val < k.txt.length := by rw [h.txt]; exact i.isLt
    show (flipTxt k i b).residue = _
    rw [residue_flipTxt hi b.isLt, h.txt, h.crc]
    rfl
  · have hi : i.val < k.crc.length := by rw [h.crc]; exact i.isLt
    show (flipCrc k i b).residue = _
    rw [residue_flipCrc hi b.isLt, h.crc]
    rfl

theorem residue_block : v.block.residue = 0#16 := (blockCrc_eq_zero_iff _).1 v.check

theorem residue_one (p : v.Bit) : (v.flip p v.block).residue = flipped crcPoly (v.place p) := by
  rw [v.sized.residue_flip, residue_block, BitVec.zero_xor]

/-- One flipped bit is seen. -/
theorem blockCrc_one (p : v.Bit) : (v.flip p v.block).blockCrc ≠ 0 := by
  rw [Ne, blockCrc_eq_zero_iff, residue_one]
  exact flipped_ne_zero crcPoly_msb _

/-- Two flipped bits are seen, unless they are one. -/
theorem blockCrc_two_iff (p q : v.Bit) : (v.flip q (v.flip p v.block)).blockCrc = 0 ↔ q = p := by
  rw [blockCrc_eq_zero_iff, (v.sized.flip p).residue_flip, residue_one, BitVec.xor_eq_zero_iff]
  constructor
  · intro h
    refine v.place_injective (Eq.symm ?_)
    exact flipped_injective crcPoly_msb crcPoly_period (v.place_lt p) (v.place_lt q) h
  · rintro rfl
    rfl

/-- Three flipped bits are seen. -/
theorem blockCrc_three (p q r : v.Bit) :
    (v.flip r (v.flip q (v.flip p v.block))).blockCrc ≠ 0 := by
  rw [Ne, blockCrc_eq_zero_iff, ((v.sized.flip p).flip q).residue_flip,
    (v.sized.flip p).residue_flip, residue_one]
  exact flipped_xor_xor_ne_zero (by decide) crcPoly_parity _ _ _

end ValidBlock

/-! ## The parity of the bytes -/

theorem parityBad_flipByte {b : ℕ} (hb : b < 8) (x : UInt8) :
    parityBad (flipByte b x) = !parityBad x := by
  have h : ∀ (n : Fin 256) (b : Fin 8),
      parityBad (flipByte b (.ofNat n)) = !parityBad (.ofNat n) := by
    decide +kernel
  have hx := h ⟨x.toNat, x.toNat_lt⟩ ⟨b, hb⟩
  dsimp only at hx
  rwa [UInt8.ofNat_toNat] at hx

/-- No byte fails the parity. -/
theorem badBytes_eq_nil {txt : List UInt8} (h : ∀ x ∈ txt, parityBad x = false) :
    badBytes txt = [] := by
  refine List.filter_eq_nil_iff.2 fun j hj => ?_
  rw [List.mem_range] at hj
  rw [List.getD_eq_getElem _ _ hj, h _ (List.getElem_mem hj)]
  exact Bool.false_ne_true

/-- The byte with the flipped bit fails the parity. -/
theorem badBytes_flip {txt : List UInt8} (h : ∀ x ∈ txt, parityBad x = false) {i b : ℕ}
    (hi : i < txt.length) (hb : b < 8) : badBytes (txt.modify i (flipByte b)) = [i] := by
  have hbad : ∀ j ∈ List.range txt.length,
      parityBad ((txt.modify i (flipByte b)).getD j 0) = (j == i) := by
    intro j hj
    rw [List.mem_range] at hj
    rw [List.getD_eq_getElem _ _ (by rw [List.length_modify]; exact hj), List.getElem_modify]
    by_cases hji : i = j
    · rw [if_pos hji, parityBad_flipByte hb, h _ (List.getElem_mem hj), hji, beq_self_eq_true]
      rfl
    · rw [if_neg hji, h _ (List.getElem_mem hj), beq_eq_false_iff_ne.2 (Ne.symm hji)]
  unfold badBytes
  rw [List.length_modify, List.filter_congr hbad, List.filter_beq,
    List.count_eq_one_of_mem List.nodup_range (List.mem_range.2 hi)]
  rfl

/-! ## The repair -/

theorem find?_unique {α : Type*} {l : List α} {p : α → Bool} {a : α} (ha : a ∈ l)
    (h : ∀ x ∈ l, p x = true ↔ x = a) : l.find? p = some a := by
  cases hf : l.find? p with
  | none => exact absurd ((h a ha).2 rfl) (by simpa using List.find?_eq_none.1 hf a ha)
  | some x => rw [(h x (List.mem_of_find?_eq_some hf)).1 (List.find?_some hf)]

@[simp] theorem flipTxt_flipTxt (k : Block) (i b : ℕ) : flipTxt (flipTxt k i b) i b = k := by
  unfold flipTxt
  dsimp only
  rw [List.modify_modify_eq]
  have hid : flipByte b ∘ flipByte b = id := funext (flipByte_flipByte b)
  rw [hid, List.modify_id]

@[simp] theorem flipCrc_flipCrc (k : Block) (i b : ℕ) : flipCrc (flipCrc k i b) i b = k := by
  unfold flipCrc
  dsimp only
  rw [List.modify_modify_eq]
  have hid : flipByte b ∘ flipByte b = id := funext (flipByte_flipByte b)
  rw [hid, List.modify_id]

/-- A block that is whole is left as it is. -/
theorem repair_of_check {k : Block} (h : k.blockCrc = 0) : repair k = ⟨k, true, false⟩ := if_pos h

/-- **A flipped bit is put right.** -/
theorem repair_flip (v : ValidBlock) (p : v.Bit) :
    repair (v.flip p v.block) = ⟨v.block, true, true⟩ := by
  unfold repair
  rw [if_neg (ValidBlock.blockCrc_one p)]
  obtain ⟨i | i, b⟩ := p
  · have hbad : badBytes (v.flip (.inl i, b) v.block).txt = [i.val] :=
      badBytes_flip v.odd i.isLt b.isLt
    have hfind : (List.range 8).find? (fun c =>
        (flipTxt (v.flip (.inl i, b) v.block) i c).blockCrc = 0) = some b.val := by
      refine find?_unique (List.mem_range.2 b.isLt) fun c hc => ?_
      rw [List.mem_range] at hc
      rw [decide_eq_true_eq]
      refine (ValidBlock.blockCrc_two_iff (.inl i, b) (.inl i, ⟨c, hc⟩)).trans ?_
      simp [Fin.ext_iff]
    rw [hbad]
    dsimp only
    rw [hfind]
    dsimp only
    rw [show flipTxt (v.flip (.inl i, b) v.block) i b = v.block from flipTxt_flipTxt _ _ _]
  · have hbad : badBytes (v.flip (.inr i, b) v.block).txt = [] := badBytes_eq_nil v.odd
    have hfind : ((List.range 2).product (List.range 8)).find? (fun c =>
        (flipCrc (v.flip (.inr i, b) v.block) c.1 c.2).blockCrc = 0) = some (i.val, b.val) := by
      refine find?_unique ?_ fun c hc => ?_
      · exact List.mem_product.2 ⟨List.mem_range.2 i.isLt, List.mem_range.2 b.isLt⟩
      · obtain ⟨j, c⟩ := c
        obtain ⟨hj, hc⟩ := List.mem_product.1 hc
        rw [List.mem_range] at hj hc
        rw [decide_eq_true_eq]
        refine (ValidBlock.blockCrc_two_iff (.inr i, b) (.inr ⟨j, hj⟩, ⟨c, hc⟩)).trans ?_
        simp [Fin.ext_iff]
    rw [hbad]
    dsimp only
    rw [hfind]
    dsimp only
    rw [show flipCrc (v.flip (.inr i, b) v.block) i b = v.block from flipCrc_flipCrc _ _ _]

/-- The candidates of the repair are bits of the block, so none helps against two. -/
theorem repair_flip_flip {v : ValidBlock} {p q : v.Bit} (hpq : q ≠ p) :
    (repair (v.flip q (v.flip p v.block))).ok = false := by
  set k := v.flip q (v.flip p v.block) with hk
  have hsized : v.Sized k := (v.sized.flip p).flip q
  unfold repair
  rw [if_neg fun h => hpq ((ValidBlock.blockCrc_two_iff p q).1 h)]
  cases hbad : badBytes k.txt with
  | nil =>
    have hfind : ((List.range 2).product (List.range 8)).find? (fun c =>
        (flipCrc k c.1 c.2).blockCrc = 0) = none := by
      refine List.find?_eq_none.2 fun c hc => ?_
      obtain ⟨hi, hb⟩ := List.mem_product.1 hc
      rw [List.mem_range] at hi hb
      rw [decide_eq_true_eq]
      exact ValidBlock.blockCrc_three p q (.inr ⟨c.1, hi⟩, ⟨c.2, hb⟩)
    dsimp only
    rw [hfind]
  | cons bad rest =>
    cases rest with
    | cons => rfl
    | nil =>
      have hmem : bad ∈ badBytes k.txt := by
        rw [hbad]
        exact List.mem_singleton_self _
      have hlt : bad < v.block.txt.length := by
        have := List.mem_range.1 (List.mem_of_mem_filter hmem)
        rw [← hsized.txt]
        exact this
      have hfind : (List.range 8).find? (fun c => (flipTxt k bad c).blockCrc = 0) = none := by
        refine List.find?_eq_none.2 fun c hc => ?_
        rw [List.mem_range] at hc
        rw [decide_eq_true_eq]
        exact ValidBlock.blockCrc_three p q (.inl ⟨bad, hlt⟩, ⟨c, hc⟩)
      dsimp only
      rw [hfind]

/-- **The repair is right**: with one flipped bit the block comes back, and with two the repair
fails unless the text is the one that was sent. -/
theorem repair_right (v : ValidBlock) :
    (∀ p : v.Bit, (repair (v.flip p v.block)).ok = true ∧
      (repair (v.flip p v.block)).block = v.block) ∧
    ∀ p q : v.Bit, (repair (v.flip q (v.flip p v.block))).ok = false ∨
      (repair (v.flip q (v.flip p v.block))).block.txt = v.block.txt := by
  refine ⟨fun p => ?_, fun p q => ?_⟩
  · rw [repair_flip]
    exact ⟨rfl, rfl⟩
  · by_cases hpq : q = p
    · subst hpq
      right
      rw [repair_of_check ((ValidBlock.blockCrc_two_iff q q).2 rfl)]
      obtain ⟨i | i, b⟩ := q
      · exact congrArg Block.txt (flipTxt_flipTxt v.block i b)
      · exact congrArg Block.txt (flipCrc_flipCrc v.block i b)
    · exact .inl (repair_flip_flip hpq)

end MacHPSDR.Acars
