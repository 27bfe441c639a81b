import MacHPSDR.Ftx.Crc
import MacHPSDR.Ftx.Ldpc

/-!
# What the decoder lets through

`bp_decode` guesses the 174 bits of a word again and again, until a guess fails no parity check; the
messages between the guesses are floating point and are not modelled, so that the guesses may be
any. `ftx_decode_candidate` then compares the checksum and takes the payload. It takes a payload if
and only if the guess is the word that the encoder makes of this payload (`decodeCandidate_iff`):
parity checks and checksum leave no other word.
-/

namespace MacHPSDR.Ftx

open BinaryCode BitString

/-- `ftx_protocol_t` -/
inductive Protocol
  | ft4
  | ft8
  deriving DecidableEq

/-- `kFT4_XOR_sequence` -/
def ft4XorSequence : List UInt8 := [0x4A, 0x5E, 0x89, 0xB4, 0xB0, 0x8A, 0x79, 0x55, 0xBE, 0x28]

/-- FT4 sends its payload with the sequence added. -/
def Protocol.scramble (p : Protocol) (payload : List UInt8) : List UInt8 :=
  if p = .ft4 then payload.zipWith (· ^^^ ·) ft4XorSequence else payload

/-- The codeword that `ft8_encode` and `ft4_encode` send, in 22 bytes. -/
def Protocol.codeword (p : Protocol) (payload : List UInt8) : List UInt8 :=
  encode174 (ftxAddCrc (p.scramble payload))

/-- The loop of `bp_decode` from guess `iter` on: the last guess and the least number of errors. -/
def bpLoop (guess : ℕ → List Bool) : ℕ → ℕ → ℕ → List Bool → List Bool × ℕ
  | 0, _, minErrors, plain => (plain, minErrors)
  | n + 1, iter, minErrors, _ =>
    let plain := guess iter
    -- all zeros is prohibited
    if plain.all (!·) then (plain, minErrors)
    else
      let errors := ldpcCheck plain
      if errors < minErrors then
        if errors = 0 then (plain, errors) else bpLoop guess n (iter + 1) errors plain
      else bpLoop guess n (iter + 1) minErrors plain

/-- `bp_decode` -/
def bpDecode (guess : ℕ → List Bool) (maxIters : ℕ) : List Bool × ℕ := bpLoop guess maxIters 0 83 []

/-- `ftx_decode_candidate` from the likelihoods on: the payload, if there is one. -/
def decodeCandidate (p : Protocol) (guess : ℕ → List Bool) (maxIters : ℕ) : Option (List UInt8) :=
  let decoded := bpDecode guess maxIters
  if decoded.2 > 0 then none
  else
    let a91 := packBits (decoded.1.take 91)
    if crcOk a91 then some (p.scramble ((clearCrc a91).take 10)) else none

/-! ## The guess that ends the loop -/

/-- A guess after which the loop goes on. -/
def Goes (plain : List Bool) : Prop := true ∈ plain ∧ ldpcCheck plain ≠ 0

theorem all_not_iff (plain : List Bool) : plain.all (!·) = true ↔ ¬ true ∈ plain := by
  rw [List.all_eq_true]
  constructor
  · intro h htrue
    exact absurd (h true htrue) Bool.false_ne_true
  · intro h b hb
    cases b with
    | true => exact absurd hb h
    | false => rfl

/-- **The loop** ends without errors on the first guess that fails no check, unless a guess of zeros
comes before it. -/
theorem bpLoop_eq_zero_iff {guess : ℕ → List Bool} {n iter minErrors : ℕ}
    {before plain : List Bool} (hmin : 0 < minErrors) :
    bpLoop guess n iter minErrors before = (plain, 0) ↔
      ∃ i < n, guess (iter + i) = plain ∧ true ∈ plain ∧ ldpcCheck plain = 0 ∧
        ∀ j < i, Goes (guess (iter + j)) := by
  induction n generalizing iter minErrors before with
  | zero =>
    refine iff_of_false (fun h => ?_) fun ⟨i, hi, _⟩ => absurd hi (Nat.not_lt_zero i)
    exact hmin.ne' (Prod.mk.inj h).2
  | succ n ih =>
    have hfirst : (∃ i < n + 1, guess (iter + i) = plain ∧ true ∈ plain ∧ ldpcCheck plain = 0 ∧
          ∀ j < i, Goes (guess (iter + j))) ↔
        (guess iter = plain ∧ true ∈ plain ∧ ldpcCheck plain = 0) ∨
          Goes (guess iter) ∧ ∃ i < n, guess (iter + 1 + i) = plain ∧ true ∈ plain ∧
            ldpcCheck plain = 0 ∧ ∀ j < i, Goes (guess (iter + 1 + j)) := by
      constructor
      · rintro ⟨i, hi, hguess, hone, hcheck, hgoes⟩
        cases i with
        | zero => exact .inl ⟨hguess, hone, hcheck⟩
        | succ i =>
          refine .inr ⟨hgoes 0 (Nat.succ_pos i), i, Nat.lt_of_succ_lt_succ hi, ?_, hone, hcheck,
            fun j hj => ?_⟩
          · rwa [Nat.add_right_comm]
          · rw [Nat.add_right_comm]
            exact hgoes (j + 1) (Nat.succ_lt_succ hj)
      · rintro (⟨hguess, hone, hcheck⟩ | ⟨hgo, i, hi, hguess, hone, hcheck, hgoes⟩)
        · exact ⟨0, Nat.succ_pos n, hguess, hone, hcheck, fun j hj => absurd hj (Nat.not_lt_zero j)⟩
        · refine ⟨i + 1, Nat.succ_lt_succ hi, ?_, hone, hcheck, fun j hj => ?_⟩
          · rwa [Nat.add_right_comm] at hguess
          · cases j with
            | zero => exact hgo
            | succ j =>
              have hj := hgoes j (Nat.lt_of_succ_lt_succ hj)
              rwa [Nat.add_right_comm] at hj
    rw [hfirst, bpLoop]
    dsimp only
    by_cases hones : true ∈ guess iter
    · rw [if_neg (mt (all_not_iff _).1 (not_not.2 hones))]
      by_cases hcheck : ldpcCheck (guess iter) = 0
      · rw [hcheck, if_pos hmin, if_pos rfl, Prod.mk.injEq, and_iff_left rfl]
        constructor
        · rintro rfl
          exact .inl ⟨rfl, hones, hcheck⟩
        · rintro (⟨rfl, -⟩ | ⟨hgo, -⟩)
          · rfl
          · exact absurd hcheck hgo.2
      · have hgo : Goes (guess iter) := ⟨hones, hcheck⟩
        have hnot : ¬ (guess iter = plain ∧ true ∈ plain ∧ ldpcCheck plain = 0) := by
          rintro ⟨rfl, -, h⟩
          exact hcheck h
        rw [or_iff_right hnot, and_iff_right hgo]
        split
        · exact ih (Nat.pos_of_ne_zero hcheck)
        · exact ih hmin
    · rw [if_pos ((all_not_iff _).2 hones)]
      refine iff_of_false (fun h => hmin.ne' (Prod.mk.inj h).2) ?_
      rintro (⟨rfl, hone, -⟩ | ⟨hgo, -⟩)
      · exact hones hone
      · exact hones hgo.1

/-! ## The payload -/

/-- The unused bits at the end of a payload are zero. -/
def Canonical (payload : List UInt8) : Prop := payload.length = 10 ∧ payload.getD 9 0 &&& 0x07 = 0

/-- The 174 bits of the codeword. -/
def Protocol.codewordBits (p : Protocol) (payload : List UInt8) : List Bool :=
  (bits (p.codeword payload)).take 174

theorem scramble_scramble (p : Protocol) {payload : List UInt8} (h : payload.length = 10) :
    p.scramble (p.scramble payload) = payload := by
  cases p with
  | ft8 => rfl
  | ft4 =>
    match payload, h with
    | [a₀, a₁, a₂, a₃, a₄, a₅, a₆, a₇, a₈, a₉], _ =>
      simp [Protocol.scramble, ft4XorSequence]

/-- The sequence leaves the unused bits alone. -/
theorem xor_unused : ∀ b : Fin 256, UInt8.ofNat b &&& 0x07 = 0 →
    (UInt8.ofNat b ^^^ 0x28) &&& 0x07 = 0 := by decide +kernel

theorem Canonical.scramble {payload : List UInt8} (h : Canonical payload) (p : Protocol) :
    Canonical (p.scramble payload) := by
  cases p with
  | ft8 => exact h
  | ft4 =>
    obtain ⟨hlen, hzero⟩ := h
    match payload, hlen, hzero with
    | [a₀, a₁, a₂, a₃, a₄, a₅, a₆, a₇, a₈, a₉], _, hzero =>
      have hunused := xor_unused ⟨a₉.toNat, a₉.toNat_lt⟩
      rw [UInt8.ofNat_toNat] at hunused
      exact ⟨rfl, hunused hzero⟩

/-- The last five bits of a block. -/
theorem pad_iff : ∀ b : Fin 256, UInt8.ofNat b &&& 0x1F = 0 ↔
    (byteBits (UInt8.ofNat b)).drop 3 = List.replicate 5 false := by decide +kernel

/-- A block with zeros at the end is 91 bits. -/
theorem bits_block_iff {a91 : List UInt8} (hlen : a91.length = 12) :
    a91.getD 11 0 &&& 0x1F = 0 ↔ bits a91 = (bits a91).take 91 ++ List.replicate 5 false := by
  obtain ⟨l, b, rfl⟩ : ∃ l b, a91 = l ++ [b] :=
    ⟨_, _, (List.dropLast_append_getLast (List.ne_nil_of_length_pos (by omega))).symm⟩
  have hl : l.length = 11 := by simpa using hlen
  have hget : (l ++ [b]).getD 11 0 = b := by
    rw [List.getD_append_right _ _ _ _ (by omega), hl]
    rfl
  have hpad := pad_iff ⟨b.toNat, b.toNat_lt⟩
  rw [UInt8.ofNat_toNat] at hpad
  have htake : (bits (l ++ [b])).take 91 = bits l ++ (byteBits b).take 3 := by
    rw [bits_append, List.take_append, length_bits, hl, List.take_of_length_le (by simp [hl])]
    simp [bits]
  rw [hget, hpad, htake, bits_append, List.append_assoc, List.append_right_inj]
  have hsplit : bits [b] = (byteBits b).take 3 ++ (byteBits b).drop 3 := by
    rw [List.take_append_drop]
    simp [bits]
  rw [hsplit, List.append_right_inj]

/-- The codeword of a block. -/
theorem take_bits_encode174 {a91 : List UInt8}
    (h : bits a91 = (bits a91).take 91 ++ List.replicate 5 false) (hlen : a91.length = 12) :
    bits (encode174 a91) = (bits (encode174 a91)).take 174 ++ [false, false] ∧
      ((bits (encode174 a91)).take 174).take 91 = (bits a91).take 91 ∧
      ((bits (encode174 a91)).take 174).length = 174 := by
  have hm : ((bits a91).take 91).length = 91 := by
    rw [List.length_take, length_bits, hlen]
    rfl
  have hbits := bits_encode174 h hm
  have hword : ((bits a91).take 91 ++ generatorMasks.map (pairing ((bits a91).take 91))).length =
      174 := by
    rw [List.length_append, hm, List.length_map]
    rfl
  rw [← List.append_assoc] at hbits
  have htake : (bits (encode174 a91)).take 174 =
      (bits a91).take 91 ++ generatorMasks.map (pairing ((bits a91).take 91)) := by
    rw [hbits, List.take_left' hword]
  refine ⟨by rw [htake]; exact hbits, ?_, htake ▸ hword⟩
  rw [htake, List.take_left' hm]

/-- A word that is let through, and the payload it is taken for. -/
theorem passes_iff (p : Protocol) {plain : List Bool} (hplain : plain.length = 174)
    (payload : List UInt8) :
    (ldpcCheck plain = 0 ∧ crcOk (packBits (plain.take 91)) = true ∧
        p.scramble ((clearCrc (packBits (plain.take 91))).take 10) = payload) ↔
      Canonical payload ∧ plain = p.codewordBits payload := by
  rw [ldpcCheck_eq_zero_iff_null, null_checkMasks_iff hplain]
  have hm : (plain.take 91).length = 91 := by
    rw [List.length_take, hplain]
    rfl
  constructor
  · rintro ⟨hcheck, hcrc, rfl⟩
    generalize ha : packBits (plain.take 91) = a91 at hcheck hcrc ⊢
    have hbits : bits a91 = plain.take 91 ++ List.replicate 5 false := by
      rw [← ha, bits_packBits, hm]
    have hlen : a91.length = 12 := by
      have := congrArg List.length hbits
      simp only [length_bits, List.length_append, List.length_replicate, hm] at this
      omega
    have hblock : bits a91 = (bits a91).take 91 ++ List.replicate 5 false := by
      conv_rhs => rw [hbits, List.take_left' hm]
      exact hbits
    have hadd := (crcOk_iff hlen ((bits_block_iff hlen).2 hblock)).1 hcrc
    have hcanonical : Canonical ((clearCrc a91).take 10) := clearCrc_unused hlen
    refine ⟨hcanonical.scramble p, ?_⟩
    rw [Protocol.codewordBits, Protocol.codeword, scramble_scramble p hcanonical.1, hadd, hcheck,
      List.take_left' hplain]
  · rintro ⟨hcanonical, rfl⟩
    have hscramble := hcanonical.scramble p
    have hlen := length_addCrc hscramble.1
    have hblock := (bits_block_iff hlen).1 (addCrc_pad hscramble.1)
    obtain ⟨hword, hmessage, -⟩ := take_bits_encode174 hblock hlen
    have hpack : packBits ((p.codewordBits payload).take 91) = ftxAddCrc (p.scramble payload) := by
      apply bits_injective
      rw [bits_packBits, hm, Protocol.codewordBits, Protocol.codeword, hmessage]
      exact hblock.symm
    rw [hpack, crcOk_iff hlen (addCrc_pad hscramble.1),
      take_clearCrc_addCrc hscramble.1 hscramble.2]
    exact ⟨hword, rfl, scramble_scramble p hcanonical.1⟩

theorem length_codewordBits (p : Protocol) {payload : List UInt8} (h : Canonical payload) :
    (p.codewordBits payload).length = 174 := by
  have hscramble := h.scramble p
  have hlen := length_addCrc hscramble.1
  exact (take_bits_encode174 ((bits_block_iff hlen).1 (addCrc_pad hscramble.1)) hlen).2.2

/-- A guess of a codeword is taken for its payload. -/
theorem decodeCandidate_of (p : Protocol) {guess : ℕ → List Bool} {maxIters i : ℕ}
    {payload : List UInt8} (hcanonical : Canonical payload) (hi : i < maxIters)
    (hguess : guess i = p.codewordBits payload) (hone : true ∈ p.codewordBits payload)
    (hgoes : ∀ j < i, Goes (guess j)) : decodeCandidate p guess maxIters = some payload := by
  obtain ⟨hcheck, hcrc, hpayload⟩ :=
    (passes_iff p (length_codewordBits p hcanonical) payload).2 ⟨hcanonical, rfl⟩
  have hdecode : bpDecode guess maxIters = (p.codewordBits payload, 0) := by
    refine (bpLoop_eq_zero_iff (by decide : 0 < 83)).2 ⟨i, hi, ?_, hone, hcheck, fun j hj => ?_⟩
    · rwa [Nat.zero_add]
    · rw [Nat.zero_add]
      exact hgoes j hj
  unfold decodeCandidate
  dsimp only
  rw [hdecode, if_neg (lt_irrefl 0), if_pos hcrc, hpayload]

/-- **What the decoder takes** a payload for: the word that the encoder makes of it, as the first
guess that fails no parity check. -/
theorem decodeCandidate_iff (p : Protocol) {guess : ℕ → List Bool}
    (hguess : ∀ i, (guess i).length = 174) (maxIters : ℕ) (payload : List UInt8) :
    decodeCandidate p guess maxIters = some payload ↔
      Canonical payload ∧ ∃ i < maxIters, guess i = p.codewordBits payload ∧
        true ∈ p.codewordBits payload ∧ ∀ j < i, Goes (guess j) := by
  constructor
  · intro h
    unfold decodeCandidate at h
    dsimp only at h
    split_ifs at h with herrors hcrc
    obtain ⟨i, hi, hplain, hone, hcheck, hgoes⟩ :=
      (bpLoop_eq_zero_iff (by decide : 0 < 83)).1
        (Prod.ext rfl (Nat.eq_zero_of_not_pos herrors) :
          bpDecode guess maxIters = ((bpDecode guess maxIters).1, 0))
    simp only [Nat.zero_add] at hplain hgoes
    have hlen : (bpDecode guess maxIters).1.length = 174 := hplain ▸ hguess i
    obtain ⟨hcanonical, hword⟩ := (passes_iff p hlen payload).1 ⟨hcheck, hcrc, Option.some.inj h⟩
    exact ⟨hcanonical, i, hi, hplain.trans hword, hword ▸ hone, hgoes⟩
  · rintro ⟨hcanonical, i, hi, hplain, hone, hgoes⟩
    exact decodeCandidate_of p hcanonical hi hplain hone hgoes

theorem decodeCandidate_zeros :
    decodeCandidate .ft4 (fun _ => Protocol.codewordBits .ft4 (List.replicate 10 0)) 20 =
      some (List.replicate 10 0) :=
  (decodeCandidate_iff .ft4 (fun _ => by decide +kernel) 20 _).2
    ⟨⟨by decide, by decide⟩, 0, by decide, rfl, by decide +kernel,
      fun j hj => absurd hj (Nat.not_lt_zero j)⟩

/-- Only one payload has a codeword of zeros. -/
theorem mem_codewordBits (p : Protocol) {payload : List UInt8} (h : Canonical payload)
    (hne : p.scramble payload ≠ List.replicate 10 0) : true ∈ p.codewordBits payload := by
  by_contra hzeros
  have hscramble := h.scramble p
  have hlen := length_addCrc hscramble.1
  have hblock := (bits_block_iff hlen).1 (addCrc_pad hscramble.1)
  have hmessage : (bits (ftxAddCrc (p.scramble payload))).take 91 = List.replicate 91 false := by
    rw [← (take_bits_encode174 hblock hlen).2.1]
    refine List.eq_replicate_iff.2 ⟨?_, fun b hb => ?_⟩
    · rw [List.length_take, (take_bits_encode174 hblock hlen).2.2]
      rfl
    · cases b with
      | false => rfl
      | true => exact absurd (List.mem_of_mem_take hb) hzeros
  have hzero : ftxAddCrc (p.scramble payload) = List.replicate 12 0 := by
    apply bits_injective
    rw [hblock, hmessage, bits_replicate, ← List.replicate_add]
  have hpayload := take_clearCrc_addCrc hscramble.1 hscramble.2
  rw [hzero] at hpayload
  exact hne (hpayload.symm.trans rfl)

end MacHPSDR.Ftx
