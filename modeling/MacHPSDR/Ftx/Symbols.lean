import MacHPSDR.Ftx.Decode

/-!
# From the payload to the tones and back

`ft8_encode` and `ft4_encode` put the codeword on the air, three or two bits to a tone, with groups
of tones for synchronisation between. The receiver compares the magnitudes of the eight or four bins
of each data symbol; the sign of what it computes for a bit is its first guess. Where in each data
symbol the bin of the tone that was sent is the strongest, the first guess is the codeword, and the
payload is received (`decodeCandidate_encode`), whatever the synchronisation groups and the strength
of the bins are.
-/

namespace MacHPSDR.Ftx

open BinaryCode BitString

/-! ## The encoders -/

/-- `kFT8_Costas_pattern` -/
def ft8CostasPattern : List UInt8 := [3, 1, 4, 0, 6, 5, 2]

/-- `kFT4_Costas_pattern` -/
def ft4CostasPattern : List (List UInt8) := [[0, 1, 3, 2], [1, 0, 2, 3], [2, 3, 1, 0], [3, 2, 0, 1]]

/-- `kFT8_Gray_map` -/
def ft8GrayMap : List UInt8 := [0, 1, 3, 2, 5, 6, 4, 7]

/-- `kFT4_Gray_map` -/
def ft4GrayMap : List UInt8 := [0, 1, 3, 2]

/-- The number that bits spell, high bit first. -/
def number (x : List Bool) : ℕ := x.foldl (fun n b => 2 * n + b.toNat) 0

/-- The loop of the encoders over the tones: a tone for synchronisation, or the tone of the next
`width` bits of the codeword. -/
def toneLoop (sync : ℕ → Option UInt8) (width : ℕ) (grayMap codeword : List UInt8) :
    ℕ → ℕ → Cursor → List UInt8
  | 0, _, _ => []
  | n + 1, iTone, c =>
    match sync iTone with
    | some tone => tone :: toneLoop sync width grayMap codeword n (iTone + 1) c
    | none =>
      grayMap.getD (number (readBits codeword width c)) 0 ::
        toneLoop sync width grayMap codeword n (iTone + 1) (Cursor.next^[width] c)

/-- The tones of `ft8_encode` that are not data. -/
def ft8Sync (iTone : ℕ) : Option UInt8 :=
  if iTone < 7 then some (ft8CostasPattern.getD iTone 0)
  else if 36 ≤ iTone ∧ iTone < 43 then some (ft8CostasPattern.getD (iTone - 36) 0)
  else if 72 ≤ iTone ∧ iTone < 79 then some (ft8CostasPattern.getD (iTone - 72) 0)
  else none

/-- The tones of `ft4_encode` that are not data. -/
def ft4Sync (iTone : ℕ) : Option UInt8 :=
  if iTone = 0 ∨ iTone = 104 then some 0
  else if 1 ≤ iTone ∧ iTone < 5 then some ((ft4CostasPattern.getD 0 []).getD (iTone - 1) 0)
  else if 34 ≤ iTone ∧ iTone < 38 then some ((ft4CostasPattern.getD 1 []).getD (iTone - 34) 0)
  else if 67 ≤ iTone ∧ iTone < 71 then some ((ft4CostasPattern.getD 2 []).getD (iTone - 67) 0)
  else if 100 ≤ iTone ∧ iTone < 104 then some ((ft4CostasPattern.getD 3 []).getD (iTone - 100) 0)
  else none

/-- `ft8_encode` -/
def ft8Encode (payload : List UInt8) : List UInt8 :=
  toneLoop ft8Sync 3 ft8GrayMap (Protocol.codeword .ft8 payload) 79 0 ⟨0x80, 0⟩

/-- `ft4_encode` -/
def ft4Encode (payload : List UInt8) : List UInt8 :=
  toneLoop ft4Sync 2 ft4GrayMap (Protocol.codeword .ft4 payload) 105 0 ⟨0x80, 0⟩

/-! ## The likelihoods -/

/-- `WF_ELEM_MAG`, in decibels. -/
def wfElemMag (x : UInt8) : ℚ := x.toNat / 2 - 120

def max4 (a b c d : ℚ) : ℚ := max (max a b) (max c d)

/-- `ft8_extract_symbol`, on the bins of a symbol. -/
def ft8ExtractSymbol (wf : ℕ → UInt8) : List ℚ :=
  let s2 (j : ℕ) : ℚ := wfElemMag (wf (ft8GrayMap.getD j 0).toNat)
  [max4 (s2 4) (s2 5) (s2 6) (s2 7) - max4 (s2 0) (s2 1) (s2 2) (s2 3),
    max4 (s2 2) (s2 3) (s2 6) (s2 7) - max4 (s2 0) (s2 1) (s2 4) (s2 5),
    max4 (s2 1) (s2 3) (s2 5) (s2 7) - max4 (s2 0) (s2 2) (s2 4) (s2 6)]

/-- `ft4_extract_symbol` -/
def ft4ExtractSymbol (wf : ℕ → UInt8) : List ℚ :=
  let s2 (j : ℕ) : ℚ := wfElemMag (wf (ft4GrayMap.getD j 0).toNat)
  [max (s2 2) (s2 3) - max (s2 0) (s2 1), max (s2 1) (s2 3) - max (s2 0) (s2 2)]

/-- Where data symbol `k` of a protocol stands in the message. -/
def Protocol.symIdx : Protocol → ℕ → ℕ
  | .ft8, k => k + if k < 29 then 7 else 14
  | .ft4, k => k + if k < 29 then 5 else if k < 58 then 9 else 13

/-- `FT8_ND` and `FT4_ND` -/
def Protocol.numData : Protocol → ℕ
  | .ft8 => 58
  | .ft4 => 87

/-- The bits of a symbol. -/
def Protocol.width : Protocol → ℕ
  | .ft8 => 3
  | .ft4 => 2

def Protocol.extractSymbol : Protocol → (ℕ → UInt8) → List ℚ
  | .ft8 => ft8ExtractSymbol
  | .ft4 => ft4ExtractSymbol

def Protocol.encode : Protocol → List UInt8 → List UInt8
  | .ft8 => ft8Encode
  | .ft4 => ft4Encode

/-- `ft8_extract_likelihood` and `ft4_extract_likelihood`, on the bins of a candidate: `mag b t` is
bin `t` of block `b` of the waterfall. -/
def extractLikelihood (p : Protocol) (mag : ℤ → ℕ → UInt8) (numBlocks timeOffset : ℤ) : List ℚ :=
  (List.range p.numData).flatMap fun k =>
    let block := timeOffset + p.symIdx k
    if block < 0 ∨ block ≥ numBlocks then List.replicate p.width 0 else p.extractSymbol (mag block)

/-- The guesses of `bp_decode`: the signs of the likelihoods, which `ftx_normalize_logl` has scaled
by `norm`, and then what the messages between the nodes make of them. -/
def guesses (norm : ℚ) (messages : ℕ → List ℚ → List Bool) (log174 : List ℚ) : ℕ → List Bool
  | 0 => log174.map fun l => decide (0 < norm * l)
  | i + 1 => messages i (log174.map (norm * ·))

/-! ## The tones of a message -/

/-- How many of the next tones are data. -/
def dataBefore (sync : ℕ → Option UInt8) : ℕ → ℕ → ℕ
  | _, 0 => 0
  | i, j + 1 => (if sync i = none then 1 else 0) + dataBefore sync (i + 1) j

theorem iterate_next (w i : ℕ) : Cursor.next^[w] (Cursor.place i) = Cursor.place (i + w) := by
  induction w with
  | zero => rfl
  | succ w ih => rw [Function.iterate_succ_apply', ih, Cursor.next_place]; rfl

/-- A data tone is the tone of its bits of the codeword. -/
theorem getElem?_toneLoop {sync : ℕ → Option UInt8} {width : ℕ} {grayMap codeword : List UInt8}
    {n i j place : ℕ} (hj : j < n) (hdata : sync (i + j) = none)
    (hlen : place + width * dataBefore sync i n ≤ 8 * codeword.length) :
    (toneLoop sync width grayMap codeword n i (Cursor.place place))[j]? =
      some (grayMap.getD (number (((bits codeword).drop
        (place + width * dataBefore sync i j)).take width)) 0) := by
  induction n generalizing i j place with
  | zero => exact absurd hj (Nat.not_lt_zero j)
  | succ n ih =>
    rw [dataBefore] at hlen
    cases hsync : sync i with
    | some tone =>
      cases j with
      | zero => exact absurd (hsync.symm.trans hdata) (Option.some_ne_none _)
      | succ j =>
        rw [hsync, if_neg (by simp), Nat.zero_add] at hlen
        have hdata' : sync (i + 1 + j) = none := by rwa [Nat.add_right_comm]
        have hnext := ih (Nat.lt_of_succ_lt_succ hj) hdata' hlen
        rw [toneLoop, hsync, dataBefore, hsync, if_neg (by simp), Nat.zero_add]
        exact hnext
    | none =>
      rw [hsync, if_pos rfl, Nat.mul_add, Nat.mul_one, ← Nat.add_assoc] at hlen
      cases j with
      | zero =>
        rw [toneLoop, hsync]
        dsimp only
        rw [readBits_place (by omega)]
        rfl
      | succ j =>
        have hdata' : sync (i + 1 + j) = none := by rwa [Nat.add_right_comm]
        have hnext := ih (Nat.lt_of_succ_lt_succ hj) hdata' hlen
        rw [toneLoop, hsync, dataBefore, hsync, if_pos rfl, Nat.mul_add, Nat.mul_one,
          ← Nat.add_assoc]
        dsimp only
        rw [iterate_next]
        exact hnext

theorem getD_toneLoop {sync : ℕ → Option UInt8} {width : ℕ} {grayMap codeword : List UInt8}
    {n j : ℕ} (hj : j < n) (hdata : sync j = none)
    (hlen : width * dataBefore sync 0 n ≤ 8 * codeword.length) :
    (toneLoop sync width grayMap codeword n 0 ⟨0x80, 0⟩).getD j 0 =
      grayMap.getD
        (number (((bits codeword).drop (width * dataBefore sync 0 j)).take width)) 0 := by
  have hget : (toneLoop sync width grayMap codeword n 0 (Cursor.place 0))[j]? = _ :=
    getElem?_toneLoop hj ((congrArg sync (Nat.zero_add j)).trans hdata)
      (by rwa [Nat.zero_add])
  rw [Nat.zero_add] at hget
  change (toneLoop sync width grayMap codeword n 0 (Cursor.place 0)).getD j 0 = _
  rw [List.getD_eq_getElem?_getD, hget, Option.getD_some]

/-! ## The signs of the likelihoods -/

theorem wfElemMag_lt {a b : UInt8} (h : a < b) : wfElemMag a < wfElemMag b := by
  have hlt : (a.toNat : ℚ) < b.toNat := by exact_mod_cast h
  unfold wfElemMag
  linarith

/-- The signs of the differences, where one of eight magnitudes is above all others. -/
theorem signs_eight {norm : ℚ} (hnorm : 0 < norm) (s : ℕ → ℚ) {x : List Bool} (hx : x.length = 3)
    (h : ∀ j < 8, j ≠ number x → s j < s (number x)) :
    [max4 (s 4) (s 5) (s 6) (s 7) - max4 (s 0) (s 1) (s 2) (s 3),
      max4 (s 2) (s 3) (s 6) (s 7) - max4 (s 0) (s 1) (s 4) (s 5),
      max4 (s 1) (s 3) (s 5) (s 7) - max4 (s 0) (s 2) (s 4) (s 6)].map
        (fun l => decide (0 < norm * l)) = x := by
  match x, hx with
  | [b₀, b₁, b₂], _ =>
    have h₀ := h 0 (by decide)
    have h₁ := h 1 (by decide)
    have h₂ := h 2 (by decide)
    have h₃ := h 3 (by decide)
    have h₄ := h 4 (by decide)
    have h₅ := h 5 (by decide)
    have h₆ := h 6 (by decide)
    have h₇ := h 7 (by decide)
    clear h
    -- the three bits say which of the magnitudes is the greatest
    cases b₀ <;> cases b₁ <;> cases b₂ <;>
      simp [number] at h₀ h₁ h₂ h₃ h₄ h₅ h₆ h₇ <;>
      simp [max4, *, le_of_lt]

/-- The same, of four magnitudes. -/
theorem signs_four {norm : ℚ} (hnorm : 0 < norm) (s : ℕ → ℚ) {x : List Bool} (hx : x.length = 2)
    (h : ∀ j < 4, j ≠ number x → s j < s (number x)) :
    [max (s 2) (s 3) - max (s 0) (s 1), max (s 1) (s 3) - max (s 0) (s 2)].map
        (fun l => decide (0 < norm * l)) = x := by
  match x, hx with
  | [b₀, b₁], _ =>
    have h₀ := h 0 (by decide)
    have h₁ := h 1 (by decide)
    have h₂ := h 2 (by decide)
    have h₃ := h 3 (by decide)
    clear h
    cases b₀ <;> cases b₁ <;>
      simp [number] at h₀ h₁ h₂ h₃ <;>
      simp [*, le_of_lt]

def Protocol.grayMap : Protocol → List UInt8
  | .ft8 => ft8GrayMap
  | .ft4 => ft4GrayMap

/-- The tone of the bits of a symbol. -/
def Protocol.tone (p : Protocol) (x : List Bool) : ℕ := (p.grayMap.getD (number x) 0).toNat

theorem number_lt {x : List Bool} : number x < 2 ^ x.length := by
  induction x using List.reverseRecOn with
  | nil => decide
  | append_singleton x b ih =>
    have hb := b.toNat_lt
    rw [number, List.foldl_append, List.length_append, List.length_singleton, Nat.pow_succ]
    change 2 * number x + b.toNat < _
    omega

/-- Different bits have different tones. -/
theorem grayMap_injective (p : Protocol) : ∀ i < 2 ^ p.width, ∀ j < 2 ^ p.width,
    i ≠ j → (p.grayMap.getD i 0).toNat < 2 ^ p.width ∧
      (p.grayMap.getD i 0).toNat ≠ (p.grayMap.getD j 0).toNat := by
  cases p <;> decide

/-- **A symbol** whose strongest bin is the tone of some bits is read as these bits. -/
theorem map_extractSymbol (p : Protocol) {norm : ℚ} (hnorm : 0 < norm) {wf : ℕ → UInt8}
    {x : List Bool} (hx : x.length = p.width)
    (hclear : ∀ t < 2 ^ p.width, t ≠ p.tone x → wf t < wf (p.tone x)) :
    (p.extractSymbol wf).map (fun l => decide (0 < norm * l)) = x := by
  have hnumber : number x < 2 ^ p.width := hx ▸ number_lt
  have hstrong : ∀ j < 2 ^ p.width, j ≠ number x →
      wfElemMag (wf (p.grayMap.getD j 0).toNat) <
        wfElemMag (wf (p.grayMap.getD (number x) 0).toNat) := by
    intro j hj hne
    obtain ⟨hlt, htone⟩ := grayMap_injective p j hj _ hnumber hne
    exact wfElemMag_lt (hclear _ hlt htone)
  cases p with
  | ft8 => exact signs_eight hnorm (fun j => wfElemMag (wf (ft8GrayMap.getD j 0).toNat)) hx hstrong
  | ft4 => exact signs_four hnorm (fun j => wfElemMag (wf (ft4GrayMap.getD j 0).toNat)) hx hstrong

/-! ## Over the air -/

/-- In every data symbol of the message the bin of the tone that was sent is the strongest. -/
def Clear (p : Protocol) (payload : List UInt8) (mag : ℤ → ℕ → UInt8) (timeOffset : ℤ) : Prop :=
  ∀ k < p.numData, ∀ t < 2 ^ p.width,
    t ≠ ((p.encode payload).getD (p.symIdx k) 0).toNat →
      mag (timeOffset + p.symIdx k) t <
        mag (timeOffset + p.symIdx k) ((p.encode payload).getD (p.symIdx k) 0).toNat

/-- The data symbols are within the waterfall. -/
def Within (p : Protocol) (numBlocks timeOffset : ℤ) : Prop :=
  ∀ k < p.numData, 0 ≤ timeOffset + p.symIdx k ∧ timeOffset + p.symIdx k < numBlocks

/-- The bits of data symbol `k`. -/
def Protocol.symbolBits (p : Protocol) (payload : List UInt8) (k : ℕ) : List Bool :=
  ((bits (p.codeword payload)).drop (p.width * k)).take p.width

theorem ft8_symIdx : ∀ k < 58, ft8Sync (Protocol.symIdx .ft8 k) = none ∧
    dataBefore ft8Sync 0 (Protocol.symIdx .ft8 k) = k ∧ Protocol.symIdx .ft8 k < 79 := by
  decide

theorem ft4_symIdx : ∀ k < 87, ft4Sync (Protocol.symIdx .ft4 k) = none ∧
    dataBefore ft4Sync 0 (Protocol.symIdx .ft4 k) = k ∧ Protocol.symIdx .ft4 k < 105 := by
  decide

theorem length_codeword (p : Protocol) {payload : List UInt8} (h : Canonical payload) :
    (p.codeword payload).length = 22 := by
  have hscramble := h.scramble p
  have hlen := length_addCrc hscramble.1
  obtain ⟨hword, -, hlength⟩ :=
    take_bits_encode174 ((bits_block_iff hlen).1 (addCrc_pad hscramble.1)) hlen
  have hbits := congrArg List.length hword
  rw [length_bits, List.length_append, hlength] at hbits
  unfold Protocol.codeword
  simp only [List.length_cons, List.length_nil] at hbits
  omega

/-- **The encoders** send the bits of the codeword in turn. -/
theorem encode_symIdx (p : Protocol) {payload : List UInt8} (h : Canonical payload) {k : ℕ}
    (hk : k < p.numData) :
    ((p.encode payload).getD (p.symIdx k) 0).toNat = p.tone (p.symbolBits payload k) := by
  have hlen := length_codeword p h
  cases p with
  | ft8 =>
    obtain ⟨hsync, hbefore, hlt⟩ := ft8_symIdx k hk
    refine congrArg UInt8.toNat ((getD_toneLoop hlt hsync (by rw [hlen]; decide)).trans ?_)
    rw [hbefore]
    rfl
  | ft4 =>
    obtain ⟨hsync, hbefore, hlt⟩ := ft4_symIdx k hk
    refine congrArg UInt8.toNat ((getD_toneLoop hlt hsync (by rw [hlen]; decide)).trans ?_)
    rw [hbefore]
    rfl

theorem take_eq_flatMap {α : Type*} (l : List α) (w n : ℕ) :
    l.take (w * n) = (List.range n).flatMap fun k => (l.drop (w * k)).take w := by
  induction n with
  | zero => simp
  | succ n ih => rw [Nat.mul_succ, List.take_add, ih, List.range_succ, List.flatMap_append]; simp

/-- **Over the air.** A message whose tones are the strongest bins of their symbols is decoded at
the first guess. -/
theorem decodeCandidate_encode (p : Protocol) {payload : List UInt8} (hpayload : Canonical payload)
    (hne : p.scramble payload ≠ List.replicate 10 0) {mag : ℤ → ℕ → UInt8}
    {numBlocks timeOffset : ℤ} (hwithin : Within p numBlocks timeOffset)
    (hclear : Clear p payload mag timeOffset) {norm : ℚ} (hnorm : 0 < norm)
    (messages : ℕ → List ℚ → List Bool) {maxIters : ℕ} (hiters : 0 < maxIters) :
    decodeCandidate p
      (guesses norm messages (extractLikelihood p mag numBlocks timeOffset)) maxIters =
        some payload := by
  refine decodeCandidate_of p hpayload hiters ?_ (mem_codewordBits p hpayload hne)
    fun j hj => absurd hj (Nat.not_lt_zero j)
  have hwidth : p.width * p.numData = 174 := by cases p <;> rfl
  rw [guesses, extractLikelihood, List.map_flatMap, Protocol.codewordBits, ← hwidth,
    take_eq_flatMap]
  refine List.flatMap_congr fun k hk => ?_
  have hk : k < p.numData := List.mem_range.1 hk
  have hlen : (p.symbolBits payload k).length = p.width := by
    rw [Protocol.symbolBits, List.length_take, List.length_drop, length_bits,
      length_codeword p hpayload]
    have hle : p.width * k + p.width ≤ p.width * p.numData :=
      (Nat.mul_succ p.width k).symm.le.trans (Nat.mul_le_mul_left _ hk)
    omega
  have hblock := hwithin k hk
  dsimp only
  rw [if_neg (by omega)]
  refine map_extractSymbol p hnorm hlen fun t ht hne => ?_
  have hsent := hclear k hk t ht
  rw [encode_symIdx p hpayload hk] at hsent
  exact hsent hne

theorem decodeCandidate_tones :
    let payload : List UInt8 := List.replicate 9 0x5A ++ [0x58]
    let mag : ℤ → ℕ → UInt8 := fun block t =>
      if t = ((ft8Encode payload).getD (block - 3).toNat 0).toNat then 200 else 90
    decodeCandidate .ft8 (guesses 4 (fun _ _ => []) (extractLikelihood .ft8 mag 93 3)) 25 =
      some payload := by
  refine decodeCandidate_encode .ft8 ⟨by decide, by decide⟩ (by decide) ?_ ?_ (by norm_num) _
    (by decide)
  · intro k hk
    have hlt := (ft8_symIdx k hk).2.2
    omega
  · intro k hk t ht hne
    have hsent (n : ℕ) (h : n ≠ t) :
        (if t = n then 200 else 90 : UInt8) < if n = n then 200 else 90 := by
      rw [if_neg h.symm, if_pos rfl]
      decide
    dsimp only
    rw [add_sub_cancel_left, Int.toNat_natCast]
    exact hsent _ hne.symm

end MacHPSDR.Ftx
