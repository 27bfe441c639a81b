import MacHPSDR.Foundations.Bytes

/-!
# BASE85

MIAM CORE messages travel as text: five digits from `!` upwards for a word of 32 bits, and a lone
`z` for the word zero. What is encoded is decoded again, with the zeros that fill up the last word
(`decode_encode`). But the decoder takes every character up to `z` for a digit, where the alphabet
ends at `u`, and computes the word modulo `2 ^ 32`, so that it also accepts groups that no encoder
writes (`base85_groups`).
-/

namespace MacHPSDR.Hfdl.Base85

open Bytes

/-! ## The decoder -/

/-- `B85`: what has been decoded, and whether the text was accepted. -/
structure B85 where
  buf : List UInt8
  ok : Bool
  deriving DecidableEq

/-- `pow85` -/
def pow85 : List ℕ := [85 * 85 * 85 * 85, 85 * 85 * 85, 85 * 85, 85, 1]

/-- The loop over the digits of a group, in 32 bits. -/
def groupLoop : List (UInt8 × ℕ) → ℕ → Option ℕ
  | [], v => some v
  | (c, pow) :: rest, v =>
    if c < 0x21 ∨ c > 0x7a then none
    else groupLoop rest ((v + (c.toNat - 0x21) * pow % 2 ^ 32) % 2 ^ 32)

/-- The loop of `base85_decode`. What is left over at the end is not a whole group. -/
def decodeLoop : List UInt8 → Option (List UInt8)
  | [] => some []
  | c₀ :: rest =>
    if c₀ = 0x7a then (decodeLoop rest).map (beBytes 4 0 ++ ·)
    else
      match rest with
      | c₁ :: c₂ :: c₃ :: c₄ :: rest =>
        (groupLoop ([c₀, c₁, c₂, c₃, c₄].zip pow85) 0).bind fun v =>
          (decodeLoop rest).map (beBytes 4 v ++ ·)
      | _ => some []

/-- `base85_decode` -/
def base85Decode (text : List UInt8) : B85 :=
  if text = [] then ⟨[], false⟩
  else
    match decodeLoop text with
    | none => ⟨[], false⟩
    | some out => ⟨out, true⟩

/-! ## The encoder -/

/-- The last `k` digits of a word, most significant first. -/
def digits : ℕ → ℕ → List UInt8
  | 0, _ => []
  | k + 1, v => digits k (v / 85) ++ [UInt8.ofNat (0x21 + v % 85)]

/-- How many zeros fill up the last word. -/
def padding (len : ℕ) : ℕ := (4 - len % 4) % 4

/-- The loop of `base85_encode`, over whole words. -/
def encodeLoop : List UInt8 → List UInt8
  | b₀ :: b₁ :: b₂ :: b₃ :: rest => digits 5 (beNat [b₀, b₁, b₂, b₃]) ++ encodeLoop rest
  | _ => []

/-- `base85_encode` -/
def base85Encode (buf : List UInt8) : List UInt8 :=
  encodeLoop (buf ++ List.replicate (padding buf.length) 0)

/-! ## Groups -/

/-- The number that five characters spell. -/
def value (g : List UInt8) : ℕ := (g.zipWith (fun c pow => (c.toNat - 0x21) * pow) pow85).sum

/-- Five characters that the decoder reads as digits. -/
def IsGroup (g : List UInt8) : Prop := g.length = 5 ∧ g.head? ≠ some 0x7a

/-- The decoder takes the character for a digit. -/
def IsDigit (c : UInt8) : Prop := ¬ (c < 0x21 ∨ c > 0x7a)

instance (c : UInt8) : Decidable (IsDigit c) := inferInstanceAs (Decidable (¬ _))

theorem groupLoop_cons_of {c : UInt8} (hc : IsDigit c) (pow v : ℕ) (rest : List (UInt8 × ℕ)) :
    groupLoop ((c, pow) :: rest) v =
      groupLoop rest ((v + (c.toNat - 0x21) * pow % 2 ^ 32) % 2 ^ 32) :=
  if_neg hc

/-- The word is the number of the group, in 32 bits. -/
theorem groupLoop_zip {cs : List UInt8} (h : ∀ c ∈ cs, IsDigit c) (pows : List ℕ) (v : ℕ) :
    (groupLoop (cs.zip pows) v).map (· % 2 ^ 32) =
      some ((v + (cs.zipWith (fun c pow => (c.toNat - 0x21) * pow) pows).sum) % 2 ^ 32) := by
  induction cs generalizing pows v with
  | nil => rfl
  | cons c cs ih =>
    cases pows with
    | nil => rfl
    | cons pow pows =>
      rw [List.zip_cons_cons, groupLoop_cons_of (h c List.mem_cons_self),
        ih (fun d hd => h d (List.mem_cons_of_mem _ hd)), List.zipWith_cons_cons, List.sum_cons]
      simp only [Nat.mod_add_mod, Nat.add_mod_mod, Nat.add_assoc]

/-- A character that is none stops the loop. -/
theorem groupLoop_zip_none {cs : List UInt8} {pows : List ℕ} (hlen : cs.length ≤ pows.length)
    (h : ∃ c ∈ cs, ¬ IsDigit c) (v : ℕ) : groupLoop (cs.zip pows) v = none := by
  induction cs generalizing pows v with
  | nil => exact absurd h (by simp)
  | cons c cs ih =>
    cases pows with
    | nil => exact absurd hlen (by simp)
    | cons pow pows =>
      by_cases hc : IsDigit c
      · rw [List.zip_cons_cons, groupLoop_cons_of hc]
        refine ih (Nat.le_of_succ_le_succ hlen) ?_ _
        obtain ⟨d, hd, hnot⟩ := h
        rcases List.mem_cons.1 hd with rfl | hd
        · exact absurd hc hnot
        · exact ⟨d, hd, hnot⟩
      · exact if_pos (not_not.1 hc)

theorem length_digits (k v : ℕ) : (digits k v).length = k := by
  induction k generalizing v with
  | zero => rfl
  | succ k ih => simp [digits, ih]

theorem toNat_digit (v : ℕ) : (UInt8.ofNat (0x21 + v % 85)).toNat = 0x21 + v % 85 := by
  rw [UInt8.toNat_ofNat']
  omega

/-- An encoder writes characters of the alphabet only. -/
theorem mem_digits {k v : ℕ} {c : UInt8} (h : c ∈ digits k v) :
    0x21 ≤ c.toNat ∧ c.toNat ≤ 0x75 := by
  induction k generalizing v with
  | zero => cases h
  | succ k ih =>
    rcases List.mem_append.1 h with h | h
    · exact ih h
    · rw [List.mem_singleton.1 h, toNat_digit]
      omega

theorem sum_zipWith_five (c₀ c₁ c₂ c₃ c₄ : UInt8) (b : ℕ) :
    ([c₀, c₁, c₂, c₃, c₄].zipWith (fun c pow => (c.toNat - 0x21) * pow)
      [b * b * b * b, b * b * b, b * b, b, 1]).sum =
      ((((c₀.toNat - 0x21) * b + (c₁.toNat - 0x21)) * b + (c₂.toNat - 0x21)) * b +
        (c₃.toNat - 0x21)) * b + (c₄.toNat - 0x21) := by
  simp only [List.zipWith_cons_cons, List.zipWith_nil_right, List.sum_cons, List.sum_nil]
  ring

/-- The number of five characters, digit by digit. -/
theorem value_five (c₀ c₁ c₂ c₃ c₄ : UInt8) :
    value [c₀, c₁, c₂, c₃, c₄] = ((((c₀.toNat - 0x21) * 85 + (c₁.toNat - 0x21)) * 85 +
      (c₂.toNat - 0x21)) * 85 + (c₃.toNat - 0x21)) * 85 + (c₄.toNat - 0x21) :=
  sum_zipWith_five c₀ c₁ c₂ c₃ c₄ 85

theorem value_digits {v : ℕ} (h : v < 85 * 85 * 85 * 85 * 85) : value (digits 5 v) = v := by
  have htop : v / 85 / 85 / 85 / 85 < 85 := by
    omega
  have hfive : digits 5 v = [UInt8.ofNat (0x21 + v / 85 / 85 / 85 / 85 % 85),
    UInt8.ofNat (0x21 + v / 85 / 85 / 85 % 85), UInt8.ofNat (0x21 + v / 85 / 85 % 85),
    UInt8.ofNat (0x21 + v / 85 % 85), UInt8.ofNat (0x21 + v % 85)] := rfl
  rw [hfive, value_five]
  simp only [toNat_digit, Nat.add_sub_cancel_left]
  rw [Nat.mod_eq_of_lt htop, Nat.div_add_mod', Nat.div_add_mod', Nat.div_add_mod',
    Nat.div_add_mod']

theorem digits_succ (k n : ℕ) {c : UInt8} (hlow : 0x21 ≤ c.toNat) (hhigh : c.toNat ≤ 0x75) :
    digits (k + 1) (n * 85 + (c.toNat - 0x21)) = digits k n ++ [c] := by
  have hdiv : (n * 85 + (c.toNat - 0x21)) / 85 = n := by omega
  have hmod : 0x21 + (n * 85 + (c.toNat - 0x21)) % 85 = c.toNat := by omega
  rw [digits, hdiv, hmod, UInt8.ofNat_toNat]

/-- Five characters of the alphabet are those of their number. -/
theorem digits_value {g : List UInt8} (hlen : g.length = 5)
    (h : ∀ c ∈ g, 0x21 ≤ c.toNat ∧ c.toNat ≤ 0x75) : digits 5 (value g) = g := by
  match g, hlen with
  | [c₀, c₁, c₂, c₃, c₄], _ =>
    simp only [List.mem_cons, List.not_mem_nil, or_false, forall_eq_or_imp, forall_eq] at h
    obtain ⟨h₀, h₁, h₂, h₃, h₄⟩ := h
    rw [value_five, digits_succ _ _ h₄.1 h₄.2, digits_succ _ _ h₃.1 h₃.2,
      digits_succ _ _ h₂.1 h₂.2, digits_succ _ _ h₁.1 h₁.2]
    have hfirst := digits_succ 0 0 h₀.1 h₀.2
    rw [Nat.zero_mul, Nat.zero_add (c₀.toNat - 0x21)] at hfirst
    rw [hfirst]
    rfl

/-- The decoder on a group. -/
theorem decodeLoop_group {g : List UInt8} (hg : IsGroup g) (rest : List UInt8) :
    decodeLoop (g ++ rest) =
      (groupLoop (g.zip pow85) 0).bind fun v => (decodeLoop rest).map (beBytes 4 v ++ ·) := by
  obtain ⟨hlen, hhead⟩ := hg
  match g, hlen with
  | [c₀, c₁, c₂, c₃, c₄], _ =>
    have hne : c₀ ≠ 0x7a := fun h => hhead (congrArg some h)
    exact if_neg hne

theorem word_eq {v w : ℕ} (h : v % 2 ^ 32 = w % 2 ^ 32) : beBytes 4 v = beBytes 4 w := by
  have hpow : (256 : ℕ) ^ 4 = 2 ^ 32 := by norm_num
  rw [← beBytes_mod 4 v, ← beBytes_mod 4 w, hpow, h]

/-- The word of a group whose five characters are digits. -/
theorem decodeLoop_digits {g : List UInt8} (hg : IsGroup g) (h : ∀ c ∈ g, IsDigit c)
    (rest : List UInt8) :
    decodeLoop (g ++ rest) = (decodeLoop rest).map (beBytes 4 (value g) ++ ·) := by
  obtain ⟨v, hv, hmod⟩ := Option.map_eq_some_iff.1 (groupLoop_zip h pow85 0)
  rw [Nat.zero_add] at hmod
  rw [decodeLoop_group hg, hv, Option.bind_some, word_eq hmod]
  rfl

theorem decodeLoop_none {g : List UInt8} (hg : IsGroup g) (h : ∃ c ∈ g, ¬ IsDigit c)
    (rest : List UInt8) : decodeLoop (g ++ rest) = none := by
  rw [decodeLoop_group hg, groupLoop_zip_none hg.1.le h]
  rfl

/-- What `base85_decode` makes of a single group. -/
theorem base85Decode_group {g : List UInt8} (hg : IsGroup g) :
    ((base85Decode g).ok = true ↔ ∀ c ∈ g, IsDigit c) ∧
      ((base85Decode g).ok = true → (base85Decode g).buf = beBytes 4 (value g)) := by
  have hne : g ≠ [] := fun h => by
    rw [h] at hg
    cases hg.1
  by_cases hall : ∀ c ∈ g, IsDigit c
  · have hloop := decodeLoop_digits hg hall []
    rw [List.append_nil] at hloop
    rw [base85Decode, if_neg hne, hloop]
    exact ⟨iff_of_true rfl hall, fun _ => List.append_nil _⟩
  · have hloop := decodeLoop_none hg (by simpa using hall) []
    rw [List.append_nil] at hloop
    rw [base85Decode, if_neg hne, hloop]
    exact ⟨iff_of_false Bool.false_ne_true hall, fun h => absurd h Bool.false_ne_true⟩

/-! ## The round trip -/

theorem isGroup_digits (v : ℕ) : IsGroup (digits 5 v) := by
  refine ⟨length_digits 5 v, fun hhead => ?_⟩
  have hmem : (0x7a : UInt8) ∈ digits 5 v := List.mem_of_mem_head? (Option.mem_def.2 hhead)
  exact absurd (mem_digits hmem).2 (by decide)

theorem isDigit_of_mem_digits {k v : ℕ} {c : UInt8} (h : c ∈ digits k v) : IsDigit c := by
  obtain ⟨hlow, hhigh⟩ := mem_digits h
  rintro (hlt | hgt)
  · exact absurd (UInt8.lt_iff_toNat_lt.1 hlt) (not_lt.2 hlow)
  · exact absurd (UInt8.lt_iff_toNat_lt.1 hgt) (not_lt.2 (hhigh.trans (by decide)))

theorem beNat_four_lt (b₀ b₁ b₂ b₃ : UInt8) : beNat [b₀, b₁, b₂, b₃] < 2 ^ 32 :=
  (beNat_lt [b₀, b₁, b₂, b₃]).trans_eq (by norm_num)

theorem decodeLoop_encodeLoop : ∀ words : List UInt8, 4 ∣ words.length →
    decodeLoop (encodeLoop words) = some words
  | [], _ => rfl
  | [_], h | [_, _], h | [_, _, _], h => by
    simp only [List.length_cons, List.length_nil] at h
    omega
  | b₀ :: b₁ :: b₂ :: b₃ :: rest, h => by
    have hrest : 4 ∣ rest.length := by
      simp only [List.length_cons] at h
      omega
    have hlt := beNat_four_lt b₀ b₁ b₂ b₃
    rw [encodeLoop, decodeLoop_digits (isGroup_digits _) (fun _ => isDigit_of_mem_digits),
      decodeLoop_encodeLoop rest hrest, value_digits (by omega), Option.map_some]
    exact congrArg (fun word => some (word ++ rest)) (beBytes_beNat [b₀, b₁, b₂, b₃])

/-- **What is encoded is decoded again**, with the zeros that fill up the last word. -/
theorem decode_encode (buf : List UInt8) :
    (base85Decode (base85Encode buf)).buf = buf ++ List.replicate (padding buf.length) 0 ∧
      ((base85Decode (base85Encode buf)).ok = true ↔ buf ≠ []) := by
  cases buf with
  | nil => exact ⟨rfl, by decide⟩
  | cons b buf =>
    have hloop := decodeLoop_encodeLoop ((b :: buf) ++
      List.replicate (padding (b :: buf).length) 0) (by
        rw [List.length_append, List.length_replicate, padding]
        omega)
    have hne : base85Encode (b :: buf) ≠ [] := fun h => by
      rw [base85Encode] at h
      rw [h] at hloop
      cases hloop
    rw [base85Decode, if_neg hne, base85Encode, hloop]
    exact ⟨rfl, iff_of_true rfl (List.cons_ne_nil b buf)⟩

/-! ## Groups that no encoder writes -/

/-- Some encoder writes the group. -/
def Encodes (g : List UInt8) : Prop := ∃ word : List UInt8, word.length = 4 ∧ g = base85Encode word

/-- The characters are of the alphabet and spell a word of 32 bits. -/
def Fits (g : List UInt8) : Prop := (∀ c ∈ g, 0x21 ≤ c ∧ c ≤ 0x75) ∧ value g < 2 ^ 32

theorem toNat_bounds {c : UInt8} : 0x21 ≤ c ∧ c ≤ 0x75 ↔ 0x21 ≤ c.toNat ∧ c.toNat ≤ 0x75 := by
  rw [UInt8.le_iff_toNat_le, UInt8.le_iff_toNat_le]
  exact Iff.rfl

theorem encode_word {word : List UInt8} (h : word.length = 4) :
    base85Encode word = digits 5 (beNat word) := by
  match word, h with
  | [b₀, b₁, b₂, b₃], _ =>
    have hpad : padding [b₀, b₁, b₂, b₃].length = 0 := by
      rw [padding, List.length_cons, List.length_cons, List.length_cons, List.length_cons,
        List.length_nil]
    rw [base85Encode, hpad, List.replicate_zero, List.append_nil, encodeLoop]
    exact List.append_nil _

theorem beNat_word_lt {word : List UInt8} (h : word.length = 4) : beNat word < 2 ^ 32 := by
  have hlt := beNat_lt word
  rw [h] at hlt
  exact hlt.trans_eq (by norm_num)

theorem encodes_iff_fits {g : List UInt8} (hg : IsGroup g) : Encodes g ↔ Fits g := by
  constructor
  · rintro ⟨word, hword, rfl⟩
    have hlt := beNat_word_lt hword
    rw [encode_word hword]
    refine ⟨fun c hc => toNat_bounds.2 (mem_digits hc), ?_⟩
    rwa [value_digits (by omega)]
  · rintro ⟨halphabet, hvalue⟩
    refine ⟨beBytes 4 (value g), length_beBytes 4 _, ?_⟩
    rw [encode_word (length_beBytes 4 _), beNat_beBytes (hvalue.trans_eq (by norm_num))]
    exact (digits_value hg.1 fun c hc => toNat_bounds.1 (halphabet c hc)).symm

theorem Fits.isDigit {g : List UInt8} (h : Fits g) : ∀ c ∈ g, IsDigit c := by
  intro c hc
  obtain ⟨hlow, hhigh⟩ := toNat_bounds.1 (h.1 c hc)
  rintro (hlt | hgt)
  · exact absurd (UInt8.lt_iff_toNat_lt.1 hlt) (not_lt.2 hlow)
  · exact absurd (UInt8.lt_iff_toNat_lt.1 hgt) (not_lt.2 (hhigh.trans (by decide)))

/-- What the decoder should do with two groups: reject each that no encoder writes, and decode them
to different words if they are different. -/
structure Sound (g g' : List UInt8) : Prop where
  left : (base85Decode g).ok = true → Encodes g
  right : (base85Decode g').ok = true → Encodes g'
  distinct : (base85Decode g).ok = true → (base85Decode g').ok = true → g ≠ g' →
    (base85Decode g).buf ≠ (base85Decode g').buf

/-- The group has a character outside `!` to `z`, or none outside the alphabet and a number of 32
bits. -/
def Clean (g : List UInt8) : Prop := (∃ c ∈ g, ¬ IsDigit c) ∨ Fits g

theorem isClean_iff {g : List UInt8} (hg : IsGroup g) :
    ((base85Decode g).ok = true → Encodes g) ↔ Clean g := by
  rw [(base85Decode_group hg).1, encodes_iff_fits hg, imp_iff_not_or, Clean]
  simp only [not_forall, exists_prop]

theorem pair_sound_iff {g g' : List UInt8} (hg : IsGroup g) (hg' : IsGroup g') :
    Sound g g' ↔ Clean g ∧ Clean g' := by
  constructor
  · rintro ⟨hleft, hright, -⟩
    exact ⟨(isClean_iff hg).1 hleft, (isClean_iff hg').1 hright⟩
  · rintro ⟨hclean, hclean'⟩
    have hleft := (isClean_iff hg).2 hclean
    have hright := (isClean_iff hg').2 hclean'
    refine ⟨hleft, hright, fun hok hok' hne heq => hne ?_⟩
    rw [(base85Decode_group hg).2 hok, (base85Decode_group hg').2 hok'] at heq
    obtain ⟨halphabet, hvalue⟩ := (encodes_iff_fits hg).1 (hleft hok)
    obtain ⟨halphabet', hvalue'⟩ := (encodes_iff_fits hg').1 (hright hok')
    have hsame : value g = value g' := by
      rw [← beNat_beBytes (hvalue.trans_eq (by norm_num : 2 ^ 32 = 256 ^ 4)),
        ← beNat_beBytes (hvalue'.trans_eq (by norm_num : 2 ^ 32 = 256 ^ 4)), heq]
    rw [← digits_value hg.1 fun c hc => toNat_bounds.1 (halphabet c hc), hsame,
      digits_value hg'.1 fun c hc => toNat_bounds.1 (halphabet' c hc)]

/-! ## Texts -/

/-- The pieces that the decoder reads one after the other. -/
def pieces : List UInt8 → List (List UInt8)
  | [] => []
  | c₀ :: rest =>
    if c₀ = 0x7a then [c₀] :: pieces rest
    else
      match rest with
      | c₁ :: c₂ :: c₃ :: c₄ :: rest => [c₀, c₁, c₂, c₃, c₄] :: pieces rest
      | _ => []

/-- What has been decoded of the pieces, if each of them is accepted. -/
def decoded (ps : List (List UInt8)) : Option (List UInt8) :=
  if ∀ g ∈ ps, (base85Decode g).ok = true then some (ps.flatMap fun g => (base85Decode g).buf)
  else none

theorem decoded_cons_of_ok {g : List UInt8} (h : (base85Decode g).ok = true)
    (ps : List (List UInt8)) :
    decoded (g :: ps) = (decoded ps).map ((base85Decode g).buf ++ ·) := by
  unfold decoded
  simp only [List.forall_mem_cons, h, true_and, List.flatMap_cons]
  split <;> rfl

theorem decoded_cons_of_not_ok {g : List UInt8} (h : ¬ (base85Decode g).ok = true)
    (ps : List (List UInt8)) : decoded (g :: ps) = none :=
  if_neg fun hall => h (hall g List.mem_cons_self)

/-- Too few characters are left for a group. -/
theorem loop_short {c₀ : UInt8} (hz : ¬ c₀ = 0x7a) {rest : List UInt8} (hlen : rest.length < 4) :
    decodeLoop (c₀ :: rest) = some [] ∧ pieces (c₀ :: rest) = [] := by
  match rest, hlen with
  | [], _ | [_], _ | [_, _], _ | [_, _, _], _ => simp [decodeLoop, pieces, hz]

theorem pieces_group {c₀ : UInt8} (hz : ¬ c₀ = 0x7a) (c₁ c₂ c₃ c₄ : UInt8) (rest : List UInt8) :
    pieces (c₀ :: c₁ :: c₂ :: c₃ :: c₄ :: rest) = [c₀, c₁, c₂, c₃, c₄] :: pieces rest := by
  conv_lhs => unfold pieces
  exact if_neg hz

theorem decodeLoop_pieces (text : List UInt8) : decodeLoop text = decoded (pieces text) := by
  induction hlen : text.length using Nat.strong_induction_on generalizing text with
  | _ n ih =>
  subst hlen
  match text with
  | [] => rfl
  | c₀ :: rest =>
    by_cases hz : c₀ = 0x7a
    · have hpieces : pieces (c₀ :: rest) = [c₀] :: pieces rest := by
        conv_lhs => unfold pieces
        exact if_pos hz
      subst hz
      rw [hpieces, decoded_cons_of_ok rfl, ← ih _ (Nat.lt_succ_self _) rest rfl]
      conv_lhs => unfold decodeLoop
      exact if_pos rfl
    · match rest with
      | c₁ :: c₂ :: c₃ :: c₄ :: rest =>
        have hg : IsGroup [c₀, c₁, c₂, c₃, c₄] := ⟨rfl, fun h => hz (Option.some.inj h)⟩
        have happend : c₀ :: c₁ :: c₂ :: c₃ :: c₄ :: rest = [c₀, c₁, c₂, c₃, c₄] ++ rest := rfl
        rw [pieces_group hz, happend]
        by_cases hok : (base85Decode [c₀, c₁, c₂, c₃, c₄]).ok = true
        · have hlt : rest.length < (c₀ :: c₁ :: c₂ :: c₃ :: c₄ :: rest).length := by
            simp only [List.length_cons]
            omega
          rw [decoded_cons_of_ok hok, ← ih _ hlt rest rfl, (base85Decode_group hg).2 hok]
          exact decodeLoop_digits hg ((base85Decode_group hg).1.1 hok) rest
        · rw [decoded_cons_of_not_ok hok]
          refine decodeLoop_none hg ?_ rest
          rw [(base85Decode_group hg).1, not_forall] at hok
          obtain ⟨c, hc⟩ := hok
          exact ⟨c, Classical.not_imp.1 hc⟩
      | [] | [_] | [_, _] | [_, _, _] =>
        rw [(loop_short hz ?_).1, (loop_short hz ?_).2]
        · rfl
        all_goals simp

/-- A text is accepted if each of its pieces is, and decoded piece by piece. -/
theorem base85Decode_pieces (text : List UInt8) :
    ((base85Decode text).ok = true ↔
        text ≠ [] ∧ ∀ g ∈ pieces text, (base85Decode g).ok = true) ∧
      ((base85Decode text).ok = true →
        (base85Decode text).buf = (pieces text).flatMap fun g => (base85Decode g).buf) := by
  by_cases hne : text = []
  · rw [hne]
    exact ⟨by simp [base85Decode], fun h => absurd h Bool.false_ne_true⟩
  by_cases hall : ∀ g ∈ pieces text, (base85Decode g).ok = true
  · have hloop : decodeLoop text = some ((pieces text).flatMap fun g => (base85Decode g).buf) :=
      (decodeLoop_pieces text).trans (if_pos hall)
    have htext : base85Decode text =
        ⟨(pieces text).flatMap fun g => (base85Decode g).buf, true⟩ := by
      rw [base85Decode, if_neg hne, hloop]
    rw [htext]
    exact ⟨iff_of_true rfl ⟨hne, hall⟩, fun _ => rfl⟩
  · have hloop : decodeLoop text = none := (decodeLoop_pieces text).trans (if_neg hall)
    have htext : base85Decode text = ⟨[], false⟩ := by
      rw [base85Decode, if_neg hne, hloop]
    rw [htext]
    exact ⟨iff_of_false Bool.false_ne_true fun h => hall h.2, fun h => absurd h Bool.false_ne_true⟩

/-- **BASE85.** What is encoded is decoded again; a text is read piece by piece; and two groups are
treated as they should be just when both are clean. -/
theorem base85_groups (buf text g g' : List UInt8) :
    ((base85Decode (base85Encode buf)).buf = buf ++ List.replicate (padding buf.length) 0 ∧
      ((base85Decode (base85Encode buf)).ok = true ↔ buf ≠ [])) ∧
    (((base85Decode text).ok = true ↔
        text ≠ [] ∧ ∀ g ∈ pieces text, (base85Decode g).ok = true) ∧
      ((base85Decode text).ok = true →
        (base85Decode text).buf = (pieces text).flatMap fun g => (base85Decode g).buf)) ∧
    (IsGroup g → IsGroup g' → (Sound g g' ↔ Clean g ∧ Clean g')) :=
  ⟨decode_encode buf, base85Decode_pieces text, pair_sound_iff⟩

theorem base85_groups_four :
    Sound [0x21, 0x21, 0x21, 0x21, 0x22] [0x21, 0x21, 0x21, 0x22, 0x21] ↔
      Clean [0x21, 0x21, 0x21, 0x21, 0x22] ∧ Clean [0x21, 0x21, 0x21, 0x22, 0x21] :=
  (base85_groups [] [] _ _).2.2 ⟨rfl, by decide⟩ ⟨rfl, by decide⟩

/-- `!!!!v` is accepted, which no encoder writes, and decoded as `!!!"!` is. -/
theorem pair_not_sound : ¬ ∀ g g', IsGroup g → IsGroup g' → Sound g g' := by
  intro h
  have hsound := h [0x21, 0x21, 0x21, 0x21, 0x76] [0x21, 0x21, 0x21, 0x22, 0x21] ⟨rfl, by decide⟩
    ⟨rfl, by decide⟩
  exact hsound.distinct (by decide) (by decide) (by decide) (by decide)

end MacHPSDR.Hfdl.Base85
