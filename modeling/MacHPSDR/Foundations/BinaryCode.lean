import Mathlib

/-!
# Binary linear codes given by masks

A word is a list of bits, and a check is a mask, a number whose bit `i` says whether the check looks
at bit `i` of the word. A word passes a check if the bits that it looks at have even parity, which
is linear in the mask (`pairing_xor`); so it passes every sum of the checks that it passes
(`pairing_combine`), and two lists of checks are passed by the same words as soon as each list
consists of sums of the other (`null_iff`). Which sums they are is a certificate, a list of masks
that is checked by evaluation.

`systematic` are the checks of a code that appends to a message one parity bit for each mask of a
list; the words that pass them are the messages with these bits appended (`null_systematic`).
-/

namespace MacHPSDR.BinaryCode

/-- The parity of the bits of the word that the mask looks at. -/
def pairing : List Bool → ℕ → Bool
  | [], _ => false
  | b :: x, m => (b && m.testBit 0) ^^ pairing x (m >>> 1)

@[simp] theorem pairing_zero (x : List Bool) : pairing x 0 = false := by
  induction x with
  | nil => rfl
  | cons b x ih => simp [pairing, ih]

theorem pairing_xor (x : List Bool) (m n : ℕ) :
    pairing x (m ^^^ n) = (pairing x m ^^ pairing x n) := by
  induction x generalizing m n with
  | nil => rfl
  | cons b x ih =>
    rw [pairing, pairing, pairing, Nat.testBit_xor, Nat.shiftRight_xor_distrib, ih]
    cases b <;> cases m.testBit 0 <;> cases n.testBit 0 <;> simp

theorem pairing_append (x y : List Bool) (m : ℕ) :
    pairing (x ++ y) m = (pairing x m ^^ pairing y (m >>> x.length)) := by
  induction x generalizing m with
  | nil => simp [pairing]
  | cons b x ih =>
    rw [List.cons_append, pairing, pairing, ih, List.length_cons, Nat.add_comm, Nat.shiftRight_add,
      Bool.xor_assoc]

/-- A mask that looks at no bit of the word. -/
theorem pairing_shiftLeft (x : List Bool) {k : ℕ} (hk : x.length ≤ k) (m : ℕ) :
    pairing x (m <<< k) = false := by
  induction x generalizing k with
  | nil => rfl
  | cons b x ih =>
    obtain ⟨j, rfl⟩ : ∃ j, k = j + 1 := ⟨k - 1, by rw [List.length_cons] at hk; omega⟩
    rw [List.length_cons] at hk
    have hshift : m <<< (j + 1) >>> 1 = m <<< j := by
      rw [Nat.shiftLeft_succ, Nat.shiftRight_eq_div_pow, pow_one, Nat.mul_div_cancel_left _ two_pos]
    rw [pairing, hshift, ih (by omega)]
    simp

/-- The mask that looks at one bit. -/
theorem pairing_one_shiftLeft (x : List Bool) (i : ℕ) :
    pairing x (1 <<< i) = x.getD i false := by
  induction x generalizing i with
  | nil => rfl
  | cons b x ih =>
    cases i with
    | zero => simp [pairing]
    | succ i =>
      have hshift : 1 <<< (i + 1) >>> 1 = 1 <<< i := by
        rw [Nat.shiftLeft_succ, Nat.shiftRight_eq_div_pow, pow_one,
          Nat.mul_div_cancel_left _ two_pos]
      rw [pairing, hshift, ih]
      simp

/-- The mask that looks at the places of the ones. -/
def maskOf : List Bool → ℕ
  | [] => 0
  | b :: y => b.toNat + 2 * maskOf y

theorem maskOf_lt (y : List Bool) : maskOf y < 2 ^ y.length := by
  induction y with
  | nil => decide
  | cons b y ih =>
    have hb := b.toNat_lt
    rw [maskOf, List.length_cons, Nat.pow_succ]
    omega

/-- The parity of the places where both words have a one. -/
theorem pairing_maskOf_cons (b c : Bool) (x y : List Bool) :
    pairing (b :: x) (maskOf (c :: y)) = ((b && c) ^^ pairing x (maskOf y)) := by
  have hlow : (maskOf (c :: y)).testBit 0 = c := by
    rw [maskOf, Nat.testBit_zero]
    cases c <;> simp
  have hrest : maskOf (c :: y) >>> 1 = maskOf y := by
    have hc := c.toNat_lt
    rw [maskOf, Nat.shiftRight_eq_div_pow, pow_one]
    omega
  rw [pairing, hlow, hrest]

theorem pairing_maskOf_append {x y : List Bool} (h : x.length = y.length) (u v : List Bool) :
    pairing (x ++ u) (maskOf (y ++ v)) = (pairing x (maskOf y) ^^ pairing u (maskOf v)) := by
  induction x generalizing y with
  | nil =>
    obtain rfl := List.length_eq_zero_iff.1 h.symm
    simp [pairing]
  | cons b x ih =>
    cases y with
    | nil => cases h
    | cons c y =>
      rw [List.cons_append, List.cons_append, pairing_maskOf_cons, pairing_maskOf_cons,
        ih (Nat.succ.inj h), Bool.xor_assoc]

theorem pairing_replicate_false (n m : ℕ) : pairing (List.replicate n false) m = false := by
  induction n generalizing m with
  | zero => rfl
  | succ n ih => simp [List.replicate_succ, pairing, ih]

/-- The sum of the rows that a mask selects. -/
def combine : List ℕ → ℕ → ℕ
  | [], _ => 0
  | r :: rows, sel => (if sel.testBit 0 then r else 0) ^^^ combine rows (sel >>> 1)

/-- The word passes every check. -/
def Null (rows : List ℕ) (x : List Bool) : Prop := ∀ r ∈ rows, pairing x r = false

theorem null_cons {r : ℕ} {rows : List ℕ} {x : List Bool} :
    Null (r :: rows) x ↔ pairing x r = false ∧ Null rows x :=
  List.forall_mem_cons

/-- A word passes the sums of the checks that it passes. -/
theorem pairing_combine {rows : List ℕ} {x : List Bool} (h : Null rows x) (sel : ℕ) :
    pairing x (combine rows sel) = false := by
  induction rows generalizing sel with
  | nil => exact pairing_zero x
  | cons r rows ih =>
    obtain ⟨hr, h⟩ := null_cons.1 h
    rw [combine, pairing_xor, ih h, Bool.xor_false]
    split
    · exact hr
    · exact pairing_zero x

/-- The rows of the second list are the sums of those of the first that the certificate selects. -/
def Spans (rows certificate targets : List ℕ) : Prop := certificate.map (combine rows) = targets

instance (rows certificate targets : List ℕ) : Decidable (Spans rows certificate targets) :=
  inferInstanceAs (Decidable (_ = _))

theorem Null.of_spans {rows certificate targets : List ℕ} {x : List Bool}
    (hspans : Spans rows certificate targets) (h : Null rows x) : Null targets x := by
  subst hspans
  intro t ht
  obtain ⟨sel, -, rfl⟩ := List.mem_map.1 ht
  exact pairing_combine h sel

/-- **Two lists of checks** of which each consists of sums of the other. -/
theorem null_iff (certificate certificate' : List ℕ) {rows rows' : List ℕ}
    (hspans : Spans rows certificate rows') (hspans' : Spans rows' certificate' rows)
    (x : List Bool) : Null rows x ↔ Null rows' x :=
  ⟨Null.of_spans hspans, Null.of_spans hspans'⟩

/-! ## Systematic codes -/

/-- The checks of a code that appends a bit for each mask of the list, the first at place `k`. -/
def systematic : ℕ → List ℕ → List ℕ
  | _, [] => []
  | k, g :: gs => (g ^^^ 1 <<< k) :: systematic (k + 1) gs

/-- The appended bits are looked at by a check each. -/
theorem pairing_systematic {message before after : List Bool} {bit : Bool} {g : ℕ}
    (hg : g < 2 ^ message.length) :
    pairing (message ++ (before ++ bit :: after)) (g ^^^ 1 <<< (message.length + before.length)) =
      (pairing message g ^^ bit) := by
  have hhigh : g >>> message.length = 0 := by
    rw [Nat.shiftRight_eq_div_pow, Nat.div_eq_of_lt hg]
  have hone : 1 <<< (message.length + before.length) >>> message.length = 1 <<< before.length := by
    rw [Nat.add_comm, Nat.shiftLeft_add, Nat.shiftLeft_shiftRight]
  have hbit : 1 <<< before.length >>> before.length = 1 := Nat.shiftLeft_shiftRight 1 _
  have hmask : pairing (message ++ (before ++ bit :: after)) g = pairing message g := by
    rw [pairing_append, hhigh, pairing_zero, Bool.xor_false]
  have hplace : pairing (message ++ (before ++ bit :: after))
      (1 <<< (message.length + before.length)) = bit := by
    rw [pairing_append, pairing_append, hone, hbit, pairing_shiftLeft before le_rfl,
      pairing_shiftLeft message (Nat.le_add_right _ _), pairing]
    simp
  rw [pairing_xor, hmask, hplace]

/-- **The words of a systematic code**: a message and the bits that its masks give. -/
theorem null_systematic {message : List Bool} {masks : List ℕ}
    (hmasks : ∀ g ∈ masks, g < 2 ^ message.length) {parity : List Bool}
    (hlen : parity.length = masks.length) :
    Null (systematic message.length masks) (message ++ parity) ↔
      parity = masks.map (pairing message) := by
  suffices h : ∀ before : List Bool,
      Null (systematic (message.length + before.length) masks) (message ++ (before ++ parity)) ↔
        parity = masks.map (pairing message) from h []
  induction masks generalizing parity with
  | nil =>
    intro before
    rw [List.length_eq_zero_iff.1 hlen]
    exact iff_of_true (List.forall_mem_nil _) rfl
  | cons g masks ih =>
    intro before
    obtain ⟨hg, hmasks⟩ := List.forall_mem_cons.1 hmasks
    cases parity with
    | nil => cases hlen
    | cons bit parity =>
      have hnext := ih hmasks (Nat.succ.inj hlen) (before ++ [bit])
      rw [List.length_append, List.length_singleton, ← Nat.add_assoc, List.append_assoc,
        List.singleton_append] at hnext
      rw [systematic, null_cons, pairing_systematic hg, hnext, List.map_cons, List.cons.injEq]
      refine and_congr_left fun _ => ?_
      cases pairing message g <;> cases bit <;> simp

end MacHPSDR.BinaryCode
