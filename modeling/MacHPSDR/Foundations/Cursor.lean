import Mathlib

/-!
# A cursor in a C string

A cursor is what is left of a C string up to its terminator. What is read at the end is the
terminator, a zero; a step over it is an `overrun`, and so is a read behind it. A loop has as much
fuel as it may go round, and a function that calls itself has a number of frames.

`Within` says that a piece of code comes to an end inside the text: either it refuses, or the cursor
it leaves is further on. It holds of a sequence if it holds of the parts (`Within.bind`).
-/

namespace MacHPSDR.Cursor

/-- Why a piece of code has no result. -/
inductive Stop
  | refused
  | overrun
  | outOfFuel
  | outOfFrames
  deriving DecidableEq

/-! ## The operations -/

/-- `*p` -/
def deref : List UInt8 → UInt8
  | [] => 0
  | c :: _ => c

/-- `p += n` -/
def advance : ℕ → List UInt8 → Except Stop (List UInt8)
  | 0, p => .ok p
  | _ + 1, [] => .error .overrun
  | n + 1, _ :: p => advance n p

/-- `p[n]` -/
def index (p : List UInt8) (n : ℕ) : Except Stop UInt8 := (advance n p).map deref

/-- `while (cond(*p)) p++;` -/
def skipWhile (cond : UInt8 → Bool) : ℕ → List UInt8 → Except Stop (List UInt8)
  | 0, _ => .error .outOfFuel
  | n + 1, p =>
    if cond (deref p) then do
      let p ← advance 1 p
      skipWhile cond n p
    else .ok p

/-- `strncmp(p, word, strlen(word)) == 0` -/
def startsWith : List UInt8 → List UInt8 → Except Stop Bool
  | [], _ => .ok true
  | c :: word, p =>
    if deref p = c then do
      let p ← advance 1 p
      startsWith word p
    else .ok false

/-! ## What they do -/

theorem ok_bind {α β : Type} (a : α) (f : α → Except Stop β) : (Except.ok a >>= f) = f a := rfl

/-- What is not the terminator can be stepped over. -/
theorem eq_cons_of_deref {p : List UInt8} {c : UInt8} (h : deref p = c) (hc : c ≠ 0) :
    p = c :: p.tail := by
  cases p with
  | nil => exact absurd h.symm hc
  | cons d p => rw [← h, List.tail_cons, deref]

theorem advance_eq {n : ℕ} {p : List UInt8} (h : n ≤ p.length) : advance n p = .ok (p.drop n) := by
  induction n generalizing p with
  | zero => rfl
  | succ n ih =>
    cases p with
    | nil => exact absurd h (Nat.not_succ_le_zero n)
    | cons c p => exact ih (Nat.le_of_succ_le_succ h)

theorem index_eq {n : ℕ} {p : List UInt8} (h : n ≤ p.length) :
    index p n = .ok (deref (p.drop n)) := by
  rw [index, advance_eq h]
  rfl

/-- The loop stops at the terminator, if not before. -/
theorem skipWhile_eq {cond : UInt8 → Bool} (hcond : cond 0 = false) {fuel : ℕ} {p : List UInt8}
    (h : p.length < fuel) : skipWhile cond fuel p = .ok (p.dropWhile cond) := by
  induction fuel generalizing p with
  | zero => exact absurd h (Nat.not_lt_zero _)
  | succ fuel ih =>
    cases p with
    | nil => exact if_neg (by rw [deref, hcond]; exact Bool.false_ne_true)
    | cons c p =>
      rw [skipWhile, deref]
      cases hc : cond c with
      | false => rw [if_neg Bool.false_ne_true, List.dropWhile_cons_of_neg (by simp [hc])]
      | true =>
        rw [if_pos rfl, List.dropWhile_cons_of_pos hc]
        exact ih (Nat.lt_of_succ_lt_succ h)

theorem startsWith_eq {word p : List UInt8} (hword : (0 : UInt8) ∉ word) :
    startsWith word p = .ok (word.isPrefixOf p) := by
  induction word generalizing p with
  | nil => rfl
  | cons c word ih =>
    obtain ⟨hc, hword'⟩ := not_or.1 (mt List.mem_cons.2 hword)
    rw [startsWith]
    cases p with
    | nil => exact if_neg hc
    | cons d p =>
      rw [deref]
      by_cases hd : d = c
      · rw [if_pos hd, List.isPrefixOf, hd, beq_self_eq_true, Bool.true_and]
        exact ih hword'
      · have hne : (c == d) = false := beq_eq_false_iff_ne.2 (Ne.symm hd)
        rw [if_neg hd, List.isPrefixOf, hne, Bool.false_and]

/-! ## Staying in the text -/

/-- The code refuses, or leaves a cursor in what `p` has in front of it; `rest` is the cursor in a
result. -/
def Within {α : Type} (rest : α → List UInt8) (p : List UInt8) : Except Stop α → Prop
  | .ok a => rest a <:+ p
  | .error stop => stop = .refused

section

variable {α β : Type} {rest : α → List UInt8} {rest' : β → List UInt8} {p q : List UInt8}

theorem Within.refuse : Within rest p (.error .refused) := rfl

theorem Within.mono (hq : q <:+ p) {x : Except Stop α} (h : Within rest q x) :
    Within rest p x := by
  cases x with
  | error stop => exact h
  | ok a => exact List.IsSuffix.trans h hq

theorem Within.bind {x : Except Stop α} {f : α → Except Stop β} (hx : Within rest p x)
    (hf : ∀ a, rest a <:+ p → Within rest' (rest a) (f a)) : Within rest' p (x >>= f) := by
  cases x with
  | error stop => exact hx
  | ok a => exact (hf a hx).mono hx

theorem within_advance {n : ℕ} (h : n ≤ p.length) : Within id p (advance n p) := by
  rw [advance_eq h]
  exact List.drop_suffix n p

theorem within_skipWhile {cond : UInt8 → Bool} (hcond : cond 0 = false) {fuel : ℕ}
    (h : p.length < fuel) : Within id p (skipWhile cond fuel p) := by
  rw [skipWhile_eq hcond h]
  exact List.dropWhile_suffix cond

/-- What comes to an end has a result or a refusal. -/
theorem Within.ok_or_refused {x : Except Stop α} (h : Within rest p x) :
    (∃ a, x = .ok a ∧ rest a <:+ p) ∨ x = .error .refused := by
  cases x with
  | error stop => exact .inr (congrArg Except.error h)
  | ok a => exact .inl ⟨a, rfl, h⟩

end

end MacHPSDR.Cursor
