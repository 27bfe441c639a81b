import Mathlib

/-!
# Numbered pieces

A whole is sent in pieces that may come in any order and more than once. The pieces are numbered
from 1 and a receiver keeps them in a table by place (`PieceTable`), the piece `i + 1` at place `i`,
each as it came first (`PieceTable.of`).

The first `n` pieces joined are `join`; `row` walks the table from a place up to the first piece
that is missing, as a loop does that does not know how many there are. The two meet in
`flatten_row`, and `le_length_row` says how far the walk gets.
-/

namespace MacHPSDR

/-- A table of pieces by place. -/
abbrev PieceTable (β : Type*) := ℕ → Option (List β)

namespace PieceTable

variable {β : Type*}

/-- No piece is there. -/
def empty : PieceTable β := fun _ => none

/-- Fill a place. -/
def put (p : PieceTable β) (i : ℕ) (b : List β) : PieceTable β := Function.update p i (some b)

/-- The first copy of every piece that has arrived. -/
def of (arrived : List (ℕ × List β)) : PieceTable β := fun i => arrived.lookup (i + 1)

/-- The first `n` pieces are there. -/
def Full (p : PieceTable β) (n : ℕ) : Prop := ∀ i < n, (p i).isSome

instance (p : PieceTable β) (n : ℕ) : Decidable (p.Full n) :=
  inferInstanceAs (Decidable (∀ i < n, (p i).isSome))

/-- The first `n` pieces in their order. -/
def join (p : PieceTable β) (n : ℕ) : List β := (List.range n).flatMap fun i => (p i).getD []

/-- The pieces from place `i` on up to the first that is missing, `n` of them at most. -/
def row (p : PieceTable β) : ℕ → ℕ → List (List β)
  | _, 0 => []
  | i, n + 1 =>
    match p i with
    | none => []
    | some b => b :: row p (i + 1) n

/-! ## First copies -/

@[simp] theorem of_nil : of ([] : List (ℕ × List β)) = empty := rfl

theorem of_eq_some {arrived : List (ℕ × List β)} {i : ℕ} {b : List β}
    (h : of arrived i = some b) : (i + 1, b) ∈ arrived := by
  obtain ⟨l, l', heq, -⟩ := List.lookup_eq_some_iff.1 h
  rw [heq]
  simp

theorem isSome_of_iff {arrived : List (ℕ × List β)} {i : ℕ} :
    (of arrived i).isSome ↔ ∃ b, (i + 1, b) ∈ arrived := by
  constructor
  · intro h
    obtain ⟨b, hb⟩ := Option.isSome_iff_exists.1 h
    exact ⟨b, of_eq_some hb⟩
  · rintro ⟨b, hb⟩
    refine List.lookup_isSome_iff.2 ⟨(i + 1, b), hb, ?_⟩
    simp

theorem of_concat (arrived : List (ℕ × List β)) (i : ℕ) (b : List β) (j : ℕ) :
    of (arrived ++ [(i + 1, b)]) j = (of arrived j).or (if j = i then some b else none) := by
  unfold of
  rw [List.lookup_append]
  by_cases hj : j = i
  · simp [hj]
  · have hne : (j + 1 == i + 1) = false := beq_false_of_ne fun h => hj (Nat.succ.inj h)
    simp only [List.lookup, hne, hj, if_false]

/-- A piece that is there stays as it is. -/
theorem of_concat_of_isSome {arrived : List (ℕ × List β)} {i : ℕ} (b : List β)
    (h : (of arrived i).isSome) : of (arrived ++ [(i + 1, b)]) = of arrived := by
  funext j
  rw [of_concat]
  by_cases hj : j = i
  · subst hj
    obtain ⟨c, hc⟩ := Option.isSome_iff_exists.1 h
    rw [hc, Option.some_or]
  · simp [hj]

/-- A piece that is not there is filled in. -/
theorem of_concat_of_none {arrived : List (ℕ × List β)} {i : ℕ} (b : List β)
    (h : of arrived i = none) : of (arrived ++ [(i + 1, b)]) = (of arrived).put i b := by
  funext j
  rw [of_concat]
  by_cases hj : j = i
  · subst hj
    simp [h, put]
  · simp [hj, put]

theorem of_concat_of_ne (arrived : List (ℕ × List β)) {i j : ℕ} (b : List β) (h : j ≠ i) :
    of (arrived ++ [(i + 1, b)]) j = of arrived j := by
  simp [of_concat, h]

theorem of_concat_self (arrived : List (ℕ × List β)) (i : ℕ) (b : List β) :
    (of (arrived ++ [(i + 1, b)]) i).isSome :=
  isSome_of_iff.2 ⟨b, by simp⟩

/-! ## Joining -/

theorem join_succ (p : PieceTable β) (n : ℕ) : p.join (n + 1) = p.join n ++ (p n).getD [] := by
  simp [join, List.range_succ]

theorem length_join_mono (p : PieceTable β) {m n : ℕ} (h : m ≤ n) :
    (p.join m).length ≤ (p.join n).length := by
  induction n, h using Nat.le_induction with
  | base => exact le_rfl
  | succ n _ ih =>
    rw [join_succ, List.length_append]
    omega

/-! ## Walking -/

theorem length_row_le (p : PieceTable β) (i n : ℕ) : (p.row i n).length ≤ n := by
  induction n generalizing i with
  | zero => exact le_rfl
  | succ n ih =>
    unfold row
    cases p i with
    | none => simp
    | some b => simpa using ih (i + 1)

/-- The walk gets `m` pieces far exactly when they are all there. -/
theorem le_length_row (p : PieceTable β) (i n m : ℕ) :
    m ≤ (p.row i n).length ↔ m ≤ n ∧ ∀ j < m, (p (i + j)).isSome := by
  induction n generalizing i m with
  | zero =>
    simp only [row, List.length_nil, Nat.le_zero]
    constructor
    · rintro rfl
      exact ⟨rfl, fun j hj => absurd hj (Nat.not_lt_zero j)⟩
    · exact fun h => h.1
  | succ n ih =>
    cases m with
    | zero => simp
    | succ m =>
      unfold row
      cases hi : p i with
      | none =>
        simp only [List.length_nil, Nat.le_zero, Nat.succ_ne_zero, false_iff, not_and]
        intro _ hall
        have hzero := hall 0 m.succ_pos
        rw [Nat.add_zero, hi] at hzero
        cases hzero
      | some b =>
        simp only [List.length_cons, Nat.succ_le_succ_iff, ih (i + 1) m]
        refine and_congr_right fun _ => ?_
        constructor
        · intro hall j hj
          cases j with
          | zero => simp [hi]
          | succ j =>
            rw [← Nat.add_assoc, Nat.add_right_comm]
            exact hall j (Nat.lt_of_succ_lt_succ hj)
        · intro hall j hj
          rw [Nat.add_right_comm, Nat.add_assoc]
          exact hall (j + 1) (Nat.succ_lt_succ hj)

theorem full_iff_le_length_row (p : PieceTable β) {n m : ℕ} (h : m ≤ n) :
    p.Full m ↔ m ≤ (p.row 0 n).length := by
  rw [le_length_row]
  simp [h, Full]

theorem flatten_row (p : PieceTable β) (n : ℕ) :
    (p.row 0 n).flatten = p.join (p.row 0 n).length := by
  have hgen (i m : ℕ) : (p.row i m).flatten =
      (List.range (p.row i m).length).flatMap fun j => (p (i + j)).getD [] := by
    induction m generalizing i with
    | zero => rfl
    | succ m ih =>
      unfold row
      cases hi : p i with
      | none => rfl
      | some b =>
        rw [List.flatten_cons, ih (i + 1), List.length_cons, List.range_succ_eq_map,
          List.flatMap_cons, List.flatMap_map]
        simp only [Nat.add_zero, hi, Option.getD_some, Nat.add_right_comm i 1, Nat.succ_eq_add_one,
          ← Nat.add_assoc]
  simpa [join] using hgen 0 n

theorem full_row (p : PieceTable β) (n : ℕ) : p.Full (p.row 0 n).length :=
  (p.full_iff_le_length_row (p.length_row_le 0 n)).2 le_rfl

/-- The walk ends at a piece that is missing, or after `n` pieces. -/
theorem row_stop (p : PieceTable β) (n : ℕ) :
    (p.row 0 n).length = n ∨ p (p.row 0 n).length = none := by
  rcases (p.length_row_le 0 n).eq_or_lt with heq | hlt
  · exact .inl heq
  · refine .inr (Option.not_isSome_iff_eq_none.1 fun hsome => ?_)
    have hnext : p.Full ((p.row 0 n).length + 1) := by
      intro i hi
      rcases Nat.lt_succ_iff_lt_or_eq.1 hi with hlt' | rfl
      · exact p.full_row n i hlt'
      · exact hsome
    have hle := (p.full_iff_le_length_row hlt).1 hnext
    omega

/-- The pieces in a row reach a size exactly when some first pieces do that are all there. -/
theorem le_length_flatten_row (p : PieceTable β) (n size : ℕ) :
    size ≤ (p.row 0 n).flatten.length ↔
      ∃ m ≤ n, p.Full m ∧ size ≤ (p.join m).length := by
  rw [flatten_row]
  constructor
  · intro h
    exact ⟨_, p.length_row_le 0 n, p.full_row n, h⟩
  · rintro ⟨m, hm, hfull, hsize⟩
    exact hsize.trans (p.length_join_mono ((p.full_iff_le_length_row hm).1 hfull))

end PieceTable

end MacHPSDR
