import MacHPSDR.Foundations.Answers

/-!
# A bounded queue

A first-in first-out queue of at most `cap` values. A block is put into it whole or, when there is
no room for all of it, refused whole and its length counted; up to so many of the oldest values are
taken at once. In a run without a `clear` nothing is lost, repeated or reordered: what was there and
what was stored since is what was taken, followed by what is still there (`conservation`).
-/

namespace MacHPSDR.BoundedQueue

variable {α : Type*}

/-- What is in the queue, oldest first, and how many values have been refused. -/
structure Queue (α : Type*) where
  values : List α
  dropped : ℕ

def empty : Queue α := ⟨[], 0⟩

inductive Request (α : Type*)
  | push (block : List α)
  | pop (want : ℕ)
  | clear

/-- Whether the block was stored; how many values there were, and the oldest of them. -/
inductive Reply (α : Type*)
  | pushed (stored : Bool)
  | popped (available : ℕ) (values : List α)
  | cleared

def step (cap : ℕ) (q : Queue α) : Request α → Reply α × Queue α
  | .push block =>
    if q.values.length + block.length ≤ cap then
      (.pushed true, { q with values := q.values ++ block })
    else (.pushed false, { q with dropped := q.dropped + block.length })
  | .pop want =>
    (.popped q.values.length (q.values.take want), { q with values := q.values.drop want })
  | .clear => (.cleared, { q with values := [] })

/-- The replies to the requests, and the queue after them. -/
def run (cap : ℕ) : Queue α → List (Request α) → List (Reply α) × Queue α := Answers.run (step cap)

/-- What a request put into the queue. -/
def stored : Request α → Reply α → List α
  | .push block, .pushed true => block
  | _, _ => []

/-- What a request took out of it. -/
def taken : Reply α → List α
  | .popped _ values => values
  | _ => []

variable {cap : ℕ} {q : Queue α}

theorem step_push_of_le {block : List α} (h : q.values.length + block.length ≤ cap) :
    step cap q (.push block) = (.pushed true, { q with values := q.values ++ block }) :=
  if_pos h

theorem step_push_of_lt {block : List α} (h : cap < q.values.length + block.length) :
    step cap q (.push block) = (.pushed false, { q with dropped := q.dropped + block.length }) :=
  if_neg h.not_ge

theorem length_step_le (h : q.values.length ≤ cap) (r : Request α) :
    (step cap q r).2.values.length ≤ cap := by
  cases r with
  | push block =>
    by_cases hfit : q.values.length + block.length ≤ cap
    · simpa [step_push_of_le hfit] using hfit
    · rw [step_push_of_lt (not_le.1 hfit)]
      exact h
  | pop want =>
    simp only [step, List.length_drop]
    omega
  | clear => exact Nat.zero_le _

/-- There are never more than `cap` values in the queue. -/
theorem length_run_le (h : q.values.length ≤ cap) (rs : List (Request α)) :
    (run cap q rs).2.values.length ≤ cap :=
  Answers.run_induction (I := fun t : Queue α => t.values.length ≤ cap)
    (fun _ r ht => length_step_le ht r) h rs

/-- What is in the queue has been there or has been pushed. -/
theorem mem_run {rs : List (Request α)} {x : α} (h : x ∈ (run cap q rs).2.values) :
    x ∈ q.values ∨ ∃ block, .push block ∈ rs ∧ x ∈ block := by
  induction rs generalizing q with
  | nil => exact .inl h
  | cons r rs ih =>
    rcases ih (q := (step cap q r).2) h with hstep | ⟨block, hblock, hx⟩
    · cases r with
      | push block =>
        by_cases hfit : q.values.length + block.length ≤ cap
        · rw [step_push_of_le hfit, List.mem_append] at hstep
          exact hstep.imp id fun hx => ⟨block, List.mem_cons_self, hx⟩
        · rw [step_push_of_lt (not_le.1 hfit)] at hstep
          exact .inl hstep
      | pop want => exact .inl (List.mem_of_mem_drop hstep)
      | clear => cases hstep
    · exact .inr ⟨block, List.mem_cons_of_mem _ hblock, hx⟩

theorem step_conserves {r : Request α} (hr : r ≠ .clear) :
    q.values ++ stored r (step cap q r).1 = taken (step cap q r).1 ++ (step cap q r).2.values := by
  cases r with
  | push block =>
    by_cases hfit : q.values.length + block.length ≤ cap
    · rw [step_push_of_le hfit]
      rfl
    · rw [step_push_of_lt (not_le.1 hfit)]
      simp [stored, taken]
  | pop want => simp [step, stored, taken]
  | clear => exact absurd rfl hr

/-- **Nothing is lost, repeated or reordered.** -/
theorem conservation {rs : List (Request α)} (h : Request.clear ∉ rs) :
    q.values ++ (List.zipWith stored rs (run cap q rs).1).flatten =
      ((run cap q rs).1.map taken).flatten ++ (run cap q rs).2.values := by
  induction rs generalizing q with
  | nil => simp [run]
  | cons r rs ih =>
    rw [List.mem_cons, not_or] at h
    have hstep : q.values ++ stored r (step cap q r).1 =
        taken (step cap q r).1 ++ (step cap q r).2.values := step_conserves (Ne.symm h.1)
    have hrest := ih (q := (step cap q r).2) h.2
    simp only [run, Answers.run_cons, List.zipWith_cons_cons, List.flatten_cons, List.map_cons]
      at hrest ⊢
    rw [← List.append_assoc, hstep, List.append_assoc, hrest, List.append_assoc]

end MacHPSDR.BoundedQueue
