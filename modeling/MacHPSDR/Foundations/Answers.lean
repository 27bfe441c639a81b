import Mathlib

/-!
# Machines that answer

A machine that takes requests one after the other and answers each. `run` collects the answers of
one that always goes on, `exec` those of one that may break down. An implementation whose every
step, from a state that stands for a state of the specification, answers as the specification does
and stands for its next state afterwards, answers whole runs so (`exec_simulates`).
-/

namespace MacHPSDR.Answers

variable {σ τ ι κ ω ψ : Type*}

/-- The answers to the requests, and the state after them. -/
def run (spec : τ → κ → ψ × τ) : τ → List κ → List ψ × τ
  | t, [] => ([], t)
  | t, i :: is => ((spec t i).1 :: (run spec (spec t i).2 is).1, (run spec (spec t i).2 is).2)

/-- As `run`, for a machine with requests it does not survive. -/
def exec (step : σ → ι → Option (ω × σ)) : σ → List ι → Option (List ω × σ)
  | s, [] => some ([], s)
  | s, i :: is =>
    (step s i).bind fun r => (exec step r.2 is).map fun rest => (r.1 :: rest.1, rest.2)

variable {spec : τ → κ → ψ × τ} {step : σ → ι → Option (ω × σ)}

@[simp] theorem run_nil (t : τ) : run spec t [] = ([], t) := rfl

theorem run_cons (t : τ) (i : κ) (is : List κ) :
    run spec t (i :: is) =
      ((spec t i).1 :: (run spec (spec t i).2 is).1, (run spec (spec t i).2 is).2) :=
  rfl

@[simp] theorem exec_nil (s : σ) : exec step s [] = some ([], s) := rfl

theorem exec_cons_of {s s' : σ} {i : ι} {o : ω} (h : step s i = some (o, s')) (is : List ι) :
    exec step s (i :: is) = (exec step s' is).map fun rest => (o :: rest.1, rest.2) := by
  simp [exec, h]

theorem exec_cons_none {s : σ} {i : ι} (h : step s i = none) (is : List ι) :
    exec step s (i :: is) = none := by
  simp [exec, h]

/-- What holds in a state and is kept by every request holds after a run. -/
theorem run_induction {I : τ → Prop} (hstep : ∀ t i, I t → I (spec t i).2) {t : τ} (ht : I t)
    (is : List κ) : I (run spec t is).2 := by
  induction is generalizing t with
  | nil => exact ht
  | cons i is ih => exact ih (hstep t i ht)

/-- A machine that survives every request. -/
theorem exec_some (step : σ → ι → ω × σ) (s : σ) (is : List ι) :
    exec (fun s i => some (step s i)) s is = some (run step s is) := by
  induction is generalizing s with
  | nil => rfl
  | cons i is ih =>
    rw [exec, Option.bind_some, ih]
    rfl

/-- **Simulation.** `f` translates the requests and `g` the answers. -/
theorem exec_simulates (spec : τ → κ → ψ × τ) (step : σ → ι → Option (ω × σ))
    {R : σ → τ → Prop} {f : ι → κ} {g : ι → ψ → ω}
    (hstep : ∀ s t i, R s t →
      ∃ s', step s i = some (g i (spec t (f i)).1, s') ∧ R s' (spec t (f i)).2)
    {s : σ} {t : τ} (h : R s t) (is : List ι) :
    ∃ s', exec step s is = some (List.zipWith g is (run spec t (is.map f)).1, s') ∧
      R s' (run spec t (is.map f)).2 := by
  induction is generalizing s t with
  | nil => exact ⟨s, rfl, h⟩
  | cons i is ih =>
    obtain ⟨s₁, hs₁, h₁⟩ := hstep s t i h
    obtain ⟨s₂, hs₂, h₂⟩ := ih h₁
    refine ⟨s₂, ?_, h₂⟩
    rw [exec_cons_of hs₁, hs₂]
    rfl

end MacHPSDR.Answers
