import MacHPSDR.Foundations.Transition

/-!
# Threads over a shared state

A pool is a shared state and, for each thread, a local state: the place in its code together with
its local variables. One thread moves at a time and an atomic step changes the shared state and
the mover's local state (`Pool.set`), so a run of a pool is an interleaving of the threads' steps.

Two ways to speak about the other threads are developed here. `Pending p` says that some thread is
at a place that satisfies `p`: invariants of the form "the shared state is right, or a thread that
will repair it is on its way" are kept as long as no thread leaves `p` unless it has done its
repair (`Pending.set`). `weight w` adds up a number over the threads, for counters that lag behind
the state they count by the updates that are still on their way (`weight_set`).

A thread whose local state is the list of atomic operations it has yet to run takes its next one
with `runNext`; an operation may put further operations in front of the rest (a call). `Queued p`
says that some thread has an operation that satisfies `p` ahead of it.
-/

namespace MacHPSDR

/-- A shared state and the local state of every thread. -/
structure Pool (σ τ κ : Type*) where
  shared : σ
  loc : τ → κ

namespace Pool

variable {σ τ κ : Type*}

/-- Some thread is at a place that satisfies `p`. -/
def Pending (c : Pool σ τ κ) (p : κ → Prop) : Prop := ∃ t, p (c.loc t)

theorem Pending.mono {c : Pool σ τ κ} {p q : κ → Prop} (h : c.Pending p)
    (hpq : ∀ k, p k → q k) : c.Pending q :=
  let ⟨t, ht⟩ := h; ⟨t, hpq _ ht⟩

section Set

variable [DecidableEq τ]

/-- Thread `t` makes a step to the shared state `s` and the local state `k`. -/
def set (c : Pool σ τ κ) (t : τ) (s : σ) (k : κ) : Pool σ τ κ :=
  ⟨s, Function.update c.loc t k⟩

@[simp] theorem set_shared (c : Pool σ τ κ) (t : τ) (s : σ) (k : κ) :
    (c.set t s k).shared = s := rfl

@[simp] theorem set_loc_self (c : Pool σ τ κ) (t : τ) (s : σ) (k : κ) :
    (c.set t s k).loc t = k := Function.update_self ..

theorem set_loc_of_ne (c : Pool σ τ κ) {t u : τ} (h : u ≠ t) (s : σ) (k : κ) :
    (c.set t s k).loc u = c.loc u := Function.update_of_ne h ..

/-- The local states after a step: the mover's new one, the old ones elsewhere. -/
theorem forall_loc_set {c : Pool σ τ κ} {t : τ} {s : σ} {k : κ} {P : τ → κ → Prop}
    (ht : P t k) (hu : ∀ u, u ≠ t → P u (c.loc u)) : ∀ u, P u ((c.set t s k).loc u) := by
  intro u
  by_cases h : u = t
  · subst h
    simpa using ht
  · rw [set_loc_of_ne c h]
    exact hu u h

/-- The mover arrives at a place that satisfies `p`. -/
theorem pending_set_self {c : Pool σ τ κ} {t : τ} {s : σ} {k : κ} {p : κ → Prop} (h : p k) :
    (c.set t s k).Pending p := ⟨t, by simpa using h⟩

/-- Another thread stays at a place that satisfies `p`. -/
theorem pending_set_of_ne {c : Pool σ τ κ} {t u : τ} {s : σ} {k : κ} {p : κ → Prop}
    (hu : u ≠ t) (h : p (c.loc u)) : (c.set t s k).Pending p :=
  ⟨u, by rwa [set_loc_of_ne c hu]⟩

/-- A step keeps `p` pending unless the mover was the one at `p` and leaves it. -/
theorem Pending.set {c : Pool σ τ κ} {p : κ → Prop} (h : c.Pending p) {t : τ} {s : σ} {k : κ}
    (hk : p (c.loc t) → p k) : (c.set t s k).Pending p := by
  obtain ⟨u, hu⟩ := h
  by_cases hut : u = t
  · subst hut
    exact pending_set_self (hk hu)
  · exact pending_set_of_ne hut hu

section Weight

variable [Fintype τ]

/-- The sum over the threads of the weight of the place each one is at. -/
def weight (w : κ → ℤ) (c : Pool σ τ κ) : ℤ := ∑ t, w (c.loc t)

/-- A step changes the weight by the difference at the mover. -/
theorem weight_set (w : κ → ℤ) (c : Pool σ τ κ) (t : τ) (s : σ) (k : κ) :
    (c.set t s k).weight w = c.weight w - w (c.loc t) + w k := by
  have hnew := Finset.add_sum_erase Finset.univ (fun u => w ((c.set t s k).loc u))
    (Finset.mem_univ t)
  have hold := Finset.add_sum_erase Finset.univ (fun u => w (c.loc u)) (Finset.mem_univ t)
  have hrest : ∑ u ∈ Finset.univ.erase t, w ((c.set t s k).loc u) =
      ∑ u ∈ Finset.univ.erase t, w (c.loc u) :=
    Finset.sum_congr rfl fun u hu => by rw [set_loc_of_ne c (Finset.ne_of_mem_erase hu)]
  simp only [set_loc_self, hrest] at hnew
  simp only [weight]
  rw [← hnew, ← hold]
  abel

omit [DecidableEq τ] in
theorem weight_eq_zero {w : κ → ℤ} {c : Pool σ τ κ} (h : ∀ t, w (c.loc t) = 0) :
    c.weight w = 0 := Finset.sum_eq_zero fun t _ => h t

end Weight

end Set

/-! ## Threads that run a list of operations -/

section Code

variable {ω : Type*}

/-- Some thread has yet to run an operation that satisfies `p`. -/
def Queued (c : Pool σ τ (List ω)) (p : ω → Bool) : Prop := c.Pending fun code => code.any p = true

instance [Fintype τ] (c : Pool σ τ (List ω)) (p : ω → Bool) : Decidable (c.Queued p) :=
  inferInstanceAs (Decidable (∃ t, (c.loc t).any p = true))

/-- No thread is in the middle of its code. -/
def Quiescent (c : Pool σ τ (List ω)) : Prop := ∀ t, c.loc t = []

instance [Fintype τ] (c : Pool σ τ (List ω)) : Decidable c.Quiescent :=
  decidable_of_iff (∀ t, (c.loc t).isEmpty = true) (by simp [Quiescent])

theorem Quiescent.not_queued {c : Pool σ τ (List ω)} (h : c.Quiescent) (p : ω → Bool) :
    ¬ c.Queued p := by
  rintro ⟨t, ht⟩
  simp [h t] at ht

theorem queued_of_mem {c : Pool σ τ (List ω)} {p : ω → Bool} {t : τ} {op : ω}
    (hmem : op ∈ c.loc t) (hp : p op = true) : c.Queued p :=
  ⟨t, List.any_eq_true.2 ⟨op, hmem, hp⟩⟩

variable [DecidableEq τ]

/-- Thread `t` runs its next operation; `f` says what an operation does to the shared state and
which operations it puts in front of the rest. -/
def runNext (f : σ → ω → σ × List ω) (c : Pool σ τ (List ω)) (t : τ) :
    Option (Pool σ τ (List ω)) :=
  match c.loc t with
  | [] => none
  | op :: rest => some (c.set t (f c.shared op).1 ((f c.shared op).2 ++ rest))

theorem runNext_eq_some {f : σ → ω → σ × List ω} {c c' : Pool σ τ (List ω)} {t : τ} :
    c.runNext f t = some c' ↔ ∃ op rest, c.loc t = op :: rest ∧
      c' = c.set t (f c.shared op).1 ((f c.shared op).2 ++ rest) := by
  unfold runNext
  split
  · rename_i h
    simp [h]
  · rename_i op rest h
    simp only [Option.some.injEq, h, List.cons.injEq]
    constructor
    · rintro rfl
      exact ⟨op, rest, ⟨rfl, rfl⟩, rfl⟩
    · rintro ⟨_, _, ⟨rfl, rfl⟩, rfl⟩
      rfl

/-- What was queued stays queued, unless it was the operation that is run. -/
theorem Queued.set_cons {c : Pool σ τ (List ω)} {p : ω → Bool} (h : c.Queued p) {t : τ} {op : ω}
    {rest : List ω} (hloc : c.loc t = op :: rest) (hop : p op = false) (s : σ) (push : List ω) :
    (c.set t s (push ++ rest)).Queued p := by
  refine Pending.set h fun hp => ?_
  simp only [hloc, List.any_cons, hop, Bool.false_or] at hp
  simp [hp]

/-- What an operation puts in front of the rest is queued. -/
theorem queued_push {c : Pool σ τ (List ω)} {p : ω → Bool} {t : τ} {push : List ω}
    (hp : push.any p = true) (s : σ) (rest : List ω) : (c.set t s (push ++ rest)).Queued p :=
  pending_set_self (by simp [hp])

/-- What stands behind the operation that is run stays queued. -/
theorem queued_rest {c : Pool σ τ (List ω)} {p : ω → Bool} {t : τ} {rest : List ω}
    (hp : rest.any p = true) (s : σ) (push : List ω) : (c.set t s (push ++ rest)).Queued p :=
  pending_set_self (by simp [hp])

/-- A thread that begins new code keeps what is queued in the others. -/
theorem Queued.set_nil {c : Pool σ τ (List ω)} {p : ω → Bool} (h : c.Queued p) {t : τ}
    (hloc : c.loc t = []) (s : σ) (code : List ω) : (c.set t s code).Queued p :=
  Pending.set h fun hp => by simp [hloc] at hp

end Code

end Pool

end MacHPSDR
