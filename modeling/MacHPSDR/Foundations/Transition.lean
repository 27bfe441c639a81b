import Mathlib

/-!
# Transition systems

A system is a start state and a partial step function on labels: a label names who moves and
with what input, and `none` says that the move is not possible. A run is a list of labels
(`exec`), so a concrete run is a term that evaluates. A claim about every run is proved with
`exec_induction` (an invariant that every step keeps) or, for the runs whose steps all meet a
side condition (`Along`), with `exec_induction_along`. `countAlong` counts the steps of a run that
meet a condition and `latestAlong` keeps the latest value seen, for invariants that carry the
history of the run.
-/

namespace MacHPSDR

/-- A transition system with labelled, partial, deterministic steps. -/
structure System (σ α : Type*) where
  init : σ
  step : σ → α → Option σ

namespace System

variable {σ α : Type*} (M : System σ α)

/-- Run a list of labels; `none` as soon as a label is not possible. -/
def exec : σ → List α → Option σ
  | s, [] => some s
  | s, a :: as => (M.step s a).bind fun t => exec t as

/-- Every step of the run starts at a state and takes a label that satisfy `P`. -/
def Along (P : σ → α → Prop) : σ → List α → Prop
  | _, [] => True
  | s, a :: as => P s a ∧ ∀ t, M.step s a = some t → Along P t as

/-- The number of steps of the run that start at a state and take a label that satisfy `P`. -/
def countAlong (P : σ → α → Prop) [DecidableRel P] : σ → List α → ℕ
  | _, [] => 0
  | s, a :: as => (if P s a then 1 else 0) +
      match M.step s a with
      | some t => countAlong P t as
      | none => 0

/-- The latest value that `f` gives along the run, `b` if it gives none. -/
def latestAlong {β : Type*} (f : σ → α → Option β) : β → σ → List α → β
  | b, _, [] => b
  | b, s, a :: as =>
      match M.step s a with
      | some t => latestAlong f ((f s a).getD b) t as
      | none => (f s a).getD b

/-- Every state that the run passes satisfies `P`. -/
def Throughout (P : σ → Prop) (s : σ) (as : List α) : Prop :=
  ∀ bs t, bs <+: as → M.exec s bs = some t → P t

/-- The states that some run reaches from the start. -/
def Reachable (s : σ) : Prop := ∃ as, M.exec M.init as = some s

@[simp] theorem exec_nil (s : σ) : M.exec s [] = some s := rfl

theorem exec_cons {s u : σ} {a : α} {as : List α} :
    M.exec s (a :: as) = some u ↔ ∃ t, M.step s a = some t ∧ M.exec t as = some u := by
  simp [exec, Option.bind_eq_some_iff]

/-- A run goes on where another ended. -/
theorem exec_append {s t : σ} {as bs : List α} (h : M.exec s as = some t) :
    M.exec s (as ++ bs) = M.exec t bs := by
  induction as generalizing s with
  | nil =>
    obtain rfl := Option.some.inj h
    rfl
  | cons a as ih =>
    obtain ⟨u, hu, ht⟩ := M.exec_cons.1 h
    simp [exec, hu, ih ht]

/-- A concrete run evaluates: the state it ends in satisfies a decidable property. -/
theorem exists_exec {P : σ → Prop} [DecidablePred P] {s : σ} {as : List α}
    (h : (M.exec s as).any (fun t => decide (P t)) = true) :
    ∃ t, M.exec s as = some t ∧ P t := by
  obtain ⟨t, ht, hP⟩ := (Option.any_eq_true ..).1 h
  exact ⟨t, ht, of_decide_eq_true hP⟩

/-- `exec` that looks at every state on the way, so that a long concrete run is evaluated step by
step. -/
def execLooking (look : σ → Bool) : σ → List α → Option σ
  | s, [] => some s
  | s, a :: as =>
    match M.step s a with
    | some t => bif look t then execLooking look t as else execLooking look t as
    | none => none

theorem execLooking_eq (look : σ → Bool) (s : σ) (as : List α) :
    M.execLooking look s as = M.exec s as := by
  induction as generalizing s with
  | nil => rfl
  | cons a as ih =>
    unfold execLooking exec
    cases M.step s a <;> simp [ih]

/-- `exists_exec` for a long run. -/
theorem exists_exec_looking (look : σ → Bool) {P : σ → Prop} [DecidablePred P] {s : σ}
    {as : List α} (h : (M.execLooking look s as).any (fun t => decide (P t)) = true) :
    ∃ t, M.exec s as = some t ∧ P t := by
  rw [execLooking_eq] at h
  exact M.exists_exec h

theorem along_cons {P : σ → α → Prop} {s t : σ} {a : α} {as : List α}
    (h : M.step s a = some t) : M.Along P s (a :: as) ↔ P s a ∧ M.Along P t as := by
  simp [Along, h]

instance decidableAlong (P : σ → α → Prop) [DecidableRel P] : ∀ s as, Decidable (M.Along P s as)
  | _, [] => .isTrue trivial
  | s, a :: as =>
    match h : M.step s a with
    | none => decidable_of_iff (P s a) (by simp [Along, h])
    | some t =>
      have : Decidable (M.Along P t as) := decidableAlong P t as
      decidable_of_iff (P s a ∧ M.Along P t as) (M.along_cons h).symm

theorem countAlong_cons (P : σ → α → Prop) [DecidableRel P] {s t : σ} {a : α} (as : List α)
    (h : M.step s a = some t) :
    M.countAlong P s (a :: as) = (if P s a then 1 else 0) + M.countAlong P t as := by
  simp [countAlong, h]

/-- No step is counted when every step avoids the condition. -/
theorem countAlong_eq_zero_iff (P : σ → α → Prop) [DecidableRel P] (s : σ) (as : List α) :
    M.countAlong P s as = 0 ↔ M.Along (fun s a => ¬ P s a) s as := by
  induction as generalizing s with
  | nil => exact iff_of_true rfl trivial
  | cons a as ih =>
    cases hs : M.step s a <;> by_cases hP : P s a <;> simp [countAlong, Along, hs, hP, ih]

/-- **The invariant rule under a side condition.** -/
theorem exec_induction_along {P : σ → α → Prop} {I : σ → Prop}
    (hstep : ∀ s a t, I s → P s a → M.step s a = some t → I t) :
    ∀ (as : List α) (s u : σ), I s → M.Along P s as → M.exec s as = some u → I u
  | [], s, u, hs, _, h => by
    obtain rfl := Option.some.inj h
    exact hs
  | a :: as, s, u, hs, hP, h => by
    obtain ⟨t, ht, hu⟩ := M.exec_cons.1 h
    obtain ⟨ha, hP⟩ := (M.along_cons ht).1 hP
    exact exec_induction_along hstep as t u (hstep s a t hs ha ht) hP hu

theorem along_true (s : σ) (as : List α) : M.Along (fun _ _ => True) s as := by
  induction as generalizing s with
  | nil => trivial
  | cons a as ih => exact ⟨trivial, fun t _ => ih t⟩

/-- **The invariant rule.** -/
theorem exec_induction {I : σ → Prop} (hstep : ∀ s a t, I s → M.step s a = some t → I t)
    {as : List α} {s u : σ} (hs : I s) (h : M.exec s as = some u) : I u :=
  M.exec_induction_along (P := fun _ _ => True) (fun s a t hs _ => hstep s a t hs) as s u hs
    (M.along_true s as) h

/-- An invariant of the start state and of every step holds of every reachable state. -/
theorem Reachable.induction {I : σ → Prop} (h0 : I M.init)
    (hstep : ∀ s a t, I s → M.step s a = some t → I t) {s : σ} (hs : M.Reachable s) : I s := by
  obtain ⟨as, h⟩ := hs
  exact M.exec_induction hstep h0 h

/-- Two side conditions agree along a run if they agree wherever an invariant holds, which the steps
that meet the first of them keep; the steps of the run may be known to meet a third one. -/
theorem along_congr_along {P Q R : σ → α → Prop} {I : σ → Prop}
    (hstep : ∀ s a t, I s → R s a → P s a → M.step s a = some t → I t)
    (hPQ : ∀ s a, I s → R s a → (P s a ↔ Q s a)) (as : List α) {s : σ} (hs : I s)
    (hR : M.Along R s as) : M.Along P s as ↔ M.Along Q s as := by
  induction as generalizing s with
  | nil => exact Iff.rfl
  | cons a as ih =>
    unfold Along at hR ⊢
    rw [← hPQ s a hs hR.1]
    refine and_congr_right fun hP => forall_congr' fun t => ?_
    exact imp_congr_right fun ht => ih (hstep s a t hs hR.1 hP ht) (hR.2 t ht)

/-- Two side conditions agree along every run if they agree wherever an invariant holds, which the
steps that meet the first of them keep. -/
theorem along_congr {P Q : σ → α → Prop} {I : σ → Prop}
    (hstep : ∀ s a t, I s → P s a → M.step s a = some t → I t)
    (hPQ : ∀ s a, I s → (P s a ↔ Q s a)) (as : List α) {s : σ} (hs : I s) :
    M.Along P s as ↔ M.Along Q s as :=
  M.along_congr_along (R := fun _ _ => True) (fun s a t hs _ => hstep s a t hs)
    (fun s a hs _ => hPQ s a hs) as hs (M.along_true s as)

/-- The states that a run passes are those that its steps reach. -/
theorem throughout_iff_along {P : σ → Prop} (as : List α) {s : σ} (hs : P s) :
    M.Throughout P s as ↔ M.Along (fun s a => ∀ t, M.step s a = some t → P t) s as := by
  induction as generalizing s with
  | nil =>
    refine iff_of_true (fun bs t hbs ht => ?_) trivial
    obtain rfl := List.prefix_nil.1 hbs
    exact Option.some.inj ht ▸ hs
  | cons a as ih =>
    constructor
    · intro h
      have hstep (t : σ) (ht : M.step s a = some t) : P t :=
        h [a] t ⟨as, rfl⟩ (M.exec_cons.2 ⟨t, ht, rfl⟩)
      refine ⟨hstep, fun t ht => (ih (hstep t ht)).1 fun bs u hbs hu => ?_⟩
      exact h (a :: bs) u (List.cons_prefix_cons.2 ⟨rfl, hbs⟩) (M.exec_cons.2 ⟨t, ht, hu⟩)
    · rintro ⟨hstep, h⟩ bs u hbs hu
      cases bs with
      | nil => exact Option.some.inj hu ▸ hs
      | cons b bs =>
        obtain ⟨rfl, htail⟩ := List.cons_prefix_cons.1 hbs
        obtain ⟨t, ht, hu⟩ := M.exec_cons.1 hu
        exact (ih (hstep t ht)).2 (h t ht) bs u htail hu

/-- A run goes through and passes only states that satisfy `P`. -/
theorem runs_throughout_iff_along {P : σ → Prop} (as : List α) {s : σ} (hs : P s) :
    ((∃ t, M.exec s as = some t) ∧ M.Throughout P s as) ↔
      M.Along (fun s a => ∃ t, M.step s a = some t ∧ P t) s as := by
  induction as generalizing s with
  | nil => exact iff_of_true ⟨⟨s, rfl⟩, (M.throughout_iff_along [] hs).2 trivial⟩ trivial
  | cons a as ih =>
    cases hstep : M.step s a with
    | none => simp [exec, Along, hstep]
    | some t =>
      rw [M.throughout_iff_along _ hs, M.along_cons hstep, M.along_cons hstep]
      simp only [hstep, Option.some.injEq, forall_eq', exists_eq_left', exec, Option.bind_some]
      constructor
      · rintro ⟨hrun, ht, hall⟩
        exact ⟨ht, (ih ht).1 ⟨hrun, (M.throughout_iff_along as ht).2 hall⟩⟩
      · rintro ⟨ht, hall⟩
        obtain ⟨hrun, hthrough⟩ := (ih ht).2 hall
        exact ⟨hrun, ht, (M.throughout_iff_along as ht).1 hthrough⟩

/-- An invariant that relates the state to the number of steps counted so far, under a side
condition. -/
theorem exec_induction_count_along {P Q : σ → α → Prop} [DecidableRel P] {I : ℕ → σ → Prop}
    (hstep : ∀ n s a t, I n s → Q s a → M.step s a = some t → I (n + if P s a then 1 else 0) t) :
    ∀ (as : List α) (n : ℕ) (s u : σ), I n s → M.Along Q s as → M.exec s as = some u →
      I (n + M.countAlong P s as) u
  | [], n, s, u, hs, _, h => by
    obtain rfl := Option.some.inj h
    exact hs
  | a :: as, n, s, u, hs, hQ, h => by
    obtain ⟨t, ht, hu⟩ := M.exec_cons.1 h
    obtain ⟨ha, hQ⟩ := (M.along_cons ht).1 hQ
    rw [M.countAlong_cons P as ht, ← Nat.add_assoc]
    exact exec_induction_count_along hstep as _ t u (hstep n s a t hs ha ht) hQ hu

/-- An invariant that relates the state to the number of steps counted so far. -/
theorem exec_induction_count {P : σ → α → Prop} [DecidableRel P] {I : ℕ → σ → Prop}
    (hstep : ∀ n s a t, I n s → M.step s a = some t → I (n + if P s a then 1 else 0) t)
    (as : List α) (n : ℕ) (s u : σ) (hs : I n s) (h : M.exec s as = some u) :
    I (n + M.countAlong P s as) u :=
  M.exec_induction_count_along (Q := fun _ _ => True) (fun n s a t hs _ => hstep n s a t hs)
    as n s u hs (M.along_true s as) h

/-- An invariant that relates the state to the latest value seen so far. -/
theorem exec_induction_latest {β : Type*} {f : σ → α → Option β} {I : β → σ → Prop}
    (hstep : ∀ b s a t, I b s → M.step s a = some t → I ((f s a).getD b) t) :
    ∀ (as : List α) (b : β) (s u : σ), I b s → M.exec s as = some u →
      I (M.latestAlong f b s as) u
  | [], b, s, u, hs, h => by
    obtain rfl := Option.some.inj h
    exact hs
  | a :: as, b, s, u, hs, h => by
    obtain ⟨t, ht, hu⟩ := M.exec_cons.1 h
    simp only [latestAlong, ht]
    exact exec_induction_latest hstep as _ t u (hstep b s a t hs ht) hu

/-- **The rank rule.** Where every step from a state that is not there yet brings a rank down, a run
that is long enough gets there. -/
theorem exists_take_of_rank {P : σ → α → Prop} {I G : σ → Prop} {rank : σ → ℕ}
    (hrank : ∀ s, I s → ¬ G s → 0 < rank s)
    (hstep : ∀ s a t, I s → ¬ G s → P s a → M.step s a = some t → I t ∧ rank t < rank s) :
    ∀ (as : List α) (s u : σ), I s → M.Along P s as → M.exec s as = some u →
      rank s ≤ as.length → ∃ k ≤ rank s, ∃ t, M.exec s (as.take k) = some t ∧ G t
  | [], s, u, hs, _, _, hlen => by
    by_cases hG : G s
    · exact ⟨0, Nat.zero_le _, s, rfl, hG⟩
    · have hpos := hrank s hs hG
      rw [List.length_nil] at hlen
      omega
  | a :: as, s, u, hs, hP, h, hlen => by
    by_cases hG : G s
    · exact ⟨0, Nat.zero_le _, s, rfl, hG⟩
    · obtain ⟨t, ht, hu⟩ := M.exec_cons.1 h
      obtain ⟨ha, hP⟩ := (M.along_cons ht).1 hP
      obtain ⟨hIt, hlt⟩ := hstep s a t hs hG ha ht
      rw [List.length_cons] at hlen
      obtain ⟨k, hk, v, hv, hGv⟩ := exists_take_of_rank hrank hstep as t u hIt hP hu (by omega)
      exact ⟨k + 1, by omega, v, M.exec_cons.2 ⟨t, ht, hv⟩, hGv⟩

end System

end MacHPSDR
