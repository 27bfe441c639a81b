import MacHPSDR.WebServer.Server

/-!
# The owner of the TX lease has control

`dispatch_request` lets only the control holder take the TX lease, and whoever loses control loses
the TX lease right after (`web_control_lost`). But the test, the taking and the loss are sections
of their own, so between two of them the owner of the TX lease may be without control; then a
`web_lease_release_client` for it is on its way in the thread that took control from it
(`Covered`).

The invariant breaks in one place. A client that loses control after the test of its
`lease_acquire` has nothing to release yet, and takes the lease afterwards
(`takeover_before_lease`). In every run in which each taking of the TX lease finds the taker still
in control, or about to be released, the TX owner is the control owner whenever no thread is in
the middle of its code (`contained_of_takenInControl`).
-/

namespace MacHPSDR.WebServer

variable {κ : Type*} [DecidableEq κ] {canTransmit : Bool}

/-- If the TX lease has an owner, then that owner is also the owner of the control lease. -/
def Shared.Contained (s : Shared κ) : Prop :=
  ∀ c, s.txLeaseOwner = some c → s.controlOwner = some c

/-- The owner of the TX lease has control, or is about to be released. -/
def Covered (s : State κ) : Prop :=
  ∀ c, s.shared.txLeaseOwner = some c →
    s.shared.controlOwner = some c ∨ s.Queued (Op.releases c)

/-- The client that takes the TX lease in this step. -/
def takesTxLease (s : State κ) : Label κ → Option κ
  | .run t =>
    match s.loc t with
    | .leaseAcquire c :: _ => if s.shared.txLeaseOwner = none then some c else none
    | _ => none
  | _ => none

/-- Whoever takes the TX lease in this step still has control, or is about to be released. -/
def TakenInControl (s : State κ) (l : Label κ) : Prop :=
  ∀ c, takesTxLease s l = some c → s.shared.controlOwner = some c ∨ s.Queued (Op.releases c)

instance [Fintype κ] : DecidableRel (TakenInControl (κ := κ)) := fun s l =>
  inferInstanceAs (Decidable (∀ c, takesTxLease s l = some c →
    s.shared.controlOwner = some c ∨ s.Queued (Op.releases c)))

/-! ## One operation -/

/-- A control holder keeps control, or is released next. -/
theorem Op.controlOwner_exec {s : Shared κ} (op : Op κ) {c : κ} (h : s.controlOwner = some c) :
    (op.exec canTransmit s).1.controlOwner = some c ∨
      (op.exec canTransmit s).2.any (Op.releases c) = true := by
  cases op with
  | webControlReleaseClient d =>
    simp only [exec, h, Option.some.injEq]
    split
    · rename_i hd
      exact .inr (by simp [releases, hd])
    · exact .inl h
  | webControlIsOwner d =>
    simp only [exec, h]
    split
    · exact .inr (by simp [releases])
    · split
      · exact .inl rfl
      · exact .inl h
  | controlAcquire d force =>
    simp only [exec, h]
    split
    · by_cases hd : c = d
      · exact .inl (by rw [hd])
      · exact .inr (by simp [hd, releases])
    · exact .inl h
  | _ => exact .inl ((Op.exec_controlOwner s _).trans h)

/-! ## Every step -/

/-- A step that changes neither lease nor what is queued keeps the owner covered. -/
theorem Covered.congr {s s' : State κ} (h : Covered s)
    (htx : s'.shared.txLeaseOwner = s.shared.txLeaseOwner)
    (hcontrol : s'.shared.controlOwner = s.shared.controlOwner)
    (hqueued : ∀ c, s.Queued (Op.releases c) → s'.Queued (Op.releases c)) : Covered s' := by
  intro c hc
  rw [hcontrol]
  exact (h c (htx ▸ hc)).imp_right (hqueued c)

theorem Covered.run {s s' : State κ} {t : Tid κ} (h : Covered s)
    (hP : TakenInControl s (.run t)) (hs : s.runNext (Op.exec canTransmit) t = some s') :
    Covered s' := by
  obtain ⟨op, rest, hloc, rfl⟩ := Pool.runNext_eq_some.1 hs
  intro c hc
  have hcovered : (s.shared.controlOwner = some c ∨ s.Queued (Op.releases c)) ∧
      op.releases c = false := by
    rcases Op.txLeaseOwner_of_exec hc with ⟨hold, hop⟩ | ⟨hnone, rfl⟩
    · exact ⟨h c hold, hop⟩
    · exact ⟨hP c (by simp [takesTxLease, hloc, hnone]), rfl⟩
  obtain ⟨hcontrol | hqueued, hop⟩ := hcovered
  · exact (op.controlOwner_exec hcontrol).imp_right fun hpush => Pool.queued_push hpush _ _
  · exact .inr (hqueued.set_cons hloc hop _ _)

theorem covered_init : Covered (system canTransmit κ).init := by
  intro c hc
  exact absurd hc.symm (Option.some_ne_none c)

theorem covered_step (s : State κ) (l : Label κ) (s' : State κ) (h : Covered s)
    (hP : TakenInControl s l) (hs : step canTransmit s l = some s') : Covered s' := by
  have hcases := step_cases hs
  cases l with
  | run t => exact h.run hP hcases
  | connect | request | disconnect =>
    obtain ⟨_, hfree, rfl⟩ := hcases
    exact h.congr rfl rfl fun c hc => hc.set_nil hfree _ _
  | rtcTxAudio | tick | elsewhere =>
    obtain ⟨hfree, rfl⟩ := hcases
    exact h.congr rfl rfl fun c hc => hc.set_nil hfree _ _
  | idle =>
    obtain ⟨hfree, _, _, _, rfl⟩ := hcases
    exact h.congr rfl rfl fun c hc => hc.set_nil hfree _ _
  | webTxEnable | elapse =>
    obtain rfl : s' = _ := hcases
    exact h.congr rfl rfl fun c hc => hc

/-- **The owner of the TX lease has control**, in every quiescent state of every run in which each
taking of the TX lease finds the taker still in control or about to be released. -/
theorem contained_of_takenInControl {ls : List (Label κ)} {s : State κ}
    (hrun : (system canTransmit κ).exec (system canTransmit κ).init ls = some s)
    (hP : (system canTransmit κ).Along TakenInControl (system canTransmit κ).init ls)
    (hq : s.Quiescent) : s.shared.Contained := by
  intro c hc
  have hcovered : Covered s :=
    (system canTransmit κ).exec_induction_along covered_step ls _ s covered_init hP hrun
  exact (hcovered c hc).resolve_right (hq.not_queued _)

/-- Client `false` takes control and the TX lease; client `true` takes control over from it and
takes the TX lease itself. -/
def takeoverAfterLease : List (Label Bool) :=
  [.connect false .control, .connect true .control, .webTxEnable true,
   .request false (.controlAcquire false), .run (.client false), .run (.client false),
   .request false .leaseAcquire, .run (.client false), .run (.client false), .run (.client false),
   .run (.client false), .run (.client false),
   .request true (.controlAcquire true), .run (.client true), .run (.client true),
   .run (.client true), .run (.client true), .run (.client true), .run (.client true),
   .run (.client true), .run (.client true), .run (.client true),
   .request true .leaseAcquire, .run (.client true), .run (.client true), .run (.client true),
   .run (.client true), .run (.client true)]

theorem contained_takeoverAfterLease : ∃ s,
    (system true Bool).exec (system true Bool).init takeoverAfterLease = some s ∧
      s.shared.txLeaseOwner = some true ∧ s.shared.Contained := by
  have hrun : ∃ s,
      (system true Bool).exec (system true Bool).init takeoverAfterLease = some s ∧
        s.Quiescent ∧ s.shared.txLeaseOwner = some true :=
    (system true Bool).exists_exec (by decide +kernel)
  obtain ⟨s, hs, hq, hc⟩ := hrun
  exact ⟨s, hs, hc, contained_of_takenInControl hs (by decide +kernel) hq⟩

/-- Client `true` takes control over from client `false` after the test of the `lease_acquire` of
client `false` and before client `false` takes the TX lease. -/
def takeoverDuringLease : List (Label Bool) :=
  [.connect false .control, .connect true .control, .webTxEnable true,
   .request false (.controlAcquire false), .run (.client false), .run (.client false),
   .request false .leaseAcquire, .run (.client false), .run (.client false),
   .request true (.controlAcquire true), .run (.client true), .run (.client true),
   .run (.client true), .run (.client false), .run (.client false), .run (.client false)]

/-- A client without control can be left with the TX lease. -/
theorem takeover_before_lease : ∃ s,
    (system true Bool).exec (system true Bool).init takeoverDuringLease = some s ∧
      s.Quiescent ∧ s.shared.txLeaseOwner = some false ∧ s.shared.controlOwner = some true ∧
      ¬ s.shared.Contained := by
  have hrun : ∃ s,
      (system true Bool).exec (system true Bool).init takeoverDuringLease = some s ∧
        s.Quiescent ∧ s.shared.txLeaseOwner = some false ∧ s.shared.controlOwner = some true :=
    (system true Bool).exists_exec (by decide +kernel)
  obtain ⟨s, hs, hq, howner, hcontrol⟩ := hrun
  refine ⟨s, hs, hq, howner, hcontrol, fun hcontained => ?_⟩
  exact absurd (hcontrol.symm.trans (hcontained false howner)) (by decide)

end MacHPSDR.WebServer
