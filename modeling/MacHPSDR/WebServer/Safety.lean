import MacHPSDR.WebServer.Handlers

/-!
# The transmitter is not left keyed without an owner

`set_mox` and `set_tune` test the TX lease in one section and afterwards store `web_remote_ptt` and
queue the callback that keys the radio; whoever takes the lease away exchanges `web_remote_ptt` for
`FALSE` and, if it was `TRUE`, queues the callbacks that unkey the radio. So a keyed radio without
an owner has an operation ahead of it that repairs this: an exchange or a store that clears
`web_remote_ptt` (`Op.unkeys`), or a callback to be queued (`Safe`).

The invariant breaks in one place. If the lease is lost, or another client sends an emergency
`set_mox` off, between the test and the queueing, then the exchange comes too early and the key
command too late, and nobody unkeys the radio (`takeover_before_key`). In every run in which each
key command is queued while it can still be revoked (`Revocable`), the remote key and the radio
are released with the lease (`txSafe_of_revocable`).
-/

namespace MacHPSDR.WebServer

variable {κ : Type*} [DecidableEq κ] {canTransmit : Bool}

/-- The web remote keys the radio only if a live client owns the TX lease, and the radio has been
unkeyed since a client lost the lease while the web remote had the radio keyed. -/
structure Shared.TxSafe (s : Shared κ) : Prop where
  ptt : s.flags .remotePtt = true → ∃ c, s.txLeaseOwner = some c ∧ s.live c = true
  keyed : s.radio.keyedByWeb = true → ∃ c, s.txLeaseOwner = some c ∧ s.live c = true
  unkeyed : s.mustUnkey = false

/-- Clears `web_remote_ptt`, and is followed by a callback that unkeys the radio. -/
def Op.unkeys : Op κ → Bool
  | .unkeyPtt | .set .remotePtt false => true
  | _ => false

/-- The exchange of `web_remote_unkey`. -/
def Op.exchanges : Op κ → Bool
  | .unkeyPtt => true
  | _ => false

/-- A key command that is queued now will be undone when the lease is lost: the remote key is down
and the TX lease is owned or the key is about to be cleared, or the remote key has been cleared
and the callback that unkeys the radio is still to come. -/
def Revocable (s : State κ) : Prop :=
  s.shared.flags .remotePtt = true ∧ (s.shared.txLeaseOwner ≠ none ∨ s.Queued Op.unkeys) ∨
    s.shared.flags .remotePtt = false ∧ s.Queued (Op.queues false)

/-- The step queues a callback that keys the radio. -/
def queuesKey (s : State κ) : Label κ → Bool
  | .run t => (s.loc t).head?.any (Op.queues true)
  | _ => false

/-- A key command is only queued while it can be revoked. -/
def KeyedRevocably (s : State κ) (l : Label κ) : Prop := queuesKey s l = true → Revocable s

instance [Fintype κ] (s : State κ) : Decidable (Revocable s) :=
  inferInstanceAs (Decidable
    (s.shared.flags .remotePtt = true ∧ (s.shared.txLeaseOwner ≠ none ∨ s.Queued Op.unkeys) ∨
      s.shared.flags .remotePtt = false ∧ s.Queued (Op.queues false)))

instance [Fintype κ] : DecidableRel (KeyedRevocably (κ := κ)) := fun s l =>
  inferInstanceAs (Decidable (queuesKey s l = true → Revocable s))

/-- What the radio will be when the idle queue has run. -/
def Shared.keyedAfter (s : Shared κ) : Bool :=
  (s.idle.getLast?.map Callback.state).getD s.radio.keyedByWeb

/-- What holds between the key and the TX lease at all times. -/
structure Safe (canTransmit : Bool) (s : State κ) : Prop where
  /-- The remote key is down only if the TX lease is owned, or the key is about to be cleared, or
  the key command is about to be queued. -/
  ptt : s.shared.flags .remotePtt = true →
    s.shared.txLeaseOwner ≠ none ∨ s.Queued Op.unkeys ∨ s.Queued (Op.queues true)
  /-- The radio stays keyed only if the remote key is down or the radio is about to be unkeyed. -/
  keyed : s.shared.keyedAfter = true →
    s.shared.flags .remotePtt = true ∨ s.Queued (Op.queues false)
  /-- A radio that has to be unkeyed will be. -/
  unkey : s.shared.mustUnkey = true →
    s.Queued (Op.queues false) ∨ (∃ cb ∈ s.shared.idle, cb.state = false) ∨
      s.shared.flags .remotePtt = true ∧ s.Queued Op.exchanges
  /-- Only a radio that can transmit is keyed. -/
  capable : s.shared.radio.keyedByWeb = true ∨ s.shared.mustUnkey = true ∨
    (∃ cb ∈ s.shared.idle, cb.state = true) → canTransmit = true

/-! ## One operation -/

section Exec

variable {s : Shared κ} {op : Op κ} {t : Tid κ} {rest : List (Op κ)}

theorem Op.remotePtt_of_exec (h : (op.exec canTransmit s).1.flags .remotePtt = true) :
    op = .set .remotePtt true ∨ s.flags .remotePtt = true ∧ op.unkeys = false := by
  rw [Op.exec_remotePtt] at h
  cases op with
  | set f b =>
    cases f with
    | remotePtt => exact .inl (by rw [show b = true from h])
    | _ => exact .inr ⟨h, rfl⟩
  | unkeyPtt => exact absurd h Bool.false_ne_true
  | _ => exact .inr ⟨h, rfl⟩

theorem Op.remotePtt_exec (h : s.flags .remotePtt = true) (hop : op.unkeys = false) :
    (op.exec canTransmit s).1.flags .remotePtt = true := by
  rw [Op.exec_remotePtt]
  cases op with
  | set f b =>
    cases f with
    | remotePtt =>
      cases b with
      | true => rfl
      | false => exact absurd hop.symm Bool.false_ne_true
    | _ => exact h
  | unkeyPtt => exact absurd hop.symm Bool.false_ne_true
  | _ => exact h

/-- When the remote key is cleared, a callback that unkeys the radio is to come. -/
theorem Op.queues_of_unkeys (hop : op.Ok canTransmit t rest) (hunkeys : op.unkeys = true)
    (h : s.flags .remotePtt = true) :
    ((op.exec canTransmit s).2 ++ rest).any (Op.queues false) = true := by
  cases op with
  | set f b =>
    cases f with
    | remotePtt =>
      cases b with
      | true => exact absurd hunkeys Bool.false_ne_true
      | false => exact hop
    | _ => exact absurd hunkeys Bool.false_ne_true
  | unkeyPtt => simp [exec, h, queues, Callback.state]
  | _ => exact absurd hunkeys Bool.false_ne_true

/-- Whoever takes the TX lease away goes on to clear the remote key. -/
theorem Op.txLeaseOwner_exec (h : s.txLeaseOwner ≠ none) :
    (op.exec canTransmit s).1.txLeaseOwner ≠ none ∨
      (op.exec canTransmit s).2.any Op.unkeys = true := by
  cases op with
  | webLeaseReleaseClient =>
    simp only [exec]
    split
    · exact .inr rfl
    · exact .inl h
  | webLeaseIsOwner =>
    simp only [exec]
    split
    · exact .inr rfl
    · split
      · exact .inl h
      · exact .inl h
  | leaseAcquire =>
    simp only [exec]
    split
    · exact .inl (Option.some_ne_none _)
    · exact .inl h
  | _ => exact .inl ((Op.exec_txLeaseOwner s _).trans_ne h)

theorem Op.keyedAfter_exec (s : Shared κ) (op : Op κ) :
    (op.exec canTransmit s).1.keyedAfter =
      match op with
      | .idleAdd cb => cb.state
      | _ => s.keyedAfter := by
  unfold Shared.keyedAfter
  rw [Op.exec_idle, Op.exec_radio]
  cases op with
  | idleAdd cb => simp
  | _ => rfl

end Exec

/-! ## One callback -/

theorem Callback.keyed_run (byWeb : Bool) {cb : Callback} (r : Radio) (h : cb.state = false) :
    (cb.run true byWeb r).keyed = false := by
  cases cb with
  | extSetMox => exact Bool.or_eq_false_iff.2 ⟨h, rfl⟩
  | webSetTuneIdle => exact Bool.or_eq_false_iff.2 ⟨rfl, h⟩

/-- A callback of the web server leaves the radio keyed by the web remote only if it keys. -/
theorem Callback.state_of_keyedByWeb_run {cb : Callback} {r : Radio}
    (hr : r.keyedByWeb = true → canTransmit = true)
    (h : (cb.run canTransmit true r).keyedByWeb = true) : cb.state = true := by
  cases hct : canTransmit with
  | true =>
    rw [hct, Radio.keyedByWeb, Bool.and_eq_true] at h
    by_contra hstate
    rw [Bool.not_eq_true] at hstate
    exact absurd ((keyed_run true r hstate).symm.trans h.1) Bool.false_ne_true
  | false =>
    rw [hct] at h hr
    cases cb with
    | extSetMox state =>
      simpa [run, Radio.setMox, Radio.keyedByWeb, Radio.keyed, Callback.state] using h
    | webSetTuneIdle => exact absurd (hr h) Bool.false_ne_true

/-- Nobody else's callback leaves the radio keyed by the web remote. -/
theorem Callback.keyedByWeb_of_run {cb : Callback} {r : Radio}
    (h : (cb.run canTransmit false r).keyedByWeb = true) : r.keyedByWeb = true := by
  cases cb with
  | extSetMox => simp [run, Radio.keyedByWeb] at h
  | webSetTuneIdle =>
    cases canTransmit with
    | true => simp [run, Radio.keyedByWeb] at h
    | false => exact h

/-! ## Every step -/

theorem safe_init : Safe canTransmit (system canTransmit κ).init :=
  ⟨fun h => absurd h Bool.false_ne_true, fun h => absurd h Bool.false_ne_true,
    fun h => absurd h Bool.false_ne_true,
    fun h => by simp [system, Radio.keyedByWeb, Radio.keyed] at h⟩

omit [DecidableEq κ] in
/-- A step that changes neither the key nor the lease and takes nothing out of any code. -/
theorem Safe.congr {s s' : State κ} (h : Safe canTransmit s)
    (hflags : s'.shared.flags = s.shared.flags)
    (howner : s'.shared.txLeaseOwner = s.shared.txLeaseOwner)
    (hidle : s'.shared.idle = s.shared.idle) (hradio : s'.shared.radio = s.shared.radio)
    (hunkey : s'.shared.mustUnkey = s.shared.mustUnkey)
    (hqueued : ∀ p : Op κ → Bool, s.Queued p → s'.Queued p) : Safe canTransmit s' where
  ptt hp := by
    rw [howner]
    exact (h.ptt (hflags ▸ hp)).imp_right (Or.imp (hqueued _) (hqueued _))
  keyed hk := by
    unfold Shared.keyedAfter at hk
    rw [hidle, hradio] at hk
    rw [hflags]
    exact (h.keyed hk).imp_right (hqueued _)
  unkey hu := by
    rw [hflags, hidle]
    exact (h.unkey (hunkey ▸ hu)).imp (hqueued _) (Or.imp_right (And.imp_right (hqueued _)))
  capable hc := by
    rw [hidle, hradio, hunkey] at hc
    exact h.capable hc

section Run

variable {s : State κ} {t : Tid κ} {op : Op κ} {rest : List (Op κ)}

theorem Safe.ptt_run (h : Safe canTransmit s) (hloc : s.loc t = op :: rest)
    (hop : op.Ok canTransmit t rest) (hP : op.queues true = true → Revocable s)
    (hptt : (op.exec canTransmit s.shared).1.flags .remotePtt = true) :
    let s' := s.set t (op.exec canTransmit s.shared).1 ((op.exec canTransmit s.shared).2 ++ rest)
    s'.shared.txLeaseOwner ≠ none ∨ s'.Queued Op.unkeys ∨ s'.Queued (Op.queues true) := by
  intro s'
  rcases Op.remotePtt_of_exec hptt with rfl | ⟨hold, hunkeys⟩
  · exact .inr (.inr (Pool.queued_rest hop _ _))
  have hcover : (s.shared.txLeaseOwner ≠ none ∨ s.Queued Op.unkeys) ∨
      s.Queued (Op.queues true) ∧ op.queues true = false := by
    rcases h.ptt hold with howner | hqueued | hqueued
    · exact .inl (.inl howner)
    · exact .inl (.inr hqueued)
    · cases hkey : op.queues true with
      | false => exact .inr ⟨hqueued, rfl⟩
      | true =>
        rcases hP hkey with ⟨-, hrev⟩ | ⟨hup, -⟩
        · exact .inl hrev
        · exact absurd (hup.symm.trans hold) Bool.false_ne_true
  rcases hcover with (howner | hqueued) | ⟨hqueued, hkey⟩
  · exact (Op.txLeaseOwner_exec howner).imp_right fun hpush => .inl (Pool.queued_push hpush _ _)
  · exact .inr (.inl (hqueued.set_cons hloc hunkeys _ _))
  · exact .inr (.inr (hqueued.set_cons hloc hkey _ _))

/-- The remote key stays down, or is cleared with a callback that unkeys the radio to come. -/
theorem ptt_or_queued (hop : op.Ok canTransmit t rest)
    (hptt : s.shared.flags .remotePtt = true) :
    let s' := s.set t (op.exec canTransmit s.shared).1 ((op.exec canTransmit s.shared).2 ++ rest)
    s'.shared.flags .remotePtt = true ∧ op.unkeys = false ∨ s'.Queued (Op.queues false) := by
  intro s'
  cases hunkeys : op.unkeys with
  | false => exact .inl ⟨Op.remotePtt_exec hptt hunkeys, rfl⟩
  | true => exact .inr (Pool.pending_set_self (Op.queues_of_unkeys hop hunkeys hptt))

theorem Safe.keyed_run (h : Safe canTransmit s) (hloc : s.loc t = op :: rest)
    (hop : op.Ok canTransmit t rest) (hP : op.queues true = true → Revocable s)
    (hkeyed : (op.exec canTransmit s.shared).1.keyedAfter = true) :
    let s' := s.set t (op.exec canTransmit s.shared).1 ((op.exec canTransmit s.shared).2 ++ rest)
    s'.shared.flags .remotePtt = true ∨ s'.Queued (Op.queues false) := by
  intro s'
  have hbefore : (s.shared.flags .remotePtt = true ∨ s.Queued (Op.queues false)) ∧
      op.queues false = false := by
    rw [Op.keyedAfter_exec] at hkeyed
    cases op with
    | idleAdd cb =>
      have hstate : cb.state = true := hkeyed
      have hfalse : (Op.idleAdd cb : Op κ).queues false = false := by simp [Op.queues, hstate]
      have hrev : Revocable s := hP (by simp [Op.queues, hstate])
      exact ⟨hrev.imp And.left And.right, hfalse⟩
    | _ => exact ⟨h.keyed hkeyed, rfl⟩
  obtain ⟨hptt | hqueued, hqueues⟩ := hbefore
  · exact (ptt_or_queued hop hptt).imp_left And.left
  · exact .inr (hqueued.set_cons hloc hqueues _ _)

omit [DecidableEq κ] in
/-- While the radio is keyed by the web remote and nothing in the idle queue unkeys it, it stays
keyed. -/
theorem keyedAfter_of_keyedByWeb {s : Shared κ} (h : s.radio.keyedByWeb = true)
    (hidle : ¬ ∃ cb ∈ s.idle, cb.state = false) : s.keyedAfter = true := by
  unfold Shared.keyedAfter
  cases hlast : s.idle.getLast? with
  | none => exact h
  | some cb =>
    have hmem := List.mem_of_getLast? hlast
    cases hstate : cb.state with
    | true => simp [hstate]
    | false => exact absurd ⟨cb, hmem, hstate⟩ hidle

/-- A callback that was about to be queued still is, or is on the idle queue. -/
theorem queued_or_idle (hloc : s.loc t = op :: rest) (hqueued : s.Queued (Op.queues false)) :
    let s' := s.set t (op.exec canTransmit s.shared).1 ((op.exec canTransmit s.shared).2 ++ rest)
    s'.Queued (Op.queues false) ∨ ∃ cb ∈ s'.shared.idle, cb.state = false := by
  intro s'
  cases hop : op.queues false with
  | false => exact .inl (hqueued.set_cons hloc hop _ _)
  | true =>
    cases op with
    | idleAdd cb =>
      refine .inr ⟨cb, ?_, beq_iff_eq.1 hop⟩
      simp [s', Op.exec_idle]
    | _ => exact absurd hop Bool.false_ne_true

theorem Op.mem_idle_exec {s : Shared κ} {cb : Callback} (h : cb ∈ s.idle) :
    cb ∈ (op.exec canTransmit s).1.idle := by
  rw [Op.exec_idle]
  cases op with
  | idleAdd => exact List.mem_append_left _ h
  | _ => exact h

theorem Safe.unkey_run (h : Safe canTransmit s) (hloc : s.loc t = op :: rest)
    (hop : op.Ok canTransmit t rest)
    (hunkey : (op.exec canTransmit s.shared).1.mustUnkey = true) :
    let s' := s.set t (op.exec canTransmit s.shared).1 ((op.exec canTransmit s.shared).2 ++ rest)
    s'.Queued (Op.queues false) ∨ (∃ cb ∈ s'.shared.idle, cb.state = false) ∨
      s'.shared.flags .remotePtt = true ∧ s'.Queued Op.exchanges := by
  intro s'
  rcases Op.exec_mustUnkey s.shared op hunkey with hold | ⟨hkeyed, hpush, hflags⟩
  · rcases h.unkey hold with hqueued | ⟨cb, hmem, hstate⟩ | ⟨hptt, hqueued⟩
    · exact (queued_or_idle hloc hqueued).imp_right .inl
    · exact .inr (.inl ⟨cb, Op.mem_idle_exec hmem, hstate⟩)
    · rcases ptt_or_queued hop hptt with ⟨hptt', hunkeys⟩ | hoff
      · refine .inr (.inr ⟨hptt', hqueued.set_cons hloc ?_ _ _⟩)
        cases op with
        | unkeyPtt => exact absurd hunkeys.symm Bool.false_ne_true
        | _ => rfl
      · exact .inl hoff
  · by_cases hidle : ∃ cb ∈ s.shared.idle, cb.state = false
    · obtain ⟨cb, hmem, hstate⟩ := hidle
      exact .inr (.inl ⟨cb, Op.mem_idle_exec hmem, hstate⟩)
    · rcases h.keyed (keyedAfter_of_keyedByWeb hkeyed hidle) with hptt | hqueued
      · refine .inr (.inr ⟨(congrFun hflags _).trans hptt, Pool.queued_push ?_ _ _⟩)
        rw [hpush]
        rfl
      · exact (queued_or_idle hloc hqueued).imp_right .inl

theorem Safe.capable_run (h : Safe canTransmit s) (hop : op.Ok canTransmit t rest)
    (hc : (op.exec canTransmit s.shared).1.radio.keyedByWeb = true ∨
      (op.exec canTransmit s.shared).1.mustUnkey = true ∨
      ∃ cb ∈ (op.exec canTransmit s.shared).1.idle, cb.state = true) : canTransmit = true := by
  rcases hc with hkeyed | hunkey | ⟨cb, hmem, hstate⟩
  · rw [Op.exec_radio] at hkeyed
    exact h.capable (.inl hkeyed)
  · rcases Op.exec_mustUnkey s.shared op hunkey with hold | ⟨hkeyed, -⟩
    · exact h.capable (.inr (.inl hold))
    · exact h.capable (.inl hkeyed)
  · rw [Op.exec_idle] at hmem
    cases op with
    | idleAdd d =>
      rcases List.mem_append.1 hmem with hmem | hmem
      · exact h.capable (.inr (.inr ⟨cb, hmem, hstate⟩))
      · obtain rfl := List.mem_singleton.1 hmem
        exact hop hstate
    | _ => exact h.capable (.inr (.inr ⟨cb, hmem, hstate⟩))

end Run

theorem Safe.run {s s' : State κ} {t : Tid κ} (h : Safe canTransmit s) (hwf : Wf canTransmit s)
    (hP : KeyedRevocably s (.run t)) (hs : s.runNext (Op.exec canTransmit) t = some s') :
    Safe canTransmit s' := by
  obtain ⟨op, rest, hloc, rfl⟩ := Pool.runNext_eq_some.1 hs
  have hcode : CodeOk canTransmit t (op :: rest) := hloc ▸ hwf.code t
  have hrev : op.queues true = true → Revocable s := by
    intro hop
    exact hP (by simp [queuesKey, hloc, hop])
  exact ⟨h.ptt_run hloc hcode.1 hrev, h.keyed_run hloc hcode.1 hrev, h.unkey_run hloc hcode.1,
    h.capable_run hcode.1⟩

/-- The main loop runs the oldest callback of the idle queue. -/
theorem Safe.idle {s : State κ} {cb : Callback} {idle : List Callback}
    (h : Safe canTransmit s) (hidle : s.shared.idle = cb :: idle) (hfree : s.loc .gtk = []) :
    Safe canTransmit (s.set .gtk ({ s.shared with idle := idle }.setRadio
      (cb.run canTransmit true s.shared.radio)) []) := by
  have hstate : (cb.run canTransmit true s.shared.radio).keyedByWeb = true → cb.state = true :=
    Callback.state_of_keyedByWeb_run fun hr => h.capable (.inl hr)
  refine ⟨fun hptt => ?_, fun hkeyed => ?_, fun hunkey => ?_, fun hc => ?_⟩
  · exact (h.ptt hptt).imp_right
      (Or.imp (fun hq => hq.set_nil hfree _ _) fun hq => hq.set_nil hfree _ _)
  · refine (h.keyed ?_).imp_right fun hq => hq.set_nil hfree _ _
    unfold Shared.keyedAfter at hkeyed ⊢
    rw [hidle]
    cases idle with
    | nil => exact hstate hkeyed
    | cons d idle =>
      have hlast := List.getLast?_eq_some_getLast (List.cons_ne_nil d idle)
      rw [List.getLast?_cons_cons, hlast]
      simpa only [Pool.set_shared, Shared.setRadio, hlast, Option.map_some, Option.getD_some]
        using hkeyed
  · obtain ⟨hold, hkeyed⟩ := Bool.and_eq_true_iff.1 hunkey
    obtain rfl : canTransmit = true := h.capable (.inr (.inl hold))
    rcases h.unkey hold with hq | ⟨d, hmem, hoff⟩ | ⟨hptt, hq⟩
    · exact .inl (hq.set_nil hfree _ _)
    · rw [hidle] at hmem
      rcases List.mem_cons.1 hmem with rfl | hmem
      · exact absurd ((Callback.keyed_run true _ hoff).symm.trans hkeyed) Bool.false_ne_true
      · exact .inr (.inl ⟨d, hmem, hoff⟩)
    · exact .inr (.inr ⟨hptt, hq.set_nil hfree _ _⟩)
  · rcases hc with hkeyed | hunkey | ⟨d, hmem, hon⟩
    · exact h.capable (.inr (.inr ⟨cb, by simp [hidle], hstate hkeyed⟩))
    · exact h.capable (.inr (.inl (Bool.and_eq_true_iff.1 hunkey).1))
    · exact h.capable (.inr (.inr ⟨d, by rw [hidle]; exact List.mem_cons_of_mem _ hmem, hon⟩))

/-- Somebody else changes the key on the GTK thread. -/
theorem Safe.elsewhere {s : State κ} (h : Safe canTransmit s) (cb : Callback)
    (hfree : s.loc .gtk = []) :
    Safe canTransmit (s.set .gtk (s.shared.setRadio (cb.run canTransmit false s.shared.radio))
      []) := by
  refine ⟨fun hptt => ?_, fun hkeyed => ?_, fun hunkey => ?_, fun hc => ?_⟩
  · exact (h.ptt hptt).imp_right
      (Or.imp (fun hq => hq.set_nil hfree _ _) fun hq => hq.set_nil hfree _ _)
  · refine (h.keyed ?_).imp_right fun hq => hq.set_nil hfree _ _
    unfold Shared.keyedAfter at hkeyed ⊢
    cases hlast : s.shared.idle.getLast? with
    | none =>
      refine @Callback.keyedByWeb_of_run canTransmit cb s.shared.radio ?_
      simpa [Shared.setRadio, hlast] using hkeyed
    | some d => simpa [Shared.setRadio, hlast] using hkeyed
  · have hold := (Bool.and_eq_true_iff.1 hunkey).1
    exact (h.unkey hold).imp (fun hq => hq.set_nil hfree _ _)
      (Or.imp_right (And.imp_right fun hq => hq.set_nil hfree _ _))
  · rcases hc with hkeyed | hunkey | hon
    · exact h.capable (.inl (Callback.keyedByWeb_of_run hkeyed))
    · exact h.capable (.inr (.inl (Bool.and_eq_true_iff.1 hunkey).1))
    · exact h.capable (.inr (.inr hon))

theorem safe_step (s : State κ) (l : Label κ) (s' : State κ)
    (h : Wf canTransmit s ∧ Safe canTransmit s) (hP : KeyedRevocably s l)
    (hs : step canTransmit s l = some s') : Wf canTransmit s' ∧ Safe canTransmit s' := by
  refine ⟨wf_step s l s' h.1 hs, ?_⟩
  obtain ⟨hwf, h⟩ := h
  have hcases := step_cases hs
  cases l with
  | run t => exact h.run hwf hP hcases
  | idle =>
    obtain ⟨hfree, cb, idle, hidle, rfl⟩ := hcases
    exact h.idle hidle hfree
  | elsewhere cb =>
    obtain ⟨hfree, rfl⟩ := hcases
    exact h.elsewhere cb hfree
  | connect | request | disconnect =>
    obtain ⟨_, hfree, rfl⟩ := hcases
    exact h.congr rfl rfl rfl rfl rfl fun p hq => hq.set_nil hfree _ _
  | rtcTxAudio | tick =>
    obtain ⟨hfree, rfl⟩ := hcases
    exact h.congr rfl rfl rfl rfl rfl fun p hq => hq.set_nil hfree _ _
  | webTxEnable | elapse =>
    obtain rfl : s' = _ := hcases
    exact h.congr rfl rfl rfl rfl rfl fun p hq => hq

/-- What is safe at all times is safe in the sense of the operator when no thread is in the middle
of its code and the idle queue has run. -/
theorem Safe.txSafe {s : State κ} (h : Safe canTransmit s) (hwf : Wf canTransmit s)
    (hq : s.Quiescent) (hidle : s.shared.idle = []) : s.shared.TxSafe := by
  have howner : s.shared.flags .remotePtt = true →
      ∃ c, s.shared.txLeaseOwner = some c ∧ s.shared.live c = true := by
    intro hptt
    rcases h.ptt hptt with howner | hqueued | hqueued
    · obtain ⟨c, hc⟩ := Option.ne_none_iff_exists'.1 howner
      exact ⟨c, hc, (hwf.owner c hc).1⟩
    · exact absurd hqueued (hq.not_queued _)
    · exact absurd hqueued (hq.not_queued _)
  refine ⟨howner, fun hkeyed => ?_, ?_⟩
  · have hafter : s.shared.keyedAfter = true := by simpa [Shared.keyedAfter, hidle] using hkeyed
    exact howner ((h.keyed hafter).resolve_right (hq.not_queued _))
  · by_contra hunkey
    rcases h.unkey (Bool.not_eq_false _ ▸ hunkey) with hqueued | ⟨cb, hmem, -⟩ | ⟨-, hqueued⟩
    · exact hq.not_queued _ hqueued
    · rw [hidle] at hmem
      exact List.not_mem_nil hmem
    · exact hq.not_queued _ hqueued

/-- **Remote transmit safety**, in every quiescent state of every run in which key commands are
only queued while they can be revoked. -/
theorem txSafe_of_revocable {ls : List (Label κ)} {s : State κ}
    (hrun : (system canTransmit κ).exec (system canTransmit κ).init ls = some s)
    (hP : (system canTransmit κ).Along KeyedRevocably (system canTransmit κ).init ls)
    (hq : s.Quiescent) (hidle : s.shared.idle = []) : s.shared.TxSafe := by
  obtain ⟨hwf, hsafe⟩ := (system canTransmit κ).exec_induction_along safe_step ls _ s
    ⟨wf_init, safe_init⟩ hP hrun
  exact hsafe.txSafe hwf hq hidle

/-- Of two clients, client `false` takes control and the TX lease and delivers microphone audio. -/
def armedClient : List (Label Bool) :=
  List.flatten
    [[.connect false .control, .connect true .control, .webTxEnable true, .elapse 1],
     .request false (.controlAcquire false) :: List.replicate 2 (.run (.client false)),
     .request false .leaseAcquire :: List.replicate 5 (.run (.client false)),
     .rtcTxAudio false :: List.replicate 3 (.run (.rtc false))]

/-- Client `false` keys, and then client `true` takes control over. -/
def takeoverAfterKey : List (Label Bool) :=
  List.flatten
    [armedClient, .request false (.setMox true) :: List.replicate 10 (.run (.client false)),
     [.idle], .request true (.controlAcquire true) :: List.replicate 11 (.run (.client true)),
     [.idle, .idle]]

theorem txSafe_takeoverAfterKey : ∃ s,
    (system true Bool).exec (system true Bool).init takeoverAfterKey = some s ∧
      s.shared.txLeaseOwner = none ∧ s.shared.TxSafe := by
  have hrun : ∃ s,
      (system true Bool).exec (system true Bool).init takeoverAfterKey = some s ∧
        s.Quiescent ∧ s.shared.idle.length = 0 ∧ s.shared.txLeaseOwner = none :=
    (system true Bool).exists_exec (by decide +kernel)
  obtain ⟨s, hs, hq, hidle, howner⟩ := hrun
  exact ⟨s, hs, howner,
    txSafe_of_revocable hs (by decide +kernel) hq (List.length_eq_zero_iff.1 hidle)⟩

/-- Client `true` takes control over after the tests of the `set_mox` of client `false` and before
the store of `web_remote_ptt`; then the main loop runs the callback and `web_state_tick`. -/
def takeoverBeforeKey : List (Label Bool) :=
  List.flatten
    [armedClient, .request false (.setMox true) :: List.replicate 4 (.run (.client false)),
     .request true (.controlAcquire true) :: List.replicate 9 (.run (.client true)),
     List.replicate 6 (.run (.client false)), .idle :: .tick :: List.replicate 8 (.run .gtk)]

/-- The radio can be left keyed by the web remote while nobody owns the TX lease. -/
theorem takeover_before_key : ∃ s,
    (system true Bool).exec (system true Bool).init takeoverBeforeKey = some s ∧
      s.Quiescent ∧ s.shared.idle = [] ∧ s.shared.radio.mox = true ∧
      s.shared.txLeaseOwner = none ∧ ¬ s.shared.TxSafe := by
  have hrun : ∃ s,
      (system true Bool).exec (system true Bool).init takeoverBeforeKey = some s ∧
        s.Quiescent ∧ s.shared.idle.length = 0 ∧ s.shared.radio.mox = true ∧
        s.shared.txLeaseOwner = none ∧ s.shared.flags .remotePtt = true :=
    (system true Bool).exists_exec (by decide +kernel)
  obtain ⟨s, hs, hq, hidle, hmox, howner, hptt⟩ := hrun
  refine ⟨s, hs, hq, List.length_eq_zero_iff.1 hidle, hmox, howner, fun hsafe => ?_⟩
  obtain ⟨c, hc, -⟩ := hsafe.ptt hptt
  exact Option.some_ne_none c (hc.symm.trans howner)

end MacHPSDR.WebServer
