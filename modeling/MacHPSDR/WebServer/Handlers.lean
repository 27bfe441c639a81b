import MacHPSDR.WebServer.Server

/-!
# The code of the threads

What the operations ahead of a thread have in common in every reachable state, whoever else runs
in between: a store of `web_remote_ptt` is followed by the callback that makes the radio agree, a
key command is only on its way on a radio that can transmit, only a client's own thread takes a
lease for it, and `web_client_release` ends with the release of the slot, after which nothing is
left (`Op.Ok`). From this, the owner of the TX lease is always a live client (`Wf.owner`).
-/

namespace MacHPSDR.WebServer

/-! ## The order of the operations -/

section Order

variable {κ : Type*} {canTransmit : Bool} {t : Tid κ} {c : κ} {rest : List (Op κ)}

/-- The end of `web_client_release`. -/
def Op.isClose : Op κ → Bool
  | .clientClose _ => true
  | _ => false

/-- Puts a callback on the idle queue that keys (`state`) or unkeys the radio. -/
def Op.queues (state : Bool) : Op κ → Bool
  | .idleAdd cb => cb.state == state
  | _ => false

/-- What is known of an operation of thread `t` and of the operations behind it. -/
def Op.Ok (canTransmit : Bool) (t : Tid κ) (rest : List (Op κ)) : Op κ → Prop
  | .set .remotePtt flag => rest.any (Op.queues flag) = true
  | .idleAdd cb => cb.state = true → canTransmit = true
  | .moxAudioFresh => canTransmit = true
  | .webLeaseIsOwner _ _ (some .setMox) | .webLeaseIsOwner _ _ (some .setTune) =>
    canTransmit = true
  | .leaseAcquire c | .armed c _ | .webControlIsOwner c _ (some _) =>
    t = .client c ∧ rest.any Op.isClose = false
  | .clientClose c => t = .client c ∧ rest = []
  | _ => True

/-- Every operation of the code of thread `t` is as `Op.Ok` says. -/
def CodeOk (canTransmit : Bool) (t : Tid κ) : List (Op κ) → Prop
  | [] => True
  | op :: rest => op.Ok canTransmit t rest ∧ CodeOk canTransmit t rest

theorem codeOk_webRemoteUnkey (h : CodeOk canTransmit t rest) :
    CodeOk canTransmit t (webRemoteUnkey ++ rest) :=
  ⟨trivial, trivial, trivial, trivial, trivial, h⟩

theorem codeOk_txLeaseLost (h : CodeOk canTransmit t rest) :
    CodeOk canTransmit t (txLeaseLost ++ rest) :=
  ⟨trivial, codeOk_webRemoteUnkey h⟩

theorem codeOk_setMoxCode {flag : Bool} (h : CodeOk canTransmit t rest)
    (hflag : flag = true → canTransmit = true) :
    CodeOk canTransmit t (setMoxCode flag ++ rest) := by
  have hqueues : (Op.idleAdd (.extSetMox flag) : Op κ).queues flag = true := beq_self_eq_true flag
  exact ⟨trivial, trivial, trivial, by simp [Op.Ok, hqueues], trivial, hflag, h⟩

theorem codeOk_setTuneCode {flag : Bool} (h : CodeOk canTransmit t rest)
    (hflag : flag = true → canTransmit = true) :
    CodeOk canTransmit t (setTuneCode flag ++ rest) := by
  have hqueues : (Op.idleAdd (.webSetTuneIdle flag) : Op κ).queues flag = true :=
    beq_self_eq_true flag
  exact ⟨trivial, trivial, trivial, trivial, by simp [Op.Ok, hqueues], hflag, h⟩

theorem codeOk_grant (grant : Grant) (h : CodeOk canTransmit t rest)
    (hop : (Op.webLeaseIsOwner c true (some grant)).Ok canTransmit t rest) :
    CodeOk canTransmit t (grant.code ++ rest) := by
  cases grant with
  | setMox => exact ⟨hop, h⟩
  | setTune => exact codeOk_setTuneCode h fun _ => hop
  | txAudio => exact ⟨trivial, h⟩

theorem codeOk_armedCode (request : Request) (h : CodeOk true (.client c) rest)
    (hclose : rest.any Op.isClose = false) :
    CodeOk true (.client c) (armedCode c request ++ rest) := by
  cases request with
  | leaseAcquire => exact ⟨trivial, ⟨rfl, hclose⟩, h⟩
  | setMox flag =>
    cases flag with
    | true => exact ⟨rfl, h⟩
    | false => exact codeOk_setMoxCode h fun hon => absurd hon Bool.false_ne_true
  | setTune flag =>
    cases flag with
    | true => exact ⟨rfl, h⟩
    | false => exact codeOk_setTuneCode h fun hon => absurd hon Bool.false_ne_true
  | setTxControl => exact ⟨trivial, h⟩
  | _ => exact h

theorem codeOk_requestCode (request : Request) (h : CodeOk canTransmit (.client c) rest)
    (hclose : rest.any Op.isClose = false) :
    CodeOk canTransmit (.client c) (requestCode c request ++ rest) := by
  cases request with
  | controlAcquire => exact ⟨trivial, trivial, h⟩
  | controlRenew | controlRelease | leaseRenew | leaseRelease => exact ⟨trivial, h⟩
  | getState | setReceiver => exact h
  | leaseAcquire | setMox | setTune | setTxControl => exact ⟨⟨rfl, hclose⟩, h⟩

theorem codeOk_dispatchRequest (role : Role) (request : Request) :
    CodeOk canTransmit (.client c) (dispatchRequest role c request) := by
  have hcode : CodeOk canTransmit (.client c) (requestCode c request) := by
    simpa using @codeOk_requestCode κ canTransmit c [] request trivial rfl
  unfold dispatchRequest
  split
  · exact hcode
  · trivial
  · exact hcode
  · exact ⟨⟨rfl, rfl⟩, trivial⟩

theorem isClose_armedCode (request : Request) : (armedCode c request).any Op.isClose = false := by
  cases request with
  | setMox flag | setTune flag => cases flag <;> rfl
  | _ => rfl

theorem isClose_requestCode (request : Request) :
    (requestCode c request).any Op.isClose = false := by
  cases request <;> rfl

theorem isClose_dispatchRequest (role : Role) (request : Request) :
    (dispatchRequest role c request).any Op.isClose = false := by
  unfold dispatchRequest
  split <;> first | rfl | exact isClose_requestCode request

end Order

variable {κ : Type*} [DecidableEq κ] {canTransmit : Bool} {t : Tid κ} {s : Shared κ}
  {rest : List (Op κ)}

/-- Running an operation leaves the code as `CodeOk` says. -/
theorem CodeOk.exec {op : Op κ} (hop : op.Ok canTransmit t rest) (h : CodeOk canTransmit t rest) :
    CodeOk canTransmit t ((op.exec canTransmit s).2 ++ rest) := by
  cases op with
  | unkeyPtt =>
    simp only [Op.exec]
    split
    · have hoff : false = true → canTransmit = true := fun hon => absurd hon Bool.false_ne_true
      exact ⟨hoff, hoff, h⟩
    · exact h
  | webLeaseReleaseClient =>
    simp only [Op.exec]
    split
    · exact codeOk_txLeaseLost h
    · exact h
  | webLeaseIsOwner d renew owned =>
    simp only [Op.exec]
    split
    · exact codeOk_txLeaseLost h
    · split
      · cases owned with
        | none => exact h
        | some grant => exact codeOk_grant (c := d) grant h (by cases grant <;> exact hop)
      · exact h
  | webControlReleaseClient =>
    simp only [Op.exec]
    split
    · exact ⟨trivial, h⟩
    · exact h
  | webControlIsOwner d renew owned =>
    simp only [Op.exec]
    split
    · exact h
    · split
      · exact ⟨trivial, h⟩
      · split
        · cases owned with
          | none => exact h
          | some request =>
            obtain ⟨rfl, hclose⟩ := hop
            exact codeOk_requestCode request h hclose
        · exact h
  | controlAcquire =>
    simp only [Op.exec]
    split
    · exact h
    · split
      · split
        · exact h
        · exact ⟨trivial, h⟩
      · exact h
  | leaseAcquire =>
    simp only [Op.exec]
    split
    · exact ⟨trivial, h⟩
    · exact h
  | armed d request =>
    simp only [Op.exec]
    split
    · rename_i harmed
      obtain ⟨rfl, hclose⟩ := hop
      obtain ⟨rfl, -⟩ := Bool.and_eq_true_iff.1 harmed
      exact codeOk_armedCode request h hclose
    · exact h
  | moxAudioFresh =>
    simp only [Op.exec]
    split
    · exact codeOk_setMoxCode h fun _ => hop
    · exact h
  | tickRevoke =>
    simp only [Op.exec]
    split
    · exact ⟨trivial, h⟩
    · split
      · exact codeOk_webRemoteUnkey h
      · exact h
  | tickSeen =>
    simp only [Op.exec]
    split
    · exact codeOk_webRemoteUnkey h
    · exact h
  | tickLease | tickFresh =>
    simp only [Op.exec]
    split
    · first | exact h | exact ⟨trivial, trivial, h⟩
    · first | exact h | exact ⟨trivial, trivial, h⟩
  | rtcArmed | tickControl | tickArmed | tickMedia | tickMediaMox | tickKey | tickRadio =>
    simp only [Op.exec]
    split
    · exact ⟨trivial, h⟩
    · first | exact h | exact ⟨trivial, h⟩
  | set | idleAdd | webTxAudioReset | rtcStore | clientClose => exact h

/-- No operation puts the release of a slot in front of the rest. -/
theorem Op.isClose_exec (op : Op κ) : (op.exec canTransmit s).2.any Op.isClose = false := by
  cases op with
  | webLeaseIsOwner _ _ owned =>
    rcases owned with _ | _ | _ | _ <;> simp only [exec] <;> (repeat' split) <;> rfl
  | webControlIsOwner _ _ owned =>
    cases owned with
    | none =>
      simp only [exec]
      repeat' split
      all_goals rfl
    | some request =>
      simp only [exec]
      repeat' split
      all_goals first | rfl | exact isClose_requestCode request
  | armed c request =>
    simp only [exec]
    split
    · exact isClose_armedCode request
    · rfl
  | _ =>
    simp only [exec]
    repeat' split
    all_goals rfl

theorem Op.live_exec {op : Op κ} {c : κ} (h : op ≠ .clientClose c) :
    (op.exec canTransmit s).1.live c = s.live c := by
  rw [Op.exec_live]
  cases op with
  | clientClose d =>
    refine Function.update_of_ne ?_ false s.live
    rintro rfl
    exact h rfl
  | _ => rfl

/-! ## Every step -/

/-- What holds of the code and the leases in every reachable state. -/
structure Wf (canTransmit : Bool) (s : State κ) : Prop where
  code : ∀ t, CodeOk canTransmit t (s.loc t)
  /-- Only a live client's thread has anything to do. -/
  live : ∀ c, s.loc (.client c) ≠ [] → s.shared.live c = true
  /-- The owner of the TX lease is live, and is released before its slot is. -/
  owner : ∀ c, s.shared.txLeaseOwner = some c → s.shared.live c = true ∧
    ((s.loc (.client c)).any Op.isClose = true → (s.loc (.client c)).any (Op.releases c) = true)

theorem wf_init : Wf canTransmit (system canTransmit κ).init :=
  ⟨fun _ => trivial, fun _ hne => absurd rfl hne,
    fun c hc => absurd hc.symm (Option.some_ne_none c)⟩

/-- A thread that has nothing to do begins some code, and no lease changes hands. -/
theorem Wf.begin {s : State κ} {s' : Shared κ} {t : Tid κ} {code : List (Op κ)}
    (h : Wf canTransmit s) (hfree : s.loc t = []) (howner : s'.txLeaseOwner = s.shared.txLeaseOwner)
    (hlive : ∀ c, s.shared.live c = true → s'.live c = true)
    (hcode : CodeOk canTransmit t code)
    (hclient : ∀ c, t = .client c → (code ≠ [] → s'.live c = true) ∧
      (code.any Op.isClose = true → code.any (Op.releases c) = true)) :
    Wf canTransmit (s.set t s' code) where
  code := Pool.forall_loc_set hcode fun u _ => h.code u
  live c hne := by
    by_cases ht : .client c = t
    · subst ht
      rw [Pool.set_loc_self] at hne
      exact (hclient c rfl).1 hne
    · rw [Pool.set_loc_of_ne s ht] at hne
      exact hlive c (h.live c hne)
  owner c hc := by
    obtain ⟨hlivec, hclose⟩ := h.owner c (howner ▸ hc)
    refine ⟨hlive c hlivec, ?_⟩
    by_cases ht : .client c = t
    · subst ht
      rw [Pool.set_loc_self]
      exact (hclient c rfl).2
    · rw [Pool.set_loc_of_ne s ht]
      exact hclose

theorem Wf.run {s s' : State κ} {t : Tid κ} (h : Wf canTransmit s)
    (hs : s.runNext (Op.exec canTransmit) t = some s') : Wf canTransmit s' := by
  obtain ⟨op, rest, hloc, rfl⟩ := Pool.runNext_eq_some.1 hs
  have hcode : CodeOk canTransmit t (op :: rest) := hloc ▸ h.code t
  obtain ⟨hop, hrest⟩ := hcode
  refine ⟨Pool.forall_loc_set (hrest.exec hop) fun u _ => h.code u, fun c hne => ?_,
    fun c hc => ?_⟩
  · -- a thread closes its own slot, as the last thing it does
    have hclose : op ≠ .clientClose c := by
      rintro rfl
      obtain ⟨rfl, rfl⟩ := hop
      simp [Op.exec] at hne
    rw [Pool.set_shared, Op.live_exec hclose]
    refine h.live c fun hnil => ?_
    by_cases ht : .client c = t
    · rw [ht, hloc] at hnil
      exact absurd hnil (List.cons_ne_nil _ _)
    · rw [Pool.set_loc_of_ne s ht] at hne
      exact hne hnil
  · rcases Op.txLeaseOwner_of_exec hc with ⟨hold, hreleases⟩ | ⟨-, rfl⟩
    · obtain ⟨hlive, hreleased⟩ := h.owner c hold
      have hclose : op ≠ .clientClose c := by
        rintro rfl
        obtain ⟨rfl, rfl⟩ := hop
        rw [hloc] at hreleased
        exact absurd (hreleased rfl) Bool.false_ne_true
      refine ⟨(Op.live_exec hclose).trans hlive, fun hany => ?_⟩
      by_cases ht : .client c = t
      · subst ht
        rw [Pool.set_loc_self, List.any_append, Op.isClose_exec, Bool.false_or] at hany
        rw [hloc, List.any_cons, List.any_cons, hany, Bool.or_true, hreleases] at hreleased
        rw [Pool.set_loc_self, List.any_append, Bool.or_eq_true_iff]
        exact .inr (hreleased rfl)
      · rw [Pool.set_loc_of_ne s ht] at hany ⊢
        exact hreleased hany
    · obtain ⟨rfl, hnoclose⟩ := hop
      have hlive := h.live c (by rw [hloc]; exact List.cons_ne_nil _ _)
      have hclose : Op.leaseAcquire c ≠ .clientClose c := by simp
      refine ⟨(Op.live_exec hclose).trans hlive, fun hany => ?_⟩
      rw [Pool.set_loc_self, List.any_append, Op.isClose_exec, hnoclose, Bool.or_self] at hany
      exact absurd hany Bool.false_ne_true

theorem wf_step (s : State κ) (l : Label κ) (s' : State κ) (h : Wf canTransmit s)
    (hs : step canTransmit s l = some s') : Wf canTransmit s' := by
  have hcases := step_cases hs
  cases l with
  | run t => exact h.run hcases
  | connect c role =>
    obtain ⟨_, hfree, rfl⟩ := hcases
    refine h.begin hfree rfl (fun d hd => ?_) trivial fun d _ =>
      ⟨fun hne => absurd rfl hne, fun hany => absurd hany Bool.false_ne_true⟩
    by_cases hdc : d = c
    · exact hdc ▸ Function.update_self ..
    · simp only [Function.update_of_ne hdc, hd]
  | request c request =>
    obtain ⟨hlive, hfree, rfl⟩ := hcases
    refine h.begin hfree rfl (fun d hd => hd) (codeOk_dispatchRequest _ _) fun d hd => ?_
    obtain rfl := Tid.client.inj hd
    refine ⟨fun _ => hlive, fun hclose => ?_⟩
    rw [isClose_dispatchRequest] at hclose
    exact absurd hclose Bool.false_ne_true
  | disconnect c =>
    obtain ⟨hlive, hfree, rfl⟩ := hcases
    refine h.begin hfree rfl (fun d hd => hd) ⟨trivial, trivial, ⟨rfl, rfl⟩, trivial⟩ fun d hd => ?_
    obtain rfl := Tid.client.inj hd
    exact ⟨fun _ => hlive, fun _ => by simp [webClientRelease, Op.releases]⟩
  | rtcTxAudio c =>
    obtain ⟨hfree, rfl⟩ := hcases
    exact h.begin hfree rfl (fun d hd => hd) ⟨trivial, trivial⟩ fun _ hc => absurd hc (by simp)
  | tick =>
    obtain ⟨hfree, rfl⟩ := hcases
    exact h.begin hfree rfl (fun d hd => hd) ⟨trivial, trivial, trivial, trivial, trivial, trivial⟩
      fun _ hc => absurd hc (by simp)
  | idle =>
    obtain ⟨hfree, _, _, _, rfl⟩ := hcases
    exact h.begin hfree rfl (fun d hd => hd) trivial fun _ hc => absurd hc (by simp)
  | elsewhere =>
    obtain ⟨hfree, rfl⟩ := hcases
    exact h.begin hfree rfl (fun d hd => hd) trivial fun _ hc => absurd hc (by simp)
  | webTxEnable | elapse =>
    obtain rfl : s' = _ := hcases
    exact ⟨h.code, h.live, h.owner⟩

end MacHPSDR.WebServer
