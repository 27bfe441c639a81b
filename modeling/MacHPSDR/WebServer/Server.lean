import MacHPSDR.Foundations.Threads

/-!
# The leases and the key of the web remote

The web server gives each browser connection a thread that runs `dispatch_request` for one request
after the other, and `web_client_release` when the connection ends. WebRTC delivers microphone
audio on threads of its own, and the GTK thread runs the queued callbacks and `web_state_tick`.
They share the control lease and the TX lease (`web_lease_mutex`), the flags of the remote key
(atomics) and the state of the radio.

A thread's code is a list of operations: one section under a mutex, one access of an atomic, one
`g_idle_add`, or one read of the radio. `Op.exec` runs an operation; what the source does next on
account of its outcome is put in front of the rest, so a handler that returns an error puts
nothing there. Replies to the browser, the audio ring with its counters and the media sessions
play no part in leases and keying and are left out.
-/

namespace MacHPSDR.WebServer

/-- `WEB_TX_LEASE_TIMEOUT_US`. -/
def leaseTimeoutUs : ℕ := 5 * 1000000

/-- `WEB_TX_MEDIA_TIMEOUT_US`. -/
def mediaTimeoutUs : ℕ := 500000

/-! ## Requests and who may send them -/

/-- `WEB_ROLE`. -/
inductive Role
  | view
  | control
  deriving DecidableEq

/-- `WEB_ACCESS`. -/
inductive Access
  | view
  | controlRole
  | controlLease
  deriving DecidableEq

/-- The requests, by what they do to the leases and the key. -/
inductive Request
  /-- `get_state`, the subscriptions, the media negotiation and the audio feedback. -/
  | getState
  | controlAcquire (force : Bool)
  | controlRenew
  | controlRelease
  | leaseAcquire
  | leaseRenew
  | leaseRelease
  | setMox (flag : Bool)
  | setTune (flag : Bool)
  | setTxControl
  /-- Frequency, mode, filter and the receiver controls. -/
  | setReceiver

/-- `web_request_access`. -/
def webRequestAccess : Request → Access
  | .getState => .view
  | .controlAcquire _ | .controlRenew | .controlRelease | .leaseRelease => .controlRole
  | .setMox flag | .setTune flag => if flag then .controlLease else .controlRole
  | .leaseAcquire | .leaseRenew | .setTxControl | .setReceiver => .controlLease

/-! ## The radio -/

/-- The two ways to key. -/
inductive Key
  | mox
  | tune
  deriving DecidableEq

/-- What the radio transmits. `byWeb` is history: the last change of the key came from a callback
that the web server queued. -/
structure Radio where
  mox : Bool
  tune : Bool
  byWeb : Bool

namespace Radio

/-- `mox` or `tune`. -/
def isOn (r : Radio) : Key → Bool
  | .mox => r.mox
  | .tune => r.tune

def keyed (r : Radio) : Bool := r.mox || r.tune

def keyedByWeb (r : Radio) : Bool := r.keyed && r.byWeb

/-- `set_mox`. -/
def setMox (r : Radio) (state : Bool) : Radio := { r with tune := false, mox := state }

/-- `set_tune`. -/
def setTune (r : Radio) (state : Bool) : Radio := { r with mox := false, tune := state }

end Radio

/-- The callbacks on the idle queue that key or unkey the radio. -/
inductive Callback
  /-- `ext_set_mox`. -/
  | extSetMox (state : Bool)
  /-- `web_set_tune_idle`. -/
  | webSetTuneIdle (state : Bool)

def Callback.state : Callback → Bool
  | .extSetMox state | .webSetTuneIdle state => state

/-- Run a callback on the radio, on behalf of the web server or of somebody else. A radio that can
transmit has a transmitter, so `web_set_tune_idle` tests the one capability. -/
def Callback.run (canTransmit byWeb : Bool) (r : Radio) : Callback → Radio
  | .extSetMox state => { r.setMox state with byWeb := byWeb }
  | .webSetTuneIdle state => if canTransmit then { r.setTune state with byWeb := byWeb } else r

/-! ## The shared state -/

/-- The atomics. -/
inductive Flag
  | remotePtt
  /-- `web_remote_mox` and `web_remote_tune`. -/
  | remote (key : Key)
  /-- `web_remote_mox_seen` and `web_remote_tune_seen`. -/
  | remoteSeen (key : Key)
  | txAudioActive
  deriving DecidableEq

/-- The shared variables; `κ` are the client slots. `mustUnkey` is history: a client has lost the
TX lease while the web remote had the radio keyed, and the radio has not been unkeyed since. -/
structure Shared (κ : Type*) where
  now : ℕ
  txLeaseOwner : Option κ
  txLeaseDeadlineUs : ℕ
  controlOwner : Option κ
  controlDeadlineUs : ℕ
  flags : Flag → Bool
  txAudioLastUs : ℕ
  webTxEnable : Bool
  /-- The slot holds a connection (`fd >= 0`). -/
  live : κ → Bool
  role : κ → Role
  idle : List Callback
  radio : Radio
  mustUnkey : Bool

namespace Shared

variable {κ : Type*}

def setFlag (s : Shared κ) (f : Flag) (b : Bool) : Shared κ :=
  { s with flags := Function.update s.flags f b }

/-- The owner loses the TX lease. -/
def dropTxLease (s : Shared κ) : Shared κ :=
  { s with txLeaseOwner := none, txLeaseDeadlineUs := 0,
           mustUnkey := s.mustUnkey || s.radio.keyedByWeb }

/-- `web_tx_audio_fresh`. -/
def webTxAudioFresh (s : Shared κ) : Bool :=
  decide (s.txAudioLastUs > 0) && decide (s.now - s.txAudioLastUs < mediaTimeoutUs)

/-- The GTK thread or a local control changes the key. -/
def setRadio (s : Shared κ) (r : Radio) : Shared κ :=
  { s with radio := r, mustUnkey := s.mustUnkey && r.keyed }

end Shared

/-! ## Operations -/

/-- What a caller of `web_lease_is_owner` does when the client is the owner. -/
inductive Grant
  /-- `set_mox` goes on to test the microphone audio. -/
  | setMox
  /-- `set_tune` keys. -/
  | setTune
  /-- `web_rtc_on_tx_audio` takes the block. -/
  | txAudio

inductive Op (κ : Type*)
  /-- `g_atomic_int_set`. -/
  | set (f : Flag) (b : Bool)
  /-- The compare-and-exchange of `web_remote_unkey`. -/
  | unkeyPtt
  /-- `g_idle_add`. -/
  | idleAdd (cb : Callback)
  | webTxAudioReset
  /-- The section of `web_lease_release_client`. -/
  | webLeaseReleaseClient (client : κ)
  /-- The section of `web_lease_is_owner`. -/
  | webLeaseIsOwner (client : κ) (renew : Bool) (owned : Option Grant)
  /-- The section of `web_control_release_client`. -/
  | webControlReleaseClient (client : κ)
  /-- The section of `web_control_is_owner`; `owned` is the request that goes on if the client
  holds control. -/
  | webControlIsOwner (client : κ) (renew : Bool) (owned : Option Request)
  /-- The section of `control_acquire`. -/
  | controlAcquire (client : κ) (force : Bool)
  /-- The section of `lease_acquire`. -/
  | leaseAcquire (client : κ)
  /-- The test that browser PTT is armed, in a request that needs it. -/
  | armed (client : κ) (request : Request)
  /-- The test of `set_mox` that microphone audio arrives. -/
  | moxAudioFresh
  /-- `web_rtc_on_tx_audio` tests `web_tx_enable`. -/
  | rtcArmed
  /-- `web_rtc_on_tx_audio` stores the block. -/
  | rtcStore
  /-- `web_client_release` gives the slot back. -/
  | clientClose (client : κ)
  /-- `web_state_tick` reads the control owner. -/
  | tickControl
  /-- `web_state_tick` reads the TX owner. -/
  | tickLease
  /-- `web_state_tick` tests that browser PTT is armed. -/
  | tickArmed
  /-- `web_state_tick` revokes the TX lease; without an owner it unkeys if `unkey` is set. -/
  | tickRevoke (unkey : Bool)
  /-- `web_state_tick` tests that browser audio is on. -/
  | tickMedia
  /-- `web_state_tick` tests that it still arrives. -/
  | tickFresh
  /-- `web_state_tick` tests `web_remote_mox` after the audio has stopped. -/
  | tickMediaMox
  /-- `web_state_tick` tests `web_remote_mox` or `web_remote_tune`. -/
  | tickKey (key : Key)
  /-- `web_state_tick` tests the radio. -/
  | tickRadio (key : Key)
  /-- `web_state_tick` tests whether it has seen the radio keyed. -/
  | tickSeen (key : Key)

/-- The section of `web_lease_release_client` for client `c`. -/
def Op.releases {κ : Type*} [DecidableEq κ] (c : κ) : Op κ → Bool
  | .webLeaseReleaseClient client => decide (client = c)
  | _ => false

section Code

variable {κ : Type*}

/-- `web_remote_unkey`. -/
def webRemoteUnkey : List (Op κ) :=
  [.set (.remote .mox) false, .set (.remoteSeen .mox) false, .set (.remote .tune) false,
    .set (.remoteSeen .tune) false, .unkeyPtt]

/-- What follows the loss of the TX lease. -/
def txLeaseLost : List (Op κ) := .webTxAudioReset :: webRemoteUnkey

/-- `set_mox` once its tests have passed. -/
def setMoxCode (flag : Bool) : List (Op κ) :=
  [.set (.remote .mox) flag, .set (.remote .tune) false, .set (.remoteSeen .tune) false,
    .set .remotePtt flag, .set (.remoteSeen .mox) false, .idleAdd (.extSetMox flag)]

/-- `set_tune` once its tests have passed. -/
def setTuneCode (flag : Bool) : List (Op κ) :=
  [.set (.remote .tune) flag, .set (.remoteSeen .tune) false, .set (.remote .mox) false,
    .set (.remoteSeen .mox) false, .set .remotePtt flag, .idleAdd (.webSetTuneIdle flag)]

def Grant.code : Grant → List (Op κ)
  | .setMox => [.moxAudioFresh]
  | .setTune => setTuneCode true
  | .txAudio => [.rtcArmed]

/-- A request that needs browser PTT armed, after that test. -/
def armedCode (client : κ) : Request → List (Op κ)
  | .leaseAcquire => [.webLeaseIsOwner client false none, .leaseAcquire client]
  | .setMox true => [.webLeaseIsOwner client true (some .setMox)]
  | .setMox false => setMoxCode false
  | .setTune true => [.webLeaseIsOwner client true (some .setTune)]
  | .setTune false => setTuneCode false
  | .setTxControl => [.webLeaseIsOwner client true none]
  | _ => []

/-- `dispatch_request` after the access check. -/
def requestCode (client : κ) : Request → List (Op κ)
  | .controlAcquire force => [.webControlIsOwner client false none, .controlAcquire client force]
  | .controlRenew => [.webControlIsOwner client true none]
  | .controlRelease => [.webControlReleaseClient client]
  | .leaseRenew => [.webLeaseIsOwner client true none]
  | .leaseRelease => [.webLeaseReleaseClient client]
  | .getState | .setReceiver => []
  | request => [.armed client request]

/-- `dispatch_request`. -/
def dispatchRequest (role : Role) (client : κ) (request : Request) : List (Op κ) :=
  match webRequestAccess request, role with
  | .view, _ => requestCode client request
  | _, .view => []
  | .controlRole, .control => requestCode client request
  | .controlLease, .control => [.webControlIsOwner client true (some request)]

/-- `web_client_release`. -/
def webClientRelease (client : κ) : List (Op κ) :=
  [.webControlReleaseClient client, .webLeaseReleaseClient client, .clientClose client]

/-- `web_state_tick`, up to the pushed state. -/
def webStateTick : List (Op κ) :=
  [.tickControl, .tickLease, .tickMedia, .tickKey .mox, .tickKey .tune]

variable [DecidableEq κ] (canTransmit : Bool)

/-- Run one operation: the shared state after it, and the code that follows from its outcome. -/
def Op.exec (s : Shared κ) : Op κ → Shared κ × List (Op κ)
  | .set f b => (s.setFlag f b, [])
  | .unkeyPtt =>
    if s.flags .remotePtt then
      (s.setFlag .remotePtt false,
        [.idleAdd (.webSetTuneIdle false), .idleAdd (.extSetMox false)])
    else (s, [])
  | .idleAdd cb => ({ s with idle := s.idle ++ [cb] }, [])
  | .webTxAudioReset => ({ s with txAudioLastUs := 0 }.setFlag .txAudioActive false, [])
  | .webLeaseReleaseClient client =>
    if s.txLeaseOwner = some client then (s.dropTxLease, txLeaseLost) else (s, [])
  | .webLeaseIsOwner client renew owned =>
    if s.txLeaseOwner ≠ none ∧ s.now ≥ s.txLeaseDeadlineUs then (s.dropTxLease, txLeaseLost)
    else if s.txLeaseOwner = some client then
      ({ s with txLeaseDeadlineUs := if renew then s.now + leaseTimeoutUs
                                     else s.txLeaseDeadlineUs },
        (owned.map Grant.code).getD [])
    else (s, [])
  | .webControlReleaseClient client =>
    if s.controlOwner = some client then
      ({ s with controlOwner := none, controlDeadlineUs := 0 }, [.webLeaseReleaseClient client])
    else (s, [])
  | .webControlIsOwner client renew owned =>
    match s.controlOwner with
    | none => (s, [])
    | some owner =>
      if s.now ≥ s.controlDeadlineUs then
        ({ s with controlOwner := none, controlDeadlineUs := 0 }, [.webLeaseReleaseClient owner])
      else if owner = client then
        ({ s with controlDeadlineUs := if renew then s.now + leaseTimeoutUs
                                       else s.controlDeadlineUs },
          (owned.map (requestCode client)).getD [])
      else (s, [])
  | .controlAcquire client force =>
    match s.controlOwner with
    | none =>
      ({ s with controlOwner := some client, controlDeadlineUs := s.now + leaseTimeoutUs }, [])
    | some previous =>
      if previous = client ∨ force = true then
        ({ s with controlOwner := some client, controlDeadlineUs := s.now + leaseTimeoutUs },
          if previous = client then [] else [.webLeaseReleaseClient previous])
      else (s, [])
  | .leaseAcquire client =>
    if s.txLeaseOwner = none ∨ s.txLeaseOwner = some client then
      ({ s with txLeaseOwner := some client, txLeaseDeadlineUs := s.now + leaseTimeoutUs },
        [.webTxAudioReset])
    else (s, [])
  | .armed client request =>
    if canTransmit && s.webTxEnable then (s, armedCode client request) else (s, [])
  | .moxAudioFresh => if s.webTxAudioFresh then (s, setMoxCode true) else (s, [])
  | .rtcArmed => if s.webTxEnable then (s, [.rtcStore]) else (s, [])
  | .rtcStore => ({ s with txAudioLastUs := s.now }.setFlag .txAudioActive true, [])
  | .clientClose client => ({ s with live := Function.update s.live client false }, [])
  | .tickControl =>
    match s.controlOwner with
    | some owner => (s, [.webControlIsOwner owner false none])
    | none => (s, [])
  | .tickLease =>
    match s.txLeaseOwner with
    | some owner => (s, [.webLeaseIsOwner owner false none, .tickArmed])
    | none => (s, [])
  | .tickArmed => if !s.webTxEnable || !canTransmit then (s, [.tickRevoke false]) else (s, [])
  | .tickRevoke unkey =>
    match s.txLeaseOwner with
    | some owner => (s, [.webLeaseReleaseClient owner])
    | none => if unkey then (s, webRemoteUnkey) else (s, [])
  | .tickMedia => if s.flags .txAudioActive then (s, [.tickFresh]) else (s, [])
  | .tickFresh =>
    if s.webTxAudioFresh then (s, []) else (s, [.set .txAudioActive false, .tickMediaMox])
  | .tickMediaMox => if s.flags (.remote .mox) then (s, [.tickRevoke true]) else (s, [])
  | .tickKey key => if s.flags (.remote key) then (s, [.tickRadio key]) else (s, [])
  | .tickRadio key =>
    if s.radio.isOn key then (s, [.set (.remoteSeen key) true]) else (s, [.tickSeen key])
  | .tickSeen key => if s.flags (.remoteSeen key) then (s, webRemoteUnkey) else (s, [])

end Code

/-! ## The system -/

/-- The threads: one for each client slot, one for its media session, and the main loop. -/
inductive Tid (κ : Type*)
  | client (c : κ)
  | rtc (c : κ)
  | gtk
  deriving DecidableEq, Fintype

abbrev State (κ : Type*) := Pool (Shared κ) (Tid κ) (List (Op κ))

/-- What can happen next. -/
inductive Label (κ : Type*)
  /-- Thread `t` runs its next operation. -/
  | run (t : Tid κ)
  /-- A connection takes the free slot `c` and logs in with a role. -/
  | connect (c : κ) (role : Role)
  /-- The browser of slot `c` sends a request. -/
  | request (c : κ) (request : Request)
  /-- The connection of slot `c` ends. -/
  | disconnect (c : κ)
  /-- The media session of slot `c` delivers a block of microphone audio. -/
  | rtcTxAudio (c : κ)
  | tick
  /-- The main loop runs the oldest idle callback. -/
  | idle
  /-- The desktop, VOX, CAT or another front end changes the key on the GTK thread. -/
  | elsewhere (cb : Callback)
  /-- The operator arms or disarms browser PTT. -/
  | webTxEnable (on : Bool)
  | elapse (us : ℕ)

variable {κ : Type*} [DecidableEq κ] (canTransmit : Bool)

def step (s : State κ) : Label κ → Option (State κ)
  | .run t => s.runNext (Op.exec canTransmit) t
  | .connect c role =>
    if s.shared.live c = false ∧ (s.loc (.client c)).isEmpty then
      some (s.set (.client c) { s.shared with
        live := Function.update s.shared.live c true,
        role := Function.update s.shared.role c role } [])
    else none
  | .request c request =>
    if s.shared.live c = true ∧ (s.loc (.client c)).isEmpty then
      some (s.set (.client c) s.shared (dispatchRequest (s.shared.role c) c request))
    else none
  | .disconnect c =>
    if s.shared.live c = true ∧ (s.loc (.client c)).isEmpty then
      some (s.set (.client c) s.shared (webClientRelease c))
    else none
  | .rtcTxAudio c =>
    if (s.loc (.rtc c)).isEmpty then
      some (s.set (.rtc c) s.shared [.webLeaseIsOwner c false (some .txAudio)])
    else none
  | .tick =>
    if (s.loc .gtk).isEmpty then some (s.set .gtk s.shared webStateTick) else none
  | .idle =>
    match s.shared.idle with
    | [] => none
    | cb :: idle =>
      if (s.loc .gtk).isEmpty then
        some (s.set .gtk ({ s.shared with idle := idle }.setRadio
          (cb.run canTransmit true s.shared.radio)) [])
      else none
  | .elsewhere cb =>
    if (s.loc .gtk).isEmpty then
      some (s.set .gtk (s.shared.setRadio (cb.run canTransmit false s.shared.radio)) [])
    else none
  | .webTxEnable on => some ⟨{ s.shared with webTxEnable := on }, s.loc⟩
  | .elapse us => some ⟨{ s.shared with now := s.shared.now + us }, s.loc⟩

/-- The server after `web_server_start`. -/
def system (κ : Type*) [DecidableEq κ] : System (State κ) (Label κ) where
  init :=
    { shared :=
        { now := 0, txLeaseOwner := none, txLeaseDeadlineUs := 0, controlOwner := none,
          controlDeadlineUs := 0, flags := fun _ => false, txAudioLastUs := 0,
          webTxEnable := false, live := fun _ => false, role := fun _ => .view, idle := [],
          radio := ⟨false, false, false⟩, mustUnkey := false }
      loc := fun _ => [] }
  step := step canTransmit

/-- What a step can do, by what happens. -/
theorem step_cases {canTransmit : Bool} {s s' : State κ} {l : Label κ}
    (h : step canTransmit s l = some s') :
    match l with
    | .run t => s.runNext (Op.exec canTransmit) t = some s'
    | .connect c role => s.shared.live c = false ∧ s.loc (.client c) = [] ∧
      s' = s.set (.client c) { s.shared with
        live := Function.update s.shared.live c true,
        role := Function.update s.shared.role c role } []
    | .request c request => s.shared.live c = true ∧ s.loc (.client c) = [] ∧
      s' = s.set (.client c) s.shared (dispatchRequest (s.shared.role c) c request)
    | .disconnect c => s.shared.live c = true ∧ s.loc (.client c) = [] ∧
      s' = s.set (.client c) s.shared (webClientRelease c)
    | .rtcTxAudio c => s.loc (.rtc c) = [] ∧
      s' = s.set (.rtc c) s.shared [.webLeaseIsOwner c false (some .txAudio)]
    | .tick => s.loc .gtk = [] ∧ s' = s.set .gtk s.shared webStateTick
    | .idle => s.loc .gtk = [] ∧ ∃ cb idle, s.shared.idle = cb :: idle ∧
      s' = s.set .gtk ({ s.shared with idle := idle }.setRadio
        (cb.run canTransmit true s.shared.radio)) []
    | .elsewhere cb => s.loc .gtk = [] ∧
      s' = s.set .gtk (s.shared.setRadio (cb.run canTransmit false s.shared.radio)) []
    | .webTxEnable on => s' = ⟨{ s.shared with webTxEnable := on }, s.loc⟩
    | .elapse us => s' = ⟨{ s.shared with now := s.shared.now + us }, s.loc⟩ := by
  cases l with
  | run => exact h
  | connect | request | disconnect =>
    simp only [step, Option.ite_none_right_eq_some, Option.some.injEq, List.isEmpty_iff] at h
    exact ⟨h.1.1, h.1.2, h.2.symm⟩
  | rtcTxAudio | tick | elsewhere =>
    simp only [step, Option.ite_none_right_eq_some, Option.some.injEq, List.isEmpty_iff] at h
    exact ⟨h.1, h.2.symm⟩
  | idle =>
    cases hidle : s.shared.idle with
    | nil => simp [step, hidle] at h
    | cons cb idle =>
      simp only [step, hidle, Option.ite_none_right_eq_some, Option.some.injEq,
        List.isEmpty_iff] at h
      exact ⟨h.1, cb, idle, rfl, h.2.symm⟩
  | webTxEnable | elapse => exact (Option.some.inj h).symm

/-! ## What an operation does

One lemma for each variable says which operations write it, so that no later proof unfolds
`Op.exec` to see what stays. -/

section Exec

variable {canTransmit} (s : Shared κ) (op : Op κ)

theorem Op.exec_txLeaseOwner : (op.exec canTransmit s).1.txLeaseOwner =
    match op with
    | .webLeaseReleaseClient c => if s.txLeaseOwner = some c then none else s.txLeaseOwner
    | .webLeaseIsOwner .. => if s.now ≥ s.txLeaseDeadlineUs then none else s.txLeaseOwner
    | .leaseAcquire c => if s.txLeaseOwner = none then some c else s.txLeaseOwner
    | _ => s.txLeaseOwner := by
  cases op <;> simp only [exec] <;> (repeat' split) <;>
    simp_all [Shared.dropTxLease, Shared.setFlag]

theorem Op.exec_controlOwner : (op.exec canTransmit s).1.controlOwner =
    match op with
    | .webControlReleaseClient c => if s.controlOwner = some c then none else s.controlOwner
    | .webControlIsOwner .. => if s.now ≥ s.controlDeadlineUs then none else s.controlOwner
    | .controlAcquire c force =>
      if s.controlOwner = none ∨ force = true then some c else s.controlOwner
    | _ => s.controlOwner := by
  cases op <;> simp only [exec] <;> (repeat' split) <;>
    simp_all [Shared.dropTxLease, Shared.setFlag]

theorem Op.exec_remotePtt : (op.exec canTransmit s).1.flags .remotePtt =
    match op with
    | .set .remotePtt b => b
    | .unkeyPtt => false
    | _ => s.flags .remotePtt := by
  cases op with
  | set f b => cases f <;> simp [exec, Shared.setFlag, Function.update]
  | _ =>
    simp only [exec] <;> (repeat' split) <;>
      simp_all [Shared.dropTxLease, Shared.setFlag, Function.update]

theorem Op.exec_idle : (op.exec canTransmit s).1.idle =
    match op with
    | .idleAdd cb => s.idle ++ [cb]
    | _ => s.idle := by
  cases op <;> simp only [exec] <;> (repeat' split) <;> rfl

theorem Op.exec_radio : (op.exec canTransmit s).1.radio = s.radio := by
  cases op <;> simp only [exec] <;> (repeat' split) <;> rfl

theorem Op.exec_live : (op.exec canTransmit s).1.live =
    match op with
    | .clientClose c => Function.update s.live c false
    | _ => s.live := by
  cases op <;> simp only [exec] <;> (repeat' split) <;> rfl

/-- The owner of the TX lease after an operation had it before and is not released by the
operation, or takes it. -/
theorem Op.txLeaseOwner_of_exec {s : Shared κ} {op : Op κ} {c : κ}
    (h : (op.exec canTransmit s).1.txLeaseOwner = some c) :
    s.txLeaseOwner = some c ∧ op.releases c = false ∨
      s.txLeaseOwner = none ∧ op = .leaseAcquire c := by
  rw [Op.exec_txLeaseOwner] at h
  cases op with
  | webLeaseReleaseClient d =>
    refine .inl ?_
    simp only at h
    split at h
    · exact absurd h.symm (Option.some_ne_none c)
    · rename_i hd
      refine ⟨h, decide_eq_false ?_⟩
      rintro rfl
      exact hd h
  | webLeaseIsOwner =>
    refine .inl ⟨?_, rfl⟩
    simp only at h
    split at h
    · exact absurd h.symm (Option.some_ne_none c)
    · exact h
  | leaseAcquire d =>
    simp only at h
    split at h
    · rename_i hnone
      exact .inr ⟨hnone, by rw [Option.some.inj h]⟩
    · exact .inl ⟨h, rfl⟩
  | _ => exact .inl ⟨h, rfl⟩

/-- The radio has to be unkeyed after the step only if it had to be before, or the TX lease is
lost by the step while the web remote has the radio keyed. -/
theorem Op.exec_mustUnkey (h : (op.exec canTransmit s).1.mustUnkey = true) :
    s.mustUnkey = true ∨ s.radio.keyedByWeb = true ∧
      (op.exec canTransmit s).2 = txLeaseLost ∧
      (op.exec canTransmit s).1.flags = s.flags := by
  revert h
  cases op <;> simp only [exec] <;> (repeat' split) <;>
    simp_all [Shared.dropTxLease, Shared.setFlag]

end Exec

end MacHPSDR.WebServer
