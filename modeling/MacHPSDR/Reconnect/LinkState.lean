import Mathlib

/-!
# The link watchdog's decision

The state machine of `link_state.c`: it is handed the time and told whether the transmitter is
keyed, and answers with a state and at most one action. Times are monotonic seconds.
`linkTick_enters_lost` says when a tick declares the link lost.
-/

namespace MacHPSDR.Reconnect

/-- `LINK_STATE` -/
inductive LinkState
  | idle
  | starting
  | streaming
  | lost
  | retrying
  deriving DecidableEq

/-- `LINK_ACTION` -/
inductive LinkAction
  | nothing
  | reconnect
  deriving DecidableEq

def disconnectTimeoutSec : ℤ := 3
def firstDataTimeoutSec : ℤ := 10
def reconnectBackoffMinSec : ℤ := 1
def reconnectBackoffMaxSec : ℤ := 60

/-- `LINK` -/
structure Link where
  state : LinkState
  stateSince : ℤ
  lastData : ℤ
  dataSeq : ℕ
  seqAtEntry : ℕ
  nextAttempt : ℤ
  backoff : ℤ
  attempt : ℕ
  deriving DecidableEq

def linkEnter (l : Link) (s : LinkState) (now : ℤ) : Link :=
  { l with state := s, stateSince := now, seqAtEntry := l.dataSeq }

def linkReset (l : Link) (now : ℤ) : Link :=
  linkEnter
    { l with
      lastData := now
      nextAttempt := 0
      backoff := reconnectBackoffMinSec
      attempt := 0
      state := .idle }
    .starting now

def linkRetryNow (l : Link) (now : ℤ) : Link :=
  let l := { l with nextAttempt := now }
  if l.state = .starting then linkEnter l .lost now else l

def linkAttempted (l : Link) (now : ℤ) : Link :=
  let backoff :=
    if l.backoff * 2 > reconnectBackoffMaxSec then reconnectBackoffMaxSec else l.backoff * 2
  linkEnter
    { l with
      attempt := l.attempt + 1
      lastData := now
      backoff := backoff
      nextAttempt := now + firstDataTimeoutSec + backoff }
    .starting now

/-- A block has arrived since the state was entered. -/
def Link.fresh (l : Link) : Bool := l.dataSeq != l.seqAtEntry

/-- Data is there: the ladder is reset and the link is up. -/
def linkUp (l : Link) (now : ℤ) : Link :=
  linkEnter { l with backoff := reconnectBackoffMinSec, attempt := 0 } .streaming now

def linkTick (l : Link) (now : ℤ) (transmitting : Bool) : Link × LinkAction :=
  if l.state = .idle then (l, .nothing)
  else if transmitting ∧ (l.state = .streaming ∨ l.state = .starting) then
    ({ l with lastData := now, stateSince := now }, .nothing)
  else
    match l.state with
    | .starting =>
      if l.fresh then (linkUp l now, .nothing)
      else if now - l.stateSince ≥ firstDataTimeoutSec then
        let l := linkEnter l .lost now
        (if l.attempt = 0 then { l with nextAttempt := now } else l, .nothing)
      else (l, .nothing)
    | .streaming =>
      if now - l.lastData ≥ disconnectTimeoutSec then
        ({ linkEnter l .lost now with nextAttempt := now }, .nothing)
      else (l, .nothing)
    | .lost =>
      if l.fresh then (linkUp l now, .nothing)
      else if now ≥ l.nextAttempt then (linkEnter l .retrying now, .reconnect)
      else (l, .nothing)
    | .retrying | .idle => (l, .nothing)

@[simp] theorem linkEnter_state (l : Link) (s : LinkState) (now : ℤ) :
    (linkEnter l s now).state = s := rfl

@[simp] theorem linkUp_state (l : Link) (now : ℤ) : (linkUp l now).state = .streaming := rfl

@[simp] theorem linkAttempted_state (l : Link) (now : ℤ) :
    (linkAttempted l now).state = .starting := rfl

@[simp] theorem linkAttempted_stateSince (l : Link) (now : ℤ) :
    (linkAttempted l now).stateSince = now := rfl

/-- **The ways into `lost`**: a gap in an established stream, or a stream that never started. A
keyed transmitter rules out both. -/
theorem linkTick_enters_lost {l : Link} {now : ℤ} {transmitting : Bool} (h : l.state ≠ .lost) :
    (linkTick l now transmitting).1.state = .lost ↔ transmitting = false ∧
      (l.state = .streaming ∧ now - l.lastData ≥ disconnectTimeoutSec ∨
        l.state = .starting ∧ l.fresh = false ∧ now - l.stateSince ≥ firstDataTimeoutSec) := by
  obtain ⟨state, since, data, seq, entry, next, backoff, attempt⟩ := l
  cases state with
  | idle | retrying => simp [linkTick]
  | lost => exact (h rfl).elim
  | starting =>
    cases transmitting with
    | true => simp [linkTick]
    | false =>
      simp only [linkTick, Link.fresh]
      by_cases hf : (seq != entry) = true
      · simp [hf]
      · by_cases ht : now - since ≥ firstDataTimeoutSec
        · by_cases ha : attempt = 0 <;> simp [hf, ht, ha, linkEnter]
        · simp [hf, ht]
  | streaming =>
    cases transmitting with
    | true => simp [linkTick]
    | false =>
      by_cases ht : now - data ≥ disconnectTimeoutSec <;> simp [linkTick, ht]

/-- A tick leaves the link starting only if it was starting before, and then a keyed transmitter
moves the time of entry to now. -/
theorem linkTick_starting {l : Link} {now : ℤ} {transmitting : Bool}
    (h : (linkTick l now transmitting).1.state = .starting) :
    l.state = .starting ∧
      (linkTick l now transmitting).1.stateSince = if transmitting then now else l.stateSince := by
  obtain ⟨state, since, data, seq, entry, next, backoff, attempt⟩ := l
  cases state with
  | idle | retrying => simp [linkTick] at h
  | lost => simp only [linkTick] at h; grind [linkEnter_state, linkUp_state]
  | streaming => simp only [linkTick] at h; grind [linkEnter_state]
  | starting =>
    refine ⟨rfl, ?_⟩
    simp only [linkTick] at h ⊢
    grind [linkEnter_state, linkUp_state]

/-- A reconnect is asked for only with the link in `retrying`. -/
theorem linkTick_reconnect {l : Link} {now : ℤ} {transmitting : Bool}
    (h : (linkTick l now transmitting).2 = .reconnect) :
    (linkTick l now transmitting).1.state = .retrying := by
  obtain ⟨state, since, data, seq, entry, next, backoff, attempt⟩ := l
  cases state <;> simp only [linkTick] at h ⊢ <;> grind [linkEnter_state]

end MacHPSDR.Reconnect
