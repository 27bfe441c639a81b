import MacHPSDR.Foundations.Transition
import MacHPSDR.Reconnect.LinkState

/-!
# The live watchdog and transmit power save

`watchdog_cb` of `reconnect.c` around the decision of `link_state.c`: on every tick it copies the
receive threads' block count and time of the last block into the link, asks for a decision and
runs a reconnect where one is due. `link_tick` moves `last_data` forward while the radio
transmits, but the next tick copies the time of the last block over it.

The runs are any order of blocks, key changes, operator retries, passing seconds and ticks. A tick
is spurious when it declares the link lost less than `DISCONNECT_TIMEOUT_SEC` after the last tick
that saw the radio transmitting, after a transmit period in which no data arrived. No tick of a run
is spurious if and only if each tick that soon after such a period finds the radio keyed again, the
link not yet streaming, or a block less than `DISCONNECT_TIMEOUT_SEC` old (`no_spurious_iff`).
-/

namespace MacHPSDR.Reconnect

/-- The watchdog, the radio and the clock, with the history that the property speaks of. -/
structure Watchdog where
  link : Link
  /-- Blocks seen, bumped by the receive threads. -/
  dataSeq : ℕ
  /-- The second of the last block, or of the last attempt. -/
  lastDataSec : ℤ
  transmitting : Bool
  now : ℤ
  /-- History: the last tick that saw the radio transmitting. -/
  lastTx : Option ℤ
  /-- History: no data has arrived while the radio was keyed since it was last keyed. -/
  txQuiet : Bool

/-- What can happen. -/
inductive Event
  /-- `reconnect_note_data` -/
  | noteData
  /-- The radio is keyed or unkeyed. -/
  | key (on : Bool)
  /-- Seconds pass. -/
  | elapse (d : ℕ)
  /-- `watchdog_cb`; an attempt it makes takes `d` seconds. -/
  | tick (d : ℕ)
  /-- `banner_retry_cb` -/
  | retry

def noteData (s : Watchdog) : Watchdog :=
  { s with
    dataSeq := s.dataSeq + 1
    lastDataSec := s.now
    txQuiet := s.txQuiet && !s.transmitting }

def key (s : Watchdog) (on : Bool) : Watchdog :=
  { s with transmitting := on, txQuiet := s.txQuiet || on && !s.transmitting }

/-- The link as `watchdog_cb` hands it to `link_tick`. -/
def Watchdog.sampled (s : Watchdog) : Link :=
  { s.link with dataSeq := s.dataSeq, lastData := s.lastDataSec }

/-- `watchdog_cb` up to the decision. -/
def Watchdog.ticked (s : Watchdog) : Watchdog :=
  { s with
    link := (linkTick s.sampled s.now s.transmitting).1
    lastTx := if s.transmitting then some s.now else s.lastTx }

def watchdogCb (s : Watchdog) (d : ℕ) : Watchdog :=
  match (linkTick s.sampled s.now s.transmitting).2 with
  | .nothing => s.ticked
  | .reconnect =>
    { s.ticked with
      link := linkAttempted s.ticked.link (s.now + d)
      lastDataSec := s.now + d
      now := s.now + d }

def step (s : Watchdog) : Event → Option Watchdog
  | .noteData => some (noteData s)
  | .key on => some (key s on)
  | .elapse d => some { s with now := s.now + d }
  | .tick d => some (watchdogCb s d)
  | .retry => some { s with link := linkRetryNow s.link s.now }

/-- `reconnect_init`, `n` blocks into the session. -/
def reconnectInit (n : ℕ) (now : ℤ) : Watchdog where
  link := linkReset ⟨.idle, 0, 0, n, 0, 0, 0, 0⟩ now
  dataSeq := n
  lastDataSec := now
  transmitting := false
  now := now
  lastTx := none
  txQuiet := false

def system (n : ℕ) (now : ℤ) : System Watchdog Event := ⟨reconnectInit n now, step⟩

/-- The last tick that saw the radio transmitting is less than the timeout ago, and no data arrived
in that transmit period. -/
def Watchdog.backFromTx (s : Watchdog) : Bool :=
  s.txQuiet && s.lastTx.any fun t => decide (s.now - t < disconnectTimeoutSec)

/-- This tick declares the link lost, too soon after a quiet transmit period. -/
def spurious (s : Watchdog) : Event → Bool
  | .tick _ => s.backFromTx && s.link.state != .lost &&
      (linkTick s.sampled s.now s.transmitting).1.state == .lost
  | _ => false

/-- This tick finds the link streaming, the radio not transmitting and the last block as old as
the timeout, soon after a quiet transmit period. -/
def stale (s : Watchdog) : Event → Bool
  | .tick _ => s.backFromTx && !s.transmitting && s.link.state == .streaming &&
      decide (s.now - s.lastDataSec ≥ disconnectTimeoutSec)
  | _ => false

/-- No tick has seen the radio transmitting in the future, nor since the link started anew. -/
structure Inv (s : Watchdog) : Prop where
  lastTx_le : ∀ t ∈ s.lastTx, t ≤ s.now
  since_ge : s.link.state = .starting → ∀ t ∈ s.lastTx, t ≤ s.link.stateSince

theorem inv_init (n : ℕ) (now : ℤ) : Inv (reconnectInit n now) where
  lastTx_le := by simp [reconnectInit]
  since_ge := by simp [reconnectInit]

theorem inv_ticked {s : Watchdog} (h : Inv s) : Inv s.ticked := by
  have hlast : ∀ t ∈ s.ticked.lastTx, t ≤ s.now := by
    intro t ht
    simp only [Watchdog.ticked] at ht
    split at ht
    · exact Int.le_of_eq (Option.some.inj ht).symm
    · exact h.lastTx_le t ht
  refine ⟨hlast, fun hstart t ht => ?_⟩
  obtain ⟨hwas, hsince⟩ := linkTick_starting hstart
  simp only [Watchdog.ticked] at ht ⊢
  rw [hsince]
  split at ht
  · rename_i htx
    rw [if_pos htx]
    exact Int.le_of_eq (Option.some.inj ht).symm
  · rename_i htx
    rw [if_neg htx]
    exact h.since_ge hwas t ht

theorem inv_watchdogCb {s : Watchdog} (h : Inv s) (d : ℕ) : Inv (watchdogCb s d) := by
  have hticked := inv_ticked h
  unfold watchdogCb
  split
  · exact hticked
  · have hlater : ∀ t ∈ s.ticked.lastTx, t ≤ s.now + d := fun t ht => by
      have : t ≤ s.now := hticked.lastTx_le t ht
      omega
    exact ⟨hlater, fun _ => hlater⟩

theorem inv_step (s : Watchdog) (e : Event) (s' : Watchdog) (h : Inv s)
    (hs : step s e = some s') : Inv s' := by
  cases e with
  | noteData | key on =>
    obtain rfl := Option.some.inj hs
    exact ⟨h.lastTx_le, h.since_ge⟩
  | elapse d =>
    obtain rfl := Option.some.inj hs
    exact ⟨fun t ht => by have := h.lastTx_le t ht; dsimp only; omega, h.since_ge⟩
  | tick d =>
    obtain rfl := Option.some.inj hs
    exact inv_watchdogCb h d
  | retry =>
    obtain rfl := Option.some.inj hs
    refine ⟨h.lastTx_le, fun hstart => ?_⟩
    simp only [linkRetryNow] at hstart ⊢
    split at hstart
    · cases hstart
    · rename_i hne
      exact (hne hstart).elim

/-- Where the invariant holds, a tick is spurious exactly when the link is streaming and the last
block is too old: a link that is still starting has waited longer than that. -/
theorem Inv.spurious_iff {s : Watchdog} (h : Inv s) (e : Event) :
    spurious s e = true ↔ stale s e = true := by
  cases e with
  | noteData | key on | elapse d | retry => exact Iff.rfl
  | tick d =>
    simp only [spurious, stale, Bool.and_eq_true, bne_iff_ne, beq_iff_eq, Bool.not_eq_true',
      decide_eq_true_eq]
    constructor
    · rintro ⟨⟨hback, hne⟩, hlost⟩
      have hne : s.sampled.state ≠ .lost := hne
      obtain ⟨htx, ⟨hstr, hold⟩ | ⟨hstart, _, hlong⟩⟩ := (linkTick_enters_lost hne).1 hlost
      · exact ⟨⟨⟨hback, htx⟩, hstr⟩, hold⟩
      · obtain ⟨t, ht, hrecent⟩ : ∃ t ∈ s.lastTx, s.now - t < disconnectTimeoutSec := by
          simpa [Watchdog.backFromTx, Option.any_eq_true] using (Bool.and_eq_true_iff.1 hback).2
        have hsince := h.since_ge hstart t ht
        simp only [disconnectTimeoutSec, firstDataTimeoutSec] at hrecent hlong
        have : s.sampled.stateSince = s.link.stateSince := rfl
        omega
    · rintro ⟨⟨⟨hback, htx⟩, hstr⟩, hold⟩
      have hne : s.sampled.state ≠ .lost := by simp [Watchdog.sampled, hstr]
      exact ⟨⟨hback, hne⟩, (linkTick_enters_lost hne).2 ⟨htx, Or.inl ⟨hstr, hold⟩⟩⟩

/-- **When returning from transmit is not taken for a lost link.** -/
theorem no_spurious_iff (n : ℕ) (now : ℤ) (es : List Event) :
    (system n now).Along (fun s e => ¬ spurious s e = true) (reconnectInit n now) es ↔
      (system n now).Along (fun s e => ¬ stale s e = true) (reconnectInit n now) es :=
  (system n now).along_congr (fun s e t h _ => inv_step s e t h)
    (fun _ e h => not_congr (h.spurious_iff e)) es (inv_init n now)

/-- A block, a transmission of five seconds, and one tick after it. -/
def fiveSecondOver : List Event :=
  [.noteData, .elapse 1, .tick 0, .key true, .elapse 1, .tick 0, .elapse 1, .tick 0,
   .elapse 1, .tick 0, .elapse 1, .tick 0, .elapse 1, .tick 0, .key false, .elapse 1, .tick 0]

/-- The first tick after a transmission of five seconds declares the link lost. -/
theorem spurious_after_tx :
    ¬ (system 0 0).Along (fun s e => ¬ spurious s e = true) (reconnectInit 0 0) fiveSecondOver := by
  decide

end MacHPSDR.Reconnect
