import MacHPSDR.Foundations.Schedule
import MacHPSDR.Foundations.Transition
import MacHPSDR.Reconnect.LinkState

/-!
# The back-off ladder

A link that delivers no data is ticked once a second and each attempt it asks for is made at once
(`outage`). The ticks that ask for an attempt are `T 0, T 1, …`, with gaps of ten seconds for the
first data and `min 60 (2 ^ k)` for the ladder (`outage_requests`); each of them finds the link
lost.

A block that arrives while the link is starting or lost brings it up at the next tick
(`fresh_streams`), unless the operator asks for a retry while it is starting, which starts a new
wait for data.
-/

namespace MacHPSDR.Reconnect

/-- The calls of the caller of `link_state.c`. -/
inductive Call
  /-- A block has arrived by the time `now`. -/
  | data (now : ℤ)
  /-- `link_tick`; an attempt that it asks for ends at `done`. -/
  | tick (now done : ℤ) (transmitting : Bool)
  | retryNow (now : ℤ)
  | reset (now : ℤ)

/-- A tick, followed by the attempt that it asks for. -/
def tickAttempt (l : Link) (now done : ℤ) (transmitting : Bool) : Link :=
  match (linkTick l now transmitting).2 with
  | .nothing => (linkTick l now transmitting).1
  | .reconnect => linkAttempted (linkTick l now transmitting).1 done

def call (l : Link) : Call → Link
  | .data now => { l with dataSeq := l.dataSeq + 1, lastData := now }
  | .tick now done transmitting => tickAttempt l now done transmitting
  | .retryNow now => linkRetryNow l now
  | .reset now => linkReset l now

/-- The link from the start of a session on. -/
def link (l : Link) (now : ℤ) : System Link Call where
  init := linkReset l now
  step l c := some (call l c)

/-- The rung of the ladder after `n` attempts. -/
def rung (n : ℕ) : ℕ := min 60 (2 ^ n)

theorem rung_pos (n : ℕ) : 0 < rung n := lt_min (by decide) (Nat.two_pow_pos n)

theorem rung_mono {m n : ℕ} (h : m ≤ n) : rung m ≤ rung n :=
  min_le_min_left 60 (Nat.pow_le_pow_right (by decide) h)

/-- The doubling of `link_attempted`. -/
theorem rung_succ (n : ℕ) : rung (n + 1) = if rung n * 2 > 60 then 60 else rung n * 2 := by
  unfold rung
  rw [pow_succ]
  split <;> omega

/-! ## What holds of every link -/

/-- The link is in use, its back-off is the rung of its attempts, and blocks are counted up. -/
structure Climbing (l : Link) : Prop where
  backoff : l.backoff = rung l.attempt
  active : l.state = .starting ∨ l.state = .streaming ∨ l.state = .lost
  up : l.state = .streaming → l.attempt = 0
  seq : l.seqAtEntry ≤ l.dataSeq

theorem climbing_linkUp (l : Link) (now : ℤ) : Climbing (linkUp l now) :=
  ⟨rfl, .inr (.inl rfl), fun _ => rfl, le_rfl⟩

theorem climbing_linkAttempted {l : Link} (h : l.backoff = rung l.attempt) (now : ℤ) :
    Climbing (linkAttempted l now) := by
  refine ⟨?_, .inl rfl, nofun, le_rfl⟩
  simp only [linkAttempted, linkEnter, h, rung_succ, reconnectBackoffMaxSec]
  split <;> split <;> omega

/-- What a tick of a link in use can do. -/
theorem linkTick_cases {l : Link} (h : l.state = .starting ∨ l.state = .streaming ∨ l.state = .lost)
    (now : ℤ) (transmitting : Bool) :
    linkTick l now transmitting = (l, .nothing) ∨
      linkTick l now transmitting = ({ l with lastData := now, stateSince := now }, .nothing) ∨
      linkTick l now transmitting = (linkUp l now, .nothing) ∨
      (∃ next, linkTick l now transmitting =
        ({ linkEnter l .lost now with nextAttempt := next }, .nothing)) ∨
      linkTick l now transmitting = (linkEnter l .retrying now, .reconnect) := by
  unfold linkTick
  rw [if_neg (by rintro h'; simp [h'] at h)]
  split
  · exact .inr (.inl rfl)
  · obtain hst | hst | hst := h <;> simp only [hst]
    · split
      · exact .inr (.inr (.inl rfl))
      · split
        · right; right; right; left
          split
          · exact ⟨now, rfl⟩
          · exact ⟨l.nextAttempt, rfl⟩
        · exact .inl rfl
    · split
      · exact .inr (.inr (.inr (.inl ⟨now, rfl⟩)))
      · exact .inl rfl
    · split
      · exact .inr (.inr (.inl rfl))
      · split
        · exact .inr (.inr (.inr (.inr rfl)))
        · exact .inl rfl

theorem Climbing.tickAttempt {l : Link} (h : Climbing l) (now done : ℤ) (transmitting : Bool) :
    Climbing (tickAttempt l now done transmitting) := by
  obtain heq | heq | heq | ⟨next, heq⟩ | heq := linkTick_cases h.active now transmitting <;>
    simp only [Reconnect.tickAttempt, heq]
  · exact h
  · exact ⟨h.backoff, h.active, h.up, h.seq⟩
  · exact climbing_linkUp l now
  · exact ⟨h.backoff, .inr (.inr rfl), nofun, le_rfl⟩
  · exact climbing_linkAttempted (l := linkEnter l .retrying now) h.backoff done

theorem Climbing.call {l : Link} (h : Climbing l) (c : Call) : Climbing (call l c) := by
  cases c with
  | data now => exact ⟨h.backoff, h.active, h.up, h.seq.trans (Nat.le_succ _)⟩
  | tick now done transmitting => exact h.tickAttempt now done transmitting
  | retryNow now =>
    unfold Reconnect.call linkRetryNow
    dsimp only
    split
    · exact ⟨h.backoff, .inr (.inr rfl), nofun, le_rfl⟩
    · exact ⟨h.backoff, h.active, h.up, h.seq⟩
  | reset now => exact ⟨rfl, .inl rfl, fun h => (by cases h), le_rfl⟩

theorem climbing_of_reachable {l₀ l : Link} {t₀ : ℤ} (hl : (link l₀ t₀).Reachable l) :
    Climbing l := by
  refine System.Reachable.induction _ (I := Climbing) ?_ ?_ hl
  · exact ⟨rfl, .inl rfl, fun h => (by cases h), le_rfl⟩
  · intro l c l' h hs
    obtain rfl := Option.some.inj hs
    exact h.call c

/-! ## A link that delivers no data -/

/-- A tick of an outage: the radio is receiving, and an attempt takes no time. -/
def silentTick (l : Link) (now : ℤ) : Link := tickAttempt l now now false

/-- The link after `n` silent ticks, one every second after `now`. -/
def outage (l : Link) (now : ℤ) : ℕ → Link
  | 0 => l
  | n + 1 => silentTick (outage l now n) (now + n + 1)

/-- The silent tick after `n` others asks for an attempt. -/
def Requests (l : Link) (now : ℤ) (n : ℕ) : Prop :=
  (linkTick (outage l now n) (now + n + 1) false).2 = .reconnect

/-- The ticks of an outage, continued. -/
theorem outage_add (l : Link) (now : ℤ) (m n : ℕ) :
    outage l now (m + n) = outage (outage l now m) (now + m) n := by
  induction n with
  | zero => rfl
  | succ n ih =>
    rw [← Nat.add_assoc, outage, outage, ih,
      show now + (m + n : ℕ) + 1 = now + m + n + 1 by push_cast; ring]

theorem requests_add (l : Link) (now : ℤ) (m n : ℕ) :
    Requests l now (m + n) ↔ Requests (outage l now m) (now + m) n := by
  unfold Requests
  rw [outage_add, show now + (m + n : ℕ) + 1 = now + m + n + 1 by push_cast; ring]

/-- Nothing happens as long as the ticks leave the link alone. -/
theorem outage_of_stay {l : Link} {now : ℤ} {n : ℕ}
    (h : ∀ m < n, linkTick l (now + m + 1) false = (l, .nothing)) :
    outage l now n = l ∧ ∀ m < n, ¬ Requests l now m := by
  induction n with
  | zero => exact ⟨rfl, by simp⟩
  | succ n ih =>
    obtain ⟨hout, hnone⟩ := ih fun m hm => h m (hm.trans (Nat.lt_succ_self n))
    have hn := h n (Nat.lt_succ_self n)
    refine ⟨?_, fun m hm => ?_⟩
    · simp only [outage, hout, silentTick, tickAttempt, hn]
    · obtain hm | rfl := Nat.lt_succ_iff_lt_or_eq.1 hm
      · exact hnone m hm
      · simp [Requests, hout, hn]

/-! ### The ticks of each state -/

theorem linkTick_starting_wait {l : Link} {now : ℤ} (hs : l.state = .starting)
    (hf : l.fresh = false) (h : now < l.stateSince + 10) :
    linkTick l now false = (l, .nothing) := by
  have : ¬ now - l.stateSince ≥ firstDataTimeoutSec := by simp only [firstDataTimeoutSec]; omega
  simp [linkTick, hs, hf, this]

theorem linkTick_starting_lost {l : Link} {now : ℤ} (hs : l.state = .starting)
    (hf : l.fresh = false) (h : l.stateSince + 10 ≤ now) :
    linkTick l now false = ({ linkEnter l .lost now with
      nextAttempt := if l.attempt = 0 then now else l.nextAttempt }, .nothing) := by
  have : now - l.stateSince ≥ firstDataTimeoutSec := by simp only [firstDataTimeoutSec]; omega
  simp only [linkTick, hs, hf, this]
  by_cases h0 : l.attempt = 0 <;> simp [h0, linkEnter]

theorem linkTick_streaming_wait {l : Link} {now : ℤ} (hs : l.state = .streaming)
    (h : now < l.lastData + 3) : linkTick l now false = (l, .nothing) := by
  have : ¬ now - l.lastData ≥ disconnectTimeoutSec := by simp only [disconnectTimeoutSec]; omega
  simp [linkTick, hs, this]

theorem linkTick_streaming_lost {l : Link} {now : ℤ} (hs : l.state = .streaming)
    (h : l.lastData + 3 ≤ now) :
    linkTick l now false = ({ linkEnter l .lost now with nextAttempt := now }, .nothing) := by
  have : now - l.lastData ≥ disconnectTimeoutSec := by simp only [disconnectTimeoutSec]; omega
  simp [linkTick, hs, this]

theorem linkTick_lost_wait {l : Link} {now : ℤ} (transmitting : Bool) (hs : l.state = .lost)
    (hf : l.fresh = false) (h : now < l.nextAttempt) :
    linkTick l now transmitting = (l, .nothing) := by
  simp [linkTick, hs, hf, h]

theorem linkTick_lost_request {l : Link} {now : ℤ} (transmitting : Bool) (hs : l.state = .lost)
    (hf : l.fresh = false) (h : l.nextAttempt ≤ now) :
    linkTick l now transmitting = (linkEnter l .retrying now, .reconnect) := by
  simp [linkTick, hs, hf, h]

/-- Only a lost link asks for an attempt. -/
theorem lost_of_reconnect {l : Link} {now : ℤ} {transmitting : Bool}
    (h : (linkTick l now transmitting).2 = .reconnect) : l.state = .lost ∧ l.fresh = false := by
  obtain ⟨state, since, data, seq, entry, next, backoff, attempt⟩ := l
  cases state <;> simp only [linkTick] at h ⊢ <;> grind

/-! ### The ladder -/

/-- No block is waiting to be noticed. -/
def Silent (l : Link) : Prop := l.state = .streaming ∨ l.fresh = false

/-- A silent tick leaves the ladder alone. -/
theorem Silent.linkTick {l : Link} (h : Silent l) (hl : Climbing l) (now : ℤ) :
    Silent (linkTick l now false).1 ∧ (linkTick l now false).1.attempt = l.attempt ∧
      (linkTick l now false).1.backoff = l.backoff := by
  obtain hs | hs | hs := hl.active
  · have hf : l.fresh = false := h.resolve_left (by simp [hs])
    by_cases ht : now < l.stateSince + 10
    · rw [linkTick_starting_wait hs hf ht]
      exact ⟨h, rfl, rfl⟩
    · rw [linkTick_starting_lost hs hf (by omega)]
      exact ⟨.inr (by simp [Link.fresh, linkEnter]), rfl, rfl⟩
  · by_cases ht : now < l.lastData + 3
    · rw [linkTick_streaming_wait hs ht]
      exact ⟨h, rfl, rfl⟩
    · rw [linkTick_streaming_lost hs (by omega)]
      exact ⟨.inr (by simp [Link.fresh, linkEnter]), rfl, rfl⟩
  · have hf : l.fresh = false := h.resolve_left (by simp [hs])
    by_cases ht : now < l.nextAttempt
    · rw [linkTick_lost_wait false hs hf ht]
      exact ⟨h, rfl, rfl⟩
    · rw [linkTick_lost_request false hs hf (by omega)]
      exact ⟨.inr (by simp [Link.fresh, linkEnter]), rfl, rfl⟩

theorem Climbing.outage {l : Link} (hl : Climbing l) (now : ℤ) (n : ℕ) :
    Climbing (outage l now n) := by
  induction n with
  | zero => exact hl
  | succ n ih => exact ih.tickAttempt _ _ _

/-- Until the first request the ladder stays where it was. -/
theorem Silent.outage {l : Link} (h : Silent l) (hl : Climbing l) (now : ℤ) (n : ℕ)
    (hnone : ∀ m < n, ¬ Requests l now m) :
    Silent (outage l now n) ∧ (Reconnect.outage l now n).attempt = l.attempt := by
  induction n with
  | zero => exact ⟨h, rfl⟩
  | succ n ih =>
    obtain ⟨hsilent, hattempt⟩ := ih fun m hm => hnone m (hm.trans (Nat.lt_succ_self n))
    obtain ⟨hsilent', hattempt', -⟩ := hsilent.linkTick (hl.outage now n) (now + n + 1)
    have hn : (Reconnect.linkTick (Reconnect.outage l now n) (now + n + 1) false).2 = .nothing := by
      have := hnone n (Nat.lt_succ_self n)
      unfold Requests at this
      cases ha : (Reconnect.linkTick (Reconnect.outage l now n) (now + n + 1) false).2
      · rfl
      · exact absurd ha this
    rw [Reconnect.outage, silentTick, tickAttempt, hn]
    exact ⟨hsilent', hattempt'.trans hattempt⟩

/-- The first request comes. -/
theorem exists_request_of_lost {l : Link} (now : ℤ) (hs : l.state = .lost)
    (hf : l.fresh = false) : ∃ n, Requests l now n := by
  have hstay : ∀ m < (l.nextAttempt - now - 1).toNat,
      linkTick l (now + m + 1) false = (l, .nothing) := fun m hm =>
    linkTick_lost_wait false hs hf (by omega)
  obtain ⟨hout, -⟩ := outage_of_stay hstay
  refine ⟨(l.nextAttempt - now - 1).toNat, ?_⟩
  rw [Requests, hout, linkTick_lost_request false hs hf (by omega)]

theorem exists_request_of_enters {l l' : Link} {now : ℤ} {n : ℕ}
    (hstay : ∀ m < n, linkTick l (now + m + 1) false = (l, .nothing))
    (hlost : linkTick l (now + n + 1) false = (l', .nothing)) (hs : l'.state = .lost)
    (hf : l'.fresh = false) : ∃ n, Requests l now n := by
  obtain ⟨hout, -⟩ := outage_of_stay hstay
  obtain ⟨m, hm⟩ := exists_request_of_lost (now + (n + 1 : ℕ)) hs hf
  refine ⟨n + 1 + m, (requests_add ..).2 ?_⟩
  rw [outage, hout, silentTick, tickAttempt, hlost]
  exact hm

theorem exists_request {l : Link} (now : ℤ) (hl : Climbing l) (hsilent : Silent l) :
    ∃ n, Requests l now n := by
  obtain hs | hs | hs := hl.active
  · have hf : l.fresh = false := hsilent.resolve_left (by simp [hs])
    exact exists_request_of_enters (n := (l.stateSince + 9 - now).toNat)
      (fun m hm => linkTick_starting_wait hs hf (by omega))
      (linkTick_starting_lost hs hf (by omega)) rfl (by simp [Link.fresh, linkEnter])
  · exact exists_request_of_enters (n := (l.lastData + 2 - now).toNat)
      (fun m hm => linkTick_streaming_wait hs (by omega))
      (linkTick_streaming_lost hs (by omega)) rfl (by simp [Link.fresh, linkEnter])
  · exact exists_request_of_lost now hs (hsilent.resolve_left (by simp [hs]))

/-- After an attempt with the back-off `b`, the link waits ten ticks for data, and then it waits out
the ladder: the next request comes `10 + b` ticks after the last one. -/
theorem outage_linkAttempted {l : Link} {now : ℤ} {b : ℕ} (hpos : 0 < b)
    (hb : (linkAttempted l now).backoff = b) :
    (outage (linkAttempted l now) now (9 + b)).attempt = l.attempt + 1 ∧
      (outage (linkAttempted l now) now (9 + b)).backoff = b ∧
      Requests (linkAttempted l now) now (9 + b) ∧
      ∀ m < 9 + b, ¬ Requests (linkAttempted l now) now m := by
  obtain ⟨s, hs⟩ : ∃ s, s = linkAttempted l now := ⟨_, rfl⟩
  have hnext : s.nextAttempt = now + 10 + b := by
    rw [← hb, hs]
    rfl
  have hattempt : s.attempt = l.attempt + 1 := by rw [hs]; rfl
  have hf : s.fresh = false := by simp [hs, linkAttempted, linkEnter, Link.fresh]
  have hst : s.state = .starting := by rw [hs]; rfl
  have hsince : s.stateSince = now := by rw [hs]; rfl
  rw [← hs] at hb ⊢
  -- ten ticks for the first data
  have hdata : ∀ m : ℕ, m < 9 → linkTick s (now + m + 1) false = (s, .nothing) := fun m hm =>
    linkTick_starting_wait hst hf (by omega)
  obtain ⟨hnine, hnone⟩ := outage_of_stay hdata
  have hlost : linkTick s (now + 9 + 1) false =
      ({ linkEnter s .lost (now + 10) with nextAttempt := s.nextAttempt }, .nothing) := by
    rw [linkTick_starting_lost hst hf (by omega), if_neg (by omega),
      show now + 9 + 1 = now + 10 by ring]
  obtain ⟨w, hw⟩ : ∃ w, w = { linkEnter s .lost (now + 10) with nextAttempt := s.nextAttempt } :=
    ⟨_, rfl⟩
  rw [← hw] at hlost
  have hten : outage s now 10 = w := by
    rw [outage, hnine, silentTick, tickAttempt, Nat.cast_ofNat, hlost]
  -- and the ladder
  have hwst : w.state = .lost := by rw [hw]; rfl
  have hwf : w.fresh = false := by simp [hw, linkEnter, Link.fresh]
  have hwnext : w.nextAttempt = now + 10 + b := by rw [← hnext, hw]
  have hladder : ∀ m < b - 1, linkTick w (now + 10 + m + 1) false = (w, .nothing) := fun m hm =>
    linkTick_lost_wait false hwst hwf (by omega)
  obtain ⟨hstay, hnone'⟩ := outage_of_stay hladder
  have hend : outage s now (9 + b) = w := by
    rw [show 9 + b = 10 + (b - 1) by omega, outage_add, hten]
    exact hstay
  refine ⟨?_, ?_, ?_, fun m hm => ?_⟩
  · rw [hend, hw, ← hattempt]
    rfl
  · rw [hend, hw, ← hb]
    rfl
  · rw [Requests, hend, linkTick_lost_request false hwst hwf (by omega)]
  · obtain hm9 | rfl | hm10 := lt_trichotomy m 9
    · exact hnone m hm9
    · rw [Requests, hnine]
      exact fun h => by simp [congrArg Prod.snd hlost] at h
    · obtain ⟨j, rfl⟩ := Nat.exists_eq_add_of_le hm10
      rw [show 9 + 1 + j = 10 + j by ring, requests_add, hten]
      exact hnone' j (by omega)

/-- What is known of the `k`-th request after the attempts that were made before. -/
structure Asked (l : Link) (now : ℤ) (k n : ℕ) : Prop where
  requests : Requests l now n
  attempt : (outage l now n).attempt = l.attempt + k
  backoff : (outage l now n).backoff = rung (l.attempt + k)

/-- The attempt that a silent tick asks for. -/
theorem outage_succ_of_requests {l : Link} {now : ℤ} {n : ℕ} (h : Requests l now n) :
    outage l now (n + 1) =
      linkAttempted (linkEnter (outage l now n) .retrying (now + n + 1)) (now + n + 1) := by
  obtain ⟨hst, hf⟩ := lost_of_reconnect h
  have hdue : (outage l now n).nextAttempt ≤ now + n + 1 := by
    by_contra hlt
    rw [Requests, linkTick_lost_wait false hst hf (by omega)] at h
    cases h
  rw [outage, silentTick, tickAttempt, linkTick_lost_request false hst hf hdue]

/-- **One rung of the ladder.** -/
theorem Asked.next {l : Link} {now : ℤ} {k n : ℕ} (h : Asked l now k n) :
    Asked l now (k + 1) (n + (10 + rung (l.attempt + (k + 1)))) ∧
      ∀ m, n < m → m < n + (10 + rung (l.attempt + (k + 1))) → ¬ Requests l now m := by
  have hafter := outage_succ_of_requests h.requests
  have hclimb := climbing_linkAttempted (l := linkEnter (outage l now n) .retrying (now + n + 1))
    (by simpa only [linkEnter, h.attempt] using h.backoff) (now + n + 1)
  have hb := hclimb.backoff
  have hattempt : (linkAttempted (linkEnter (outage l now n) .retrying (now + n + 1))
      (now + n + 1)).attempt = l.attempt + (k + 1) := by
    rw [← Nat.add_assoc, ← h.attempt]
    rfl
  rw [hattempt] at hb
  obtain ⟨ha, hb', hreq, hnone⟩ := outage_linkAttempted (rung_pos _) hb
  have hcast : now + (n + 1 : ℕ) = now + n + 1 := by push_cast; ring
  refine ⟨?_, fun m hnm hm => ?_⟩
  · rw [show n + (10 + rung (l.attempt + (k + 1))) = n + 1 + (9 + rung (l.attempt + (k + 1))) by
      ring]
    refine ⟨?_, ?_, ?_⟩
    · rw [requests_add, hafter, hcast]
      exact hreq
    · rw [outage_add, hafter, hcast, ha, ← Nat.add_assoc, ← h.attempt]
      rfl
    · rw [outage_add, hafter, hcast, hb']
  · obtain ⟨j, rfl⟩ := Nat.exists_eq_add_of_le hnm
    rw [Nat.succ_eq_add_one, requests_add, hafter, hcast]
    exact hnone j (by omega)

/-- **The requests of an outage** come one after the other at the gaps of the ladder. -/
theorem outage_requests {l : Link} (now : ℤ) (hl : Climbing l) (h : Silent l) :
    ∃ T : ℕ → ℕ, (∀ n, Requests l now n ↔ ∃ k, T k = n) ∧
      ∀ k, T (k + 1) = T k + (10 + rung (l.attempt + (k + 1))) := by
  classical
  have hex := exists_request now hl h
  have hfirst : ∀ n < Nat.find hex, ¬ Requests l now n := fun n hn => Nat.find_min hex hn
  have hattempt := (h.outage hl now _ hfirst).2
  have hasked : Asked l now 0 (Nat.find hex) :=
    ⟨Nat.find_spec hex, hattempt, by rw [(hl.outage now _).backoff, hattempt, Nat.add_zero]⟩
  refine ⟨schedule (fun k => 10 + rung (l.attempt + (k + 1))) (Nat.find hex), ?_, fun k => rfl⟩
  exact iff_schedule (I := Asked l now) (fun k => by omega) hfirst hasked (fun k n h => h.requests)
    (fun k n h => h.next.2) (fun k n h => h.next.1)

/-! ## Data comes back -/

/-- The calls that leave a starting link waiting: blocks, and ticks that find the radio
transmitting. -/
def Call.Waits : Call → Prop
  | .data _ => True
  | .tick _ _ transmitting => transmitting = true
  | .retryNow _ | .reset _ => False

/-- The calls that leave a lost link lost: blocks, and the operator's retry. -/
def Call.Keeps : Call → Prop
  | .data _ | .retryNow _ => True
  | .tick .. | .reset _ => False

/-- The link is up, with the ladder reset. -/
def Link.Up (l : Link) : Prop := l.state = .streaming ∧ l.backoff = 1 ∧ l.attempt = 0

/-- A block that is waiting to be noticed stays so. -/
theorem waiting_foldl {l : Link} (hs : l.state = .starting) (hlt : l.seqAtEntry < l.dataSeq)
    {cs : List Call} (hcs : ∀ c ∈ cs, c.Waits) :
    (cs.foldl call l).state = .starting ∧
      (cs.foldl call l).seqAtEntry < (cs.foldl call l).dataSeq := by
  induction cs generalizing l with
  | nil => exact ⟨hs, hlt⟩
  | cons c cs ih =>
    rw [List.forall_mem_cons] at hcs
    obtain ⟨hc, hcs⟩ := hcs
    cases c with
    | data now => exact ih hs (hlt.trans (Nat.lt_succ_self _)) hcs
    | tick now done transmitting =>
      obtain rfl : transmitting = true := hc
      have htick :
          call l (.tick now done true) = { l with lastData := now, stateSince := now } := by
        simp [call, tickAttempt, linkTick, hs]
      rw [List.foldl_cons, htick]
      exact ih hs hlt hcs
    | retryNow now | reset now => exact hc.elim

theorem kept_foldl {l : Link} (hs : l.state = .lost) (hlt : l.seqAtEntry < l.dataSeq)
    {cs : List Call} (hcs : ∀ c ∈ cs, c.Keeps) :
    (cs.foldl call l).state = .lost ∧
      (cs.foldl call l).seqAtEntry < (cs.foldl call l).dataSeq := by
  induction cs generalizing l with
  | nil => exact ⟨hs, hlt⟩
  | cons c cs ih =>
    rw [List.forall_mem_cons] at hcs
    obtain ⟨hc, hcs⟩ := hcs
    cases c with
    | data now => exact ih hs (hlt.trans (Nat.lt_succ_self _)) hcs
    | retryNow now =>
      have hretry : call l (.retryNow now) = { l with nextAttempt := now } := by
        simp [call, linkRetryNow, hs]
      rw [List.foldl_cons, hretry]
      exact ih hs hlt hcs
    | tick now done transmitting | reset now => exact hc.elim

/-- A tick notices the block. -/
theorem tick_up {l : Link} {transmitting : Bool} (now done : ℤ)
    (hs : l.state = .starting ∧ transmitting = false ∨ l.state = .lost)
    (hlt : l.seqAtEntry < l.dataSeq) : (call l (.tick now done transmitting)).Up := by
  have hf : l.fresh = true := by
    simp only [Link.fresh, bne_iff_ne]
    exact hlt.ne'
  obtain ⟨hs, rfl⟩ | hs := hs
  · simp [call, tickAttempt, linkTick, hs, hf, Link.Up, linkUp, linkEnter, reconnectBackoffMinSec]
  · simp [call, tickAttempt, linkTick, hs, hf, Link.Up, linkUp, linkEnter, reconnectBackoffMinSec]

/-- **Reconnect back-off**, for every link that the calls can reach. While no data comes, attempts
are asked for in `lost` only, at gaps of the first-data time-out and the rung of the ladder, which
never shrink and are capped. A block that comes brings the link up, if it is still waiting for data
at the next tick. -/
theorem link_backoff (l₀ l : Link) (t₀ : ℤ) (hl : (link l₀ t₀).Reachable l) :
    (Silent l → ∀ now : ℤ,
      (∀ n, Requests l now n → (outage l now n).state = .lost) ∧
      (∀ n, (outage l now n).backoff ≤ 60) ∧
      ∃ T : ℕ → ℕ, (∀ n, Requests l now n ↔ ∃ k, T k = n) ∧
        (∀ k, T (k + 1) = T k + (10 + min 60 (2 ^ (l.attempt + (k + 1))))) ∧
        ∀ k, T (k + 1) - T k ≤ T (k + 2) - T (k + 1)) ∧
    (l.fresh = true →
      (l.state = .starting → ∀ cs : List Call, (∀ c ∈ cs, c.Waits) → ∀ now done,
        (call (cs.foldl call l) (.tick now done false)).Up) ∧
      (l.state = .lost → ∀ cs : List Call, (∀ c ∈ cs, c.Keeps) → ∀ now done transmitting,
        (call (cs.foldl call l) (.tick now done transmitting)).Up)) := by
  have hclimb := climbing_of_reachable hl
  refine ⟨fun hsilent now => ⟨fun n hn => (lost_of_reconnect hn).1, fun n => ?_, ?_⟩, fun hf => ?_⟩
  · have hle : rung (outage l now n).attempt ≤ 60 := min_le_left ..
    rw [(hclimb.outage now n).backoff]
    exact_mod_cast hle
  · obtain ⟨T, hT, hgap⟩ := outage_requests now hclimb hsilent
    refine ⟨T, hT, hgap, fun k => ?_⟩
    have hmono := rung_mono (show l.attempt + (k + 1) ≤ l.attempt + (k + 1 + 1) by omega)
    rw [hgap (k + 1), hgap k]
    omega
  · have hlt : l.seqAtEntry < l.dataSeq :=
      hclimb.seq.lt_of_ne (bne_iff_ne.1 hf).symm
    constructor
    · intro hs cs hcs now done
      obtain ⟨hs', hlt'⟩ := waiting_foldl hs hlt hcs
      exact tick_up now done (.inl ⟨hs', rfl⟩) hlt'
    · intro hs cs hcs now done transmitting
      obtain ⟨hs', hlt'⟩ := kept_foldl hs hlt hcs
      exact tick_up now done (.inr hs') hlt'

/-- A link before its first session. -/
def unused : Link := ⟨.idle, 0, 0, 0, 0, 0, 0, 0⟩

/-- The first outage of a session, and a block at its first second. -/
theorem link_backoff_unused :
    (∃ T : ℕ → ℕ, (∀ n, Requests (linkReset unused 0) 0 n ↔ ∃ k, T k = n) ∧
      T 1 = T 0 + 12 ∧ T 2 = T 1 + 14) ∧
    (call (call (linkReset unused 0) (.data 1)) (.tick 2 2 false)).Up := by
  constructor
  · obtain ⟨-, -, T, hT, hgap, -⟩ :=
      (link_backoff unused (linkReset unused 0) 0 ⟨[], rfl⟩).1 (.inr rfl) 0
    exact ⟨T, hT, hgap 0, hgap 1⟩
  · exact ((link_backoff unused (call (linkReset unused 0) (.data 1)) 0 ⟨[.data 1], rfl⟩).2 rfl).1
      rfl [] nofun 2 2

/-- A retry that the operator asks for between the block and the tick hides the block. -/
theorem not_fresh_streams :
    ¬ ∀ (l₀ l : Link) (t₀ : ℤ), (link l₀ t₀).Reachable l → l.fresh = true →
      l.state = .starting ∨ l.state = .lost → ∀ cs : List Call,
      (∀ now done, Call.tick now done false ∉ cs) → ∀ now done,
        (call (cs.foldl call l) (.tick now done false)).state = .streaming := by
  intro h
  have := h unused (call (linkReset unused 0) (.data 1)) 0 ⟨[.data 1], rfl⟩ rfl (.inl rfl)
    [.retryNow 2] (fun _ _ hmem => by cases List.mem_singleton.1 hmem) 3 3
  revert this
  decide

end MacHPSDR.Reconnect
