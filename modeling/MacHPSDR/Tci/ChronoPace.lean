import MacHPSDR.Foundations.Transition

/-!
# The pace of the TX_CHRONO requests

A client that keys with `trx:n,true,tci;` sends audio when it is asked for it. The TX chain calls
`tci_tx_chrono_tick` for every buffer it has clocked; the tick turns the samples into requests and
carries the remainder in a static local, and on the first buffer of an over it sends a burst.

What resets the remainder and the mark of the burst is a tick that finds nobody keyed. Arming a
client does not. Where the TX chain is clocked only while the radio transmits, two overs can follow
each other with no such tick between them; then the second has no burst and starts with the
remainder of the first. `chrono_paced_iff` says that this, and a buffer that takes the accumulator
past the largest `int`, is all that can go wrong.
-/

namespace MacHPSDR.Tci.Pace

/-- The largest `int`. -/
def intMax : ℤ := 2 ^ 31 - 1

/-- `tci_stream_mic_samples`: the samples of the microphone clock in a block of a stream. -/
def tciStreamMicSamples (length channels streamRate micRate : ℕ) : ℕ :=
  if length = 0 ∨ channels = 0 ∨ streamRate = 0 ∨ micRate = 0 then 0
  else min (length * micRate / (channels * streamRate)) (2 ^ 31 - 1)

/-- What the clients configure. -/
structure ChronoSettings where
  txChronoSamples : ℤ := 2048
  txChronoBufferMs : ℤ := 50
  audioStreamRate : ℤ := 48000
  deriving DecidableEq

namespace ChronoSettings

variable (c : ChronoSettings)

/-- The samples that one request covers. -/
def per : ℤ :=
  max 1 (tciStreamMicSamples c.txChronoSamples.toNat 2 c.audioStreamRate.toNat 48000)

/-- The requests that are sent ahead. -/
def burst : ℕ := (min 16 ((c.txChronoBufferMs * 48000).tdiv (1000 * c.per) + 1)).toNat

/-- What the handlers of the settings let through. -/
structure InRange : Prop where
  samples_min : 100 ≤ c.txChronoSamples
  samples_max : c.txChronoSamples ≤ 2048
  rate_min : 8000 ≤ c.audioStreamRate

variable {c}

theorem per_pos : 0 < c.per := lt_of_lt_of_le one_pos (le_max_left _ _)

theorem InRange.per_le (h : c.InRange) : c.per ≤ 6144 := by
  obtain ⟨-, hsamples, hrate⟩ := h
  have hnum : c.txChronoSamples.toNat * 48000 ≤ 2048 * 48000 := by omega
  have hden : 16000 ≤ 2 * c.audioStreamRate.toNat := by omega
  have hdiv : c.txChronoSamples.toNat * 48000 / (2 * c.audioStreamRate.toNat) ≤ 6144 :=
    Nat.div_le_div hnum hden (by decide)
  have hmic : tciStreamMicSamples c.txChronoSamples.toNat 2 c.audioStreamRate.toNat 48000 ≤
      6144 := by
    unfold tciStreamMicSamples
    split
    · exact Nat.zero_le _
    · exact (min_le_left _ _).trans hdiv
  unfold per
  omega

end ChronoSettings

/-- What `tci_tx_chrono_tick` reads and writes, with the number of its calls of `tci_send_chrono`.
Without a radio `mox` is off. -/
structure Server where
  serverRunning : Bool := false
  txChronoClients : ℤ := 0
  mox : Bool := false
  settings : ChronoSettings := {}
  acc : ℤ := 0
  primed : Bool := false
  sent : ℤ := 0

/-- `while (acc >= per) { acc -= per; tci_send_chrono(want); }` -/
def drain (per : ℤ) : ℕ → ℤ → ℤ → Option (ℤ × ℤ)
  | 0, _, _ => none
  | fuel + 1, acc, sent =>
    if per ≤ acc then drain per fuel (acc - per) (sent + 1) else some (acc, sent)

namespace Server

variable (s : Server)

/-- The burst, unless it was sent. -/
def prime : Server :=
  if s.primed then s else { s with sent := s.sent + s.settings.burst, primed := true }

/-- `tci_tx_chrono_tick`; `none` where `acc` overflows. -/
def tciTxChronoTick (nsamples : ℤ) : Option Server :=
  if s.serverRunning = false then some s
  else if s.txChronoClients ≤ 0 then some { s with acc := 0, primed := false }
  else if s.mox = false then some { s with acc := 0, primed := false }
  else if nsamples ≤ 0 then some s
  else if s.settings.txChronoSamples ≤ 0 ∨ s.settings.audioStreamRate ≤ 0 then some s
  else if intMax < s.acc + nsamples then none
  else
    let acc := s.acc + nsamples
    (drain s.settings.per (acc.toNat + 1) acc s.prime.sent).map fun r =>
      { s.prime with acc := r.1, sent := r.2 }

/-- A client supplies the audio of a transmission. -/
def Keyed : Prop := s.serverRunning = true ∧ 0 < s.txChronoClients ∧ s.mox = true

instance : DecidablePred Keyed := fun s =>
  inferInstanceAs (Decidable (s.serverRunning = true ∧ 0 < s.txChronoClients ∧ s.mox = true))

end Server

/-- What happens to the server, one event at a time. -/
inductive ChronoEvent
  | start
  | stop
  /-- `tci_set_tx_chrono` sets the flag of a client. -/
  | arm
  /-- It clears the flag of a client. -/
  | disarm
  | mox (on : Bool)
  | audioStreamSamples (n : ℤ)
  | txStreamAudioBuffering (ms : ℤ)
  | audioSamplerate (req : ℤ)
  | tick (nsamples : ℤ)

/-- The samples that the event clocks. -/
def ChronoEvent.samples : ChronoEvent → ℤ
  | .tick nsamples => max 0 nsamples
  | _ => 0

/-- The handlers of the events; `audio_samplerate` takes no rate that is not positive. -/
def Server.apply (s : Server) : ChronoEvent → Option Server
  | .start => some { s with serverRunning := true }
  | .stop => some { s with serverRunning := false }
  | .arm => some { s with txChronoClients := s.txChronoClients + 1 }
  | .disarm => some { s with txChronoClients := s.txChronoClients - 1 }
  | .mox on => some { s with mox := on }
  | .audioStreamSamples n =>
    some { s with settings := { s.settings with txChronoSamples := min 2048 (max 100 n) } }
  | .txStreamAudioBuffering ms =>
    some { s with settings := { s.settings with txChronoBufferMs := min 1000 (max 0 ms) } }
  | .audioSamplerate req =>
    some (if 0 < req then
      { s with settings := { s.settings with audioStreamRate := min 192000 (max 8000 req) } }
    else s)
  | .tick nsamples => s.tciTxChronoTick nsamples

/-! ## The overs -/

/-- The over that is going on: the requests sent before it, the samples clocked in it, and whether
its settings stayed. -/
structure Over where
  sentBefore : ℤ := 0
  clocked : ℤ := 0
  steady : Bool := true

/-- The server with the history of its overs. -/
structure Monitored where
  server : Server := {}
  current : Over := {}
  /-- The latest buffer that the server saw was one of an over. -/
  used : Bool := false

namespace Monitored

variable (m : Monitored)

/-- The over after an event that leaves the server at `t`. -/
def nextOver (a : ChronoEvent) (t : Server) : Over :=
  if m.server.Keyed ∧ t.Keyed then
    { m.current with
      clocked := m.current.clocked + a.samples
      steady := m.current.steady && decide (t.settings = m.server.settings) }
  else { sentBefore := t.sent }

def nextUsed : ChronoEvent → Bool
  | .tick n =>
    if m.server.Keyed then m.used || decide (0 < n) else m.used && !m.server.serverRunning
  | _ => m.used

def step (a : ChronoEvent) : Option Monitored :=
  (m.server.apply a).map fun t =>
    { server := t, current := m.nextOver a t, used := m.nextUsed a }

/-- **The pace.** An over starts afresh, and while its settings stay the requests sent in it are
the burst and one for each whole `per` of the samples clocked. -/
def Paced : Prop :=
  m.server.Keyed →
    (m.current.clocked = 0 → m.server.acc = 0 ∧ m.server.primed = false) ∧
    (m.current.steady = true →
      m.server.sent = m.current.sentBefore +
        (if 0 < m.current.clocked then (m.server.settings.burst : ℤ) else 0) +
        m.current.clocked / m.server.settings.per)

/-- An over begins only when the latest buffer that the server saw was not one of an over. -/
def Rested (a : ChronoEvent) : Prop :=
  ¬ m.server.Keyed → ∀ t, m.server.apply a = some t → t.Keyed → m.used = false

/-- The accumulator has room for the buffer. -/
def Fits : ChronoEvent → Prop
  | .tick n => m.server.Keyed → 0 < n → m.server.acc + n ≤ intMax
  | _ => True

end Monitored

/-- The server and what happens to it. -/
def chrono : System Monitored ChronoEvent where
  init := {}
  step := Monitored.step

/-! ## What a tick does -/

/-- The loop sends a request for each whole `per` and leaves the remainder. -/
theorem drain_eq {per : ℤ} (hper : 0 < per) (fuel : ℕ) {acc : ℤ} (hacc : 0 ≤ acc)
    (hfuel : acc < fuel) (sent : ℤ) :
    drain per fuel acc sent = some (acc % per, sent + acc / per) := by
  induction fuel generalizing acc sent with
  | zero => omega
  | succ fuel ih =>
    rw [drain]
    split
    · rename_i hle
      rw [ih (by omega) (by omega), Int.sub_emod_right, Int.sub_ediv_of_dvd _ dvd_rfl,
        Int.ediv_self hper.ne']
      congr 2
      ring
    · rename_i hlt
      rw [Int.emod_eq_of_lt hacc (by omega), Int.ediv_eq_zero_of_lt hacc (by omega), add_zero]

namespace Server

variable {s : Server}

/-- A tick that finds nobody keyed resets the accounting. -/
theorem tick_reset (hrun : s.serverRunning = true) (hkeyed : ¬ s.Keyed) (n : ℤ) :
    s.tciTxChronoTick n = some { s with acc := 0, primed := false } := by
  unfold tciTxChronoTick
  rw [if_neg (by simp [hrun])]
  split
  · rfl
  · rename_i hclients
    exact if_pos (by simpa using fun hmox => hkeyed ⟨hrun, not_le.1 hclients, hmox⟩)

/-- A tick of an over. -/
theorem tick_keyed (hkeyed : s.Keyed) (hrange : s.settings.InRange) (hacc : 0 ≤ s.acc) {n : ℤ}
    (hn : 0 < n) :
    s.tciTxChronoTick n =
      if s.acc + n ≤ intMax then
        some { s with
          acc := (s.acc + n) % s.settings.per
          primed := true
          sent := s.sent + (if s.primed then 0 else (s.settings.burst : ℤ)) +
            (s.acc + n) / s.settings.per }
      else none := by
  obtain ⟨hrun, hclients, hmox⟩ := hkeyed
  have hsettings : ¬ (s.settings.txChronoSamples ≤ 0 ∨ s.settings.audioStreamRate ≤ 0) := by
    have := hrange.samples_min
    have := hrange.rate_min
    omega
  unfold tciTxChronoTick
  rw [if_neg (by simp [hrun]), if_neg (not_le.2 hclients), if_neg (by simp [hmox]),
    if_neg (not_le.2 hn), if_neg hsettings, ← ite_not]
  simp only [not_lt]
  refine if_congr Iff.rfl ?_ rfl
  rw [drain_eq ChronoSettings.per_pos _ (by omega) (by omega)]
  unfold prime
  split <;> simp [*]

/-- A tick of a server that does not run does nothing. -/
theorem tick_stopped (hrun : s.serverRunning = false) (n : ℤ) : s.tciTxChronoTick n = some s :=
  if_pos hrun

/-- A tick of an over without samples does nothing. -/
theorem tick_empty (hkeyed : s.Keyed) {n : ℤ} (hn : n ≤ 0) : s.tciTxChronoTick n = some s := by
  obtain ⟨hrun, hclients, hmox⟩ := hkeyed
  rw [tciTxChronoTick, if_neg (by simp [hrun]), if_neg (not_le.2 hclients), if_neg (by simp [hmox]),
    if_pos hn]

/-- A tick keys nobody and ends no over. -/
theorem tick_frame {u : Server} {n : ℤ} (h : s.tciTxChronoTick n = some u) :
    u.Keyed ↔ s.Keyed := by
  have hprime : s.prime.Keyed ↔ s.Keyed := by
    unfold prime
    split <;> rfl
  unfold tciTxChronoTick at h
  split_ifs at h
  all_goals first
    | obtain rfl := Option.some.inj h
      rfl
    | obtain ⟨r, -, rfl⟩ := Option.map_eq_some_iff.1 h
      exact hprime

/-- What is not a tick leaves the accounting alone. -/
theorem apply_idle {a : ChronoEvent} (ha : ∀ n, a ≠ .tick n) (hrange : s.settings.InRange) :
    ∃ t, s.apply a = some t ∧ t.settings.InRange ∧ t.acc = s.acc ∧ t.primed = s.primed ∧
      t.sent = s.sent := by
  obtain ⟨hmin, hmax, hrate⟩ := hrange
  cases a with
  | tick n => exact absurd rfl (ha n)
  | audioStreamSamples n =>
    exact ⟨_, rfl, ⟨by simp, min_le_left _ _, hrate⟩, rfl, rfl, rfl⟩
  | audioSamplerate req =>
    by_cases hreq : 0 < req
    · exact ⟨_, congrArg some (if_pos hreq), ⟨hmin, hmax, by simp⟩, rfl, rfl, rfl⟩
    · exact ⟨_, congrArg some (if_neg hreq), ⟨hmin, hmax, hrate⟩, rfl, rfl, rfl⟩
  | _ => exact ⟨_, rfl, ⟨hmin, hmax, hrate⟩, rfl, rfl, rfl⟩

end Server

/-! ## The accounting -/

namespace Monitored

variable {m t : Monitored} {a : ChronoEvent}

/-- Where the counts stand, in every run that `chrono_paced_iff` is about. -/
structure Accounted (m : Monitored) : Prop where
  inRange : m.server.settings.InRange
  acc_nonneg : 0 ≤ m.server.acc
  acc_lt : m.server.acc < 6144
  primed : m.server.primed = m.used
  acc_eq : m.used = false → m.server.acc = 0
  clocked_nonneg : 0 ≤ m.current.clocked
  used : m.server.Keyed → (m.used = true ↔ 0 < m.current.clocked)
  counted : m.server.Keyed → m.current.steady = true →
    m.server.acc = m.current.clocked % m.server.settings.per ∧
    m.server.sent = m.current.sentBefore +
      (if 0 < m.current.clocked then (m.server.settings.burst : ℤ) else 0) +
      m.current.clocked / m.server.settings.per

theorem accounted_init : ({} : Monitored).Accounted where
  inRange := ⟨by decide, by decide, by decide⟩
  acc_nonneg := le_rfl
  acc_lt := by decide
  primed := rfl
  acc_eq _ := rfl
  clocked_nonneg := le_rfl
  used h := absurd h (by decide)
  counted h := absurd h (by decide)

theorem Accounted.paced (hm : m.Accounted) : m.Paced := by
  intro hkeyed
  refine ⟨fun hclocked => ?_, fun hsteady => (hm.counted hkeyed hsteady).2⟩
  have hused : m.used = false := by
    rw [← Bool.not_eq_true, hm.used hkeyed, hclocked]
    exact lt_irrefl 0
  exact ⟨hm.acc_eq hused, hm.primed.trans hused⟩

theorem nextOver_keyed {u : Server} (h : m.server.Keyed) (hu : u.Keyed) :
    m.nextOver a u = { m.current with
      clocked := m.current.clocked + a.samples
      steady := m.current.steady && decide (u.settings = m.server.settings) } :=
  if_pos ⟨h, hu⟩

theorem nextOver_fresh {u : Server} (h : ¬ (m.server.Keyed ∧ u.Keyed)) :
    m.nextOver a u = { sentBefore := u.sent } :=
  if_neg h

theorem step_eq_some : m.step a = some t ↔
    ∃ u, m.server.apply a = some u ∧ ⟨u, m.nextOver a u, m.nextUsed a⟩ = t :=
  Option.map_eq_some_iff

/-- A buffer of a length that occurs always fits. -/
theorem Accounted.fits (hm : m.Accounted) (ha : ∀ n, a = .tick n → n ≤ 2 ^ 31 - 6144) :
    m.Fits a := by
  cases a with
  | tick n =>
    intro _ _
    have hn := ha n rfl
    have hacc := hm.acc_lt
    unfold intMax
    omega
  | _ => trivial

/-- The step is possible exactly where the accumulator has room. -/
theorem Accounted.exists_step (hm : m.Accounted) : (∃ t, m.step a = some t) ↔ m.Fits a := by
  have hstep : (∃ t, m.step a = some t) ↔ ∃ u, m.server.apply a = some u := by
    simp only [step_eq_some]
    exact ⟨fun ⟨_, u, hu, _⟩ => ⟨u, hu⟩, fun ⟨u, hu⟩ => ⟨_, u, hu, rfl⟩⟩
  rw [hstep]
  cases a with
  | tick n =>
    show (∃ u, m.server.tciTxChronoTick n = some u) ↔ _
    by_cases hkeyed : m.server.Keyed
    · by_cases hn : 0 < n
      · rw [Server.tick_keyed hkeyed hm.inRange hm.acc_nonneg hn]
        split
        · rename_i hfits
          exact iff_of_true ⟨_, rfl⟩ fun _ _ => hfits
        · rename_i hfull
          exact iff_of_false (by simp) fun h => hfull (h hkeyed hn)
      · exact iff_of_true ⟨_, Server.tick_empty hkeyed (not_lt.1 hn)⟩ fun _ h => absurd h hn
    · refine iff_of_true ?_ fun h => absurd h hkeyed
      cases hrun : m.server.serverRunning with
      | true => exact ⟨_, Server.tick_reset hrun hkeyed n⟩
      | false => exact ⟨_, Server.tick_stopped hrun n⟩
  | _ => exact iff_of_true ⟨_, rfl⟩ trivial

/-- A buffer of an over. -/
theorem Accounted.step_buffer (hm : m.Accounted) (hkeyed : m.server.Keyed) {n : ℤ} (hn : 0 < n)
    (h : m.step (.tick n) = some t) : t.Accounted := by
  obtain ⟨u, hu, rfl⟩ := step_eq_some.1 h
  obtain ⟨hfits, hu⟩ : m.server.acc + n ≤ intMax ∧ _ := by
    have htick := Server.tick_keyed hkeyed hm.inRange hm.acc_nonneg hn
    by_cases hfits : m.server.acc + n ≤ intMax
    · exact ⟨hfits, hu.symm.trans (htick.trans (if_pos hfits))⟩
    · cases hu.symm.trans (htick.trans (if_neg hfits))
  obtain rfl := Option.some.inj hu
  have hused : m.nextUsed (.tick n) = true := by simp [nextUsed, hkeyed, hn]
  have hsamples : (ChronoEvent.tick n).samples = n := max_eq_right hn.le
  rw [hused, nextOver_keyed hkeyed (by exact hkeyed), hsamples]
  have hper : 0 < m.server.settings.per := ChronoSettings.per_pos
  have hclocked : 0 < m.current.clocked + n := add_pos_of_nonneg_of_pos hm.clocked_nonneg hn
  refine ⟨hm.inRange, Int.emod_nonneg _ hper.ne', ?_, rfl,
    fun h => absurd h.symm Bool.false_ne_true, hclocked.le,
    fun _ => iff_of_true rfl hclocked, fun _ hsteady => ?_⟩
  · exact (Int.emod_lt_of_pos _ hper).trans_le hm.inRange.per_le
  · obtain ⟨hacc, hsent⟩ := hm.counted hkeyed (Bool.and_eq_true_iff.1 hsteady).1
    have hburst : (if 0 < m.current.clocked then (m.server.settings.burst : ℤ) else 0) +
        (if m.server.primed = true then 0 else (m.server.settings.burst : ℤ)) =
          m.server.settings.burst := by
      rw [hm.primed]
      simp only [hm.used hkeyed]
      split <;> simp
    have hquot : m.current.clocked / m.server.settings.per +
        (m.server.acc + n) / m.server.settings.per =
          (m.current.clocked + n) / m.server.settings.per := by
      have hwhole : m.current.clocked + n =
          m.server.acc + n +
            m.server.settings.per * (m.current.clocked / m.server.settings.per) := by
        have := Int.emod_add_mul_ediv m.current.clocked m.server.settings.per
        linarith
      rw [hwhole, Int.add_mul_ediv_left _ _ hper.ne', add_comm]
    dsimp only
    rw [if_pos hclocked, hacc, Int.emod_add_emod, ← hacc]
    refine ⟨rfl, ?_⟩
    rw [← hquot, hsent]
    linarith

/-- A tick that finds nobody keyed. -/
theorem Accounted.step_rest (hm : m.Accounted) (hkeyed : ¬ m.server.Keyed) {n : ℤ}
    (h : m.step (.tick n) = some t) : t.Accounted := by
  obtain ⟨u, hu, rfl⟩ := step_eq_some.1 h
  cases hrun : m.server.serverRunning with
  | true =>
    obtain rfl := Option.some.inj ((Server.tick_reset hrun hkeyed n).symm.trans hu)
    have hused : m.nextUsed (.tick n) = false := by simp [nextUsed, hkeyed, hrun]
    rw [hused, nextOver_fresh fun h => hkeyed h.1]
    exact ⟨hm.inRange, le_rfl, (by norm_num : (0 : ℤ) < 6144), rfl, fun _ => rfl, le_rfl,
      fun h => absurd h hkeyed, fun h => absurd h hkeyed⟩
  | false =>
    obtain rfl := Option.some.inj ((Server.tick_stopped hrun n).symm.trans hu)
    have hused : m.nextUsed (.tick n) = m.used := by simp [nextUsed, hkeyed, hrun]
    rw [hused, nextOver_fresh fun h => hkeyed h.1]
    exact ⟨hm.inRange, hm.acc_nonneg, hm.acc_lt, hm.primed, hm.acc_eq, le_rfl,
      fun h => absurd h hkeyed, fun h => absurd h hkeyed⟩

/-- What is not a tick. -/
theorem Accounted.step_idle (hm : m.Accounted) (ha : ∀ n, a ≠ .tick n) (hrest : m.Rested a)
    (h : m.step a = some t) : t.Accounted := by
  obtain ⟨u, hu, rfl⟩ := step_eq_some.1 h
  obtain ⟨v, hv, hrange, hacc, hprimed, hsent⟩ := Server.apply_idle ha hm.inRange
  obtain rfl := Option.some.inj (hv.symm.trans hu)
  have hused : m.nextUsed a = m.used := by
    cases a with
    | tick n => exact absurd rfl (ha n)
    | _ => rfl
  have hsamples : a.samples = 0 := by
    cases a with
    | tick n => exact absurd rfl (ha n)
    | _ => rfl
  rw [hused]
  by_cases hboth : m.server.Keyed ∧ v.Keyed
  · rw [nextOver_keyed hboth.1 hboth.2, hsamples, add_zero]
    refine ⟨hrange, hacc ▸ hm.acc_nonneg, hacc ▸ hm.acc_lt, hprimed.trans hm.primed,
      fun h => hacc.trans (hm.acc_eq h), hm.clocked_nonneg, fun _ => hm.used hboth.1,
      fun _ hsteady => ?_⟩
    obtain ⟨hsteady, hsettings⟩ := Bool.and_eq_true_iff.1 hsteady
    have hcounted := hm.counted hboth.1 hsteady
    dsimp only
    rwa [hacc, hsent, of_decide_eq_true hsettings]
  · rw [nextOver_fresh hboth]
    have hfresh (hkeyed : v.Keyed) : m.used = false :=
      hrest (fun h => hboth ⟨h, hkeyed⟩) v hu hkeyed
    refine ⟨hrange, hacc ▸ hm.acc_nonneg, hacc ▸ hm.acc_lt, hprimed.trans hm.primed,
      fun h => hacc.trans (hm.acc_eq h), le_rfl, fun hkeyed => ?_, fun hkeyed _ => ?_⟩
    · simp [hfresh hkeyed]
    · simp [hacc, hm.acc_eq (hfresh hkeyed)]

/-- **One step** keeps the accounting, if an over that it begins comes after a rest. -/
theorem Accounted.step (hm : m.Accounted) (hrest : m.Rested a) (h : m.step a = some t) :
    t.Accounted := by
  by_cases ha : ∃ n, a = .tick n
  · obtain ⟨n, rfl⟩ := ha
    by_cases hkeyed : m.server.Keyed
    · by_cases hn : 0 < n
      · exact hm.step_buffer hkeyed hn h
      · obtain ⟨u, hu, rfl⟩ := step_eq_some.1 h
        obtain rfl := Option.some.inj ((Server.tick_empty hkeyed (not_lt.1 hn)).symm.trans hu)
        have hsamples : (ChronoEvent.tick n).samples = 0 := max_eq_left (not_lt.1 hn)
        have hused : m.nextUsed (.tick n) = m.used := by simp [nextUsed, hkeyed, hn]
        rw [hused, nextOver_keyed hkeyed hkeyed, hsamples, add_zero, decide_eq_true rfl,
          Bool.and_true]
        exact hm
    · exact hm.step_rest hkeyed h
  · exact hm.step_idle (not_exists.1 ha) hrest h

/-- An over that begins afresh comes after a rest. -/
theorem Accounted.rested (hm : m.Accounted) (h : m.step a = some t) (ht : t.Paced) :
    m.Rested a := by
  intro hkeyed u hu hkeyed'
  obtain ⟨v, hv, rfl⟩ := step_eq_some.1 h
  obtain rfl := Option.some.inj (hv.symm.trans hu)
  have hfresh := (ht hkeyed').1
  rw [nextOver_fresh fun h => hkeyed h.1] at hfresh
  by_cases ha : ∃ n, a = .tick n
  · obtain ⟨n, rfl⟩ := ha
    exact absurd ((Server.tick_frame hu).1 hkeyed') hkeyed
  · obtain ⟨w, hw, -, -, hsame, -⟩ := Server.apply_idle (not_exists.1 ha) hm.inRange
    obtain rfl := Option.some.inj (hw.symm.trans hu)
    exact hm.primed.symm.trans (hsame.symm.trans (hfresh rfl).2)

end Monitored

/-- **The pace.** A run goes through, and every over of it starts afresh and has sent the burst and
one request for each whole `per` of its samples, if and only if every over begins after a tick that
found nobody keyed since the last buffer of an over, and no buffer takes the accumulator past the
largest `int`. -/
theorem chrono_paced_iff (as : List ChronoEvent) :
    ((∃ m, chrono.exec chrono.init as = some m) ∧
        chrono.Throughout Monitored.Paced chrono.init as) ↔
      chrono.Along (fun m a => m.Rested a ∧ m.Fits a) chrono.init as := by
  have hinit : chrono.init.Accounted := Monitored.accounted_init
  rw [chrono.runs_throughout_iff_along as hinit.paced]
  refine chrono.along_congr (I := Monitored.Accounted) ?_ ?_ as hinit
  · rintro m a t hm ⟨u, hu, hpaced⟩ ht
    obtain rfl := Option.some.inj (hu.symm.trans ht)
    exact hm.step (hm.rested ht hpaced) ht
  · intro m a hm
    constructor
    · rintro ⟨t, ht, hpaced⟩
      exact ⟨hm.rested ht hpaced, hm.exists_step.1 ⟨t, ht⟩⟩
    · rintro ⟨hrest, hfits⟩
      obtain ⟨t, ht⟩ := hm.exists_step.2 hfits
      exact ⟨t, ht, (hm.step hrest ht).paced⟩

/-- Two overs of a buffer each, with no tick between them: the second has no burst. -/
theorem second_over_unprimed : ∃ m, chrono.exec chrono.init [.start, .mox true, .arm, .tick 1024,
    .mox false, .disarm, .mox true, .arm, .tick 1024] = some m ∧ ¬ m.Paced := by
  refine ⟨_, rfl, fun h => ?_⟩
  have hsent := (h (by decide)).2 (by decide)
  exact absurd hsent (by decide)

end MacHPSDR.Tci.Pace
