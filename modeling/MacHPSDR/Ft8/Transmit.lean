import MacHPSDR.Foundations.Transition
import Mathlib

/-!
# The FT8 transmit scheduler

A waveform is prepared, the engine is armed for a parity of the slots, and a tick about every
100 ms starts the transmission at the beginning of a slot, raises MOX if nobody has, and drops it
when the audio thread has taken the last sample, or when it has been held for too long. The ticks
and the calls of the interface run on the GTK thread; the audio thread takes samples at any time.

A run is any order of these steps, at clock readings that do not decrease. The history keeps when
the engine was armed, when it started a transmission, and its own calls of `set_mox`
(`Scheduled`, `scheduled`).
-/

namespace MacHPSDR.Ft8.Transmit

/-- `FT8_TX_RATE` -/
def txRate : ℕ := 48000

/-- `TX_SLOT_MS()` -/
def txSlotMs (ft4 : Bool) : ℕ := if ft4 then 7500 else 15000

/-- The samples of a waveform, `n_sym*nsps`. -/
def waveSamples (ft4 : Bool) : ℕ := if ft4 then 105 * 2304 else 79 * 7680

/-- `FT8_TX_MAX_MARGIN_MS` -/
def txMaxMarginMs : ℕ := 2000

/-- How long MOX may be held for a waveform of `n` samples, in milliseconds. -/
def maxMs (n : ℕ) : ℕ := n * 1000 / txRate + txMaxMarginMs

/-- What has happened, with the time in milliseconds. -/
inductive Event
  | armed (even : Bool) (ms : ℕ)
  | started (ms : ℕ)
  /-- The engine calls `set_mox`. -/
  | setMox (on : Bool) (ms : ℕ)
  deriving DecidableEq

/-- Where the audio thread is in `ft8_tx_next_sample`. -/
inductive Audio
  | out
  /-- It has seen that a transmission is active. -/
  | active
  /-- It has read `tx_idx`, and that there is such a sample. -/
  | sample (i : ℕ)
  deriving DecidableEq

structure State where
  waveLen : ℕ
  haveWave : Bool
  txActive : Bool
  txIdx : ℕ
  armed : Bool
  armEven : Bool
  lastStartedSlot : ℤ
  weKeyed : Bool
  /-- `tick_id!=0`: the tick is due again. -/
  tickId : Bool
  keyTimeMs : ℕ
  /-- `radio->mox` -/
  mox : Bool
  audio : Audio
  /-- The latest clock reading, in microseconds. -/
  clock : ℕ
  /-- What has happened so far, the latest first. -/
  history : List Event

namespace State

variable (ft4 : Bool) (s : State)

/-- `set_mox` -/
def setMox (on : Bool) (ms : ℕ) : State :=
  { s with mox := on, history := .setMox on ms :: s.history }

/-- The transmission ends, and with it the tick. -/
def keyDown (ms : ℕ) : State :=
  let t := { s with txActive := false, armed := false, weKeyed := false, tickId := false }
  if s.weKeyed then t.setMox false ms else t

/-- `tx_tick` -/
def txTick (nowMs : ℕ) : State :=
  if !s.armed && !s.txActive then { s with tickId := false }
  else
    let slot := nowMs / txSlotMs ft4
    let inSlot := nowMs % txSlotMs ft4
    if s.txActive then
      if s.weKeyed && s.keyTimeMs ≠ 0 && maxMs s.waveLen < nowMs - s.keyTimeMs then s.keyDown nowMs
      else if s.waveLen ≤ s.txIdx then s.keyDown nowMs
      else s
    else if s.haveWave && inSlot < 2000 && (slot : ℤ) ≠ s.lastStartedSlot &&
        (decide (slot % 2 = 0) == s.armEven) then
      let t := { s with
        lastStartedSlot := slot
        txIdx := 0
        txActive := true
        keyTimeMs := nowMs
        history := .started nowMs :: s.history }
      if !s.mox then { t with weKeyed := true }.setMox true nowMs else t
    else s

/-- `ft8_tx_prepare`, of a text that can be encoded or not. -/
def txPrepare (encodes : Bool) : State :=
  if encodes then { s with waveLen := waveSamples ft4, haveWave := true }
  else { s with haveWave := false }

/-- `ft8_tx_arm` -/
def txArm (even : Bool) (nowMs : ℕ) : State :=
  if !s.haveWave then s
  else
    { s with
      armEven := even
      lastStartedSlot := (nowMs / txSlotMs ft4 : ℕ)
      armed := true
      tickId := true
      history := .armed even nowMs :: s.history }

/-- `ft8_tx_disarm` -/
def txDisarm (nowMs : ℕ) : State :=
  let t := { s with armed := false, txActive := false }
  if s.weKeyed then { t with weKeyed := false }.setMox false nowMs else t

/-- The next step of `ft8_tx_next_sample`. -/
def nextSample : State :=
  match s.audio with
  | .out => if s.txActive then { s with audio := .active } else s
  | .active => { s with audio := if s.txIdx < s.waveLen then .sample s.txIdx else .out }
  | .sample i => { s with txIdx := i + 1, audio := .out }

end State

/-- What can happen next. -/
inductive Label
  | prepare (encodes : Bool)
  | arm (even : Bool) (us : ℕ)
  | disarm (us : ℕ)
  | tick (us : ℕ)
  | audio
  /-- Somebody else calls `set_mox`. -/
  | setMox (on : Bool)

/-- The clock is read. -/
def State.read (s : State) (us : ℕ) : State := { s with clock := us }

def step (ft4 : Bool) (s : State) : Label → Option State
  | .prepare encodes => some (s.txPrepare ft4 encodes)
  | .arm even us => if us < s.clock then none else some ((s.read us).txArm ft4 even (us / 1000))
  | .disarm us => if us < s.clock then none else some ((s.read us).txDisarm (us / 1000))
  | .tick us =>
    if us < s.clock || !s.tickId then none else some ((s.read us).txTick ft4 (us / 1000))
  | .audio => some s.nextSample
  | .setMox on => some { s with mox := on }

def system (ft4 : Bool) : System State Label where
  init := ⟨0, false, false, 0, false, false, -1, false, false, 0, false, .out, 0, []⟩
  step := step ft4

/-! ## What is said of the history -/

/-- When the engine was armed last, and for what. -/
def lastArm : List Event → Option (Bool × ℕ)
  | [] => none
  | .armed even ms :: _ => some (even, ms)
  | _ :: h => lastArm h

/-- The calls of `set_mox`, the latest first. -/
def moxCalls : List Event → List (Bool × ℕ)
  | [] => []
  | .setMox on ms :: h => (on, ms) :: moxCalls h
  | _ :: h => moxCalls h

/-- MOX is raised and dropped in turn, from the beginning on. -/
def Alternates : List (Bool × ℕ) → Prop
  | [] => True
  | (on, _) :: l => Alternates l ∧ (on = true ↔ ∀ ms, l.head? ≠ some (true, ms))

/-- A transmission may start. -/
def Timely (ft4 : Bool) (ms : ℕ) (h : List Event) : Prop :=
  ms % txSlotMs ft4 < 2000 ∧
  (∃ even at', lastArm h = some (even, at') ∧ (ms / txSlotMs ft4 % 2 = 0 ↔ even = true) ∧
    at' / txSlotMs ft4 < ms / txSlotMs ft4) ∧
  ∀ ms', .started ms' ∈ h → ms' / txSlotMs ft4 ≠ ms / txSlotMs ft4

/-- The engine keeps to the slots and lets go of MOX. -/
structure Scheduled (ft4 : Bool) (s : State) : Prop where
  /-- The transmissions start at the beginning of a slot of the armed parity, at most one in a slot
  and none in the slot in which the engine was armed. -/
  timely : ∀ ms h, .started ms :: h <:+ s.history → Timely ft4 ms h
  keyed : s.weKeyed = true → s.txActive = true ∧ s.tickId = true
  /-- What was raised is dropped once. -/
  once : Alternates (moxCalls s.history)
  held : s.weKeyed = true ↔ ∃ ms, (moxCalls s.history).head? = some (true, ms)
  /-- After a tick that comes later than the waveform and the margin allow, MOX is dropped. -/
  dropped : ∀ us t, step ft4 s (.tick us) = some t → ∀ ms,
    (moxCalls s.history).head? = some (true, ms) → ms + maxMs (waveSamples ft4) < us / 1000 →
    (moxCalls t.history) = (false, us / 1000) :: moxCalls s.history

/-! ## Every run -/

variable {ft4 : Bool} {s t : State}

theorem txSlotMs_pos (ft4 : Bool) : 0 < txSlotMs ft4 := by
  cases ft4 <;> decide

/-- How the flags belong together, and to the history. -/
structure Inv (ft4 : Bool) (s : State) : Prop where
  slot : s.lastStartedSlot ≤ (s.clock / 1000 / txSlotMs ft4 : ℕ)
  lastArm : ∀ even ms, lastArm s.history = some (even, ms) →
    s.armEven = even ∧ ((ms / txSlotMs ft4 : ℕ) : ℤ) ≤ s.lastStartedSlot
  armed : s.armed = true → ∃ even ms, Transmit.lastArm s.history = some (even, ms)
  started : ∀ ms, .started ms ∈ s.history → ((ms / txSlotMs ft4 : ℕ) : ℤ) ≤ s.lastStartedSlot
  wave : s.haveWave = true ∨ s.txActive = true → s.waveLen = waveSamples ft4
  tick : s.armed = true ∨ s.txActive = true → s.tickId = true
  keyed : s.weKeyed = true → s.txActive = true ∧ s.keyTimeMs ≠ 0 ∧
    (moxCalls s.history).head? = some (true, s.keyTimeMs)
  unkeyed : s.weKeyed = false → ∀ ms, (moxCalls s.history).head? ≠ some (true, ms)
  once : Alternates (moxCalls s.history)
  timely : ∀ ms h, .started ms :: h <:+ s.history → Timely ft4 ms h

namespace Inv

/-- Nothing depends on where the audio thread is, on the operator, or on a later clock. -/
theorem frame (h : Inv ft4 s) (i : ℕ) (a : Audio) (mox : Bool) {us : ℕ} (hus : s.clock ≤ us) :
    Inv ft4 { s with txIdx := i, audio := a, mox := mox, clock := us } where
  slot := h.slot.trans (Int.ofNat_le.2 (Nat.div_le_div_right (Nat.div_le_div_right hus)))
  lastArm := h.lastArm
  armed := h.armed
  started := h.started
  wave := h.wave
  tick := h.tick
  keyed := h.keyed
  unkeyed := h.unkeyed
  once := h.once
  timely := h.timely

/-- MOX is dropped, or was not raised by the engine, and nothing is transmitted any more. -/
theorem drop (h : Inv ft4 s) (armed tickId : Bool) (htick : armed = true → tickId = true)
    (harmed : armed = true → s.armed = true) (ms : ℕ) :
    Inv ft4 (if s.weKeyed then
      { s with
        txActive := false, armed := armed, weKeyed := false, tickId := tickId }.setMox false ms
      else { s with txActive := false, armed := armed, weKeyed := false, tickId := tickId }) := by
  cases hkeyed : s.weKeyed with
  | false =>
    rw [if_neg Bool.false_ne_true]
    exact {
      slot := h.slot
      lastArm := h.lastArm
      armed := fun ha => h.armed (harmed ha)
      started := h.started
      wave := fun hw => h.wave (.inl (hw.resolve_right Bool.false_ne_true))
      tick := fun ha => htick (ha.resolve_right Bool.false_ne_true)
      keyed := fun hk => absurd hk Bool.false_ne_true
      unkeyed := fun _ => h.unkeyed hkeyed
      once := h.once
      timely := h.timely }
  | true =>
    obtain ⟨-, -, hhead⟩ := h.keyed hkeyed
    rw [if_pos rfl]
    exact {
      slot := h.slot
      lastArm := h.lastArm
      armed := fun ha => h.armed (harmed ha)
      started := fun ms' hms => h.started ms' (by simpa [State.setMox] using hms)
      wave := fun hw => h.wave (.inl (hw.resolve_right Bool.false_ne_true))
      tick := fun ha => htick (ha.resolve_right Bool.false_ne_true)
      keyed := fun hk => absurd hk Bool.false_ne_true
      unkeyed := fun _ ms' => by simp [State.setMox, moxCalls]
      once := ⟨h.once, iff_of_false Bool.false_ne_true fun hno => hno _ hhead⟩
      timely := fun ms' h' hsuffix => h.timely ms' h' (by
        simpa [State.setMox, List.suffix_cons_iff] using hsuffix) }

theorem keyDown (h : Inv ft4 s) (ms : ℕ) : Inv ft4 (s.keyDown ms) :=
  h.drop false false id (fun ha => absurd ha Bool.false_ne_true) ms

theorem txDisarm (h : Inv ft4 s) (ms : ℕ) : Inv ft4 (s.txDisarm ms) := by
  have hdrop := h.drop false s.tickId (fun ha => absurd ha Bool.false_ne_true)
    (fun ha => absurd ha Bool.false_ne_true) ms
  unfold State.txDisarm
  cases hkeyed : s.weKeyed <;> simpa [hkeyed] using hdrop

theorem txPrepare (h : Inv ft4 s) (encodes : Bool) : Inv ft4 (s.txPrepare ft4 encodes) := by
  cases encodes with
  | true =>
    exact { h with wave := fun _ => rfl }
  | false =>
    exact { h with wave := fun hw => h.wave (.inr (hw.resolve_left Bool.false_ne_true)) }

theorem txArm (h : Inv ft4 s) (even : Bool) {ms : ℕ} (hms : ms = s.clock / 1000) :
    Inv ft4 (s.txArm ft4 even ms) := by
  unfold State.txArm
  split
  · exact h
  · rename_i hwave
    have hwave : s.haveWave = true := by simpa using hwave
    have hslot : s.lastStartedSlot ≤ (ms / txSlotMs ft4 : ℕ) := hms ▸ h.slot
    exact {
      slot := by
        rw [hms]
      lastArm := fun even' ms' ha => by
        obtain ⟨rfl, rfl⟩ : even = even' ∧ ms = ms' := by simpa [Transmit.lastArm] using ha
        exact ⟨rfl, le_rfl⟩
      armed := fun _ => ⟨even, ms, rfl⟩
      started := fun ms' hms' => (h.started ms' (by simpa using hms')).trans hslot
      wave := fun _ => h.wave (.inl hwave)
      tick := fun _ => rfl
      keyed := h.keyed
      unkeyed := h.unkeyed
      once := h.once
      timely := fun ms' h' hsuffix => h.timely ms' h' (by
        simpa [List.suffix_cons_iff] using hsuffix) }

/-- The transmission starts, in a slot of its own. -/
theorem start (h : Inv ft4 s) (harmed : s.armed = true) (hactive : s.txActive = false)
    (hwave : s.haveWave = true) {ms : ℕ} (hms : ms = s.clock / 1000)
    (hin : ms % txSlotMs ft4 < 2000)
    (hslot : ((ms / txSlotMs ft4 : ℕ) : ℤ) ≠ s.lastStartedSlot)
    (hparity : decide (ms / txSlotMs ft4 % 2 = 0) = s.armEven) (keys : Bool) :
    Inv ft4 (if keys then
      { s with
        lastStartedSlot := (ms / txSlotMs ft4 : ℕ), txIdx := 0, txActive := true, keyTimeMs := ms
        history := .started ms :: s.history, weKeyed := true }.setMox true ms
      else
      { s with
        lastStartedSlot := (ms / txSlotMs ft4 : ℕ), txIdx := 0, txActive := true, keyTimeMs := ms
        history := .started ms :: s.history }) := by
  have hlt : s.lastStartedSlot < (ms / txSlotMs ft4 : ℕ) :=
    lt_of_le_of_ne (hms ▸ h.slot) hslot.symm
  obtain ⟨even, at', hlast⟩ := h.armed harmed
  obtain ⟨heven, hat⟩ := h.lastArm even at' hlast
  have htimely : Timely ft4 ms s.history := by
    refine ⟨hin, ⟨even, at', hlast, ?_, ?_⟩, fun ms' hms' => ?_⟩
    · rw [← heven, ← hparity, decide_eq_true_iff]
    · exact Int.ofNat_lt.1 (hat.trans_lt hlt)
    · exact fun heq => (h.started ms' hms').not_gt (by rwa [heq])
  have hpos : ms ≠ 0 := by
    rintro rfl
    rw [Nat.zero_div] at hlt
    have : (0 : ℤ) ≤ s.lastStartedSlot := (Int.natCast_nonneg _).trans hat
    exact absurd hlt (not_lt.2 (by simpa using this))
  have hunkeyed : s.weKeyed = false := by
    by_contra hkeyed
    rw [(h.keyed (by simpa using hkeyed)).1] at hactive
    exact absurd hactive.symm Bool.false_ne_true
  have hstarted : ∀ ms', .started ms' ∈ Event.started ms :: s.history →
      ((ms' / txSlotMs ft4 : ℕ) : ℤ) ≤ (ms / txSlotMs ft4 : ℕ) := by
    intro ms' hms'
    rcases List.mem_cons.1 hms' with heq | hms'
    · obtain rfl := Event.started.inj heq
      exact le_rfl
    · exact (h.started ms' hms').trans hlt.le
  have hsuffix : ∀ ms' h', .started ms' :: h' <:+ Event.started ms :: s.history →
      Timely ft4 ms' h' := by
    intro ms' h' hsuffix
    rcases List.suffix_cons_iff.1 hsuffix with heq | hsuffix
    · obtain ⟨hstart, rfl⟩ := List.cons.inj heq
      obtain rfl := Event.started.inj hstart
      exact htimely
    · exact h.timely ms' h' hsuffix
  cases keys with
  | false =>
    rw [if_neg Bool.false_ne_true]
    exact {
      slot := by
        rw [hms]
      lastArm := fun even' ms' ha => by
        obtain ⟨heven', hat'⟩ := h.lastArm even' ms' ha
        exact ⟨heven', hat'.trans hlt.le⟩
      armed := fun _ => ⟨even, at', hlast⟩
      started := hstarted
      wave := fun _ => h.wave (.inl hwave)
      tick := fun _ => h.tick (.inl harmed)
      keyed := fun hk => absurd (hk.symm.trans hunkeyed) (Bool.false_ne_true ·.symm)
      unkeyed := fun _ => h.unkeyed hunkeyed
      once := h.once
      timely := hsuffix }
  | true =>
    rw [if_pos rfl]
    exact {
      slot := hms ▸ le_rfl
      lastArm := fun even' ms' ha => by
        obtain ⟨heven', hat'⟩ := h.lastArm even' ms' ha
        exact ⟨heven', hat'.trans hlt.le⟩
      armed := fun _ => ⟨even, at', hlast⟩
      started := fun ms' hms' => hstarted ms' (by simpa [State.setMox] using hms')
      wave := fun _ => h.wave (.inl hwave)
      tick := fun _ => h.tick (.inl harmed)
      keyed := fun _ => ⟨rfl, hpos, rfl⟩
      unkeyed := fun hk => absurd hk.symm Bool.false_ne_true
      once := ⟨h.once, iff_of_true rfl (h.unkeyed hunkeyed)⟩
      timely := fun ms' h' hs => hsuffix ms' h' (by
        simpa [State.setMox, List.suffix_cons_iff] using hs) }

theorem txTick (h : Inv ft4 s) {ms : ℕ} (hms : ms = s.clock / 1000) :
    Inv ft4 (s.txTick ft4 ms) := by
  unfold State.txTick
  dsimp only
  split
  · rename_i hidle
    simp only [Bool.and_eq_true, Bool.not_eq_true'] at hidle
    exact { h with tick := fun ha => by simp [hidle] at ha }
  · rename_i hbusy
    split
    · split
      · exact h.keyDown ms
      · split
        · exact h.keyDown ms
        · exact h
    · rename_i hactive
      have hactive : s.txActive = false := by simpa using hactive
      have harmed : s.armed = true := by simpa [hactive] using hbusy
      split
      · rename_i hstart
        simp only [Bool.and_eq_true, decide_eq_true_eq, beq_iff_eq] at hstart
        obtain ⟨⟨⟨hwave, hin⟩, hslot⟩, hparity⟩ := hstart
        exact h.start harmed hactive hwave hms hin hslot hparity (!s.mox)
      · exact h

theorem nextSample (h : Inv ft4 s) : Inv ft4 s.nextSample := by
  unfold State.nextSample
  cases s.audio with
  | out =>
    dsimp only
    split
    · exact h.frame s.txIdx .active s.mox le_rfl
    · exact h
  | active => exact h.frame s.txIdx _ s.mox le_rfl
  | sample i => exact h.frame (i + 1) .out s.mox le_rfl

theorem step (h : Inv ft4 s) {a : Label} (ha : step ft4 s a = some t) : Inv ft4 t := by
  have hread {us : ℕ} (hus : ¬ us < s.clock) : Inv ft4 (s.read us) :=
    h.frame s.txIdx s.audio s.mox (not_lt.1 hus)
  cases a with
  | prepare encodes =>
    obtain rfl := Option.some.inj ha
    exact h.txPrepare encodes
  | arm even us =>
    obtain ⟨hus, ha⟩ := Option.ite_none_left_eq_some.1 ha
    obtain rfl := Option.some.inj ha
    exact (hread hus).txArm even rfl
  | disarm us =>
    obtain ⟨hus, ha⟩ := Option.ite_none_left_eq_some.1 ha
    obtain rfl := Option.some.inj ha
    exact (hread hus).txDisarm _
  | tick us =>
    obtain ⟨hus, ha⟩ := Option.ite_none_left_eq_some.1 ha
    obtain rfl := Option.some.inj ha
    exact (hread fun hlt => hus (by simp [hlt])).txTick rfl
  | audio =>
    obtain rfl := Option.some.inj ha
    exact h.nextSample
  | setMox on =>
    obtain rfl := Option.some.inj ha
    exact h.frame s.txIdx s.audio on le_rfl

end Inv

theorem inv_of_reachable (h : (system ft4).Reachable s) : Inv ft4 s := by
  refine System.Reachable.induction (system ft4) (I := Inv ft4) ?_
    (fun s a t hs ht => hs.step ht) h
  exact {
    slot := by simp [system]
    lastArm := fun _ _ ha => nomatch ha
    armed := fun ha => nomatch ha
    started := fun _ hms => nomatch hms
    wave := fun hw => nomatch hw
    tick := fun ha => nomatch ha
    keyed := fun hk => nomatch hk
    unkeyed := fun _ _ hh => nomatch hh
    once := trivial
    timely := fun _ _ hsuffix => by simp [system] at hsuffix }

/-- A tick that comes too late drops MOX. -/
theorem moxCalls_txTick (h : Inv ft4 s) (hkeyed : s.weKeyed = true) {ms : ℕ}
    (hlate : s.keyTimeMs + maxMs (waveSamples ft4) < ms) :
    moxCalls (s.txTick ft4 ms).history = (false, ms) :: moxCalls s.history := by
  obtain ⟨hactive, hpos, -⟩ := h.keyed hkeyed
  have hwave := h.wave (.inr hactive)
  have hwatchdog : maxMs s.waveLen < ms - s.keyTimeMs := by
    rw [hwave]
    omega
  have htick : s.txTick ft4 ms = s.keyDown ms := by
    unfold State.txTick
    simp [hactive, hkeyed, hpos, hwatchdog]
  rw [htick]
  unfold State.keyDown
  rw [hkeyed]
  rfl

/-- Whatever is prepared, armed and disarmed, and whenever the clock is read. -/
theorem scheduled (ft4 : Bool) {s : State} (h : (system ft4).Reachable s) : Scheduled ft4 s := by
  have hinv := inv_of_reachable h
  have hheld : s.weKeyed = true ↔ ∃ ms, (moxCalls s.history).head? = some (true, ms) := by
    constructor
    · exact fun hk => ⟨_, (hinv.keyed hk).2.2⟩
    · rintro ⟨ms, hms⟩
      by_contra hk
      exact hinv.unkeyed (by simpa using hk) ms hms
  refine ⟨hinv.timely, fun hk => ?_, hinv.once, hheld, fun us t ht ms hms hlate => ?_⟩
  · have hactive := (hinv.keyed hk).1
    exact ⟨hactive, hinv.tick (.inr hactive)⟩
  · have hkeyed := hheld.2 ⟨ms, hms⟩
    have hkey : s.keyTimeMs = ms := by
      have heq := (hinv.keyed hkeyed).2.2.symm.trans hms
      simpa using heq
    obtain ⟨hus, ht⟩ := Option.ite_none_left_eq_some.1 ht
    obtain rfl := Option.some.inj ht
    have hclock : s.clock ≤ us := not_lt.1 fun hlt => hus (by simp [hlt])
    exact moxCalls_txTick (hinv.frame s.txIdx s.audio s.mox hclock) hkeyed (hkey ▸ hlate)

/-- Armed in the first slot for odd ones, FT4 starts 7.6 s after midnight; the audio thread takes no
sample, and the tick after 14.7 s drops MOX. -/
def stalledFt4 : List Label :=
  [.prepare true, .arm false 100000, .tick 200000, .tick 7600000, .audio, .tick 14700000]

theorem scheduled_stalledFt4 : ∃ s, (system true).exec (system true).init stalledFt4 = some s ∧
    s.history = [.setMox false 14700, .setMox true 7600, .started 7600, .armed false 100] ∧
    Scheduled true s := by
  obtain ⟨s, hs, hhistory⟩ : ∃ s, (system true).exec (system true).init stalledFt4 = some s ∧
      s.history = [.setMox false 14700, .setMox true 7600, .started 7600, .armed false 100] :=
    System.exists_exec _ (by decide)
  exact ⟨s, hs, hhistory, scheduled true ⟨stalledFt4, hs⟩⟩

end MacHPSDR.Ft8.Transmit
