import MacHPSDR.Foundations.Transition
import Mathlib

/-!
# VOX

The microphone thread measures every buffer. One above the threshold moves the hang deadline, and if
`vox` is clear sets it and queues `vox_key_idle`. All else runs on the GTK thread, one callback
after another: `vox_key_idle` starts a poll, and the poll clears `vox` once the deadline is over. A
step is one access to a field that the threads share, or one operation of GLib. A source is attached
until its callback has returned.
-/

namespace MacHPSDR.Radio.Vox

/-- Where the microphone thread is in `update_vox`: what it does next. -/
inductive Mic
  /-- Outside; the next buffer may come. -/
  | away
  | readEnabled
  | readThreshold
  | readHang
  | readHangAgain
  | readClock (hang : ℚ)
  | writeDeadline (untilUs : ℤ)
  | readVox
  | setVox
  | queueIdle
  deriving DecidableEq

/-- Where the GTK thread is: what it does next. -/
inductive Gtk
  | mainLoop
  /-- `vox_key_idle` -/
  | keyReadVox
  | keyReadTimeout
  | keyAdd
  | keyAssign (id : ℕ)
  | keyChanged
  /-- `vox_poll_cb`, of the source `id` -/
  | pollReadVox (id : ℕ)
  | pollDead (id : ℕ)
  | pollReadEnabled (id : ℕ)
  | pollReadClock (id : ℕ)
  | pollReadDeadline (id : ℕ) (nowUs : ℤ)
  | pollClearVox (id : ℕ)
  | pollClearTimeout (id : ℕ)
  | pollChanged (id : ℕ)
  | pollRemove (id : ℕ)
  /-- `vox_set_enabled` -/
  | setWriteEnabled (enabled : Bool)
  | setReadEnabled
  /-- `vox_cancel` -/
  | cancelReadVox
  | cancelReadTimeout
  /-- `vox_release` -/
  | releaseClearVox
  | releaseReadTimeout
  | releaseRemove
  | releaseClearTimeout
  | releaseChanged
  deriving DecidableEq

structure State where
  vox : Bool
  voxEnabled : Bool
  voxPeak : ℚ
  voxThreshold : ℚ
  /-- In milliseconds. -/
  voxHang : ℚ
  voxTimeout : ℕ
  voxHangUntilUs : ℤ
  /-- `g_get_monotonic_time` -/
  nowUs : ℤ
  /-- The `vox_poll_cb` sources that are attached. -/
  polls : List ℕ
  /-- How many `vox_key_idle` sources are attached. -/
  idles : ℕ
  /-- The last source id that was given out. -/
  lastId : ℕ
  mic : Mic
  gtk : Gtk
  deriving DecidableEq

inductive Label
  /-- A buffer of the microphone is full. -/
  | buffer (samples : List ℚ)
  | mic
  | dispatchIdle
  | dispatchPoll (id : ℕ)
  | setEnabled (enabled : Bool)
  | cancel
  | gtk
  /-- Time passes. -/
  | tick (us : ℕ)
  /-- The settings page writes the threshold and the hang. -/
  | settings (threshold hang : ℚ)
  deriving DecidableEq

/-- The peak that `update_vox` measures. -/
def peak (samples : List ℚ) : ℚ := samples.foldl (fun p x => if |x| > p then |x| else p) 0

/-- The next step of `update_vox`. -/
def State.micStep (s : State) : Option State :=
  match s.mic with
  | .away => none
  | .readEnabled => some { s with mic := if s.voxEnabled then .readThreshold else .away }
  | .readThreshold => some { s with mic := if s.voxPeak > s.voxThreshold then .readHang else .away }
  | .readHang => some { s with mic := if s.voxHang > 0 then .readHangAgain else .readClock 0 }
  | .readHangAgain => some { s with mic := .readClock s.voxHang }
  | .readClock hang => some { s with mic := .writeDeadline (s.nowUs + ⌊hang * 1000⌋) }
  | .writeDeadline untilUs => some { s with voxHangUntilUs := untilUs, mic := .readVox }
  | .readVox => some { s with mic := if s.vox then .away else .setVox }
  | .setVox => some { s with vox := true, mic := .queueIdle }
  | .queueIdle => some { s with idles := s.idles + 1, mic := .away }

/-- The next step of the callback that the GTK thread is in. -/
def State.gtkStep (s : State) : Option State :=
  match s.gtk with
  | .mainLoop => none
  | .keyReadVox => some { s with gtk := if s.vox then .keyReadTimeout else .keyChanged }
  | .keyReadTimeout => some { s with gtk := if s.voxTimeout = 0 then .keyAdd else .keyChanged }
  | .keyAdd =>
    some { s with
      polls := (s.lastId + 1) :: s.polls, lastId := s.lastId + 1, gtk := .keyAssign (s.lastId + 1) }
  | .keyAssign id => some { s with voxTimeout := id, gtk := .keyChanged }
  | .keyChanged => some { s with idles := s.idles - 1, gtk := .mainLoop }
  | .pollReadVox id => some { s with gtk := if s.vox then .pollReadEnabled id else .pollDead id }
  | .pollDead id => some { s with voxTimeout := 0, gtk := .pollRemove id }
  | .pollReadEnabled id =>
    some { s with gtk := if s.voxEnabled then .pollReadClock id else .pollClearVox id }
  | .pollReadClock id => some { s with gtk := .pollReadDeadline id s.nowUs }
  | .pollReadDeadline id nowUs =>
    some { s with gtk := if nowUs ≥ s.voxHangUntilUs then .pollClearVox id else .mainLoop }
  | .pollClearVox id => some { s with vox := false, gtk := .pollClearTimeout id }
  | .pollClearTimeout id => some { s with voxTimeout := 0, gtk := .pollChanged id }
  | .pollChanged id => some { s with gtk := .pollRemove id }
  | .pollRemove id => some { s with polls := s.polls.erase id, gtk := .mainLoop }
  | .setWriteEnabled enabled => some { s with voxEnabled := enabled, gtk := .setReadEnabled }
  | .setReadEnabled => some { s with gtk := if s.voxEnabled then .mainLoop else .cancelReadVox }
  | .cancelReadVox => some { s with gtk := if s.vox then .releaseClearVox else .cancelReadTimeout }
  | .cancelReadTimeout =>
    some { s with gtk := if s.voxTimeout = 0 then .mainLoop else .releaseClearVox }
  | .releaseClearVox => some { s with vox := false, gtk := .releaseReadTimeout }
  | .releaseReadTimeout =>
    some { s with gtk := if s.voxTimeout = 0 then .releaseChanged else .releaseRemove }
  | .releaseRemove =>
    some { s with polls := s.polls.erase s.voxTimeout, gtk := .releaseClearTimeout }
  | .releaseClearTimeout => some { s with voxTimeout := 0, gtk := .releaseChanged }
  | .releaseChanged => some { s with gtk := .mainLoop }

/-- The GTK thread enters a callback or a call from its main loop. -/
def State.enter (s : State) (gtk : Gtk) : Option State :=
  if s.gtk = .mainLoop then some { s with gtk := gtk } else none

/-- The radio with VOX on or off, and no sound so far. -/
def start (enabled : Bool) (threshold hang : ℚ) : State :=
  ⟨false, enabled, 0, threshold, hang, 0, 0, 0, [], 0, 0, .away, .mainLoop⟩

def system (enabled : Bool) (threshold hang : ℚ) : System State Label where
  init := start enabled threshold hang
  step s
    | .buffer samples =>
      if s.mic = .away then some { s with voxPeak := peak samples, mic := .readEnabled } else none
    | .mic => s.micStep
    | .dispatchIdle => if 0 < s.idles then s.enter .keyReadVox else none
    | .dispatchPoll id => if id ∈ s.polls then s.enter (.pollReadVox id) else none
    | .setEnabled enabled => s.enter (.setWriteEnabled enabled)
    | .cancel => s.enter .cancelReadVox
    | .gtk => s.gtkStep
    | .tick us => some { s with nowUs := s.nowUs + us }
    | .settings threshold hang => some { s with voxThreshold := threshold, voxHang := hang }

/-! ## The releaser -/

/-- The callback in which the poll, if there is one, is on its way out. -/
def Gtk.Leaves : Gtk → Prop
  | .pollDead _ => True
  | .pollClearTimeout _ => True
  | .pollChanged _ => True
  | .pollRemove _ => True
  | .releaseReadTimeout => True
  | .releaseRemove => True
  | .releaseClearTimeout => True
  | .releaseChanged => True
  | _ => False

/-- `vox_timeout` names the poll that is attached, but for what the callback has yet to do. -/
def State.Sourced (s : State) : Prop :=
  match s.gtk with
  | .keyAdd => s.voxTimeout = 0 ∧ s.polls = []
  | .keyAssign id => id ≠ 0 ∧ s.polls = [id]
  | .pollReadVox id => id ≠ 0 ∧ s.voxTimeout = id ∧ s.polls = [id]
  | .pollDead id => s.polls = [id]
  | .pollReadEnabled id => id ≠ 0 ∧ s.voxTimeout = id ∧ s.polls = [id]
  | .pollReadClock id => id ≠ 0 ∧ s.voxTimeout = id ∧ s.polls = [id]
  | .pollReadDeadline id _ => id ≠ 0 ∧ s.voxTimeout = id ∧ s.polls = [id]
  | .pollClearVox id => s.polls = [id]
  | .pollClearTimeout id => s.polls = [id]
  | .pollChanged id => s.voxTimeout = 0 ∧ s.polls = [id]
  | .pollRemove id => s.voxTimeout = 0 ∧ s.polls = [id]
  | .releaseRemove => s.polls = [s.voxTimeout]
  | .releaseClearTimeout => s.polls = []
  | .releaseChanged => s.voxTimeout = 0 ∧ s.polls = []
  | _ => s.voxTimeout = 0 ∧ s.polls = [] ∨ s.voxTimeout ≠ 0 ∧ s.polls = [s.voxTimeout]

/-- The idle that runs is attached. -/
def Gtk.InKeyIdle : Gtk → Prop
  | .keyReadVox => True
  | .keyReadTimeout => True
  | .keyAdd => True
  | .keyAssign _ => True
  | .keyChanged => True
  | _ => False

/-- What is left of the poll and of the idles when the callback has done what it decided. -/
def State.Released (s : State) : Prop :=
  match s.gtk with
  | .keyChanged => s.polls ≠ [] ∨ 2 ≤ s.idles
  | g => (¬ g.Leaves ∧ s.polls ≠ []) ∨ 1 ≤ s.idles

structure Inv (s : State) : Prop where
  sourced : s.Sourced
  attached : s.gtk.InKeyIdle → 1 ≤ s.idles
  released : s.vox = true → s.mic ≠ .queueIdle → s.Released

variable {s t : State}

/-- A step of the GTK thread keeps the books on the poll. -/
theorem State.Sourced.gtk (hs : s.Sourced) (h : s.gtkStep = some t) : t.Sourced := by
  obtain ⟨vox, voxEnabled, _, _, _, voxTimeout, untilUs, _, polls, _, lastId, _, gtk⟩ := s
  cases gtk with
  | mainLoop => cases h
  | keyReadVox =>
    obtain rfl := Option.some.inj h
    cases vox <;> exact hs
  | keyReadTimeout =>
    obtain rfl := Option.some.inj h
    by_cases hzero : voxTimeout = 0
    · rcases hs with hs | hs
      · simpa [State.Sourced, hzero] using hs.2
      · exact absurd hzero hs.1
    · simpa [State.Sourced, hzero] using hs
  | keyAdd =>
    obtain rfl := Option.some.inj h
    exact ⟨Nat.succ_ne_zero lastId, congrArg (_ :: ·) hs.2⟩
  | keyAssign id =>
    obtain rfl := Option.some.inj h
    exact .inr hs
  | keyChanged =>
    obtain rfl := Option.some.inj h
    exact hs
  | pollReadVox id =>
    obtain rfl := Option.some.inj h
    cases vox
    · exact hs.2.2
    · exact hs
  | pollDead id =>
    obtain rfl := Option.some.inj h
    exact ⟨rfl, hs⟩
  | pollReadEnabled id =>
    obtain rfl := Option.some.inj h
    cases voxEnabled
    · exact hs.2.2
    · exact hs
  | pollReadClock id =>
    obtain rfl := Option.some.inj h
    exact hs
  | pollReadDeadline id nowUs =>
    obtain rfl := Option.some.inj h
    obtain ⟨hid, htimeout, hpolls⟩ := hs
    obtain rfl : voxTimeout = id := htimeout
    by_cases hdone : nowUs ≥ untilUs
    · simpa [State.Sourced, hdone] using hpolls
    · simpa [State.Sourced, hdone] using Or.inr ⟨hid, hpolls⟩
  | pollClearVox id =>
    obtain rfl := Option.some.inj h
    exact hs
  | pollClearTimeout id =>
    obtain rfl := Option.some.inj h
    exact ⟨rfl, hs⟩
  | pollChanged id =>
    obtain rfl := Option.some.inj h
    exact hs
  | pollRemove id =>
    obtain rfl := Option.some.inj h
    obtain ⟨hzero, rfl⟩ := hs
    exact .inl ⟨hzero, List.erase_cons_head ..⟩
  | setWriteEnabled enabled =>
    obtain rfl := Option.some.inj h
    exact hs
  | setReadEnabled =>
    obtain rfl := Option.some.inj h
    cases voxEnabled <;> exact hs
  | cancelReadVox =>
    obtain rfl := Option.some.inj h
    cases vox <;> exact hs
  | cancelReadTimeout =>
    obtain rfl := Option.some.inj h
    by_cases hzero : voxTimeout = 0 <;> simpa [State.Sourced, hzero] using hs
  | releaseClearVox =>
    obtain rfl := Option.some.inj h
    exact hs
  | releaseReadTimeout =>
    obtain rfl := Option.some.inj h
    by_cases hzero : voxTimeout = 0 <;> simpa [State.Sourced, hzero] using hs
  | releaseRemove =>
    obtain rfl := Option.some.inj h
    obtain rfl : polls = [voxTimeout] := hs
    exact List.erase_cons_head ..
  | releaseClearTimeout =>
    obtain rfl := Option.some.inj h
    exact ⟨rfl, hs⟩
  | releaseChanged =>
    obtain rfl := Option.some.inj h
    exact .inl hs

/-- The idle that runs stays attached until it returns. -/
theorem attached_gtk (hs : s.gtk.InKeyIdle → 1 ≤ s.idles) (h : s.gtkStep = some t) :
    t.gtk.InKeyIdle → 1 ≤ t.idles := by
  obtain ⟨vox, voxEnabled, _, _, _, voxTimeout, untilUs, _, _, idles, _, _, gtk⟩ := s
  cases gtk with
  | mainLoop => cases h
  | keyReadVox | keyReadTimeout | keyAdd | keyAssign =>
    obtain rfl := Option.some.inj h
    exact fun _ => hs trivial
  | pollReadVox =>
    obtain rfl := Option.some.inj h
    cases vox <;> exact False.elim
  | pollReadEnabled =>
    obtain rfl := Option.some.inj h
    cases voxEnabled <;> exact False.elim
  | pollReadDeadline id nowUs =>
    obtain rfl := Option.some.inj h
    by_cases hdone : nowUs ≥ untilUs <;> simp [Gtk.InKeyIdle, hdone]
  | setReadEnabled =>
    obtain rfl := Option.some.inj h
    cases voxEnabled <;> exact False.elim
  | cancelReadVox =>
    obtain rfl := Option.some.inj h
    cases vox <;> exact False.elim
  | cancelReadTimeout | releaseReadTimeout =>
    obtain rfl := Option.some.inj h
    by_cases hzero : voxTimeout = 0 <;> simp [Gtk.InKeyIdle, hzero]
  | _ =>
    obtain rfl := Option.some.inj h
    exact False.elim

/-- Where the poll leaves, `vox` was found clear or has just been cleared. -/
theorem released_gtk (hs : Inv s) (h : s.gtkStep = some t) (hvox : t.vox = true)
    (hmic : t.mic ≠ .queueIdle) : t.Released := by
  obtain ⟨vox, voxEnabled, _, _, _, voxTimeout, untilUs, _, polls, idles, _, mic, gtk⟩ := s
  obtain ⟨hsourced, hattached, hreleased⟩ := hs
  cases gtk with
  | mainLoop => cases h
  | keyReadVox =>
    obtain rfl := Option.some.inj h
    obtain rfl : vox = true := hvox
    exact hreleased rfl hmic
  | keyReadTimeout =>
    obtain rfl := Option.some.inj h
    have hattached : 1 ≤ idles := hattached trivial
    by_cases hzero : voxTimeout = 0
    · simpa [State.Released, hzero] using .inr hattached
    · have hpolls : polls = [voxTimeout] := (hsourced.resolve_left fun h => hzero h.1).2
      simp [State.Released, hzero, hpolls]
  | keyAdd =>
    obtain rfl := Option.some.inj h
    exact .inl ⟨id, List.cons_ne_nil _ _⟩
  | keyAssign id =>
    obtain rfl := Option.some.inj h
    exact .inl (hsourced.2 ▸ List.cons_ne_nil _ _)
  | keyChanged =>
    obtain rfl := Option.some.inj h
    rcases hreleased hvox hmic with hpolls | hidles
    · exact .inl ⟨id, hpolls⟩
    · exact .inr (Nat.le_sub_of_add_le hidles)
  | pollReadVox id =>
    obtain rfl := Option.some.inj h
    obtain rfl : vox = true := hvox
    exact hreleased rfl hmic
  | pollReadEnabled id =>
    obtain rfl := Option.some.inj h
    cases voxEnabled <;> exact hreleased hvox hmic
  | pollReadDeadline id nowUs =>
    obtain rfl := Option.some.inj h
    by_cases hdone : nowUs ≥ untilUs <;>
      simpa [State.Released, Gtk.Leaves, hdone] using hreleased hvox hmic
  | pollClearVox | releaseClearVox =>
    obtain rfl := Option.some.inj h
    cases hvox
  | pollRemove | releaseRemove | releaseChanged =>
    obtain rfl := Option.some.inj h
    exact .inr ((hreleased hvox hmic).resolve_left fun h => h.1 trivial)
  | setReadEnabled =>
    obtain rfl := Option.some.inj h
    cases voxEnabled <;> exact hreleased hvox hmic
  | cancelReadVox =>
    obtain rfl := Option.some.inj h
    obtain rfl : vox = true := hvox
    exact hreleased rfl hmic
  | cancelReadTimeout =>
    obtain rfl := Option.some.inj h
    by_cases hzero : voxTimeout = 0 <;>
      simpa [State.Released, Gtk.Leaves, hzero] using hreleased hvox hmic
  | releaseReadTimeout =>
    obtain rfl := Option.some.inj h
    by_cases hzero : voxTimeout = 0 <;>
      simpa [State.Released, Gtk.Leaves, hzero] using hreleased hvox hmic
  | _ =>
    obtain rfl := Option.some.inj h
    exact hreleased hvox hmic

theorem Inv.gtk (hs : Inv s) (h : s.gtkStep = some t) : Inv t :=
  ⟨hs.sourced.gtk h, attached_gtk hs.attached h, released_gtk hs h⟩

/-- What `Released` asks for grows with nothing but the callback. -/
theorem State.Released.mono (h : s.Released) (hgtk : t.gtk = s.gtk) (hpolls : t.polls = s.polls)
    (hidles : s.idles ≤ t.idles) : t.Released := by
  unfold State.Released at h ⊢
  rw [hgtk, hpolls]
  generalize s.gtk = g at h ⊢
  cases g with
  | keyChanged => exact h.imp_right fun h => h.trans hidles
  | _ => exact h.imp_right fun h => h.trans hidles

/-- One idle more is enough, whatever the callback does. -/
theorem released_of_queued (hattached : s.gtk.InKeyIdle → 1 ≤ s.idles) (hgtk : t.gtk = s.gtk)
    (hidles : t.idles = s.idles + 1) : t.Released := by
  unfold State.Released
  rw [hgtk]
  generalize s.gtk = g at hattached ⊢
  cases g with
  | keyChanged =>
    have hone : 1 ≤ s.idles := hattached trivial
    exact .inr (by omega)
  | _ => exact .inr (by omega)

/-- The microphone thread sets `vox` and queues the idle, and does nothing else to the sources. -/
theorem micStep_cases (h : s.micStep = some t) :
    t.gtk = s.gtk ∧ t.polls = s.polls ∧ t.voxTimeout = s.voxTimeout ∧
      (t.idles = s.idles ∧ (t.vox = s.vox ∧ s.mic ≠ .queueIdle ∨ t.mic = .queueIdle) ∨
        t.idles = s.idles + 1) := by
  cases hmic : s.mic <;> simp only [State.micStep, hmic, Option.some.injEq, reduceCtorEq] at h <;>
    subst h <;> simp

theorem Inv.mic (hs : Inv s) (h : s.micStep = some t) : Inv t := by
  obtain ⟨hgtk, hpolls, htimeout, hrest⟩ := micStep_cases h
  have hidles : s.idles ≤ t.idles := by omega
  refine ⟨?_, fun hkey => (hs.attached (hgtk ▸ hkey)).trans hidles, fun hvox hmic => ?_⟩
  · unfold State.Sourced
    rw [hgtk, hpolls, htimeout]
    exact hs.sourced
  · rcases hrest with ⟨-, ⟨hsame, hsmic⟩ | hqueue⟩ | hqueued
    · exact (hs.released (hsame ▸ hvox) hsmic).mono hgtk hpolls hidles
    · exact absurd hqueue hmic
    · exact released_of_queued hs.attached hgtk hqueued

/-- What neither thread does to the sources keeps the invariant. -/
theorem Inv.frame (hs : Inv s) (hgtk : t.gtk = s.gtk) (hpolls : t.polls = s.polls)
    (htimeout : t.voxTimeout = s.voxTimeout) (hidles : t.idles = s.idles) (hvox : t.vox = s.vox)
    (hmic : t.mic ≠ .queueIdle → s.mic ≠ .queueIdle) : Inv t := by
  refine ⟨?_, ?_, fun hv hm => ?_⟩
  · unfold State.Sourced
    rw [hgtk, hpolls, htimeout]
    exact hs.sourced
  · rw [hgtk, hidles]
    exact hs.attached
  · exact (hs.released (hvox ▸ hv) (hmic hm)).mono hgtk hpolls hidles.ge

/-- The main loop enters a callback that has not yet done anything. -/
theorem Inv.enter (hs : Inv s) {gtk : Gtk} (h : s.enter gtk = some t)
    (hsourced : s.voxTimeout = 0 ∧ s.polls = [] ∨ s.voxTimeout ≠ 0 ∧ s.polls = [s.voxTimeout] →
      { s with gtk := gtk }.Sourced)
    (hattached : gtk.InKeyIdle → 1 ≤ s.idles) (hleaves : ¬ gtk.Leaves)
    (hchanged : gtk ≠ .keyChanged) : Inv t := by
  unfold State.enter at h
  split at h
  · next hloop =>
    obtain rfl := Option.some.inj h
    have hbooks := hs.sourced
    unfold State.Sourced at hbooks
    rw [hloop] at hbooks
    refine ⟨hsourced hbooks, hattached, fun hvox hmic => ?_⟩
    have hreleased : s.Released := hs.released hvox hmic
    unfold State.Released at hreleased ⊢
    rw [hloop] at hreleased
    dsimp only at hreleased ⊢
    cases gtk with
    | keyChanged => exact absurd rfl hchanged
    | _ => exact hreleased.imp_left fun h => ⟨hleaves, h.2⟩
  · cases h

/-- **One step** of either thread keeps the invariant. -/
theorem Inv.step {enabled : Bool} {threshold hang : ℚ} {l : Label} (hs : Inv s)
    (h : (system enabled threshold hang).step s l = some t) : Inv t := by
  cases l with
  | buffer samples =>
    change (if s.mic = .away then _ else none) = some t at h
    split at h
    · next haway =>
      obtain rfl := Option.some.inj h
      exact hs.frame rfl rfl rfl rfl rfl fun _ => by simp [haway]
    · cases h
  | mic => exact hs.mic h
  | dispatchIdle =>
    change (if 0 < s.idles then _ else none) = some t at h
    split at h
    · next hidles => exact hs.enter h id (fun _ => hidles) id (by decide)
    · cases h
  | dispatchPoll id =>
    change (if id ∈ s.polls then _ else none) = some t at h
    split at h
    · next hid =>
      refine hs.enter h (fun hbooks => ?_) False.elim (fun h => h) nofun
      rcases hbooks with ⟨-, hnil⟩ | ⟨hne, hone⟩
      · rw [hnil] at hid
        exact absurd hid List.not_mem_nil
      · obtain rfl : id = s.voxTimeout := List.mem_singleton.1 (hone ▸ hid)
        exact ⟨hne, rfl, hone⟩
    · cases h
  | setEnabled enabled => exact hs.enter h id False.elim id nofun
  | cancel => exact hs.enter h id False.elim id nofun
  | gtk => exact hs.gtk h
  | tick us =>
    obtain rfl := Option.some.inj h
    exact hs.frame rfl rfl rfl rfl rfl id
  | settings threshold hang =>
    obtain rfl := Option.some.inj h
    exact hs.frame rfl rfl rfl rfl rfl id

theorem Inv.start (enabled : Bool) (threshold hang : ℚ) : Inv (start enabled threshold hang) where
  sourced := .inl ⟨rfl, rfl⟩
  attached := False.elim
  released h _ := absurd h Bool.false_ne_true

variable {enabled : Bool} {threshold hang : ℚ}

theorem Inv.of_reachable (h : (system enabled threshold hang).Reachable s) : Inv s :=
  h.induction _ (Inv.start enabled threshold hang) fun _ _ _ hs hstep => hs.step hstep

/-- **VOX has a releaser**: unless its idle is just about to be queued, a poll or an idle is
attached. -/
theorem Inv.releaser (hs : Inv s) (hvox : s.vox = true) (hmic : s.mic ≠ .queueIdle) :
    s.polls ≠ [] ∨ 0 < s.idles := by
  have h := hs.released hvox hmic
  unfold State.Released at h
  generalize s.gtk = g at h
  cases g with
  | keyChanged => exact h.imp_right fun h => by omega
  | _ => exact h.imp_left And.right

/-! ## The hang -/

/-- The microphone thread moves. -/
def Label.IsMic : Label → Prop
  | .buffer _ => True
  | .mic => True
  | _ => False

/-- `vox` is clear, or the poll that runs will clear it. -/
def State.Clearing (s : State) : Prop :=
  s.vox = false ∨
    match s.gtk with
    | .pollReadVox _ => s.voxHangUntilUs ≤ s.nowUs
    | .pollReadEnabled _ => s.voxHangUntilUs ≤ s.nowUs
    | .pollReadClock _ => s.voxHangUntilUs ≤ s.nowUs
    | .pollReadDeadline _ nowUs => s.voxHangUntilUs ≤ nowUs
    | .pollClearVox _ => True
    | _ => False

/-- The GTK thread does not set `vox`. -/
theorem vox_of_gtkStep (hs : s.vox = false) (h : s.gtkStep = some t) : t.vox = false := by
  cases hgtk : s.gtk <;> simp only [State.gtkStep, hgtk, Option.some.injEq, reduceCtorEq] at h <;>
    subst h <;> first | exact hs | rfl

theorem enter_some {gtk : Gtk} (h : s.enter gtk = some t) :
    s.gtk = .mainLoop ∧ { s with gtk := gtk } = t := by
  unfold State.enter at h
  split at h
  · next hloop => exact ⟨hloop, Option.some.inj h⟩
  · cases h

/-- Only the microphone thread sets `vox`. -/
theorem vox_of_step {l : Label} (hl : ¬ l.IsMic) (hs : s.vox = false)
    (h : (system enabled threshold hang).step s l = some t) : t.vox = false := by
  cases l with
  | buffer samples => exact absurd trivial hl
  | mic => exact absurd trivial hl
  | dispatchIdle =>
    change (if 0 < s.idles then _ else none) = some t at h
    split at h
    · exact (enter_some h).2 ▸ hs
    · cases h
  | dispatchPoll id =>
    change (if id ∈ s.polls then _ else none) = some t at h
    split at h
    · exact (enter_some h).2 ▸ hs
    · cases h
  | setEnabled enabled => exact (enter_some h).2 ▸ hs
  | cancel => exact (enter_some h).2 ▸ hs
  | gtk => exact vox_of_gtkStep hs h
  | tick us => exact Option.some.inj h ▸ hs
  | settings threshold hang => exact Option.some.inj h ▸ hs

theorem State.Clearing.gtk (hs : s.Clearing) (h : s.gtkStep = some t) : t.Clearing := by
  rcases hs with hclear | hpoll
  · exact .inl (vox_of_gtkStep hclear h)
  · obtain ⟨vox, voxEnabled, _, _, _, _, untilUs, nowUs, _, _, _, _, gtk⟩ := s
    cases gtk with
    | pollReadVox id =>
      obtain rfl := Option.some.inj h
      cases vox
      · exact .inl rfl
      · exact .inr hpoll
    | pollReadEnabled id =>
      obtain rfl := Option.some.inj h
      cases voxEnabled
      · exact .inr trivial
      · exact .inr hpoll
    | pollReadClock id =>
      obtain rfl := Option.some.inj h
      exact .inr hpoll
    | pollReadDeadline id nowUs =>
      obtain rfl := Option.some.inj h
      have hdone : nowUs ≥ untilUs := hpoll
      exact .inr (by simp [hdone])
    | pollClearVox id =>
      obtain rfl := Option.some.inj h
      exact .inl rfl
    | _ => exact absurd hpoll id

/-- Without the microphone thread, the poll goes on to clear `vox`. -/
theorem State.Clearing.step {l : Label} (hl : ¬ l.IsMic) (hs : s.Clearing)
    (h : (system enabled threshold hang).step s l = some t) : t.Clearing := by
  rcases hs with hclear | hpoll
  · exact .inl (vox_of_step hl hclear h)
  · have hloop : s.gtk ≠ .mainLoop := by
      intro hloop
      rw [hloop] at hpoll
      exact hpoll
    cases l with
    | buffer samples => exact absurd trivial hl
    | mic => exact absurd trivial hl
    | dispatchIdle =>
      change (if 0 < s.idles then _ else none) = some t at h
      split at h
      · exact absurd (enter_some h).1 hloop
      · cases h
    | dispatchPoll id =>
      change (if id ∈ s.polls then _ else none) = some t at h
      split at h
      · exact absurd (enter_some h).1 hloop
      · cases h
    | setEnabled enabled => exact absurd (enter_some h).1 hloop
    | cancel => exact absurd (enter_some h).1 hloop
    | gtk => exact State.Clearing.gtk (.inr hpoll) h
    | tick us =>
      -- the clock only goes on
      obtain rfl := Option.some.inj h
      refine .inr ?_
      dsimp only
      generalize s.gtk = g at hpoll
      cases g with
      | pollReadVox | pollReadEnabled | pollReadClock => exact hpoll.trans (by omega)
      | _ => exact hpoll
    | settings threshold hang =>
      obtain rfl := Option.some.inj h
      exact .inr hpoll

theorem State.Clearing.of_mainLoop (hs : s.Clearing) (h : s.gtk = .mainLoop) : s.vox = false := by
  rcases hs with hclear | hpoll
  · exact hclear
  · rw [h] at hpoll
    exact hpoll.elim

/-- **The poll that comes once the deadline is over clears `vox`**, unless the microphone thread
runs. -/
theorem vox_of_poll {id : ℕ} {u : State} {ls : List Label} (hover : s.voxHangUntilUs ≤ s.nowUs)
    (hpoll : (system enabled threshold hang).step s (.dispatchPoll id) = some u)
    (hls : (system enabled threshold hang).Along (fun _ l => ¬ l.IsMic) u ls)
    (hrun : (system enabled threshold hang).exec u ls = some t) (hloop : t.gtk = .mainLoop) :
    t.vox = false := by
  have hu : u.Clearing := by
    change (if id ∈ s.polls then _ else none) = some u at hpoll
    split at hpoll
    · exact (enter_some hpoll).2 ▸ .inr hover
    · cases hpoll
  have ht : t.Clearing := (system enabled threshold hang).exec_induction_along
    (fun _ _ _ hs hl hstep => hs.step hl hstep) ls u t hu hls hrun
  exact ht.of_mainLoop hloop

/-! ## VOX off -/

/-- The GTK thread enters a callback or a call. -/
def Label.Enters : Label → Prop
  | .dispatchIdle => True
  | .dispatchPoll _ => True
  | .setEnabled _ => True
  | .cancel => True
  | _ => False

/-- In a call of `vox_set_enabled(FALSE)`, or back from it with nothing left to remove. -/
def State.TurningOff (s : State) : Prop :=
  match s.gtk with
  | .setWriteEnabled enabled => enabled = false
  | .setReadEnabled => s.voxEnabled = false
  | .cancelReadVox => s.voxEnabled = false
  | .cancelReadTimeout => s.voxEnabled = false
  | .releaseClearVox => s.voxEnabled = false
  | .releaseReadTimeout => s.voxEnabled = false
  | .releaseRemove => s.voxEnabled = false
  | .releaseClearTimeout => s.voxEnabled = false
  | .releaseChanged => s.voxEnabled = false ∧ s.voxTimeout = 0
  | .mainLoop => s.voxEnabled = false ∧ s.voxTimeout = 0
  | _ => False

theorem State.TurningOff.gtk (hs : s.TurningOff) (h : s.gtkStep = some t) : t.TurningOff := by
  obtain ⟨vox, voxEnabled, _, _, _, voxTimeout, _, _, _, _, _, _, gtk⟩ := s
  cases gtk with
  | mainLoop => cases h
  | setWriteEnabled enabled =>
    obtain rfl := Option.some.inj h
    exact hs
  | setReadEnabled =>
    obtain rfl := Option.some.inj h
    obtain rfl : voxEnabled = false := hs
    exact rfl
  | cancelReadVox =>
    obtain rfl := Option.some.inj h
    cases vox <;> exact hs
  | cancelReadTimeout =>
    obtain rfl := Option.some.inj h
    obtain rfl : voxEnabled = false := hs
    by_cases hzero : voxTimeout = 0 <;> simp [State.TurningOff, hzero]
  | releaseClearVox =>
    obtain rfl := Option.some.inj h
    exact hs
  | releaseReadTimeout =>
    obtain rfl := Option.some.inj h
    obtain rfl : voxEnabled = false := hs
    by_cases hzero : voxTimeout = 0 <;> simp [State.TurningOff, hzero]
  | releaseRemove =>
    obtain rfl := Option.some.inj h
    exact hs
  | releaseClearTimeout =>
    obtain rfl := Option.some.inj h
    exact ⟨hs, rfl⟩
  | releaseChanged =>
    obtain rfl := Option.some.inj h
    exact hs
  | _ => exact hs.elim

theorem State.TurningOff.congr (hs : s.TurningOff) (hgtk : t.gtk = s.gtk)
    (henabled : t.voxEnabled = s.voxEnabled) (htimeout : t.voxTimeout = s.voxTimeout) :
    t.TurningOff := by
  unfold State.TurningOff
  rw [hgtk, henabled, htimeout]
  exact hs

theorem micStep_voxEnabled (h : s.micStep = some t) : t.voxEnabled = s.voxEnabled := by
  cases hmic : s.mic <;> simp only [State.micStep, hmic, Option.some.injEq, reduceCtorEq] at h <;>
    subst h <;> rfl

theorem State.TurningOff.step {l : Label} (hl : ¬ l.Enters) (hs : s.TurningOff)
    (h : (system enabled threshold hang).step s l = some t) : t.TurningOff := by
  cases l with
  | buffer samples =>
    change (if s.mic = .away then _ else none) = some t at h
    split at h
    · obtain rfl := Option.some.inj h
      exact hs.congr rfl rfl rfl
    · cases h
  | mic =>
    obtain ⟨hgtk, -, htimeout, -⟩ := micStep_cases h
    exact hs.congr hgtk (micStep_voxEnabled h) htimeout
  | gtk => exact hs.gtk h
  | tick us =>
    obtain rfl := Option.some.inj h
    exact hs.congr rfl rfl rfl
  | settings threshold hang =>
    obtain rfl := Option.some.inj h
    exact hs.congr rfl rfl rfl
  | _ => exact absurd trivial hl

/-- The microphone thread has not yet read `vox_enabled` for this buffer. -/
def Mic.Fresh (m : Mic) : Prop := m = .away ∨ m = .readEnabled

/-- VOX is off, and nothing under way sets it. -/
structure Off (s : State) : Prop where
  vox : s.vox = false
  voxEnabled : s.voxEnabled = false
  mic : s.mic.Fresh
  gtk : ∀ enabled, s.gtk = .setWriteEnabled enabled → enabled = false

theorem Off.micStep (hs : Off s) (h : s.micStep = some t) : Off t := by
  obtain ⟨hvox, henabled, hmic, hgtk⟩ := hs
  rcases hmic with hmic | hmic
  · rw [State.micStep, hmic] at h
    cases h
  · rw [State.micStep, hmic, henabled] at h
    obtain rfl := Option.some.inj h
    exact ⟨hvox, rfl, .inl rfl, hgtk⟩

/-- No callback goes on to a call of `vox_set_enabled`. -/
theorem gtkStep_ne_write (h : s.gtkStep = some t) (enabled : Bool) :
    t.gtk ≠ .setWriteEnabled enabled := by
  intro hwrite
  cases hgtk : s.gtk <;> simp only [State.gtkStep, hgtk, Option.some.injEq, reduceCtorEq] at h <;>
    subst h <;> dsimp only at hwrite <;> (try split at hwrite) <;> cases hwrite

theorem Off.gtkStep (hs : Off s) (h : s.gtkStep = some t) : Off t := by
  obtain ⟨hvox, henabled, hmic, hwrite⟩ := hs
  refine ⟨vox_of_gtkStep hvox h, ?_, ?_, ?_⟩
  · cases hgtk : s.gtk with
    | setWriteEnabled enabled =>
      simp only [State.gtkStep, hgtk, Option.some.injEq] at h
      exact h ▸ hwrite enabled hgtk
    | _ =>
      simp only [State.gtkStep, hgtk, Option.some.injEq, reduceCtorEq] at h
      all_goals exact h ▸ henabled
  · cases hgtk : s.gtk <;>
      simp only [State.gtkStep, hgtk, Option.some.injEq, reduceCtorEq] at h <;> exact h ▸ hmic
  · intro enabled hwrite'
    exact absurd hwrite' (gtkStep_ne_write h enabled)

theorem Off.enter (hs : Off s) {gtk : Gtk} (h : s.enter gtk = some t)
    (hgtk : ∀ enabled, gtk = .setWriteEnabled enabled → enabled = false) : Off t := by
  obtain ⟨-, rfl⟩ := enter_some h
  exact ⟨hs.vox, hs.voxEnabled, hs.mic, hgtk⟩

theorem Off.step {l : Label} (hl : l ≠ .setEnabled true) (hs : Off s)
    (h : (system enabled threshold hang).step s l = some t) : Off t := by
  cases l with
  | buffer samples =>
    change (if s.mic = .away then _ else none) = some t at h
    split at h
    · obtain rfl := Option.some.inj h
      exact ⟨hs.vox, hs.voxEnabled, .inr rfl, hs.gtk⟩
    · cases h
  | mic => exact hs.micStep h
  | dispatchIdle =>
    change (if 0 < s.idles then _ else none) = some t at h
    split at h
    · exact hs.enter h nofun
    · cases h
  | dispatchPoll id =>
    change (if id ∈ s.polls then _ else none) = some t at h
    split at h
    · exact hs.enter h nofun
    · cases h
  | setEnabled enabled =>
    refine hs.enter h fun enabled' h' => ?_
    obtain rfl := Gtk.setWriteEnabled.inj h'
    exact Bool.eq_false_iff.2 fun htrue => hl (congrArg _ htrue)
  | cancel => exact hs.enter h nofun
  | gtk => exact hs.gtkStep h
  | tick us => exact Option.some.inj h ▸ ⟨hs.vox, hs.voxEnabled, hs.mic, hs.gtk⟩
  | settings threshold hang => exact Option.some.inj h ▸ ⟨hs.vox, hs.voxEnabled, hs.mic, hs.gtk⟩

/-- With VOX off, no idle queued and no poll, `vox` stays clear as long as the microphone thread has
its check ahead of it, or does not run. -/
theorem vox_of_turnedOff {ls : List Label} (hs : Inv s) (hoff : s.TurningOff)
    (hloop : s.gtk = .mainLoop) (hidles : s.idles = 0) (hqueue : s.mic ≠ .queueIdle)
    (hls : (system enabled threshold hang).Along
      (fun _ l => l ≠ .setEnabled true ∧ (¬ s.mic.Fresh → ¬ l.IsMic)) s ls)
    (hrun : (system enabled threshold hang).exec s ls = some t) : t.vox = false := by
  unfold State.TurningOff at hoff
  rw [hloop] at hoff
  have hbooks := hs.sourced
  unfold State.Sourced at hbooks
  rw [hloop] at hbooks
  have hpolls : s.polls = [] := (hbooks.resolve_right fun h => h.1 hoff.2).2
  have hvox : s.vox = false := by
    by_contra hset
    rcases hs.releaser (Bool.not_eq_false _ ▸ hset) hqueue with hpoll | hidle
    · exact hpoll hpolls
    · omega
  by_cases hfresh : s.mic.Fresh
  · have hstart : Off s := ⟨hvox, hoff.1, hfresh, fun _ h => by rw [hloop] at h; cases h⟩
    exact ((system enabled threshold hang).exec_induction_along
      (fun _ _ _ hu hl hstep => Off.step hl.1 hu hstep) ls s t hstart hls hrun).vox
  · exact (system enabled threshold hang).exec_induction_along (I := fun u => u.vox = false)
      (fun _ _ _ hu hl hstep => vox_of_step (hl.2 hfresh) hu hstep) ls s t hvox hls hrun

/-- The call has returned: nothing the microphone thread does in between is lost. -/
theorem turnedOff_of_call {u : State} {ls : List Label}
    (hcall : (system enabled threshold hang).step s (.setEnabled false) = some u)
    (hls : (system enabled threshold hang).Along (fun _ l => ¬ l.Enters) u ls)
    (hrun : (system enabled threshold hang).exec u ls = some t) : t.TurningOff := by
  have hu : u.TurningOff := (enter_some hcall).2 ▸ rfl
  exact (system enabled threshold hang).exec_induction_along
    (fun _ _ _ hs hl hstep => hs.step hl hstep) ls u t hu hls hrun

/-- **VOX always has a releaser.** A poll or an idle is attached whenever `vox` is set, the poll
that comes once the deadline is over clears it, and VOX turned off with no idle queued stays clear
but for a microphone thread that is past its check of `vox_enabled`. -/
theorem voxReleaser (enabled : Bool) (threshold hang : ℚ) :
    (∀ s, (system enabled threshold hang).Reachable s → s.vox = true → s.mic ≠ .queueIdle →
      s.polls ≠ [] ∨ 0 < s.idles) ∧
    (∀ s id u ls t, (system enabled threshold hang).Reachable s → s.voxHangUntilUs ≤ s.nowUs →
      (system enabled threshold hang).step s (.dispatchPoll id) = some u →
      (system enabled threshold hang).Along (fun _ l => ¬ l.IsMic) u ls →
      (system enabled threshold hang).exec u ls = some t → t.gtk = .mainLoop → t.vox = false) ∧
    ∀ s u ls t, (system enabled threshold hang).Reachable s →
      (system enabled threshold hang).step s (.setEnabled false) = some u →
      (system enabled threshold hang).Along (fun _ l => ¬ l.Enters) u ls →
      (system enabled threshold hang).exec u ls = some t →
      t.gtk = .mainLoop → t.idles = 0 → t.mic ≠ .queueIdle →
      ∀ ms v, (system enabled threshold hang).Along
          (fun _ l => l ≠ .setEnabled true ∧ (¬ t.mic.Fresh → ¬ l.IsMic)) t ms →
        (system enabled threshold hang).exec t ms = some v → v.vox = false := by
  refine ⟨fun s hs => (Inv.of_reachable hs).releaser, ?_, ?_⟩
  · intro s id u ls t _ hover hpoll hls hrun hloop
    exact vox_of_poll hover hpoll hls hrun hloop
  · intro s u ls t hs hcall hls hrun hloop hidles hqueue ms v hms hv
    have hinv : Inv t := (system enabled threshold hang).exec_induction
      (fun _ _ _ hs hstep => hs.step hstep) ((Inv.of_reachable hs).step hcall) hrun
    exact vox_of_turnedOff hinv (turnedOff_of_call hcall hls hrun) hloop hidles hqueue hms hv

/-! ## A loud buffer -/

instance : DecidablePred Label.IsMic
  | .buffer _ | .mic => .isTrue trivial
  | .dispatchIdle | .dispatchPoll _ | .setEnabled _ | .cancel | .gtk | .tick _ | .settings _ _ =>
    .isFalse id

instance : DecidablePred Label.Enters
  | .dispatchIdle | .dispatchPoll _ | .setEnabled _ | .cancel => .isTrue trivial
  | .buffer _ | .mic | .gtk | .tick _ | .settings _ _ => .isFalse id

/-- A loud buffer sets `vox`, its idle starts the poll, and the hang of 250 ms goes by. -/
def overAndOut : List Label :=
  .buffer [1 / 4, -3 / 4] :: List.replicate 9 .mic ++
    .dispatchIdle :: List.replicate 5 .gtk ++ [.tick 300000]

def hangOver : State :=
  ⟨true, true, 3 / 4, 1 / 2, 250, 1, 250000, 300000, [1], 0, 1, .away, .mainLoop⟩

/-- The poll has cleared `vox`, or VOX was turned off. -/
def out (enabled : Bool) : State :=
  { hangOver with vox := false, voxEnabled := enabled, voxTimeout := 0, polls := [] }

theorem voxReleaser_overAndOut : (hangOver.polls ≠ [] ∨ 0 < hangOver.idles) ∧
    (out true).vox = false ∧ (out false).vox = false := by
  have hover : (system true (1 / 2) 250).Reachable hangOver := ⟨overAndOut, by decide +kernel⟩
  obtain ⟨h1, h2, h3⟩ := voxReleaser true (1 / 2) 250
  refine ⟨h1 hangOver hover rfl (by decide), ?_, ?_⟩
  · exact h2 hangOver 1 _ (List.replicate 8 .gtk) _ hover (by decide) rfl (by decide +kernel)
      (by decide +kernel) rfl
  · exact h3 hangOver _ (List.replicate 8 .gtk) (out false) hover rfl (by decide +kernel)
      (by decide +kernel) rfl rfl (by decide) [] _ trivial rfl

/-- VOX is turned off while the microphone thread is past its check: it sets `vox` all the same. -/
theorem not_voxReleaser : ¬ ∀ s u ls t, (system true (1 / 2) 250).Reachable s →
    (system true (1 / 2) 250).step s (.setEnabled false) = some u →
    (system true (1 / 2) 250).Along (fun _ l => ¬ l.Enters) u ls →
    (system true (1 / 2) 250).exec u ls = some t →
    t.gtk = .mainLoop → t.idles = 0 → t.mic ≠ .queueIdle →
    ∀ ms v, (system true (1 / 2) 250).Along (fun _ l => l ≠ .setEnabled true) t ms →
      (system true (1 / 2) 250).exec t ms = some v → v.vox = false := by
  intro h
  have hpast : (system true (1 / 2) 250).Reachable
      { start true (1 / 2) 250 with voxPeak := 3 / 4, mic := .readThreshold } :=
    ⟨[.buffer [1 / 4, -3 / 4], .mic], by decide +kernel⟩
  have hvox := h _ _ (List.replicate 4 .gtk)
    { start false (1 / 2) 250 with voxPeak := 3 / 4, mic := .readThreshold } hpast rfl
    (by decide +kernel) (by decide +kernel) rfl rfl (by decide) (List.replicate 8 .mic)
    { start false (1 / 2) 250 with
      vox := true, voxPeak := 3 / 4, voxHangUntilUs := 250000, idles := 1 }
    (by decide +kernel) (by decide +kernel)
  exact absurd hvox (by decide)

end MacHPSDR.Radio.Vox
