import MacHPSDR.Receiver.Tuning
import Mathlib

/-!
# What the operations make of the dial

Each operation leaves VFO A alone or ends in `frequency_changed`. So what it does to VFO A is said
by the settings, the converter, the dial and the cursor that `frequency_changed` is called with.
-/

namespace MacHPSDR.Receiver

/-- The two differ in nothing but VFO B. -/
structure SameA (s t : Rx) : Prop extends SameDial s t where
  bandA : t.bandA = s.bandA
  ctunOffset : t.ctunOffset = s.ctunOffset
  shiftOffset : t.shiftOffset = s.shiftOffset
  shiftRun : t.shiftRun = s.shiftRun

namespace SameA

variable {s t u : Rx}

theorem refl (s : Rx) : SameA s s := ⟨SameDial.refl s, rfl, rfl, rfl, rfl⟩

theorem trans (h : SameA s t) (h' : SameA t u) : SameA s u where
  toSameDial := h.toSameDial.trans h'.toSameDial
  bandA := h'.bandA.trans h.bandA
  ctunOffset := h'.ctunOffset.trans h.ctunOffset
  shiftOffset := h'.shiftOffset.trans h.shiftOffset
  shiftRun := h'.shiftRun.trans h.shiftRun

end SameA

namespace Rx

variable (s : Rx)

/-! ## VFO B -/

theorem sameA_updateFrequency : SameA s s.updateFrequency :=
  ⟨s.sameDial_syncVfoBLo, rfl, rfl, rfl, rfl⟩

theorem sameA_frequencyB (f : ℤ) : SameA s { s with frequencyB := f } :=
  ⟨⟨rfl, rfl, rfl, rfl, rfl⟩, rfl, rfl, rfl, rfl⟩

/-- VFO B moves alone. -/
theorem sameA_receiverMoveB (hz : ℤ) (bOnly round : Bool)
    (halone : bOnly = true ∨ ¬ (s.vfoLinked = true ∧ (s.split = .sat ∨ s.split = .rsat))) :
    SameA s (s.receiverMoveB hz bOnly round) := by
  have hmoved (f : ℤ) : SameA s { s with frequencyB := f }.updateFrequency :=
    (s.sameA_frequencyB f).trans (sameA_updateFrequency _)
  have hnot (hpair : s.split = .sat ∨ s.split = .rsat) : ¬ (!bOnly && s.vfoLinked) = true := by
    rcases halone with honly | halone
    · simp [honly]
    · have hlinked : ¬ s.vfoLinked = true := fun h => halone ⟨h, hpair⟩
      simp [hlinked]
  unfold receiverMoveB
  split
  · exact SameA.refl s
  · split
    · exact SameA.refl s
    · cases hsplit : s.split with
      | off => exact hmoved _
      | on => exact hmoved _
      | sat =>
        dsimp only
        rw [if_neg (hnot (.inl hsplit))]
        exact hmoved _
      | rsat =>
        dsimp only
        rw [if_neg (hnot (.inr hsplit))]
        exact s.sameA_frequencyB _

theorem sameDial_follow (delta : ℤ) (round : Bool) : SameDial s (s.follow delta round) := by
  unfold follow
  split
  · exact (s.sameA_receiverMoveB delta true round (.inl rfl)).toSameDial
  · exact SameDial.refl s

variable {s}

theorem receiverMoveB_stays {hz : ℤ} {bOnly round : Bool}
    (h : s.locked = true ∨ s.RefusedB s.frequencyB (s.frequencyB + hz)) :
    s.receiverMoveB hz bOnly round = s := by
  unfold receiverMoveB
  rcases h with hlocked | hB
  · rw [if_pos hlocked]
  · rw [if_pos hB, ite_self]

/-- In a linked pair VFO A is moved after VFO B, by a mover that has its own sign. -/
theorem receiverMoveB_linked {hz : ℤ} (round : Bool) (hlocked : s.locked = false)
    (hB : ¬ s.RefusedB s.frequencyB (s.frequencyB + hz)) (hlinked : s.vfoLinked = true)
    (hpair : s.split = .sat ∨ s.split = .rsat) :
    s.receiverMoveB hz false round = ({ s with
        frequencyB := s.holdB (s.roundedB round
          (if s.split = Split.sat then s.frequencyB + hz else s.frequencyB - hz)) }.receiverMoveA
      (if s.split = Split.sat then hz else -hz) round).2.frequencyChanged.updateFrequency := by
  unfold receiverMoveB
  rw [if_neg (by simp [hlocked]), if_neg hB]
  rcases hpair with hsplit | hsplit
  · rw [hsplit]
    simp only [hlinked, Bool.not_false, Bool.and_true, if_true]
  · rw [hsplit]
    simp only [hlinked, Bool.not_false, Bool.and_true, if_true, reduceCtorEq, if_false]

/-! ## A locked receiver -/

theorem receiverMove_locked (hlocked : s.locked = true) (hz : ℤ) (round : Bool) :
    s.receiverMove hz round = s := if_pos hlocked

theorem receiverMoveTo_locked (hlocked : s.locked = true) (hz panned : ℤ) :
    s.receiverMoveTo hz panned = s := if_pos hlocked

theorem vfoApplyFrequency_locked (hlocked : s.locked = true) (target : ℤ) (isB : Bool) :
    s.vfoApplyFrequency target isB = s := if_pos hlocked

theorem vfoB2a_locked (hlocked : s.locked = true) : s.vfoB2a = s := if_pos hlocked

theorem vfoAswapb_locked (hlocked : s.locked = true) (edges : ℤ × ℤ) : s.vfoAswapb edges = s :=
  if_pos hlocked

theorem setBand_locked (hlocked : s.locked = true) (band : ℕ) (bsEntry : ℤ) :
    s.setBand band bsEntry = s := if_pos hlocked

/-! ## VFO A -/

/-- `t` is what `frequency_changed` makes of a receiver with these settings, the converter `lo` and
the dial at `f`, and the cursor at `c` if it has one. -/
def Redialled (settings : Settings) (lo f c : ℤ) (t : Rx) : Prop :=
  ∃ u : Rx, SameA u.frequencyChanged t ∧ u.toSettings = settings ∧ u.loA = lo ∧
    u.frequencyA = f ∧ (settings.hasCursor = true → u.ctunFrequency = c)

variable (s)

/-- The dial after the mover of VFO A. -/
def dialA (hz : ℤ) (round : Bool) : ℤ :=
  if s.Refused s.tunedFrequency (s.tunedFrequency + s.pull hz) then s.frequencyA
  else s.pulledDial hz round

/-- The cursor after it. -/
def cursorA (hz : ℤ) (round : Bool) : ℤ :=
  if s.Refused s.tunedFrequency (s.tunedFrequency + s.pull hz) then s.ctunFrequency
  else s.pulled hz round

variable {s}

/-- What the mover of VFO A does to the dial. -/
theorem receiverMoveA_dial (hlocked : s.locked = false) (hz : ℤ) (round : Bool) :
    (s.receiverMoveA hz round).2.toSettings = s.toSettings ∧
      (s.receiverMoveA hz round).2.loA = s.loA ∧
      (s.receiverMoveA hz round).2.frequencyA = s.dialA hz round ∧
      (s.hasCursor = true →
        (s.receiverMoveA hz round).2.ctunFrequency = s.cursorA hz round) := by
  unfold dialA cursorA
  split_ifs with hrefused
  · rw [s.receiverMoveA_refused (.inr hrefused)]
    exact ⟨rfl, rfl, rfl, fun _ => rfl⟩
  · rw [s.receiverMoveA_eq hlocked hrefused]
    unfold pulledDial
    cases s.hasCursor
    · exact ⟨rfl, rfl, rfl, fun h => absurd h (by decide)⟩
    · exact ⟨rfl, rfl, rfl, fun _ => rfl⟩

/-- `frequency_changed`, after the dial is set and the other VFO has followed. -/
theorem redialled_changed {settings : Settings} {lo f c : ℤ} {m u : Rx} (hdial : SameDial m u)
    (hm : m.toSettings = settings ∧ m.loA = lo ∧ m.frequencyA = f ∧
      (settings.hasCursor = true → m.ctunFrequency = c)) :
    Redialled settings lo f c u.frequencyChanged.updateFrequency := by
  obtain ⟨hsettings, hlo, hf, hc⟩ := hm
  exact ⟨u, sameA_updateFrequency _, hdial.settings.trans hsettings, hdial.loA.trans hlo,
    hdial.frequencyA.trans hf, fun hcursor => hdial.ctunFrequency.trans (hc hcursor)⟩

theorem redialled_receiverMove (hlocked : s.locked = false) (hz : ℤ) (round : Bool) :
    Redialled s.toSettings s.loA (s.dialA hz round) (s.cursorA hz round)
      (s.receiverMove hz round) := by
  unfold receiverMove
  rw [if_neg (by simp [hlocked])]
  exact redialled_changed (sameDial_follow _ _ round) (receiverMoveA_dial hlocked hz round)

theorem redialled_receiverMoveB {hz : ℤ} (round : Bool) (hlocked : s.locked = false)
    (hB : ¬ s.RefusedB s.frequencyB (s.frequencyB + hz)) (hlinked : s.vfoLinked = true)
    (hpair : s.split = .sat ∨ s.split = .rsat) :
    Redialled s.toSettings s.loA (s.dialA (if s.split = .sat then hz else -hz) round)
      (s.cursorA (if s.split = .sat then hz else -hz) round) (s.receiverMoveB hz false round) := by
  rw [receiverMoveB_linked round hlocked hB hlinked hpair]
  generalize s.holdB _ = b
  exact redialled_changed (SameDial.refl _)
    (receiverMoveA_dial (s := { s with frequencyB := b }) hlocked _ round)

theorem redialled_receiverMoveTo (hlocked : s.locked = false) (hz panned : ℤ) :
    Redialled s.toSettings s.loA
      (if s.hasCursor || s.clicksB then s.frequencyA else s.clicked hz panned)
      (if s.freetune then s.holdInSpan (s.clicked hz panned) else s.clicked hz panned)
      (s.receiverMoveTo hz panned) := by
  have hmoved : s.receiverMoveTo hz panned = ((s.moveTo (s.clicked hz panned)).2.follow
      (if s.split = .rsat then -(s.moveTo (s.clicked hz panned)).1
        else (s.moveTo (s.clicked hz panned)).1) true).frequencyChanged.updateFrequency :=
    if_neg (by simp [hlocked])
  rw [hmoved]
  refine redialled_changed (sameDial_follow _ _ true) ?_
  unfold moveTo
  cases s.hasCursor
  · cases s.clicksB
    · exact ⟨rfl, rfl, rfl, fun h => absurd h (by decide)⟩
    · exact ⟨rfl, rfl, rfl, fun h => absurd h (by decide)⟩
  · exact ⟨rfl, rfl, rfl, fun _ => rfl⟩

theorem redialled_receiverMoveSpan {hz : ℤ} (hlocked : s.locked = false) (hzero : hz ≠ 0)
    (hrefused : ¬ s.Refused s.frequencyA (s.frequencyA - hz)) :
    Redialled s.toSettings s.loA (s.frequencyA - hz)
      { s with frequencyA := s.frequencyA - hz }.pushed (s.receiverMoveSpan hz) := by
  have hfollow (m : Rx) (tuned : ℤ) :
      SameDial m (if tuned ≠ 0 then m.follow tuned false else m) := by
    split
    · exact m.sameDial_follow tuned false
    · exact SameDial.refl m
  unfold receiverMoveSpan
  rw [if_neg (by simp [hlocked, hzero]), if_neg hrefused]
  exact redialled_changed (hfollow _ _) ⟨rfl, rfl, rfl, fun hcursor => if_pos hcursor⟩

theorem receiverMoveSpan_stays {hz : ℤ} (h : ¬ (s.locked = false ∧ hz ≠ 0 ∧
    ¬ s.Refused s.frequencyA (s.frequencyA - hz))) : s.receiverMoveSpan hz = s := by
  unfold receiverMoveSpan
  split_ifs with hstays hrefused
  · rfl
  · rfl
  · simp only [Bool.or_eq_true, decide_eq_true_eq, not_or, Bool.not_eq_true] at hstays
    exact absurd ⟨hstays.1, hstays.2, hrefused⟩ h

/-- A frequency is typed in for VFO A: it is moved there. -/
theorem vfoApplyFrequency_a (hlocked : s.locked = false) (target : ℤ) :
    s.vfoApplyFrequency target false =
      s.receiverMove (s.pull (target - s.tunedFrequency)) false := by
  unfold vfoApplyFrequency pull tunedFrequency
  rw [if_neg (by simp [hlocked]), if_neg (by decide)]
  split_ifs <;> rfl

/-- Or for VFO B. -/
theorem vfoApplyFrequency_b (hlocked : s.locked = false) (target : ℤ) :
    s.vfoApplyFrequency target true =
      (s.receiverMoveB (target - s.frequencyB) false false).frequencyChanged := by
  unfold vfoApplyFrequency
  rw [if_neg (by simp [hlocked]), if_pos rfl]

/-! ## The band and the copies -/

variable (s) in
/-- The settings that `set_band` leaves. -/
def bandSettings (band : ℕ) (bsEntry : ℤ) : Settings :=
  let b := s.openBand band bsEntry
  { s.toSettings with
    bands := Function.update (s.storeBand band bsEntry) band b
    modeA := (b.entry b.currentEntry).mode
    ctun := false }

variable (s) in
/-- The frequency of the entry that is chosen. -/
def bandFrequency (band : ℕ) (bsEntry : ℤ) : ℤ :=
  let b := s.openBand band bsEntry
  (b.entry b.currentEntry).frequency

/-- In freetune the cursor comes to the middle of the span. -/
theorem redialled_receiverBandChanged (hctun : s.ctun = false) (band : ℕ) :
    Redialled s.toSettings s.loA s.frequencyA s.frequencyA (s.receiverBandChanged band) := by
  unfold receiverBandChanged
  by_cases hfreetune : s.freetune = true
  · dsimp only
    rw [if_pos hfreetune]
    exact ⟨_, SameA.refl _, rfl, rfl, rfl, fun _ => rfl⟩
  · dsimp only
    rw [if_neg hfreetune]
    refine ⟨_, SameA.refl _, rfl, rfl, rfl, fun hcursor => ?_⟩
    simp [Settings.hasCursor, hctun, hfreetune] at hcursor

theorem redialled_setBand (hlocked : s.locked = false) (band : ℕ) (bsEntry : ℤ) :
    Redialled (s.bandSettings band bsEntry) (s.openBand band bsEntry).frequencyLO
      (s.bandFrequency band bsEntry) (s.bandFrequency band bsEntry) (s.setBand band bsEntry) := by
  let b := s.openBand band bsEntry
  let m : Rx := { s with
    toSettings := s.bandSettings band bsEntry
    frequencyA := s.bandFrequency band bsEntry
    loA := b.frequencyLO
    errorA := b.errorLO
    ctunOffset := 0 }
  have hset : s.setBand band bsEntry = m.receiverBandChanged band := if_neg (by simp [hlocked])
  rw [hset]
  exact redialled_receiverBandChanged (s := m) rfl band

theorem redialled_vfoA2b (edges : ℤ × ℤ) :
    Redialled { s with modeB := s.modeA, filterLowB := edges.1, filterHighB := edges.2 }.toSettings
      s.loA s.frequencyA s.ctunFrequency (s.vfoA2b edges) :=
  ⟨_, SameA.refl _, rfl, rfl, rfl, fun _ => rfl⟩

theorem redialled_vfoB2a (hlocked : s.locked = false) :
    Redialled { s with modeA := s.modeB }.toSettings s.loB s.frequencyB s.ctunFrequency
      s.vfoB2a := by
  unfold vfoB2a
  rw [if_neg (by simp [hlocked])]
  exact ⟨_, SameA.refl _, rfl, rfl, rfl, fun _ => rfl⟩

theorem redialled_vfoAswapb (hlocked : s.locked = false) (edges : ℤ × ℤ) :
    Redialled { s with
        modeA := s.modeB
        modeB := s.modeA
        filterLowB := edges.1
        filterHighB := edges.2 }.toSettings
      s.loB s.frequencyB s.ctunFrequency (s.vfoAswapb edges) := by
  unfold vfoAswapb
  rw [if_neg (by simp [hlocked])]
  exact ⟨_, SameA.refl _, rfl, rfl, rfl, fun _ => rfl⟩

/-! ## The span -/

theorem redialled_receiverSetCtun (ctun : Bool) :
    Redialled { s with ctun := ctun }.toSettings s.loA s.frequencyA s.frequencyA
      (s.receiverSetCtun ctun) :=
  ⟨_, sameA_updateFrequency _, rfl, rfl, rfl, fun _ => rfl⟩

theorem redialled_freetune_on :
    Redialled { s with freetune := true }.toSettings s.loA s.frequencyA
      (s.holdInSpan (if s.ctun then s.ctunFrequency else s.frequencyA))
      (s.receiverSetFreetune true) := by
  unfold receiverSetFreetune
  cases s.ctun
  · exact ⟨_, sameA_updateFrequency _, rfl, rfl, rfl, fun _ => rfl⟩
  · exact ⟨_, sameA_updateFrequency _, rfl, rfl, rfl, fun _ => rfl⟩

theorem redialled_freetune_off :
    Redialled { s with freetune := false }.toSettings s.loA
      (if s.ctun then s.frequencyA else s.ctunFrequency) s.ctunFrequency
      (s.receiverSetFreetune false) := by
  unfold receiverSetFreetune
  cases s.ctun
  · exact ⟨_, sameA_updateFrequency _, rfl, rfl, rfl, fun _ => rfl⟩
  · exact ⟨_, sameA_updateFrequency _, rfl, rfl, rfl, fun _ => rfl⟩

theorem redialled_receiverChangeSampleRate (hfreetune : s.freetune = true) (sampleRate : ℕ) :
    Redialled { s with sampleRate := sampleRate }.toSettings s.loA s.ctunFrequency s.ctunFrequency
      (s.receiverChangeSampleRate sampleRate) := by
  have hfree : s.receiverChangeSampleRate sampleRate = { s with
      sampleRate := sampleRate
      shiftOffset := s.ctunOffset
      shiftRun := s.hasCursor
      frequencyA := s.ctunFrequency }.frequencyChanged := if_pos hfreetune
  rw [hfree]
  exact ⟨_, SameA.refl _, rfl, rfl, rfl, fun _ => rfl⟩

/-- Outside freetune only the shift is applied anew, and without the RIT. -/
theorem receiverChangeSampleRate_eq (hfreetune : s.freetune = false) (sampleRate : ℕ) :
    s.receiverChangeSampleRate sampleRate = { s with
      sampleRate := sampleRate
      shiftOffset := s.ctunOffset
      shiftRun := s.hasCursor } :=
  if_neg (by simp [applyShift, hfreetune])

end Rx

end MacHPSDR.Receiver
