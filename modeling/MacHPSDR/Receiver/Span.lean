import MacHPSDR.Receiver.Converter
import Mathlib

/-!
# The cursor stays in the span

In ctun and in freetune the receiver listens where the cursor is, and the radio samples a span
around the dial. What takes the cursor out of the span:

* a move or a click in ctun, which nothing holds in the span;
* the rounding of a freetune move, which comes after the centre has slid;
* VFO B that is copied into VFO A, which leaves the cursor where it is;
* a lower sample rate in ctun, where besides the shift loses the RIT at any rate;
* a converter that is changed under the cursor, which moves the dial alone.
-/

namespace MacHPSDR.Receiver

/-- What moves the centre, the cursor or the width of the span. -/
inductive SpanOp
  | dial (a : DialOp)
  | setCtun (ctun : Bool)
  | setFreetune (enable : Bool)
  | changeSampleRate (sampleRate : ℕ)

namespace Settings

variable (s : Settings)

/-- Where `receiver_sync_transverter` leaves a dial at `f` with the converter `lo`. -/
def syncedDial (lo f : ℤ) : ℤ :=
  if lo ≠ 0 ∧ s.startupDone = true ∧ s.owner = true ∧ s.converterRow lo f = none ∧
      s.Tunable (f - lo) then
    f - lo + (s.bands (s.getBandFromFrequency (f - lo))).frequencyLO
  else f

/-- With the converter `lo`, the dial at `f` and the cursor at `c`, the cursor is in the span. -/
def Inside (lo f c : ℤ) : Prop := s.hasCursor = true → |c - s.syncedDial lo f| ≤ s.spanHalf

end Settings

namespace Rx

variable {s t u : Rx}

variable (s) in
def span : SpanOp → Rx
  | .dial a => s.dial a
  | .setCtun ctun => s.receiverSetCtun ctun
  | .setFreetune enable => s.receiverSetFreetune enable
  | .changeSampleRate sampleRate => s.receiverChangeSampleRate sampleRate

/-- The receiver listens inside the span, and the shift is where the cursor is. -/
def InSpan (s : Rx) : Prop :=
  s.hasCursor = true → |s.ctunFrequency - s.frequencyA| ≤ s.spanHalf ∧
    s.shiftOffset = s.ctunFrequency - s.frequencyA + s.ritOffset ∧ s.shiftRun = true

/-! ## The condition -/

variable (s) in
/-- A move of VFO A leaves the cursor in the span. -/
def HoldingA (hz : ℤ) (round : Bool) : Prop :=
  ¬ s.Refused s.tunedFrequency (s.tunedFrequency + s.pull hz) →
    s.Inside s.loA (s.pulledDial hz round) (s.pulled hz round)

variable (s) in
/-- A move of VFO B does. -/
def HoldingB (hz : ℤ) (round : Bool) : Prop :=
  ¬ s.RefusedB s.frequencyB (s.frequencyB + hz) → s.vfoLinked = true →
    s.split = .sat ∨ s.split = .rsat → s.HoldingA (if s.split = .sat then hz else -hz) round

variable (s) in
/-- A change of the sample rate does: in freetune it brings the centre to the cursor, and in ctun it
applies the shift without the RIT. -/
def HoldingRate (sampleRate : ℕ) : Prop :=
  if s.freetune then
    |s.ctunFrequency - s.syncedDial s.loA s.ctunFrequency| ≤ (sampleRate : ℤ) / 2
  else
    s.ctun = true → |s.ctunFrequency - s.frequencyA| ≤ (sampleRate : ℤ) / 2 ∧ s.ritOffset = 0

variable (s) in
/-- An operation that holds the cursor in the span. -/
def Holding : SpanOp → Prop
  | .dial (.tune (.move hz round)) => s.locked = false → s.HoldingA hz round
  | .dial (.tune (.moveB hz round)) => s.locked = false → s.HoldingB hz round
  | .dial (.tune (.moveTo hz panned)) =>
    s.locked = false → s.ctun = true → s.freetune = false →
      |s.clicked hz panned - s.frequencyA| ≤ s.spanHalf
  | .dial (.tune (.moveSpan hz)) =>
    s.locked = false → hz ≠ 0 ∧ ¬ s.Refused s.frequencyA (s.frequencyA - hz) →
      s.Inside s.loA (s.frequencyA - hz) { s with frequencyA := s.frequencyA - hz }.pushed
  | .dial (.tune (.apply target true)) =>
    s.locked = false → s.HoldingB (target - s.frequencyB) false
  | .dial (.tune (.apply target false)) =>
    s.locked = false → s.HoldingA (s.pull (target - s.tunedFrequency)) false
  | .dial (.setBand band bsEntry) =>
    let f := s.bandFrequency band bsEntry
    s.locked = false →
      (s.bandSettings band bsEntry).Inside (s.openBand band bsEntry).frequencyLO f f
  | .dial .vfoB2a | .dial (.vfoAswapb _) =>
    s.locked = false → s.Inside s.loB s.frequencyB s.ctunFrequency
  | .changeSampleRate sampleRate => s.HoldingRate sampleRate
  | .dial (.tune (.step _)) | .dial (.vfoA2b _) | .setCtun _ | .setFreetune _ => True

/-! ## The converter and the dial -/

theorem syncTransverter_frequencyA :
    s.syncTransverter.frequencyA = s.syncedDial s.loA s.frequencyA := by
  unfold Settings.syncedDial
  rcases s.syncTransverter_cases with ⟨hnot, hsync⟩ | ⟨⟨hlo, hstartup, howner⟩, hways⟩
  · rw [hsync, if_neg]
    exact fun ⟨hlo, hstartup, howner, _⟩ => hnot ⟨hlo, hstartup, howner⟩
  · rcases hways with ⟨b, hrow, hsync⟩ | ⟨hrow, htunable, hsync⟩ | ⟨-, htunable, hsync⟩
    · rw [hsync, if_neg]
      exact fun ⟨_, _, _, hnone, _⟩ => by simp [hrow] at hnone
    · rw [hsync, if_pos ⟨hlo, hstartup, howner, hrow, htunable⟩]
    · rw [hsync, if_neg]
      exact fun ⟨_, _, _, _, h⟩ => htunable h

theorem syncedDial_of_stays (h : s.Stays s.loA s.errorA s.frequencyA) :
    s.syncedDial s.loA s.frequencyA = s.frequencyA := by
  rw [← syncTransverter_frequencyA, (s.sameDial_syncTransverter h).frequencyA]

theorem syncedDial_zero (s : Settings) (f : ℤ) : s.syncedDial 0 f = f := if_neg (by simp)

/-- The shared window moves the dial and the cursor together. -/
theorem inSpan_frequencyChanged :
    s.frequencyChanged.InSpan ↔ s.Inside s.loA s.frequencyA s.ctunFrequency := by
  have hdial := s.sameDial_frequencyChanged
  have hplaced := s.cursorPlaced_frequencyChanged
  have hoff : s.frequencyChanged.ctunFrequency - s.frequencyChanged.frequencyA =
      s.ctunFrequency - s.syncedDial s.loA s.frequencyA := by
    rw [hdial.ctunFrequency, hdial.frequencyA, ← syncTransverter_frequencyA,
      ← s.syncTransverter_ctunFrequency]
    unfold clampToSharedWindow
    ring
  unfold InSpan Settings.Inside
  rw [hoff, s.frequencyChanged_settings]
  refine imp_congr_right fun hcursor => and_iff_left ⟨?_, ?_⟩
  · rw [hplaced.shiftOffset, hoff, s.frequencyChanged_settings, if_pos hcursor]
  · rw [hplaced.shiftRun, s.frequencyChanged_settings, hcursor]

/-! ## What an operation leaves -/

/-- The shift is where the cursor is, and the converter stays. -/
structure Tracked (s : Rx) : Prop extends CursorPlaced s where
  stays : s.Stays s.loA s.errorA s.frequencyA

theorem Tracked.congr (hs : s.Tracked) (h : SameA s t) : t.Tracked where
  ctunOffset := by
    rw [h.settings, h.ctunOffset, h.ctunFrequency, h.frequencyA, hs.ctunOffset]
  shiftOffset := by
    rw [h.settings, h.shiftOffset, h.ctunFrequency, h.frequencyA, hs.shiftOffset]
  shiftRun := by rw [h.settings, h.shiftRun, hs.shiftRun]
  stays := by
    rw [h.settings, h.loA, h.errorA, h.frequencyA]
    exact hs.stays

theorem InSpan.congr (h : SameA s t) : t.InSpan ↔ s.InSpan := by
  unfold InSpan
  rw [h.settings, h.ctunFrequency, h.frequencyA, h.shiftOffset, h.shiftRun]

theorem tracked_frequencyChanged (s : Rx) : s.frequencyChanged.Tracked where
  toCursorPlaced := s.cursorPlaced_frequencyChanged
  stays := by
    rw [s.frequencyChanged_settings]
    exact s.stays_frequencyChanged

/-- A tracked receiver is in the span if its cursor is. -/
theorem Tracked.inSpan_iff (hs : s.Tracked) :
    s.InSpan ↔ s.Inside s.loA s.frequencyA s.ctunFrequency := by
  unfold InSpan Settings.Inside
  rw [syncedDial_of_stays hs.stays]
  refine imp_congr_right fun hcursor => and_iff_left ⟨?_, ?_⟩
  · rw [hs.shiftOffset, if_pos hcursor]
  · rw [hs.shiftRun, hcursor]

/-- An operation and the condition on it. -/
def Lands (t : Rx) (c : Prop) : Prop := t.Tracked ∧ (t.InSpan ↔ c)

theorem Redialled.lands {settings : Settings} {lo f c : ℤ}
    (h : Redialled settings lo f c t) : Lands t (settings.Inside lo f c) := by
  obtain ⟨u, hut, rfl, rfl, rfl, hc⟩ := h
  refine ⟨u.tracked_frequencyChanged.congr hut, ?_⟩
  rw [InSpan.congr hut, inSpan_frequencyChanged]
  unfold Settings.Inside
  exact forall_congr' fun hcursor => by rw [hc hcursor]

/-- VFO A is not touched. -/
theorem Tracked.lands (hs : s.Tracked) (hin : s.InSpan) (h : SameA s t) {c : Prop} (hc : c) :
    Lands t c :=
  ⟨hs.congr h, iff_of_true ((InSpan.congr h).2 hin) hc⟩

theorem Lands.imp {c d : Prop} (h : Lands t c) (hd : c ↔ d) : Lands t d := ⟨h.1, h.2.trans hd⟩

/-- So it is when the receiver is locked, and the condition asks for nothing. -/
theorem Tracked.lands_locked (hs : s.Tracked) (hin : s.InSpan) (hlocked : s.locked = true)
    {c : Prop} : Lands s (s.locked = false → c) :=
  hs.lands hin (SameA.refl s) (fun h => absurd (h.symm.trans hlocked) (by decide))

/-! ## The operations -/

theorem spanHalf_nonneg (s : Settings) : 0 ≤ s.spanHalf := by
  unfold Settings.spanHalf
  omega

theorem abs_holdInSpan (s : Rx) (c : ℤ) : |s.holdInSpan c - s.frequencyA| ≤ s.spanHalf := by
  have hhalf := spanHalf_nonneg s.toSettings
  unfold holdInSpan
  rw [abs_le]
  dsimp only
  split_ifs <;> omega

theorem inside_cursorA (hs : s.Tracked) (hin : s.InSpan) (hz : ℤ) (round : Bool) :
    s.Inside s.loA (s.dialA hz round) (s.cursorA hz round) ↔ s.HoldingA hz round := by
  unfold dialA cursorA HoldingA
  split_ifs with hrefused
  · exact iff_of_true (hs.inSpan_iff.1 hin) (fun h => absurd hrefused h)
  · exact ⟨fun h _ => h, fun h => h hrefused⟩

theorem lands_receiverMove (hs : s.Tracked) (hin : s.InSpan) (hz : ℤ) (round : Bool) :
    Lands (s.receiverMove hz round) (s.locked = false → s.HoldingA hz round) := by
  cases hlocked : s.locked with
  | true =>
    rw [receiverMove_locked hlocked, ← hlocked]
    exact hs.lands_locked hin hlocked
  | false =>
    refine (redialled_receiverMove hlocked hz round).lands.imp ?_
    rw [inside_cursorA hs hin]
    exact ⟨fun h _ => h, fun h => h rfl⟩

theorem lands_receiverMoveB (hs : s.Tracked) (hin : s.InSpan) (hz : ℤ) (round : Bool) :
    Lands (s.receiverMoveB hz false round) (s.locked = false → s.HoldingB hz round) := by
  unfold HoldingB
  by_cases hstays : s.locked = true ∨ s.RefusedB s.frequencyB (s.frequencyB + hz)
  · rw [receiverMoveB_stays hstays]
    refine hs.lands hin (SameA.refl s) fun hlocked hB => ?_
    rcases hstays with h | h
    · exact absurd (hlocked.symm.trans h) (by decide)
    · exact absurd h hB
  · push Not at hstays
    obtain ⟨hlocked, hB⟩ := hstays
    have hlocked : s.locked = false := by simpa using hlocked
    by_cases hpair : s.vfoLinked = true ∧ (s.split = .sat ∨ s.split = .rsat)
    · refine (redialled_receiverMoveB round hlocked hB hpair.1 hpair.2).lands.imp ?_
      rw [inside_cursorA hs hin]
      exact ⟨fun h _ _ _ _ => h, fun h => h hlocked hB hpair.1 hpair.2⟩
    · exact hs.lands hin (s.sameA_receiverMoveB hz false round (.inr hpair))
        (fun _ _ hlinked hsplit => absurd ⟨hlinked, hsplit⟩ hpair)

/-- A click in freetune is held in the span. -/
theorem lands_receiverMoveTo (hs : s.Tracked) (hin : s.InSpan) (hz panned : ℤ) :
    Lands (s.receiverMoveTo hz panned) (s.Holding (.dial (.tune (.moveTo hz panned)))) := by
  unfold Holding
  cases hlocked : s.locked with
  | true =>
    rw [receiverMoveTo_locked hlocked, ← hlocked]
    exact hs.lands_locked hin hlocked
  | false =>
    refine (redialled_receiverMoveTo hlocked hz panned).lands.imp ?_
    unfold Settings.Inside
    by_cases hcursor : s.hasCursor = true
    · rw [hcursor, Bool.true_or, if_pos rfl, syncedDial_of_stays hs.stays]
      by_cases hfreetune : s.freetune = true
      · rw [if_pos hfreetune]
        exact iff_of_true (fun _ => s.abs_holdInSpan _) (by simp [hfreetune])
      · have hctun : s.ctun = true := by simpa [Settings.hasCursor, hfreetune] using hcursor
        simp [hfreetune, hctun]
    · have hctun : s.ctun = false := by
        unfold Settings.hasCursor at hcursor
        simp_all
      exact iff_of_true (fun h => absurd h hcursor) (by simp [hctun])

theorem lands_receiverMoveSpan (hs : s.Tracked) (hin : s.InSpan) (hz : ℤ) :
    Lands (s.receiverMoveSpan hz) (s.Holding (.dial (.tune (.moveSpan hz)))) := by
  unfold Holding
  by_cases hmoves : s.locked = false ∧ hz ≠ 0 ∧ ¬ s.Refused s.frequencyA (s.frequencyA - hz)
  · obtain ⟨hlocked, hmoves⟩ := hmoves
    refine (redialled_receiverMoveSpan hlocked hmoves.1 hmoves.2).lands.imp ?_
    exact ⟨fun h _ _ => h, fun h => h hlocked hmoves⟩
  · rw [receiverMoveSpan_stays hmoves]
    exact hs.lands hin (SameA.refl s) (fun hlocked h => absurd ⟨hlocked, h⟩ hmoves)

theorem lands_vfoApplyFrequency (hs : s.Tracked) (hin : s.InSpan) (target : ℤ) (isB : Bool) :
    Lands (s.vfoApplyFrequency target isB) (s.Holding (.dial (.tune (.apply target isB)))) := by
  cases hlocked : s.locked with
  | true =>
    rw [vfoApplyFrequency_locked hlocked]
    cases isB with
    | true => exact hs.lands_locked hin hlocked
    | false => exact hs.lands_locked hin hlocked
  | false =>
    cases isB with
    | true =>
      rw [vfoApplyFrequency_b hlocked]
      obtain ⟨htracked, hiff⟩ := lands_receiverMoveB hs hin (target - s.frequencyB) false
      refine ⟨tracked_frequencyChanged _, ?_⟩
      rw [inSpan_frequencyChanged, ← htracked.inSpan_iff]
      exact hiff
    | false =>
      rw [vfoApplyFrequency_a hlocked]
      exact lands_receiverMove hs hin _ false

theorem lands_setBand (hs : s.Tracked) (hin : s.InSpan) (band : ℕ) (bsEntry : ℤ) :
    Lands (s.setBand band bsEntry) (s.Holding (.dial (.setBand band bsEntry))) := by
  cases hlocked : s.locked with
  | true =>
    rw [setBand_locked hlocked]
    exact hs.lands_locked hin hlocked
  | false =>
    refine (redialled_setBand hlocked band bsEntry).lands.imp ?_
    exact ⟨fun h _ => h, fun h => h hlocked⟩

theorem lands_vfoB2a (hs : s.Tracked) (hin : s.InSpan) :
    Lands s.vfoB2a (s.Holding (.dial .vfoB2a)) := by
  cases hlocked : s.locked with
  | true =>
    rw [vfoB2a_locked hlocked]
    exact hs.lands_locked hin hlocked
  | false => exact (redialled_vfoB2a hlocked).lands.imp ⟨fun h _ => h, fun h => h hlocked⟩

theorem lands_vfoAswapb (hs : s.Tracked) (hin : s.InSpan) (edges : ℤ × ℤ) :
    Lands (s.vfoAswapb edges) (s.Holding (.dial (.vfoAswapb edges))) := by
  cases hlocked : s.locked with
  | true =>
    rw [vfoAswapb_locked hlocked]
    exact hs.lands_locked hin hlocked
  | false => exact (redialled_vfoAswapb hlocked edges).lands.imp ⟨fun h _ => h, fun h => h hlocked⟩

/-- Ctun is switched with the cursor in the middle. -/
theorem lands_receiverSetCtun (hs : s.Tracked) (ctun : Bool) :
    Lands (s.receiverSetCtun ctun) True := by
  refine (redialled_receiverSetCtun ctun).lands.imp (iff_of_true (fun _ => ?_) trivial)
  have hdial : Settings.syncedDial { s with ctun := ctun }.toSettings s.loA s.frequencyA =
      s.frequencyA := syncedDial_of_stays hs.stays
  rw [hdial, sub_self, abs_zero]
  exact spanHalf_nonneg s.toSettings

theorem lands_receiverSetFreetune (hs : s.Tracked) (hin : s.InSpan) (enable : Bool) :
    Lands (s.receiverSetFreetune enable) True := by
  cases enable with
  | true =>
    refine redialled_freetune_on.lands.imp (iff_of_true (fun _ => ?_) trivial)
    have hdial : Settings.syncedDial { s with freetune := true }.toSettings s.loA s.frequencyA =
        s.frequencyA := syncedDial_of_stays hs.stays
    rw [hdial]
    exact s.abs_holdInSpan _
  | false =>
    refine redialled_freetune_off.lands.imp (iff_of_true (fun hcursor => ?_) trivial)
    have hctun : s.ctun = true := by simpa [Settings.hasCursor] using hcursor
    have hhere : s.hasCursor = true := by simp [Settings.hasCursor, hctun]
    rw [if_pos hctun]
    exact hs.inSpan_iff.1 hin hhere

/-- Without freetune it touches neither the dial nor the cursor, and applies the shift anew. -/
theorem receiverChangeSampleRate_ctun (hs : s.Tracked) (hfreetune : s.freetune = false)
    (sampleRate : ℕ) : ((s.receiverChangeSampleRate sampleRate).InSpan ↔ (s.ctun = true →
      |s.ctunFrequency - s.frequencyA| ≤ (sampleRate : ℤ) / 2 ∧ s.ritOffset = 0)) ∧
    ((s.receiverChangeSampleRate sampleRate).InSpan →
      (s.receiverChangeSampleRate sampleRate).Tracked) := by
  have hcursor : s.hasCursor = s.ctun := by simp [Settings.hasCursor, hfreetune]
  have hoffset := hs.ctunOffset
  rw [receiverChangeSampleRate_eq hfreetune]
  by_cases hctun : s.ctun = true
  · have hon : s.hasCursor = true := hcursor.trans hctun
    rw [if_pos hon] at hoffset
    constructor
    · change (s.hasCursor = true → |s.ctunFrequency - s.frequencyA| ≤ (sampleRate : ℤ) / 2 ∧
        s.ctunOffset = s.ctunFrequency - s.frequencyA + s.ritOffset ∧ s.hasCursor = true) ↔ _
      rw [hoffset, hon, hctun]
      simp
    · intro h
      obtain ⟨-, hshift, -⟩ := h hon
      exact ⟨⟨hs.ctunOffset, hshift.trans (if_pos hon).symm, rfl⟩, hs.stays⟩
  · have hno : ¬ s.hasCursor = true := by rwa [hcursor]
    rw [if_neg hno] at hoffset
    refine ⟨iff_of_true (fun h => absurd h hno) (fun h => absurd h hctun), fun _ => ?_⟩
    exact ⟨⟨hs.ctunOffset, hoffset.trans (if_neg hno).symm, rfl⟩, hs.stays⟩

/-- **One operation** keeps the cursor in the span if and only if it holds it there. -/
theorem span_inSpan (hs : s.Tracked) (hin : s.InSpan) (a : SpanOp) :
    ((s.span a).InSpan ↔ s.Holding a) ∧ ((s.span a).InSpan → (s.span a).Tracked) := by
  have hof {t : Rx} {c : Prop} (h : Lands t c) : (t.InSpan ↔ c) ∧ (t.InSpan → t.Tracked) :=
    ⟨h.2, fun _ => h.1⟩
  cases a with
  | dial a =>
    cases a with
    | tune a =>
      cases a with
      | move hz round => exact hof (lands_receiverMove hs hin hz round)
      | moveB hz round => exact hof (lands_receiverMoveB hs hin hz round)
      | moveTo hz panned => exact hof (lands_receiverMoveTo hs hin hz panned)
      | moveSpan hz => exact hof (lands_receiverMoveSpan hs hin hz)
      | apply target isB => exact hof (lands_vfoApplyFrequency hs hin target isB)
      | step step =>
        exact ⟨iff_of_true hin trivial,
          fun _ => ⟨⟨hs.ctunOffset, hs.shiftOffset, hs.shiftRun⟩, hs.stays⟩⟩
    | setBand band bsEntry => exact hof (lands_setBand hs hin band bsEntry)
    | vfoA2b edges =>
      have hlands := (redialled_vfoA2b (s := s) edges).lands
      exact hof (hlands.imp (iff_of_true (hs.inSpan_iff.1 hin) trivial))
    | vfoB2a => exact hof (lands_vfoB2a hs hin)
    | vfoAswapb edges => exact hof (lands_vfoAswapb hs hin edges)
  | setCtun ctun => exact hof (lands_receiverSetCtun hs ctun)
  | setFreetune enable => exact hof (lands_receiverSetFreetune hs hin enable)
  | changeSampleRate sampleRate =>
    by_cases hfreetune : s.freetune = true
    · have hcursor : s.hasCursor = true := by simp [Settings.hasCursor, hfreetune]
      refine hof ((redialled_receiverChangeSampleRate hfreetune sampleRate).lands.imp ?_)
      exact Iff.trans ⟨fun h => h hcursor, fun h _ => h⟩ (Iff.of_eq (if_pos hfreetune).symm)
    · have h := receiverChangeSampleRate_ctun hs (by simpa using hfreetune) sampleRate
      exact ⟨h.1.trans (Iff.of_eq (if_neg hfreetune).symm), h.2⟩

/-! ## What holds it -/

theorem edgeMargin_le (s : Settings) : s.edgeMargin ≤ s.spanHalf := by
  have hhalf := spanHalf_nonneg s
  unfold Settings.edgeMargin
  omega

/-- A moved span takes the cursor with it, where no converter is in the way. -/
theorem holding_moveSpan (hlo : s.loA = 0) (hz : ℤ) :
    s.Holding (.dial (.tune (.moveSpan hz))) := by
  intro _ _ _
  have hmargin := edgeMargin_nonneg s.toSettings
  have hhalf := edgeMargin_le s.toSettings
  rw [hlo, syncedDial_zero, abs_le]
  unfold pushed
  dsimp only
  split_ifs <;> constructor <;> omega

/-- So does a move in freetune, if the rounding takes off no more than the margin. -/
theorem holdingA_freetune (hlo : s.loA = 0) (hfreetune : s.freetune = true) (hz : ℤ)
    (round : Bool) (hround : |s.pulled hz round - (s.ctunFrequency + hz)| ≤ s.edgeMargin) :
    s.HoldingA hz round := by
  intro _ hcursor
  have hhalf := edgeMargin_le s.toSettings
  rw [abs_le] at hround
  rw [hlo, syncedDial_zero, abs_le]
  unfold pulledDial centre
  rw [if_pos hcursor, if_pos hfreetune]
  split_ifs <;> omega

end Rx

open Rx

/-- A receiver with a span. -/
def spanner (s : Rx) : System Rx SpanOp where
  init := s
  step s a := some (s.span a)

/-- **The cursor stays in the span**: where `frequency_changed` leaves the cursor in the span, every
state of a run has it there, with the shift where it is, if and only if every operation of the run
holds it. -/
theorem spanner_inSpan (s : Rx) (hin : s.frequencyChanged.InSpan) (as : List SpanOp) :
    (spanner s.frequencyChanged).Throughout InSpan s.frequencyChanged as ↔
      (spanner s.frequencyChanged).Along Holding s.frequencyChanged as := by
  rw [(spanner s.frequencyChanged).throughout_iff_along (P := InSpan) as hin]
  refine (spanner s.frequencyChanged).along_congr (I := fun t => t.Tracked ∧ t.InSpan) ?_ ?_ as
    ⟨s.tracked_frequencyChanged, hin⟩
  · rintro t a u ⟨ht, htin⟩ hkept hu
    have huin := hkept u hu
    obtain rfl := Option.some.inj hu
    exact ⟨(span_inSpan ht htin a).2 huin, huin⟩
  · rintro t a ⟨ht, htin⟩
    rw [← (span_inSpan ht htin a).1]
    constructor
    · exact fun h => h _ rfl
    · rintro h u hu
      obtain rfl := Option.some.inj hu
      exact h

/-! ## A receiver in ctun -/

/-- It listens on 20 m, in a span of 48 kHz. -/
def twentyMetresCtun : Rx := { twentyMetres with ctun := true, sampleRate := 48000 }

theorem inSpan_twentyMetresCtun : twentyMetresCtun.frequencyChanged.InSpan :=
  fun _ => by decide

/-- The cursor is moved inside the span, and the span after it. -/
theorem spanner_inSpan_moves : (spanner twentyMetresCtun.frequencyChanged).Throughout InSpan
    twentyMetresCtun.frequencyChanged
    [.dial (.tune (.move 10000 true)), .dial (.tune (.moveSpan 30000))] := by
  refine (spanner_inSpan twentyMetresCtun inSpan_twentyMetresCtun _).2 ⟨fun _ _ _ => by decide, ?_⟩
  intro t ht
  obtain rfl := Option.some.inj ht
  exact ⟨fun _ _ _ => by decide, fun _ _ => trivial⟩

/-- A move of 100 kHz takes the cursor out of it. -/
theorem not_spanner_inSpan : ¬ (spanner twentyMetresCtun.frequencyChanged).Throughout InSpan
    twentyMetresCtun.frequencyChanged [.dial (.tune (.move 100000 true))] := by
  intro h
  have hin := h _ _ (List.prefix_refl _) rfl rfl
  exact absurd hin.1 (by decide)

end MacHPSDR.Receiver
