import MacHPSDR.Foundations.Transition
import MacHPSDR.Receiver.Redial
import Mathlib

/-!
# The linked satellite pair

In `SPLIT_SAT` VFO B follows the listening frequency, and in `SPLIT_RSAT` it goes the other way, so
that their difference or their sum stays. What does not keep it:

* a move of VFO B in plain tuning (`SAT`) or with a cursor (`RSAT`), because the mover of VFO A
  subtracts in plain tuning and the mover of VFO B does not know;
* a click of an `RSAT` pair, whose sign is turned round twice;
* the rounding, which each of the movers does on its own.
-/

namespace MacHPSDR.Receiver

namespace Rx

variable (s : Rx)

/-- A linked pair, with neither lock nor converter nor sub-receiver. -/
structure Linked (s : Rx) : Prop where
  locked : s.locked = false
  vfoLinked : s.vfoLinked = true
  pair : s.split = .sat ∨ s.split = .rsat
  subrx : s.subrx = false
  subrxEnable : s.subrxEnable = false
  converter : s.loA = 0

/-- What ties the pair. -/
def tie : ℤ :=
  if s.split = .sat then s.tunedFrequency - s.frequencyB else s.tunedFrequency + s.frequencyB

/-- Where VFO B belongs when the listening frequency is `f`. -/
def partner (f : ℤ) : ℤ := if s.split = .sat then f - s.tie else s.tie - f

/-! ## The limits -/

/-- The hardware of another receiver lets VFO A be at `f`. -/
def InWindow (f : ℤ) : Prop := { s with frequencyA := f }.windowError = 0

/-- VFO A meets no limit. -/
def FreeA (hz : ℤ) (round : Bool) : Prop :=
  ¬ s.Refused s.tunedFrequency (s.tunedFrequency + s.pull hz) ∧ s.InWindow (s.pulledDial hz round)

/-- VFO B meets none. -/
def FreeB (hz : ℤ) : Prop := ¬ s.RefusedB s.frequencyB (s.frequencyB + hz)

/-- The listening frequency that a click leaves. -/
def clickedTo (hz panned : ℤ) : ℤ :=
  if s.freetune then s.holdInSpan (s.clicked hz panned) else s.clicked hz panned

/-- How far a moved span takes the cursor with it. -/
def spanPull (hz : ℤ) : ℤ :=
  if s.hasCursor then { s with frequencyA := s.frequencyA - hz }.pushed - s.ctunFrequency else -hz

/-- No move meets a limit. -/
def Free : Tune → Prop
  | .move hz round => s.FreeA hz round ∧ s.FreeB (s.pulled hz round - s.tunedFrequency)
  | .moveB hz round =>
    s.FreeB hz ∧ s.FreeA (if s.split = .sat then hz else -hz) round
  | .moveTo hz panned =>
    s.InWindow (if s.hasCursor then s.frequencyA else s.clickedTo hz panned) ∧
      s.FreeB (if s.split = .rsat then -(s.clickedTo hz panned - s.tunedFrequency)
        else s.clickedTo hz panned - s.tunedFrequency)
  | .moveSpan hz =>
    hz = 0 ∨ ¬ s.Refused s.frequencyA (s.frequencyA - hz) ∧ s.InWindow (s.frequencyA - hz) ∧
      (s.spanPull hz = 0 ∨ s.FreeB (s.spanPull hz))
  | .apply target true =>
    s.FreeB (target - s.frequencyB) ∧
      s.FreeA (if s.split = .sat then target - s.frequencyB else -(target - s.frequencyB)) false
  | .apply target false =>
    s.FreeA (s.pull (target - s.tunedFrequency)) false ∧ s.FreeB (target - s.tunedFrequency)
  | .step _ => True

/-! ## When the tie is kept -/

/-- What the rounding of VFO A takes off. -/
def cutA (round : Bool) (f : ℤ) : ℤ := f - s.roundedA round f

/-- What that of VFO B takes off. -/
def cutB (round : Bool) (f : ℤ) : ℤ := f - s.roundedB round f

/-- How far a move of VFO B takes the pair apart before it is rounded: where the mover of VFO A has
the wrong sign. -/
def twist (hz : ℤ) : ℤ := if s.split = .sat ↔ s.hasCursor = true then 0 else -2 * hz

/-- A move of VFO B keeps the tie. -/
def CleanB (hz : ℤ) (round : Bool) : Prop :=
  if s.split = .sat then
    s.twist hz = s.cutA round (s.tunedFrequency + s.pull hz) - s.cutB round (s.frequencyB + hz)
  else
    s.twist hz = s.cutA round (s.tunedFrequency + s.pull (-hz)) + s.cutB round (s.frequencyB - hz)

/-- A move that keeps the tie. -/
def Clean : Tune → Prop
  | .move hz round => round = true → s.step ∣ s.partner (s.pulled hz round)
  | .moveB hz round => s.CleanB hz round
  | .moveTo hz panned =>
    let delta := s.clickedTo hz panned - s.tunedFrequency
    if s.split = .sat then s.step ∣ s.frequencyB + delta
    else s.cutB true (s.frequencyB + delta) = 2 * delta
  | .apply target true => s.CleanB (target - s.frequencyB) false
  | .moveSpan _ | .apply _ false | .step _ => True

end Rx

namespace SameDial

variable {s t : Rx}

theorem tunedFrequency (h : SameDial s t) : t.tunedFrequency = s.tunedFrequency := by
  unfold Rx.tunedFrequency
  rw [h.settings, h.ctunFrequency, h.frequencyA]

theorem windowError (h : SameDial s t) : t.windowError = s.windowError := by
  unfold Rx.windowError Rx.soapyRxTargetFreq
  rw [h.settings, h.frequencyA, h.loA, h.errorA]

end SameDial

namespace Rx

variable {s t m : Rx}

theorem Linked.congr (hs : s.Linked) (hsettings : t.toSettings = s.toSettings)
    (hlo : t.loA = s.loA) : t.Linked where
  locked := hsettings ▸ hs.locked
  vfoLinked := hsettings ▸ hs.vfoLinked
  pair := hsettings ▸ hs.pair
  subrx := hsettings ▸ hs.subrx
  subrxEnable := hsettings ▸ hs.subrxEnable
  converter := hlo.trans hs.converter

/-- `frequency_changed` moves nothing of a linked pair in the window. -/
theorem Linked.frequencyChanged (hs : s.Linked) (hwindow : s.windowError = 0) :
    SameDial s s.frequencyChanged ∧ s.frequencyChanged.frequencyB = s.frequencyB := by
  have hsync : s.syncTransverter = s := by
    unfold syncTransverter
    rw [hs.converter]
    rfl
  have hclamp : s.syncTransverter.clampToSharedWindow = s := by
    rw [hsync]
    unfold clampToSharedWindow
    rw [hwindow, add_zero, add_zero]
  have hplace : s.placeCursor.frequencyB = s.frequencyB := by
    unfold placeCursor applyShift
    split
    · dsimp only
      split <;> rfl
    · rfl
  have hsub : s.placeCursor.subrxEnable = false := by
    rw [s.sameDial_placeCursor.settings]
    exact hs.subrxEnable
  have hdial := s.sameDial_frequencyChanged
  rw [hclamp] at hdial
  refine ⟨hdial, ?_⟩
  unfold Rx.frequencyChanged
  dsimp only
  rw [hclamp, if_neg (by simp [hsub])]
  exact hplace

/-- What a move leaves: the pair listens at `f`, and VFO B is at `b`. -/
structure Leaves (s t : Rx) (f b : ℤ) : Prop where
  linked : t.Linked
  split : t.split = s.split
  tunedFrequency : t.tunedFrequency = f
  frequencyB : t.frequencyB = b

theorem Leaves.tie_iff {f b : ℤ} (h : s.Leaves t f b) : t.tie = s.tie ↔ b = s.partner f := by
  have ht : t.tie = if s.split = .sat then f - b else f + b := by
    unfold tie
    rw [h.split, h.tunedFrequency, h.frequencyB]
  rw [ht]
  unfold partner
  split_ifs
  · constructor <;> intro h <;> omega
  · constructor <;> intro h <;> omega

/-- Without a sub-receiver nothing holds VFO B. -/
theorem Linked.holdB (hs : s.Linked) (f : ℤ) : s.holdB f = f := by
  unfold Rx.holdB
  rw [hs.subrx]
  rfl

theorem follow_frequencyB (hm : m.Linked) {delta : ℤ} {round : Bool} (hfree : m.FreeB delta) :
    (m.follow delta round).frequencyB = m.roundedB round
      (if m.split = .sat then m.frequencyB + delta else m.frequencyB - delta) := by
  have hfollows : ((m.split = .sat || m.split = .rsat) && m.vfoLinked) = true := by
    rw [hm.vfoLinked]
    simpa using hm.pair
  unfold follow receiverMoveB
  rw [if_pos hfollows, if_neg (by simp [hm.locked]), if_neg hfree]
  rcases hm.pair with hpair | hpair
  · simp [hpair, hm.vfoLinked, hm.holdB, updateFrequency, syncVfoBLo]
  · simp [hpair, hm.vfoLinked, hm.holdB]

/-- The end of the moves. -/
theorem leaves_changed (hm : m.Linked) (hsplit : m.split = s.split) (hwindow : m.windowError = 0) :
    s.Leaves m.frequencyChanged.updateFrequency m.tunedFrequency m.frequencyB ∧
      m.frequencyChanged.updateFrequency.windowError = 0 := by
  obtain ⟨hchanged, hB⟩ := hm.frequencyChanged hwindow
  have hdial := hchanged.trans (sameA_updateFrequency _).toSameDial
  refine ⟨⟨hm.congr hdial.settings hdial.loA, ?_, hdial.tunedFrequency, hB⟩, ?_⟩
  · rw [hdial.settings, hsplit]
  · rw [hdial.windowError, hwindow]

theorem leaves_follow (round : Bool) (hm : m.Linked) (hsplit : m.split = s.split)
    (hwindow : m.windowError = 0) {delta : ℤ} (hfree : m.FreeB delta) :
    s.Leaves (m.follow delta round).frequencyChanged.updateFrequency m.tunedFrequency
      (m.roundedB round
        (if m.split = .sat then m.frequencyB + delta else m.frequencyB - delta)) := by
  have hfollow := m.sameDial_follow delta round
  have hsplit' : (m.follow delta round).split = s.split := by rw [hfollow.settings, hsplit]
  rw [← follow_frequencyB hm hfree, ← hfollow.tunedFrequency]
  exact (leaves_changed (hm.congr hfollow.settings hfollow.loA) hsplit'
    (hfollow.windowError.trans hwindow)).1

/-- What the mover of VFO A leaves. -/
theorem receiverMoveA_free (hlocked : s.locked = false) {hz : ℤ} {round : Bool}
    (hfree : s.FreeA hz round) :
    ∃ m, s.receiverMoveA hz round = (s.pulled hz round - s.tunedFrequency, m) ∧
      m.toSettings = s.toSettings ∧ m.loA = s.loA ∧ m.frequencyB = s.frequencyB ∧
      m.tunedFrequency = s.pulled hz round ∧ m.windowError = 0 := by
  obtain ⟨hrefused, hwindow⟩ := hfree
  refine ⟨_, receiverMoveA_eq s hlocked hrefused, ?_⟩
  unfold InWindow pulledDial at hwindow
  unfold tunedFrequency
  cases hcursor : s.hasCursor with
  | true =>
    rw [hcursor] at hwindow
    exact ⟨rfl, rfl, rfl, if_pos hcursor, hwindow⟩
  | false =>
    rw [hcursor] at hwindow
    exact ⟨rfl, rfl, rfl, if_neg (by simp [hcursor]), hwindow⟩

/-! ## Each of the moves -/

theorem roundedB_eq_iff (t : Settings) (round : Bool) (f : ℤ) :
    t.roundedB round f = f ↔ (round = true → t.step ∣ f) := by
  unfold Settings.roundedB Settings.roundToStep
  cases round with
  | true =>
    simp only [if_true, true_imp_iff]
    constructor
    · exact fun h => ⟨f.tdiv t.step, by rw [Int.mul_comm, h]⟩
    · exact Int.tdiv_mul_cancel
  | false => simp

theorem partner_eq (f : ℤ) : s.partner f =
    if s.split = .sat then s.frequencyB + (f - s.tunedFrequency)
    else s.frequencyB - (f - s.tunedFrequency) := by
  unfold partner tie
  split_ifs <;> ring

theorem leaves_move (hs : s.Linked) {hz : ℤ} {round : Bool} (hfree : s.Free (.move hz round)) :
    s.Leaves (s.receiverMove hz round) (s.pulled hz round)
      (s.roundedB round (s.partner (s.pulled hz round))) := by
  obtain ⟨hA, hB⟩ := hfree
  obtain ⟨m, hm, hsettings, hlo, hfrequencyB, htuned, hwindow⟩ := receiverMoveA_free hs.locked hA
  have hBm : m.FreeB (s.pulled hz round - s.tunedFrequency) := by
    unfold FreeB at hB ⊢
    rwa [hsettings, hfrequencyB]
  have hsplit : m.split = s.split := by rw [hsettings]
  have hleaves := leaves_follow round (hs.congr hsettings hlo) hsplit hwindow hBm
  rw [htuned, hfrequencyB, hsettings, ← partner_eq] at hleaves
  unfold receiverMove
  rw [if_neg (by simp [hs.locked]), hm]
  exact hleaves

/-- A click passes on the move with the sign turned round for `RSAT`, and the mover of VFO B turns
it round again. -/
theorem leaves_moveTo (hs : s.Linked) {hz panned : ℤ} (hfree : s.Free (.moveTo hz panned)) :
    s.Leaves (s.receiverMoveTo hz panned) (s.clickedTo hz panned)
      (s.roundedB true (s.frequencyB + (s.clickedTo hz panned - s.tunedFrequency))) := by
  obtain ⟨hwindow, hB⟩ := hfree
  obtain ⟨m, hm, hsettings, hlo, hfrequencyB, htuned, hmwindow⟩ :
      ∃ m, s.moveTo (s.clicked hz panned) = (s.clickedTo hz panned - s.tunedFrequency, m) ∧
        m.toSettings = s.toSettings ∧ m.loA = s.loA ∧ m.frequencyB = s.frequencyB ∧
        m.tunedFrequency = s.clickedTo hz panned ∧ m.windowError = 0 := by
    unfold moveTo tunedFrequency
    unfold InWindow at hwindow
    cases hcursor : s.hasCursor with
    | true =>
      rw [hcursor] at hwindow
      exact ⟨_, rfl, rfl, rfl, rfl, if_pos hcursor, hwindow⟩
    | false =>
      have hclicks : s.clicksB = false := by
        unfold clicksB
        rcases hs.pair with h | h <;> simp [h]
      have hclicked : s.clickedTo hz panned = s.clicked hz panned := by
        have hfreetune : s.freetune = false := (Bool.or_eq_false_iff.1 hcursor).2
        unfold clickedTo
        rw [hfreetune]
        rfl
      rw [hcursor, hclicked] at hwindow
      rw [hclicks, hclicked]
      exact ⟨_, rfl, rfl, rfl, rfl, if_neg (by simp [hcursor]), hwindow⟩
  have hsplit : m.split = s.split := by rw [hsettings]
  have hBm : m.FreeB (if s.split = .rsat then -(s.clickedTo hz panned - s.tunedFrequency)
      else s.clickedTo hz panned - s.tunedFrequency) := by
    unfold FreeB at hB ⊢
    rwa [hsettings, hfrequencyB]
  have hleaves := leaves_follow true (hs.congr hsettings hlo) hsplit hmwindow hBm
  have hturned : (if s.split = .sat then s.frequencyB +
        (if s.split = .rsat then -(s.clickedTo hz panned - s.tunedFrequency)
          else s.clickedTo hz panned - s.tunedFrequency)
      else s.frequencyB - (if s.split = .rsat then -(s.clickedTo hz panned - s.tunedFrequency)
          else s.clickedTo hz panned - s.tunedFrequency)) =
      s.frequencyB + (s.clickedTo hz panned - s.tunedFrequency) := by
    rcases hs.pair with h | h
    · simp [h]
    · simp [h]
      ring
  rw [htuned, hfrequencyB, hsettings, hturned] at hleaves
  unfold receiverMoveTo
  rw [if_neg (by simp [hs.locked]), hm]
  exact hleaves

theorem leaves_moveSpan (hs : s.Linked) {hz : ℤ} (hfree : s.Free (.moveSpan hz)) :
    s.Leaves (s.receiverMoveSpan hz) (s.tunedFrequency + if hz = 0 then 0 else s.spanPull hz)
      (s.partner (s.tunedFrequency + if hz = 0 then 0 else s.spanPull hz)) := by
  rw [partner_eq, add_sub_cancel_left]
  by_cases hzero : hz = 0
  · subst hzero
    unfold receiverMoveSpan
    simp only [decide_true, Bool.or_true, if_true, add_zero, sub_zero, ite_self]
    exact ⟨hs, rfl, rfl, rfl⟩
  · obtain ⟨hrefused, hwindow, hB⟩ := hfree.resolve_left hzero
    set m : Rx := { s with
      frequencyA := s.frequencyA - hz
      ctunFrequency := if s.hasCursor then { s with frequencyA := s.frequencyA - hz }.pushed
        else s.ctunFrequency - hz } with hm
    have hpull : m.ctunFrequency - s.ctunFrequency = s.spanPull hz := by
      unfold spanPull
      rw [hm]
      dsimp only
      split_ifs <;> ring
    have htuned : m.tunedFrequency = s.tunedFrequency + s.spanPull hz := by
      rw [← hpull]
      unfold tunedFrequency
      cases hcursor : s.hasCursor with
      | true => simp [hm, hcursor]
      | false => simp [hm, hcursor]; ring
    have hmoved : s.receiverMoveSpan hz =
        (if s.spanPull hz ≠ 0 then m.follow (s.spanPull hz) false
          else m).frequencyChanged.updateFrequency := by
      rw [← hpull]
      unfold receiverMoveSpan
      rw [if_neg (by simp [hs.locked, hzero]), if_neg hrefused]
    rw [hmoved, if_neg hzero, ← htuned]
    have hlinked : m.Linked := hs.congr rfl rfl
    by_cases hstays : s.spanPull hz = 0
    · rw [if_neg (by simp [hstays]), hstays, add_zero, sub_zero, ite_self]
      exact (leaves_changed (s := s) hlinked rfl hwindow).1
    · rw [if_pos hstays]
      exact leaves_follow (s := s) false hlinked rfl hwindow (hB.resolve_left hstays)

/-- VFO A is moved after VFO B, by a mover that has its own sign and its own rounding. -/
theorem leaves_moveB (hs : s.Linked) {hz : ℤ} {round : Bool} (hB : s.FreeB hz)
    (hA : s.FreeA (if s.split = .sat then hz else -hz) round) :
    s.Leaves (s.receiverMoveB hz false round)
        (s.pulled (if s.split = .sat then hz else -hz) round)
        (s.roundedB round (if s.split = .sat then s.frequencyB + hz else s.frequencyB - hz)) ∧
      (s.receiverMoveB hz false round).windowError = 0 := by
  rw [receiverMoveB_linked round hs.locked hB hs.vfoLinked hs.pair, hs.holdB]
  generalize s.roundedB round _ = b
  obtain ⟨m, hm, hsettings, hlo, hfrequencyB, htuned, hwindow⟩ :=
    receiverMoveA_free (s := { s with frequencyB := b }) hs.locked hA
  have hleaves := leaves_changed (hs.congr (t := m) hsettings hlo) (s := s)
    (by rw [hsettings]) hwindow
  rw [htuned, hfrequencyB] at hleaves
  rw [hm]
  exact hleaves

theorem Leaves.frequencyChanged {f b : ℤ} (h : s.Leaves t f b) (hwindow : t.windowError = 0) :
    s.Leaves t.frequencyChanged f b := by
  obtain ⟨hdial, hB⟩ := h.linked.frequencyChanged hwindow
  refine ⟨h.linked.congr hdial.settings hdial.loA, ?_, ?_, hB.trans h.frequencyB⟩
  · rw [hdial.settings, h.split]
  · rw [hdial.tunedFrequency, h.tunedFrequency]

/-- The listening frequency and VFO B come to fit as `CleanB` says. -/
theorem cleanB_iff (hs : s.Linked) (hz : ℤ) (round : Bool) :
    s.roundedB round (if s.split = .sat then s.frequencyB + hz else s.frequencyB - hz) =
      s.partner (s.pulled (if s.split = .sat then hz else -hz) round) ↔ s.CleanB hz round := by
  rw [partner_eq]
  unfold CleanB twist cutA cutB pulled pull
  rcases hs.pair with hpair | hpair
  · rw [hpair]
    simp only [if_true, true_iff]
    split_ifs <;> constructor <;> intro h <;> omega
  · rw [hpair]
    simp only [reduceCtorEq, if_false, false_iff]
    split_ifs <;> first | contradiction | (constructor <;> intro h <;> omega)

/-- **One move** of a linked pair keeps the tie if and only if it is clean. -/
theorem tune_tie (hs : s.Linked) {a : Tune} (hfree : s.Free a) :
    (s.tune a).Linked ∧ ((s.tune a).tie = s.tie ↔ s.Clean a) := by
  cases a with
  | move hz round =>
    have h := leaves_move hs hfree
    exact ⟨h.linked, h.tie_iff.trans (roundedB_eq_iff _ _ _)⟩
  | moveB hz round =>
    have h := (leaves_moveB hs hfree.1 hfree.2).1
    exact ⟨h.linked, h.tie_iff.trans (cleanB_iff hs hz round)⟩
  | moveTo hz panned =>
    have h := leaves_moveTo hs hfree
    refine ⟨h.linked, h.tie_iff.trans ?_⟩
    rw [partner_eq]
    unfold Clean cutB
    dsimp only
    split_ifs
    · rw [roundedB_eq_iff]
      simp
    · constructor <;> intro h <;> omega
  | moveSpan hz =>
    have h := leaves_moveSpan hs hfree
    exact ⟨h.linked, iff_of_true (h.tie_iff.2 rfl) trivial⟩
  | apply target isB =>
    cases isB with
    | true =>
      obtain ⟨h, hwindow⟩ := leaves_moveB hs hfree.1 hfree.2
      have h' := h.frequencyChanged hwindow
      rw [← vfoApplyFrequency_b hs.locked] at h'
      exact ⟨h'.linked, h'.tie_iff.trans (cleanB_iff hs _ _)⟩
    | false =>
      have hpulled : s.pulled (s.pull (target - s.tunedFrequency)) false = target := by
        unfold pulled pull Settings.roundedA
        rw [if_neg (by simp)]
        split_ifs <;> ring
      have hfree' : s.Free (.move (s.pull (target - s.tunedFrequency)) false) := by
        refine ⟨hfree.1, ?_⟩
        rw [hpulled]
        exact hfree.2
      have h := leaves_move hs hfree'
      rw [← vfoApplyFrequency_a hs.locked] at h
      refine ⟨h.linked, iff_of_true (h.tie_iff.2 ?_) trivial⟩
      exact (roundedB_eq_iff _ _ _).2 (fun h => absurd h (by decide))
  | step step =>
    exact ⟨⟨hs.locked, hs.vfoLinked, hs.pair, hs.subrx, hs.subrxEnable, hs.converter⟩,
      iff_of_true rfl trivial⟩

end Rx

open Rx

/-- A receiver that is tuned. -/
def tuner (s : Rx) : System Rx Tune where
  init := s
  step s a := some (s.tune a)

/-- **The tie of a linked pair**: moves that meet no limit keep the difference of the listening
frequency and VFO B in `SAT`, and their sum in `RSAT`, if and only if each of them is clean. -/
theorem tuner_tie (s : Rx) (hs : s.Linked) (as : List Tune) (hfree : (tuner s).Along Free s as) :
    (tuner s).Throughout (fun t => t.tie = s.tie) s as ↔ (tuner s).Along Clean s as := by
  rw [(tuner s).throughout_iff_along (P := fun t => t.tie = s.tie) as rfl]
  refine (tuner s).along_congr_along (I := fun t => t.Linked ∧ t.tie = s.tie) ?_ ?_ as ⟨hs, rfl⟩
    hfree
  · rintro t a u ⟨ht, -⟩ hfree hkept hu
    refine ⟨?_, hkept u hu⟩
    obtain rfl := Option.some.inj hu
    exact (tune_tie ht hfree).1
  · rintro t a ⟨ht, htie⟩ hfree
    rw [← (tune_tie ht hfree).2, htie]
    constructor
    · exact fun h => h _ rfl
    · rintro h u hu
      obtain rfl := Option.some.inj hu
      exact h

/-! ## Two moves of a satellite pair -/

/-- 70 cm down and 2 m up, in plain tuning. -/
def satellitePair : Rx where
  modeA := .usb
  modeB := .lsb
  filterLowB := -2850
  filterHighB := -150
  ctun := false
  freetune := false
  ritEnabled := false
  rit := 0
  sampleRate := 192000
  step := 100
  split := .sat
  vfoLinked := true
  locked := false
  subrx := false
  subrxEnable := false
  owner := true
  adcLo := 0
  hwRate := 192000
  ppmCorrection := fun _ => 0
  bands := fun _ => ⟨⟨"", 0, 0, 0⟩, 0, 0, fun _ => ⟨0, .usb⟩⟩
  hl2 := false
  frequencyMin := 0
  frequencyMax := 6000000000
  cwKeyerSidetoneFrequency := 400
  startupDone := true
  frequencyA := 435600000
  loA := 0
  errorA := 0
  bandA := 18
  frequencyB := 145900000
  loB := 0
  errorB := 0
  bandB := 16
  ctunFrequency := 435600000
  ctunOffset := 0
  shiftOffset := 0
  shiftRun := false

theorem linked_satellitePair : satellitePair.Linked :=
  ⟨rfl, rfl, .inl rfl, rfl, rfl, rfl⟩

theorem along_satellitePair {P : Rx → Tune → Prop} {a : Tune} (h : P satellitePair a) :
    (tuner satellitePair).Along P satellitePair [a] :=
  ⟨h, fun _ _ => trivial⟩

instance (s : Rx) (f : ℤ) : Decidable (s.InWindow f) := inferInstanceAs (Decidable (_ = _))

instance (s : Rx) (hz : ℤ) (round : Bool) : Decidable (s.FreeA hz round) :=
  inferInstanceAs (Decidable (_ ∧ _))

instance (s : Rx) (hz : ℤ) : Decidable (s.FreeB hz) := inferInstanceAs (Decidable (¬ _))

theorem free_move : satellitePair.Free (.move 1000 true) := ⟨by decide, by decide⟩

theorem free_apply : satellitePair.Free (.apply 145901000 true) := ⟨by decide, by decide⟩

/-- The knob moves both. -/
theorem tuner_tie_move : (tuner satellitePair).Throughout (fun t => t.tie = satellitePair.tie)
    satellitePair [.move 1000 true] :=
  (tuner_tie satellitePair linked_satellitePair _ (along_satellitePair free_move)).2
    (along_satellitePair fun _ => by decide)

/-- A frequency that is typed in for VFO B moves VFO A the other way. -/
theorem not_tuner_tie : (tuner satellitePair).Along Free satellitePair [.apply 145901000 true] ∧
    ¬ (tuner satellitePair).Throughout (fun t => t.tie = satellitePair.tie) satellitePair
      [.apply 145901000 true] := by
  refine ⟨along_satellitePair free_apply, fun h => ?_⟩
  have htie := h _ _ (List.prefix_refl _) rfl
  exact absurd htie (by decide)

end MacHPSDR.Receiver
