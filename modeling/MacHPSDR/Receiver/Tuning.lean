import MacHPSDR.Receiver.Dial
import Mathlib

/-!
# The operations that tune a receiver

In plain tuning the dial is the listening frequency. In ctun and in freetune a cursor in the span
is, and the centre of the span stays where it is; freetune slides it when the cursor comes close to
an edge. A linked satellite pair moves the other VFO as well.
-/

namespace MacHPSDR.Receiver

open Radio (Mode)

namespace Settings

variable (s : Settings)

/-- The highest frequency of the transverters. -/
def xvtrTop : ℤ :=
  (List.range xvtrCount).foldl (fun top i =>
    let xb := s.bands (bandCount + i)
    if xb.title ≠ "" && xb.frequencyMax > top then xb.frequencyMax else top) 0

/-- `receiver_max_frequency` -/
def receiverMaxFrequency : ℤ :=
  let cap := if 0 < s.frequencyMax ∧ s.frequencyMax < ceiling then s.frequencyMax else ceiling
  let margin := max 1000000 (s.sampleRate : ℤ)
  if 0 < s.xvtrTop ∧ s.xvtrTop + margin > cap then s.xvtrTop + margin else cap

/-- A move of VFO A that pushes further out of the range. -/
def Refused (cur nf : ℤ) : Prop := nf < 0 ∧ nf < cur ∨ nf > s.receiverMaxFrequency ∧ nf > cur

instance (cur nf : ℤ) : Decidable (s.Refused cur nf) := inferInstanceAs (Decidable (_ ∨ _))

/-- A move of VFO B that does. -/
def RefusedB (cur nf : ℤ) : Prop := nf ≤ 0 ∧ nf < cur ∨ nf > s.receiverMaxFrequency ∧ nf > cur

instance (cur nf : ℤ) : Decidable (s.RefusedB cur nf) := inferInstanceAs (Decidable (_ ∨ _))

def roundToStep (f : ℤ) : ℤ := f.tdiv s.step * s.step

/-- The mover of VFO A does not round in CW. -/
def roundedA (round : Bool) (f : ℤ) : ℤ :=
  if round && !s.modeA.isCw then s.roundToStep f else f

/-- That of VFO B does. -/
def roundedB (round : Bool) (f : ℤ) : ℤ := if round then s.roundToStep f else f

/-- `RX_SPAN_EDGE_MARGIN_PCT` of half of the span. -/
def edgeMargin : ℤ := s.spanHalf * 15 / 100

end Settings

namespace Rx

variable (s : Rx)

/-- `receiver_tuned_frequency` -/
def tunedFrequency : ℤ := if s.hasCursor then s.ctunFrequency else s.frequencyA

/-- The cursor, held inside the span. -/
def holdInSpan (c : ℤ) : ℤ :=
  let c := if c < s.frequencyA - s.spanHalf then s.frequencyA - s.spanHalf else c
  if c > s.frequencyA + s.spanHalf then s.frequencyA + s.spanHalf else c

/-- In freetune the centre slides when the cursor comes close to an edge. -/
def slide : Rx :=
  let spanMin := s.frequencyA - s.spanHalf
  let spanMax := s.frequencyA + s.spanHalf
  let threshold := s.edgeMargin
  if s.ctunFrequency > spanMax - threshold then
    { s with frequencyA := s.frequencyA + (s.ctunFrequency - (spanMax - threshold)) }
  else if s.ctunFrequency < spanMin + threshold then
    { s with frequencyA := s.frequencyA - (spanMin + threshold - s.ctunFrequency) }
  else { s with ctunFrequency := s.holdInSpan s.ctunFrequency }

/-- `receiver_move_a` -/
def receiverMoveA (hz : ℤ) (round : Bool) : ℤ × Rx :=
  if s.locked then (0, s)
  else if s.hasCursor then
    if s.Refused s.ctunFrequency (s.ctunFrequency + hz) then (0, s)
    else
      let t := { s with ctunFrequency := s.ctunFrequency + hz }
      let t := if t.freetune then t.slide else t
      let t := { t with ctunFrequency := t.roundedA round t.ctunFrequency }
      (t.ctunFrequency - s.ctunFrequency, t)
  else
    if s.Refused s.frequencyA (s.frequencyA - hz) then (0, s)
    else
      let f := s.roundedA round (s.frequencyA - hz)
      (f - s.frequencyA, { s with frequencyA := f })

/-- `update_frequency` -/
def updateFrequency : Rx := s.syncVfoBLo

/-- VFO B stays where it was if the sub-receiver has not got the new frequency in its span. -/
def holdB (f : ℤ) : ℤ :=
  if s.subrx && (f < s.frequencyA - s.spanHalf || f > s.frequencyA + s.spanHalf) then s.frequencyB
  else f

/-- `receiver_move_b` -/
def receiverMoveB (hz : ℤ) (bOnly round : Bool) : Rx :=
  if s.locked then s
  else if s.RefusedB s.frequencyB (s.frequencyB + hz) then s
  else
    match s.split with
    | .off | .on => { s with frequencyB := s.roundedB round (s.frequencyB + hz) }.updateFrequency
    | .sat =>
      let t := { s with frequencyB := s.holdB (s.roundedB round (s.frequencyB + hz)) }
      let t :=
        if !bOnly && t.vfoLinked then (t.receiverMoveA hz round).2.frequencyChanged else t
      t.updateFrequency
    | .rsat =>
      let t := { s with frequencyB := s.holdB (s.roundedB round (s.frequencyB - hz)) }
      if !bOnly && t.vfoLinked then
        (t.receiverMoveA (-hz) round).2.frequencyChanged.updateFrequency
      else t

/-- The other VFO of a linked pair follows. -/
def follow (delta : ℤ) (round : Bool) : Rx :=
  if (s.split = .sat || s.split = .rsat) && s.vfoLinked then s.receiverMoveB delta true round else s

/-- `receiver_move` -/
def receiverMove (hz : ℤ) (round : Bool) : Rx :=
  if s.locked then s
  else
    let moved := s.receiverMoveA hz round
    (moved.2.follow moved.1 round).frequencyChanged.updateFrequency

/-- The frequency that was clicked; `panned` is what the display is panned by. -/
def clicked (hz panned : ℤ) : ℤ :=
  let cwOffset := match s.modeA with
    | .cwu => -s.cwKeyerSidetoneFrequency
    | .cwl => s.cwKeyerSidetoneFrequency
    | _ => 0
  s.roundToStep (s.frequencyA - s.spanHalf + hz + panned) + cwOffset

/-- The modes in which a click moves VFO B of a split receiver. -/
def clicksB : Bool :=
  s.split = .on && (s.modeA.isCw || s.modeA = .usb || s.modeA = .lsb)

/-- The VFO that is clicked, and how far it moves. -/
def moveTo (f : ℤ) : ℤ × Rx :=
  if s.hasCursor then
    let c := if s.freetune then s.holdInSpan f else f
    (c - s.ctunFrequency, { s with ctunFrequency := c })
  else if s.clicksB then (0, { s with frequencyB := f })
  else (f - s.frequencyA, { s with frequencyA := f })

/-- `receiver_move_to`; for a `RSAT` pair it has the sign of the move the other way round. -/
def receiverMoveTo (hz panned : ℤ) : Rx :=
  if s.locked then s
  else
    let moved := s.moveTo (s.clicked hz panned)
    let delta := if s.split = .rsat then -moved.1 else moved.1
    (moved.2.follow delta true).frequencyChanged.updateFrequency

/-- The cursor under a moved span: it stays, or is pushed along at the edge margin. -/
def pushed : ℤ :=
  let lo := s.frequencyA - s.spanHalf + s.edgeMargin
  let hi := s.frequencyA + s.spanHalf - s.edgeMargin
  if s.ctunFrequency < lo then lo else if s.ctunFrequency > hi then hi else s.ctunFrequency

/-- `receiver_move_span` -/
def receiverMoveSpan (hz : ℤ) : Rx :=
  if s.locked || hz = 0 then s
  else if s.Refused s.frequencyA (s.frequencyA - hz) then s
  else
    let t := { s with frequencyA := s.frequencyA - hz }
    let t := { t with
      ctunFrequency := if t.hasCursor then t.pushed else t.ctunFrequency - hz }
    let tuned := t.ctunFrequency - s.ctunFrequency
    let t := if tuned ≠ 0 then t.follow tuned false else t
    t.frequencyChanged.updateFrequency

/-- `vfo_apply_frequency` -/
def vfoApplyFrequency (target : ℤ) (isB : Bool) : Rx :=
  if s.locked then s
  else if isB then (s.receiverMoveB (target - s.frequencyB) false false).frequencyChanged
  else if s.hasCursor then s.receiverMove (target - s.ctunFrequency) false
  else s.receiverMove (-(target - s.frequencyA)) false

/-- `vfo_a2b`; `edges` are `filter_low_a` and `filter_high_a`. -/
def vfoA2b (edges : ℤ × ℤ) : Rx :=
  { s with
    bandB := s.bandA
    frequencyB := s.frequencyA
    modeB := s.modeA
    filterLowB := edges.1
    filterHighB := edges.2
    loB := s.loA
    errorB := s.errorA }.frequencyChanged

/-- `vfo_b2a` -/
def vfoB2a : Rx :=
  if s.locked then s
  else
    { s with
      bandA := s.bandB
      frequencyA := s.frequencyB
      modeA := s.modeB
      loA := s.loB
      errorA := s.errorB }.frequencyChanged

/-- `vfo_aswapb`; `edges` are `filter_low_a` and `filter_high_a`. -/
def vfoAswapb (edges : ℤ × ℤ) : Rx :=
  if s.locked then s
  else
    { s with
      bandA := s.bandB
      frequencyA := s.frequencyB
      modeA := s.modeB
      loA := s.loB
      errorA := s.errorB
      bandB := s.bandA
      frequencyB := s.frequencyA
      modeB := s.modeA
      filterLowB := edges.1
      filterHighB := edges.2
      loB := s.loA
      errorB := s.errorA }.frequencyChanged

/-- `receiver_band_changed` -/
def receiverBandChanged (band : ℕ) : Rx :=
  let t := { s with bandA := band }
  let t := if t.freetune then { t with ctunFrequency := t.frequencyA } else t
  t.frequencyChanged

/-- What `set_band` stores in the row of the old band. -/
def storeBand (band : ℕ) (bsEntry : ℤ) : ℕ → Band :=
  let b := s.bands s.bandA
  if band ≠ s.bandA ∨ bsEntry ≠ b.currentEntry then
    Function.update s.bands s.bandA
      { b with
        entry := Function.update b.entry b.currentEntry ⟨s.frequencyA, s.modeA⟩
        frequencyLO := s.loA
        errorLO := s.errorA }
  else s.bands

/-- The row of the new band, with the entry that is chosen. -/
def openBand (band : ℕ) (bsEntry : ℤ) : Band :=
  let b := s.storeBand band bsEntry band
  if bsEntry ≠ -1 then { b with currentEntry := bsEntry } else b

/-- `set_band` -/
def setBand (band : ℕ) (bsEntry : ℤ) : Rx :=
  if s.locked then s
  else
    let b := s.openBand band bsEntry
    let entry := b.entry b.currentEntry
    { s with
      bands := Function.update (s.storeBand band bsEntry) band b
      frequencyA := entry.frequency
      modeA := entry.mode
      loA := b.frequencyLO
      errorA := b.errorLO
      ctun := false
      ctunOffset := 0 }.receiverBandChanged band

/-- `receiver_set_ctun`, with the flag as its callers leave it. -/
def receiverSetCtun (ctun : Bool) : Rx :=
  let t := { s with ctun := ctun, ctunOffset := 0, ctunFrequency := s.frequencyA }
  (t.applyShift t.ctunOffset t.hasCursor).frequencyChanged.updateFrequency

/-- `receiver_set_freetune` -/
def receiverSetFreetune (enable : Bool) : Rx :=
  let t := { s with freetune := enable }
  let t :=
    if enable then
      let t := if !t.ctun then { t with ctunFrequency := t.frequencyA } else t
      { t with ctunFrequency := t.holdInSpan t.ctunFrequency }.applyShift t.ctunOffset true
    else if !t.ctun then
      { t with frequencyA := t.ctunFrequency, ctunOffset := 0 }.applyShift 0 false
    else t
  t.frequencyChanged.updateFrequency

/-- `receiver_change_sample_rate` -/
def receiverChangeSampleRate (sampleRate : ℕ) : Rx :=
  let t := { s with sampleRate := sampleRate }
  let t := t.applyShift t.ctunOffset t.hasCursor
  if t.freetune then { t with frequencyA := t.ctunFrequency }.frequencyChanged else t

end Rx

/-- What the tuning knob, the mouse and the keypad do. -/
inductive Tune
  | move (hz : ℤ) (round : Bool)
  | moveB (hz : ℤ) (round : Bool)
  | moveTo (hz panned : ℤ)
  | moveSpan (hz : ℤ)
  | apply (target : ℤ) (isB : Bool)
  /-- Another step is chosen. -/
  | step (step : ℤ)

namespace Rx

variable (s : Rx)

def tune : Tune → Rx
  | .move hz round => s.receiverMove hz round
  | .moveB hz round => s.receiverMoveB hz false round
  | .moveTo hz panned => s.receiverMoveTo hz panned
  | .moveSpan hz => s.receiverMoveSpan hz
  | .apply target isB => s.vfoApplyFrequency target isB
  | .step step => { s with step := step }

end Rx

/-- What else sets the dial. -/
inductive DialOp
  | tune (a : Tune)
  | setBand (band : ℕ) (bsEntry : ℤ)
  | vfoA2b (edges : ℤ × ℤ)
  | vfoB2a
  | vfoAswapb (edges : ℤ × ℤ)

namespace Rx

variable (s : Rx)

def dial : DialOp → Rx
  | .tune a => s.tune a
  | .setBand band bsEntry => s.setBand band bsEntry
  | .vfoA2b edges => s.vfoA2b edges
  | .vfoB2a => s.vfoB2a
  | .vfoAswapb edges => s.vfoAswapb edges

/-! ## The mover of VFO A -/

/-- How far VFO A or its cursor goes: in plain tuning its mover subtracts. -/
def pull (hz : ℤ) : ℤ := if s.hasCursor then hz else -hz

/-- The listening frequency that the mover of VFO A leaves. -/
def pulled (hz : ℤ) (round : Bool) : ℤ := s.roundedA round (s.tunedFrequency + s.pull hz)

/-- The centre of the span in freetune, with the cursor at `c`. -/
def centre (c : ℤ) : ℤ :=
  if c > s.frequencyA + s.spanHalf - s.edgeMargin then c - s.spanHalf + s.edgeMargin
  else if c < s.frequencyA - s.spanHalf + s.edgeMargin then c + s.spanHalf - s.edgeMargin
  else s.frequencyA

theorem edgeMargin_nonneg (t : Settings) : 0 ≤ t.edgeMargin := by
  unfold Settings.edgeMargin Settings.spanHalf
  omega

theorem slide_eq : s.slide = { s with frequencyA := s.centre s.ctunFrequency } := by
  have hmargin := edgeMargin_nonneg s.toSettings
  unfold slide centre
  dsimp only
  split_ifs with hhi hlo
  · congr 1
    ring
  · congr 1
    ring
  · have hhold : s.holdInSpan s.ctunFrequency = s.ctunFrequency := by
      unfold holdInSpan
      dsimp only
      rw [if_neg (by omega), if_neg (by omega)]
    rw [hhold]

/-- **The mover of VFO A**, where nothing keeps it from moving. -/
theorem receiverMoveA_eq {hz : ℤ} {round : Bool} (hlocked : s.locked = false)
    (hrefused : ¬ s.Refused s.tunedFrequency (s.tunedFrequency + s.pull hz)) :
    s.receiverMoveA hz round = (s.pulled hz round - s.tunedFrequency,
      if s.hasCursor then
        { s with
          ctunFrequency := s.pulled hz round
          frequencyA := if s.freetune then s.centre (s.ctunFrequency + hz) else s.frequencyA }
      else { s with frequencyA := s.pulled hz round }) := by
  unfold receiverMoveA pulled
  unfold tunedFrequency pull at hrefused ⊢
  rw [if_neg (by simp [hlocked])]
  cases hcursor : s.hasCursor with
  | true =>
    rw [hcursor] at hrefused
    simp only [if_true] at hrefused ⊢
    rw [if_neg hrefused]
    cases hfree : s.freetune with
    | true =>
      simp only [if_true]
      rw [slide_eq]
      rfl
    | false => rfl
  | false =>
    rw [hcursor] at hrefused
    simp only [Bool.false_eq_true, if_false] at hrefused ⊢
    rw [← sub_eq_add_neg] at hrefused ⊢
    rw [if_neg hrefused]

/-- Where the mover of VFO A leaves the dial. -/
def pulledDial (hz : ℤ) (round : Bool) : ℤ :=
  if s.hasCursor then
    if s.freetune then s.centre (s.ctunFrequency + hz) else s.frequencyA
  else s.pulled hz round

/-- It stays where it is otherwise. -/
theorem receiverMoveA_refused {hz : ℤ} {round : Bool} (h : s.locked = true ∨
    s.Refused s.tunedFrequency (s.tunedFrequency + s.pull hz)) :
    s.receiverMoveA hz round = (0, s) := by
  unfold receiverMoveA
  unfold tunedFrequency pull at h
  split_ifs with hlocked hcursor hrefused hrefused'
  · rfl
  · rfl
  · simp [hlocked, hcursor, hrefused] at h
  · rfl
  · simp [hlocked, hcursor, ← sub_eq_add_neg, hrefused'] at h

end Rx

end MacHPSDR.Receiver
