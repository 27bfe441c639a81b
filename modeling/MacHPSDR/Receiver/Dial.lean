import MacHPSDR.Radio.TransmitMode
import Mathlib

/-!
# The dial of a receiver

A converter belongs to a band of the band table. The dial shows the frequency at the antenna, and
the radio is tuned to the dial less the local oscillator of the converter. `frequency_changed` comes
at the end of everything that moves the dial: it drops a converter that the dial has left, puts the
digital shift where the cursor is, and looks up the band.
-/

namespace MacHPSDR.Receiver

open Radio (Mode)

/-! ## The band table -/

structure BandstackEntry where
  frequency : ℤ
  mode : Mode

/-- What a row says about the frequencies of the band. -/
structure BandPlan where
  title : String
  frequencyMin : ℤ
  frequencyMax : ℤ
  frequencyLO : ℤ

structure Band extends BandPlan where
  errorLO : ℤ
  /-- `bandstack->current_entry` -/
  currentEntry : ℤ
  /-- `bandstack->entry` -/
  entry : ℤ → BandstackEntry

/-- The row is in use, and has the frequency in it. -/
def BandPlan.holds (b : BandPlan) (f : ℤ) : Bool :=
  b.title ≠ "" && b.frequencyMin ≤ f && f ≤ b.frequencyMax

/-- `BANDS`, with those of SoapySDR. -/
def bandCount : ℕ := 24

/-- `XVTRS` -/
def xvtrCount : ℕ := 8

def band6 : ℕ := 12

def bandGen : ℕ := 13

/-! ## The receiver -/

inductive Split
  | off
  | on
  | sat
  | rsat
  deriving DecidableEq

/-- What is set for a receiver, and what it looks at in the radio. -/
structure Settings where
  modeA : Mode
  modeB : Mode
  filterLowB : ℤ
  filterHighB : ℤ
  ctun : Bool
  freetune : Bool
  ritEnabled : Bool
  rit : ℤ
  sampleRate : ℕ
  step : ℤ
  split : Split
  vfoLinked : Bool
  locked : Bool
  /-- `subrx!=NULL` -/
  subrx : Bool
  subrxEnable : Bool
  /-- The receiver owns its hardware, as every one does that is not of SoapySDR. -/
  owner : Bool
  /-- What the hardware of another receiver is tuned to, 0 if it is not yet. -/
  adcLo : ℤ
  /-- The rate of that hardware. -/
  hwRate : ℕ
  /-- `radio_ppm_correction` -/
  ppmCorrection : ℤ → ℤ
  bands : ℕ → Band
  /-- `radio->hl2!=NULL` -/
  hl2 : Bool
  /-- `discovered->frequency_min` -/
  frequencyMin : ℤ
  /-- `discovered->frequency_max` -/
  frequencyMax : ℤ
  cwKeyerSidetoneFrequency : ℤ
  /-- `radio_startup_done` -/
  startupDone : Bool

/-- A receiver. -/
structure Rx extends Settings where
  frequencyA : ℤ
  loA : ℤ
  errorA : ℤ
  bandA : ℕ
  frequencyB : ℤ
  loB : ℤ
  errorB : ℤ
  bandB : ℕ
  ctunFrequency : ℤ
  ctunOffset : ℤ
  shiftOffset : ℤ
  shiftRun : Bool

/-- `RECEIVER_FREQ_CEILING_HZ` -/
def ceiling : ℤ := 20000000000

namespace Settings

variable (s : Settings)

/-- `get_band_from_frequency` -/
def getBandFromFrequency (f : ℤ) : ℕ :=
  ((List.range (bandCount + xvtrCount)).find? fun b =>
    !(b = band6 && s.hl2) && (s.bands b).holds f).getD bandGen

/-- A row with the converter `lo` that has `f` in it. -/
def converterRow (lo f : ℤ) : Option ℕ :=
  (List.range (bandCount + xvtrCount)).find? fun b =>
    (s.bands b).frequencyLO = lo && (s.bands b).holds f

/-- The device can tune to it. -/
def Tunable (f : ℤ) : Prop :=
  s.frequencyMin ≤ f ∧ f ≤ if 0 < s.frequencyMax then s.frequencyMax else ceiling

instance (f : ℤ) : Decidable (s.Tunable f) := inferInstanceAs (Decidable (_ ∧ _))

/-- The converter stays where the dial is. -/
def Stays (lo error f : ℤ) : Prop :=
  lo = 0 ∨ s.startupDone = false ∨ s.owner = false ∨ (s.converterRow lo f).isSome = true ∨
    s.Tunable (f - lo) ∧ (s.bands (s.getBandFromFrequency (f - lo))).frequencyLO = lo ∧
      (s.bands (s.getBandFromFrequency (f - lo))).errorLO = error

/-- Half of the span. -/
def spanHalf : ℤ := s.sampleRate / 2

/-- What the RIT adds to the shift. -/
def ritOffset : ℤ := if s.ritEnabled then s.rit else 0

/-- There is a cursor in the span. -/
def hasCursor : Bool := s.ctun || s.freetune

end Settings

namespace Rx

variable (s : Rx)

/-- `receiver_sync_transverter` -/
def syncTransverter : Rx :=
  if s.loA = 0 || !s.startupDone || !s.owner then s
  else
    match s.converterRow s.loA s.frequencyA with
    | some b => { s with bandA := b }
    | none =>
      let real := s.frequencyA - s.loA
      if s.Tunable real then
        let nb := s.getBandFromFrequency real
        let nbb := s.bands nb
        { s with
          bandA := nb
          loA := nbb.frequencyLO
          errorA := nbb.errorLO
          frequencyA := real + nbb.frequencyLO }
      else
        { s with loA := 0, errorA := 0, bandA := s.getBandFromFrequency s.frequencyA }

/-- `soapy_rx_target_freq` -/
def soapyRxTargetFreq : ℤ :=
  s.frequencyA - s.loA + s.errorA + s.ppmCorrection (s.frequencyA - s.loA) +
    if !s.ctun && s.ritEnabled then s.rit else 0

/-- `soapy_protocol_rx_window_error` -/
def windowError : ℤ :=
  if s.owner || s.adcLo = 0 then 0
  else
    let half := max 0 (((s.hwRate : ℤ) - s.sampleRate).tdiv 2)
    let want := s.soapyRxTargetFreq
    if want > s.adcLo + half then s.adcLo + half - want
    else if want < s.adcLo - half then s.adcLo - half - want
    else 0

/-- `rx_clamp_to_shared_window` -/
def clampToSharedWindow : Rx :=
  { s with
    frequencyA := s.frequencyA + s.windowError
    ctunFrequency := s.ctunFrequency + s.windowError }

/-- `receiver_apply_shift` -/
def applyShift (offset : ℤ) (run : Bool) : Rx :=
  { s with shiftOffset := offset, shiftRun := run }

/-- VFO B where a sub-receiver has it in its passband. -/
def passbandB : ℤ :=
  let minFrequency := s.frequencyA - s.spanHalf
  let maxFrequency := s.frequencyA + s.spanHalf
  if s.frequencyB + s.filterLowB < minFrequency then minFrequency + s.filterLowB
  else if s.frequencyB + s.filterHighB > maxFrequency then maxFrequency - s.filterHighB
  else s.frequencyB

/-- `receiver_sync_vfo_b_lo` -/
def syncVfoBLo : Rx :=
  let b := s.getBandFromFrequency s.frequencyB
  { s with bandB := b, loB := (s.bands b).frequencyLO, errorB := (s.bands b).errorLO }

/-- `frequency_changed`, up to the sub-receiver. -/
def placeCursor : Rx :=
  if s.hasCursor then
    let t := { s with ctunOffset := s.ctunFrequency - s.frequencyA }
    let offset := if t.ritEnabled then t.ctunOffset + t.rit else t.ctunOffset
    let t := t.applyShift offset true
    if t.freetune then { t with bandA := t.getBandFromFrequency t.frequencyA } else t
  else
    let t := { s with ctunOffset := 0 }.applyShift 0 false
    { t with bandA := t.getBandFromFrequency t.frequencyA }

/-- `frequency_changed` -/
def frequencyChanged : Rx :=
  let t := s.syncTransverter.clampToSharedWindow.placeCursor
  let t := if t.subrxEnable then { t with frequencyB := t.passbandB } else t
  t.syncVfoBLo

end Rx

/-! ## What `frequency_changed` keeps -/

/-- The two differ in nothing that says where VFO A and its cursor are. -/
structure SameDial (s t : Rx) : Prop where
  settings : t.toSettings = s.toSettings
  frequencyA : t.frequencyA = s.frequencyA
  loA : t.loA = s.loA
  errorA : t.errorA = s.errorA
  ctunFrequency : t.ctunFrequency = s.ctunFrequency

namespace SameDial

variable {s t u : Rx}

theorem refl (s : Rx) : SameDial s s := ⟨rfl, rfl, rfl, rfl, rfl⟩

theorem trans (h : SameDial s t) (h' : SameDial t u) : SameDial s u where
  settings := h'.settings.trans h.settings
  frequencyA := h'.frequencyA.trans h.frequencyA
  loA := h'.loA.trans h.loA
  errorA := h'.errorA.trans h.errorA
  ctunFrequency := h'.ctunFrequency.trans h.ctunFrequency

theorem symm (h : SameDial s t) : SameDial t s where
  settings := h.settings.symm
  frequencyA := h.frequencyA.symm
  loA := h.loA.symm
  errorA := h.errorA.symm
  ctunFrequency := h.ctunFrequency.symm

end SameDial

namespace Rx

variable (s : Rx)

theorem syncTransverter_settings : s.syncTransverter.toSettings = s.toSettings := by
  unfold syncTransverter
  split
  · rfl
  · split
    · rfl
    · dsimp only
      split
      · rfl
      · rfl

theorem syncTransverter_ctunFrequency : s.syncTransverter.ctunFrequency = s.ctunFrequency := by
  unfold syncTransverter
  split
  · rfl
  · split
    · rfl
    · dsimp only
      split
      · rfl
      · rfl

/-- With a cursor, the shift is how far it is off the centre, and the RIT. -/
theorem placeCursor_cursor (hcursor : s.hasCursor = true) : s.placeCursor = { s with
    ctunOffset := s.ctunFrequency - s.frequencyA
    shiftOffset := s.ctunFrequency - s.frequencyA + s.ritOffset
    shiftRun := true
    bandA := if s.freetune then s.getBandFromFrequency s.frequencyA else s.bandA } := by
  unfold placeCursor applyShift Settings.ritOffset
  rw [if_pos hcursor]
  dsimp only
  cases s.ritEnabled <;> cases s.freetune <;> simp

/-- In plain tuning there is none. -/
theorem placeCursor_plain (hcursor : s.hasCursor = false) : s.placeCursor = { s with
    ctunOffset := 0
    shiftOffset := 0
    shiftRun := false
    bandA := s.getBandFromFrequency s.frequencyA } := by
  unfold placeCursor applyShift
  rw [if_neg (by simp [hcursor])]

theorem sameDial_placeCursor : SameDial s s.placeCursor := by
  cases hcursor : s.hasCursor with
  | true =>
    rw [s.placeCursor_cursor hcursor]
    exact ⟨rfl, rfl, rfl, rfl, rfl⟩
  | false =>
    rw [s.placeCursor_plain hcursor]
    exact ⟨rfl, rfl, rfl, rfl, rfl⟩

/-- The shift is where the cursor is. -/
structure CursorPlaced (s : Rx) : Prop where
  ctunOffset : s.ctunOffset = if s.hasCursor then s.ctunFrequency - s.frequencyA else 0
  shiftOffset : s.shiftOffset =
    if s.hasCursor then s.ctunFrequency - s.frequencyA + s.ritOffset else 0
  shiftRun : s.shiftRun = s.hasCursor

theorem cursorPlaced_placeCursor : s.placeCursor.CursorPlaced := by
  cases hcursor : s.hasCursor with
  | true =>
    rw [s.placeCursor_cursor hcursor]
    exact ⟨(if_pos hcursor).symm, (if_pos hcursor).symm, hcursor.symm⟩
  | false =>
    rw [s.placeCursor_plain hcursor]
    have hno : ¬ s.hasCursor = true := by simp [hcursor]
    exact ⟨(if_neg hno).symm, (if_neg hno).symm, hcursor.symm⟩

theorem sameDial_syncVfoBLo : SameDial s s.syncVfoBLo := ⟨rfl, rfl, rfl, rfl, rfl⟩

/-- After the converter and the shared window, nothing moves VFO A and its cursor. -/
theorem sameDial_frequencyChanged :
    SameDial s.syncTransverter.clampToSharedWindow s.frequencyChanged := by
  refine (sameDial_placeCursor _).trans (SameDial.trans ?_ (sameDial_syncVfoBLo _))
  split
  · exact ⟨rfl, rfl, rfl, rfl, rfl⟩
  · exact SameDial.refl _

theorem cursorPlaced_frequencyChanged : s.frequencyChanged.CursorPlaced := by
  have h := cursorPlaced_placeCursor s.syncTransverter.clampToSharedWindow
  unfold frequencyChanged syncVfoBLo
  dsimp only
  split
  · exact ⟨h.ctunOffset, h.shiftOffset, h.shiftRun⟩
  · exact ⟨h.ctunOffset, h.shiftOffset, h.shiftRun⟩

theorem frequencyChanged_settings : s.frequencyChanged.toSettings = s.toSettings :=
  (sameDial_frequencyChanged s).settings.trans s.syncTransverter_settings

/-- The converter is in the hands of `receiver_sync_transverter`. -/
def Converts : Prop := s.loA ≠ 0 ∧ s.startupDone = true ∧ s.owner = true

theorem syncTransverter_of_not (h : ¬ s.Converts) : s.syncTransverter = s := by
  unfold Converts at h
  unfold syncTransverter
  rw [if_pos]
  by_contra hno
  exact h (by simpa [and_assoc] using hno)

/-- The four ways through `receiver_sync_transverter`. -/
theorem syncTransverter_cases : ¬ s.Converts ∧ s.syncTransverter = s ∨ s.Converts ∧
    ((∃ b, s.converterRow s.loA s.frequencyA = some b ∧ s.syncTransverter = { s with bandA := b }) ∨
    (s.converterRow s.loA s.frequencyA = none ∧ s.Tunable (s.frequencyA - s.loA) ∧
      s.syncTransverter = { s with
        bandA := s.getBandFromFrequency (s.frequencyA - s.loA)
        loA := (s.bands (s.getBandFromFrequency (s.frequencyA - s.loA))).frequencyLO
        errorA := (s.bands (s.getBandFromFrequency (s.frequencyA - s.loA))).errorLO
        frequencyA := s.frequencyA - s.loA +
          (s.bands (s.getBandFromFrequency (s.frequencyA - s.loA))).frequencyLO }) ∨
    (s.converterRow s.loA s.frequencyA = none ∧ ¬ s.Tunable (s.frequencyA - s.loA) ∧
      s.syncTransverter =
        { s with loA := 0, errorA := 0, bandA := s.getBandFromFrequency s.frequencyA })) := by
  by_cases hconverts : s.Converts
  · refine .inr ⟨hconverts, ?_⟩
    obtain ⟨hlo, hstartup, howner⟩ := hconverts
    unfold syncTransverter
    rw [if_neg (by simp [hlo, hstartup, howner])]
    cases hrow : s.converterRow s.loA s.frequencyA with
    | some b => exact .inl ⟨b, rfl, rfl⟩
    | none =>
      right
      by_cases htunable : s.Tunable (s.frequencyA - s.loA)
      · exact .inl ⟨rfl, htunable, if_pos htunable⟩
      · exact .inr ⟨rfl, htunable, if_neg htunable⟩
  · exact .inl ⟨hconverts, s.syncTransverter_of_not hconverts⟩

/-- Where the converter stays, only the band is looked up anew. -/
theorem syncTransverter_of_stays (h : s.Stays s.loA s.errorA s.frequencyA) :
    ∃ b, s.syncTransverter = { s with bandA := b } := by
  rcases s.syncTransverter_cases with ⟨-, hsync⟩ | ⟨⟨hlo, hstartup, howner⟩, hways⟩
  · exact ⟨s.bandA, hsync⟩
  · unfold Settings.Stays at h
    rw [hstartup, howner] at h
    simp only [hlo, false_or, reduceCtorEq] at h
    rcases hways with ⟨b, -, hsync⟩ | ⟨hrow, -, hsync⟩ | ⟨hrow, htunable, -⟩
    · exact ⟨b, hsync⟩
    · rw [hrow] at h
      obtain ⟨-, hloA, herrorA⟩ := h.resolve_left (by simp)
      refine ⟨s.getBandFromFrequency (s.frequencyA - s.loA), hsync.trans ?_⟩
      rw [hloA, herrorA, sub_add_cancel]
    · rw [hrow] at h
      exact absurd (h.resolve_left (by simp)).1 htunable

theorem sameDial_syncTransverter (h : s.Stays s.loA s.errorA s.frequencyA) :
    SameDial s s.syncTransverter := by
  obtain ⟨b, hsync⟩ := s.syncTransverter_of_stays h
  rw [hsync]
  exact ⟨rfl, rfl, rfl, rfl, rfl⟩

/-- What it leaves stays. -/
theorem stays_syncTransverter : s.Stays s.syncTransverter.loA s.syncTransverter.errorA
    s.syncTransverter.frequencyA := by
  unfold Settings.Stays
  rcases s.syncTransverter_cases with ⟨hnot, hsync⟩ | ⟨-, hways⟩
  · rw [hsync]
    unfold Converts at hnot
    by_cases hlo : s.loA = 0
    · exact .inl hlo
    · cases hstartup : s.startupDone with
      | false => exact .inr (.inl rfl)
      | true =>
        cases howner : s.owner with
        | false => exact .inr (.inr (.inl rfl))
        | true => exact absurd ⟨hlo, hstartup, howner⟩ hnot
  · rcases hways with ⟨b, hrow, hsync⟩ | ⟨-, htunable, hsync⟩ | ⟨-, -, hsync⟩
    · rw [hsync]
      refine .inr (.inr (.inr (.inl ?_)))
      dsimp only
      rw [hrow]
      rfl
    · rw [hsync]
      refine .inr (.inr (.inr (.inr ?_)))
      dsimp only
      rw [add_sub_cancel_right]
      exact ⟨htunable, rfl, rfl⟩
    · rw [hsync]
      exact .inl rfl

theorem windowError_of_owner (howner : s.owner = true) : s.windowError = 0 := by
  unfold windowError
  rw [howner]
  rfl

theorem clampToSharedWindow_of_owner (howner : s.owner = true) : s.clampToSharedWindow = s := by
  unfold clampToSharedWindow
  rw [s.windowError_of_owner howner, add_zero, add_zero]

/-- A receiver that owns its hardware keeps what the converter leaves. -/
theorem sameDial_frequencyChanged_of_owner (howner : s.owner = true) :
    SameDial s.syncTransverter s.frequencyChanged := by
  have hclamp : s.syncTransverter.clampToSharedWindow = s.syncTransverter :=
    clampToSharedWindow_of_owner _ (by rw [s.syncTransverter_settings]; exact howner)
  have hdial := s.sameDial_frequencyChanged
  rwa [hclamp] at hdial

/-- After `frequency_changed` the converter stays. -/
theorem stays_frequencyChanged : s.Stays s.frequencyChanged.loA s.frequencyChanged.errorA
    s.frequencyChanged.frequencyA := by
  cases howner : s.owner with
  | false => exact .inr (.inr (.inl howner))
  | true =>
    have hdial := s.sameDial_frequencyChanged_of_owner howner
    rw [hdial.loA, hdial.errorA, hdial.frequencyA]
    exact s.stays_syncTransverter

end Rx

end MacHPSDR.Receiver
