import MacHPSDR.Receiver.Landing
import MacHPSDR.Receiver.ModeMemory
import Mathlib

/-!
# A band change, and back

`set_band` puts what is in force into the entry of the band that it leaves, and takes what is in the
entry of the one that it enters. A change to another band and back brings it all again, except that
the entry keeps the centre of the span: with a cursor off the centre, the receiver comes back to a
frequency that it was not listening to.
-/

namespace MacHPSDR.Receiver

/-- The scales of the panadapter and of the waterfall. -/
structure Scales where
  panadapterLow : ℤ
  panadapterHigh : ℤ
  panadapterStep : ℤ
  waterfallLow : ℤ
  waterfallHigh : ℤ
  waterfallAutomatic : Bool
  deriving DecidableEq

/-- A receiver with its scales, and those of the bands. -/
structure StackRx extends ModeRx where
  scales : Scales
  bandScales : ℕ → Scales

namespace StackRx

variable (s : StackRx)

/-- `set_band` -/
def setBand (band : ℕ) (bsEntry : ℤ) : StackRx :=
  if s.locked then s
  else
    let bandScales :=
      if band ≠ s.bandA then Function.update s.bandScales s.bandA s.scales else s.bandScales
    { toModeRx := s.toModeRx.setBand band bsEntry
      scales := bandScales band
      bandScales := bandScales }

/-- Another band is chosen, and then the entry of the first one. -/
def thereAndBack (band : ℕ) (bsEntry : ℤ) : StackRx :=
  (s.setBand band bsEntry).setBand s.bandA (s.bands s.bandA).currentEntry

end StackRx

/-- What was in force is in force again. -/
structure Restores (s t : StackRx) : Prop where
  tunedFrequency : t.tunedFrequency = s.tunedFrequency
  modeA : t.modeA = s.modeA
  filterA : t.filterA = s.filterA
  loA : t.loA = s.loA
  scales : t.scales = s.scales

/-- The dial is in the band that is shown, or there is no converter that it could leave. -/
def Shown (s : Rx) : Prop :=
  s.loA = 0 ∨ s.bandA < bandCount + xvtrCount ∧ (s.bands s.bandA).holds s.frequencyA = true

namespace Rx

/-! ## The rows -/

section

variable (s : Rx)

/-- The row of the band that is left. -/
def leftRow : Band :=
  { s.bands s.bandA with
    entry := Function.update (s.bands s.bandA).entry (s.bands s.bandA).currentEntry
      ⟨s.frequencyA, s.modeA⟩
    frequencyLO := s.loA
    errorLO := s.errorA }

/-- The current entry of a band is chosen: the row is as it was. -/
theorem openBand_current (band : ℕ) :
    s.openBand band (s.bands band).currentEntry = s.bands band := by
  have hstored : s.storeBand band (s.bands band).currentEntry band = s.bands band := by
    unfold storeBand
    by_cases hband : band = s.bandA
    · subst hband
      rw [if_neg (by simp)]
    · rw [if_pos (.inl hband), Function.update_of_ne hband]
  unfold openBand
  dsimp only
  rw [hstored]
  exact ite_id _

end

variable {s : Rx}

/-- What `frequency_changed` is called with at the end of `set_band`. -/
theorem setBand_changed (hlocked : s.locked = false) (band : ℕ) (bsEntry : ℤ) :
    ∃ u : Rx, u.frequencyChanged = s.setBand band bsEntry ∧
      u.toSettings = s.bandSettings band bsEntry ∧
      u.loA = (s.openBand band bsEntry).frequencyLO ∧
      u.errorA = (s.openBand band bsEntry).errorLO ∧
      u.frequencyA = s.bandFrequency band bsEntry ∧
      (s.freetune = true → u.ctunFrequency = s.bandFrequency band bsEntry) := by
  have hfree : ¬ s.locked = true := by simp [hlocked]
  unfold setBand receiverBandChanged
  rw [if_neg hfree]
  dsimp only
  split
  · exact ⟨_, rfl, rfl, rfl, rfl, rfl, fun _ => rfl⟩
  · rename_i hfreetune
    exact ⟨_, rfl, rfl, rfl, rfl, rfl, fun h => absurd h hfreetune⟩

theorem setBand_settings (hlocked : s.locked = false) (band : ℕ) (bsEntry : ℤ) :
    (s.setBand band bsEntry).toSettings = s.bandSettings band bsEntry := by
  obtain ⟨u, hset, hsettings, -⟩ := setBand_changed hlocked band bsEntry
  rw [← hset, u.frequencyChanged_settings, hsettings]

/-- The row of the band that is left has what was in force. -/
theorem setBand_leftRow (hlocked : s.locked = false) {band : ℕ} (hother : band ≠ s.bandA)
    (bsEntry : ℤ) : (s.setBand band bsEntry).bands s.bandA = s.leftRow := by
  rw [setBand_settings hlocked]
  unfold bandSettings storeBand
  dsimp only
  rw [Function.update_of_ne hother.symm, if_pos (.inl hother), Function.update_self]
  rfl

/-- **There and back**: what `frequency_changed` is called with at the end. -/
theorem setBand_setBand (hlocked : s.locked = false) {band : ℕ} (hother : band ≠ s.bandA)
    (bsEntry : ℤ) : ∃ u : Rx,
    u.frequencyChanged =
      (s.setBand band bsEntry).setBand s.bandA (s.bands s.bandA).currentEntry ∧
    (∃ bands : ℕ → Band, bands s.bandA = s.leftRow ∧
      u.toSettings = { s.toSettings with bands := bands, ctun := false }) ∧
    u.loA = s.loA ∧ u.errorA = s.errorA ∧ u.frequencyA = s.frequencyA ∧
    (s.freetune = true → u.ctunFrequency = s.frequencyA) := by
  set t := s.setBand band bsEntry
  have hsettings : t.toSettings = s.bandSettings band bsEntry :=
    setBand_settings hlocked band bsEntry
  have hfree : t.locked = false := by
    rw [hsettings]
    exact hlocked
  have hrow : t.bands s.bandA = s.leftRow := setBand_leftRow hlocked hother bsEntry
  have hopen : t.openBand s.bandA (s.bands s.bandA).currentEntry = s.leftRow := by
    have h := t.openBand_current s.bandA
    rwa [hrow] at h
  have hentry : s.leftRow.entry s.leftRow.currentEntry = ⟨s.frequencyA, s.modeA⟩ :=
    Function.update_self ..
  obtain ⟨u, hset, husettings, hlo, herror, hf, hc⟩ :=
    setBand_changed hfree s.bandA (s.bands s.bandA).currentEntry
  have hfrequency : t.bandFrequency s.bandA (s.bands s.bandA).currentEntry = s.frequencyA := by
    unfold bandFrequency
    dsimp only
    rw [hopen, hentry]
  rw [hopen] at hlo herror
  rw [hfrequency] at hf hc
  refine ⟨u, hset, ?_, hlo, herror, hf, fun h => hc (by rw [hsettings]; exact h)⟩
  refine ⟨Function.update (t.storeBand s.bandA (s.bands s.bandA).currentEntry) s.bandA s.leftRow,
    Function.update_self .., husettings.trans ?_⟩
  have hback : t.bandSettings s.bandA (s.bands s.bandA).currentEntry = { t.toSettings with
      bands :=
        Function.update (t.storeBand s.bandA (s.bands s.bandA).currentEntry) s.bandA s.leftRow
      modeA := s.modeA
      ctun := false } := by
    unfold bandSettings
    dsimp only
    rw [hopen, hentry]
  rw [hback, hsettings]
  rfl

/-- A converter stays on a dial that the row of its band has. -/
theorem stays_of_holds {t : Settings} {band : ℕ} {lo f : ℤ} (hband : band < bandCount + xvtrCount)
    (hlo : (t.bands band).frequencyLO = lo) (hholds : (t.bands band).holds f = true) (error : ℤ) :
    t.Stays lo error f := by
  refine .inr (.inr (.inr (.inl ?_)))
  unfold Settings.converterRow
  rw [List.find?_isSome]
  refine ⟨band, List.mem_range.mpr hband, ?_⟩
  rw [hlo, hholds, Bool.and_true]
  exact decide_eq_true rfl

theorem stays_leftRow (hshown : Shown s) {t : Settings} (hrow : t.bands s.bandA = s.leftRow) :
    t.Stays s.loA s.errorA s.frequencyA := by
  rcases hshown with hlo | ⟨hband, hholds⟩
  · exact .inl hlo
  · exact stays_of_holds hband (by rw [hrow]; rfl) (by rw [hrow]; exact hholds) _

/-- The receiver comes back to the centre of the span, as the window of the hardware has it. -/
theorem setBand_setBand_dial (hlocked : s.locked = false) (hshown : Shown s) {band : ℕ}
    (hother : band ≠ s.bandA) (bsEntry : ℤ) :
    let t := (s.setBand band bsEntry).setBand s.bandA (s.bands s.bandA).currentEntry
    t.tunedFrequency = s.frequencyA + { s with ctun := false }.windowError ∧ t.modeA = s.modeA ∧
      t.loA = s.loA := by
  obtain ⟨u, hset, ⟨bands, hrow, hsettings⟩, hlo, herror, hf, hc⟩ :=
    setBand_setBand hlocked hother bsEntry
  have hstays : u.Stays u.loA u.errorA u.frequencyA := by
    rw [hlo, herror, hf]
    exact stays_leftRow hshown (by rw [hsettings]; exact hrow)
  have hsync := u.sameDial_syncTransverter hstays
  have hdial := u.sameDial_frequencyChanged
  have htuned : u.tunedFrequency = s.frequencyA := by
    unfold tunedFrequency
    by_cases hfreetune : s.freetune = true
    · rw [hc hfreetune, hf, ite_self]
    · rw [hf, hsettings]
      simp [Settings.hasCursor, hfreetune]
  have hwindow : u.windowError = { s with ctun := false }.windowError := by
    unfold windowError soapyRxTargetFreq
    rw [hlo, herror, hf, hsettings]
  dsimp only
  rw [← hset]
  refine ⟨?_, ?_, ?_⟩
  · rw [hdial.tunedFrequency, tunedFrequency_clamped, hsync.tunedFrequency, hsync.windowError,
      htuned, hwindow]
  · rw [u.frequencyChanged_settings, hsettings]
  · rw [hdial.loA]
    exact hsync.loA.trans hlo

end Rx

/-! ## The filter and the scales -/

namespace ModeRx

variable {s : ModeRx}

/-- The two differ in nothing but what goes with the mode. -/
structure SameVfos (s t : ModeRx) : Prop where
  toRx : t.toRx = s.toRx
  filterB : t.filterB = s.filterB
  entryFilter : t.entryFilter = s.entryFilter

theorem SameVfos.trans {t u : ModeRx} (h : SameVfos s t) (h' : SameVfos t u) : SameVfos s u where
  toRx := h'.toRx.trans h.toRx
  filterB := h'.filterB.trans h.filterB
  entryFilter := h'.entryFilter.trans h.entryFilter

theorem sameVfos_setSquelch (s : ModeRx) : SameVfos s s.setSquelch := by
  unfold setSquelch
  split
  · exact ⟨rfl, rfl, rfl⟩
  · exact ⟨rfl, rfl, rfl⟩

theorem sameVfos_filter (f : Fin filterCount) : SameVfos s (s.receiverFilterChanged f) := by
  rw [receiverFilterChanged_eq]
  dsimp only
  split
  · obtain ⟨hrx, hfilterB, hentry⟩ := sameVfos_setSquelch { s with
      filterA := f, modeFilter := Function.update s.modeFilter s.modeA f }
    exact ⟨hrx, hfilterB, hentry⟩
  · exact ⟨rfl, rfl, rfl⟩

/-- The mode that stands there already is entered. -/
theorem enterMode_same (s : ModeRx) :
    SameVfos s (s.enterMode s.modeA) ∧ (s.enterMode s.modeA).filterA = s.filterA := by
  obtain ⟨-, hforce, -⟩ := s.enterMode_spec s.modeA
  have hfilter := congrArg ModeSettings.filter hforce
  rw [filed, Function.update_self] at hfilter
  refine ⟨?_, hfilter⟩
  set t : ModeRx := { s with
    modeFilter := Function.update s.modeFilter s.modeA s.filterA
    modeAgc := Function.update s.modeAgc s.modeA s.agc
    modeSquelch := Function.update s.modeSquelch s.modeA s.squelch
    filterA := Function.update s.modeFilter s.modeA s.filterA s.modeA
    agc := Function.update s.modeAgc s.modeA s.agc s.modeA
    squelch := Function.update s.modeSquelch s.modeA s.squelch s.modeA }
  have henter : s.enterMode s.modeA = t.setSquelch.receiverFilterChanged t.setSquelch.filterA := rfl
  have hstart : SameVfos s t := ⟨rfl, rfl, rfl⟩
  rw [henter]
  exact (hstart.trans (sameVfos_setSquelch t)).trans (sameVfos_filter _)

/-- The filter of an entry of a band stack, once `set_band` has stored the one that is in force. -/
def storedFilter (s : ModeRx) (band : ℕ) (bsEntry : ℤ) : ℕ → ℤ → Fin filterCount :=
  if band ≠ s.bandA ∨ bsEntry ≠ (s.bands s.bandA).currentEntry then
    Function.update s.entryFilter s.bandA
      (Function.update (s.entryFilter s.bandA) (s.bands s.bandA).currentEntry s.filterA)
  else s.entryFilter

theorem setBand_toRx (hlocked : s.locked = false) (band : ℕ) (bsEntry : ℤ) :
    (s.setBand band bsEntry).toRx = s.toRx.setBand band bsEntry ∧
      (s.setBand band bsEntry).entryFilter = s.storedFilter band bsEntry ∧
      (s.setBand band bsEntry).filterA =
        s.storedFilter band bsEntry band (s.openBand band bsEntry).currentEntry := by
  have hfree : ¬ s.locked = true := by simp [hlocked]
  unfold setBand
  rw [if_neg hfree]
  dsimp only
  set t : ModeRx := { s with
    toRx := s.toRx.setBand band bsEntry
    filterA := s.storedFilter band bsEntry band (s.openBand band bsEntry).currentEntry
    entryFilter := s.storedFilter band bsEntry }
  obtain ⟨hsame, hfilter⟩ := t.enterMode_same
  have hall := hsame.trans (sameVfos_filter (t.enterMode t.modeA).filterA)
  exact ⟨hall.toRx, hall.entryFilter, (files_filter _).2.2.trans hfilter⟩

theorem setBand_setBand_filterA (hlocked : s.locked = false) {band : ℕ} (hother : band ≠ s.bandA)
    (bsEntry : ℤ) : ((s.setBand band bsEntry).setBand s.bandA
      (s.bands s.bandA).currentEntry).filterA = s.filterA := by
  set t := s.setBand band bsEntry
  obtain ⟨hrx, hentry, -⟩ := setBand_toRx hlocked band bsEntry
  have hfree : t.locked = false := by
    rw [hrx, Rx.setBand_settings hlocked]
    exact hlocked
  have hrow : t.bands s.bandA = s.leftRow := by
    rw [hrx]
    exact Rx.setBand_leftRow hlocked hother bsEntry
  have hcurrent : (t.bands s.bandA).currentEntry = (s.bands s.bandA).currentEntry := by
    rw [hrow]
    rfl
  have hopen : (t.openBand s.bandA (s.bands s.bandA).currentEntry).currentEntry =
      (s.bands s.bandA).currentEntry := by
    rw [← hcurrent, t.openBand_current, hcurrent]
  have hstored : t.entryFilter s.bandA (s.bands s.bandA).currentEntry = s.filterA := by
    rw [hentry]
    unfold storedFilter
    rw [if_pos (.inl hother), Function.update_self, Function.update_self]
  rw [(setBand_toRx hfree _ _).2.2, hopen]
  unfold storedFilter
  by_cases hband : s.bandA = t.bandA
  · rw [if_neg (by rw [← hband, hcurrent]; simp)]
    exact hstored
  · rw [if_pos (.inl hband), Function.update_of_ne hband]
    exact hstored

end ModeRx

namespace StackRx

variable {s : StackRx}

theorem setBand_locked_eq (hlocked : s.locked = false) (band : ℕ) (bsEntry : ℤ) :
    (s.setBand band bsEntry).toModeRx = s.toModeRx.setBand band bsEntry ∧
      (s.setBand band bsEntry).bandScales =
        (if band ≠ s.bandA then Function.update s.bandScales s.bandA s.scales else s.bandScales) ∧
      (s.setBand band bsEntry).scales = (s.setBand band bsEntry).bandScales band := by
  have hfree : ¬ s.locked = true := by simp [hlocked]
  unfold setBand
  rw [if_neg hfree]
  exact ⟨rfl, rfl, rfl⟩

theorem thereAndBack_toModeRx (hlocked : s.locked = false) (band : ℕ) (bsEntry : ℤ) :
    (s.setBand band bsEntry).locked = false ∧ (s.thereAndBack band bsEntry).toModeRx =
      (s.toModeRx.setBand band bsEntry).setBand s.bandA (s.bands s.bandA).currentEntry := by
  have hmode := (setBand_locked_eq hlocked band bsEntry).1
  have hfree : (s.setBand band bsEntry).locked = false := by
    rw [hmode, (ModeRx.setBand_toRx hlocked band bsEntry).1, Rx.setBand_settings hlocked]
    exact hlocked
  refine ⟨hfree, ?_⟩
  unfold thereAndBack
  rw [(setBand_locked_eq hfree _ _).1, hmode]

theorem thereAndBack_scales (hlocked : s.locked = false) {band : ℕ} (hother : band ≠ s.bandA)
    (bsEntry : ℤ) : (s.thereAndBack band bsEntry).scales = s.scales := by
  obtain ⟨hfree, -⟩ := thereAndBack_toModeRx hlocked band bsEntry
  have hstored : (s.setBand band bsEntry).bandScales s.bandA = s.scales := by
    rw [(setBand_locked_eq hlocked band bsEntry).2.1, if_pos hother, Function.update_self]
  obtain ⟨-, hbands, hscales⟩ :=
    setBand_locked_eq hfree s.bandA (s.bands s.bandA).currentEntry
  unfold thereAndBack
  rw [hscales, hbands]
  split
  · rename_i hband
    rw [Function.update_of_ne hband]
    exact hstored
  · exact hstored

end StackRx

/-- **A band change and back** restores the mode, the filter, the converter and the scales, and the
frequency exactly if the receiver listens to the centre of the span, as the window of the hardware
has it. -/
theorem thereAndBack_restores_iff (s : StackRx) (hlocked : s.locked = false)
    (hshown : Shown s.toRx) (band : ℕ) (hother : band ≠ s.bandA) (bsEntry : ℤ) :
    Restores s (s.thereAndBack band bsEntry) ↔
      s.tunedFrequency = s.frequencyA + { s.toRx with ctun := false }.windowError := by
  obtain ⟨-, hmode⟩ := StackRx.thereAndBack_toModeRx hlocked band bsEntry
  have hfilter := ModeRx.setBand_setBand_filterA hlocked hother bsEntry
  have hfree : (s.toModeRx.setBand band bsEntry).locked = false := by
    rw [(ModeRx.setBand_toRx hlocked band bsEntry).1, Rx.setBand_settings hlocked]
    exact hlocked
  have hrx : (s.thereAndBack band bsEntry).toRx =
      (s.toRx.setBand band bsEntry).setBand s.bandA (s.bands s.bandA).currentEntry := by
    rw [hmode, (ModeRx.setBand_toRx hfree _ _).1, (ModeRx.setBand_toRx hlocked band bsEntry).1]
  obtain ⟨htuned, hmodeA, hlo⟩ := Rx.setBand_setBand_dial hlocked hshown hother bsEntry
  constructor
  · intro h
    rw [← htuned, ← hrx, h.tunedFrequency]
  · intro h
    refine ⟨?_, ?_, ?_, ?_, StackRx.thereAndBack_scales hlocked hother bsEntry⟩
    · rw [hrx, htuned, h]
    · rw [hrx, hmodeA]
    · rw [hmode, hfilter]
    · rw [hrx, hlo]

/-- It listens on 20 m, with the scales of the band table. -/
def stackTwentyMetres : StackRx where
  toModeRx := slowInUsb
  scales := ⟨-130, -50, 20, -140, -70, true⟩
  bandScales := fun _ => ⟨-140, -60, 20, -145, -65, true⟩

/-- The band menu takes it to 80 m and back. -/
theorem thereAndBack_restores_eightyMetres :
    Restores stackTwentyMetres (stackTwentyMetres.thereAndBack 3 (-1)) :=
  (thereAndBack_restores_iff stackTwentyMetres rfl (.inl rfl) 3 (by decide) (-1)).2 (by decide)

/-- In ctun, with the cursor 10 kHz above the centre. -/
def stackOffCentre : StackRx := { stackTwentyMetres with ctun := true, ctunFrequency := 14210000 }

/-- It comes back to the centre. -/
theorem not_thereAndBack_restores : stackOffCentre.locked = false ∧ Shown stackOffCentre.toRx ∧
    (stackOffCentre.bands stackOffCentre.bandA).holds stackOffCentre.tunedFrequency = true ∧
    ¬ Restores stackOffCentre (stackOffCentre.thereAndBack 3 (-1)) :=
  ⟨rfl, .inl rfl, by decide, fun h => absurd h.tunedFrequency (by decide)⟩

end MacHPSDR.Receiver
