import MacHPSDR.Receiver.BandStack
import Mathlib

/-!
# Copies between the VFOs

`vfo_a2b`, `vfo_b2a` and `vfo_aswapb` copy eight fields by hand, and then `frequency_changed` and
the mode memory write several of them again. If the VFOs are as their frequencies, modes and filters
imply, what is written again is what has been copied: the swap is its own inverse, and the copies
agree.
-/

namespace MacHPSDR.Receiver

open Radio (Mode)

/-- A receiver with the edges of the filter of VFO A, and the filters of the modes. -/
structure EdgeRx extends ModeRx where
  filterLowA : ℤ
  filterHighA : ℤ
  deviation : ℤ
  /-- `filters`; the operator sets the variable ones. -/
  filters : Mode → Fin filterCount → ℤ × ℤ

namespace EdgeRx

variable (s : EdgeRx)

/-- `set_filter` -/
def setFilter (low high : ℤ) : EdgeRx :=
  match s.modeA with
  | .cwl => { s with
      filterLowA := -s.cwKeyerSidetoneFrequency - low
      filterHighA := -s.cwKeyerSidetoneFrequency + high }
  | .cwu => { s with
      filterLowA := s.cwKeyerSidetoneFrequency - low
      filterHighA := s.cwKeyerSidetoneFrequency + high }
  | _ => { s with filterLowA := low, filterHighA := high }

/-- What `receiver_filter_changed` does to the edges, and to the deviation. -/
def passFilter : EdgeRx :=
  if s.modeA = .fmn then
    let t := { s with deviation := if (s.filterA : ℕ) = 0 then 2500 else 5000 }
    if t.deviation = 2500 then t.setFilter (-4000) 4000
    else if t.deviation = 5000 then t.setFilter (-8000) 8000
    else t
  else
    let f := s.filters s.modeA s.filterA
    s.setFilter f.1 f.2

/-- `receiver_filter_changed`, for a filter that there is. -/
def receiverFilterChanged (filter : Fin filterCount) : EdgeRx :=
  { s with toModeRx := s.toModeRx.receiverFilterChanged filter }.passFilter

/-- `receiver_mode_changed`, for a mode that there is. -/
def enterMode (mode : Mode) : EdgeRx :=
  { s with toModeRx := s.toModeRx.enterMode mode }.passFilter

/-- `vfo_a2b` -/
def vfoA2b : EdgeRx :=
  { s with toModeRx := s.toModeRx.vfoA2b (s.filterLowA, s.filterHighA) }

/-- `vfo_b2a` -/
def vfoB2a : EdgeRx :=
  if s.locked then s
  else
    let m := s.modeA
    let f := s.filterA
    let t : EdgeRx := { s with
      toModeRx := { s.toModeRx with toRx := s.toRx.vfoB2a, filterA := s.filterB }
      filterLowA := s.filterLowB
      filterHighA := s.filterHighB }
    if m ≠ t.modeA then t.enterMode t.modeA
    else if f ≠ t.filterA then t.receiverFilterChanged t.filterA
    else t

/-- `vfo_aswapb` -/
def vfoAswapb : EdgeRx :=
  if s.locked then s
  else
    let t : EdgeRx := { s with
      toModeRx := { s.toModeRx with
        toRx := s.toRx.vfoAswapb (s.filterLowA, s.filterHighA)
        filterA := s.filterB
        filterB := s.filterA }
      filterLowA := s.filterLowB
      filterHighA := s.filterHighB }
    t.enterMode t.modeA

end EdgeRx

/-! ## The two VFOs -/

/-- What is copied. -/
structure Vfo where
  band : ℕ
  frequency : ℤ
  mode : Mode
  filter : Fin filterCount
  filterLow : ℤ
  filterHigh : ℤ
  lo : ℤ
  error : ℤ

namespace EdgeRx

variable (s : EdgeRx)

def vfoA : Vfo :=
  ⟨s.bandA, s.frequencyA, s.modeA, s.filterA, s.filterLowA, s.filterHighA, s.loA, s.errorA⟩

def vfoB : Vfo :=
  ⟨s.bandB, s.frequencyB, s.modeB, s.filterB, s.filterLowB, s.filterHighB, s.loB, s.errorB⟩

/-- The edges of a filter in a mode. -/
def edges (mode : Mode) (filter : Fin filterCount) : ℤ × ℤ :=
  let f := s.filters mode filter
  match mode with
  | .fmn => if (filter : ℕ) = 0 then (-4000, 4000) else (-8000, 8000)
  | .cwl => (-s.cwKeyerSidetoneFrequency - f.1, -s.cwKeyerSidetoneFrequency + f.2)
  | .cwu => (s.cwKeyerSidetoneFrequency - f.1, s.cwKeyerSidetoneFrequency + f.2)
  | _ => f

/-- A VFO is as its frequency, its mode and its filter imply. -/
structure Implied (v : Vfo) : Prop where
  band : v.band = s.getBandFromFrequency v.frequency
  lo : v.lo = (s.bands v.band).frequencyLO
  error : v.error = (s.bands v.band).errorLO
  edges : (v.filterLow, v.filterHigh) = s.edges v.mode v.filter

/-- VFO A stays there: its converter is kept, and the window of the hardware has the frequency. -/
structure Steady (v : Vfo) : Prop where
  converter : s.Stays v.lo v.error v.frequency
  window : { s.toRx with
    frequencyA := v.frequency, loA := v.lo, errorA := v.error }.windowError = 0

end EdgeRx

/-- An unlocked receiver in plain tuning with no sub-receiver, whose VFOs are as is implied. -/
structure Settled (s : EdgeRx) : Prop where
  locked : s.locked = false
  plain : s.hasCursor = false
  subrxEnable : s.subrxEnable = false
  impliedA : s.Implied s.vfoA
  impliedB : s.Implied s.vfoB

/-! ## What is written again -/

namespace Rx

variable {u : Rx}

/-- A receiver in plain tuning with no sub-receiver, whose VFOs are in their bands, and whose
converter and window have the dial. -/
structure Rests (u : Rx) : Prop where
  plain : u.hasCursor = false
  subrxEnable : u.subrxEnable = false
  converter : u.Stays u.loA u.errorA u.frequencyA
  window : u.windowError = 0
  bandA : u.bandA = u.getBandFromFrequency u.frequencyA
  bandB : u.bandB = u.getBandFromFrequency u.frequencyB
  loB : u.loB = (u.bands u.bandB).frequencyLO
  errorB : u.errorB = (u.bands u.bandB).errorLO

/-- `frequency_changed` only puts the cursor back. -/
theorem Rests.frequencyChanged (hu : Rests u) :
    u.frequencyChanged = { u with ctunOffset := 0, shiftOffset := 0, shiftRun := false } := by
  obtain ⟨b, hsync⟩ := u.syncTransverter_of_stays hu.converter
  have hclamp : { u with bandA := b }.clampToSharedWindow = { u with bandA := b } := by
    have hzero : { u with bandA := b }.windowError = 0 := hu.window
    unfold clampToSharedWindow
    rw [hzero, add_zero, add_zero]
  have hplace := placeCursor_plain { u with bandA := b } hu.plain
  have hfree : ¬ u.subrxEnable = true := by simp [hu.subrxEnable]
  unfold Rx.frequencyChanged
  rw [hsync, hclamp, hplace]
  dsimp only
  rw [if_neg hfree, ← hu.bandA]
  unfold syncVfoBLo
  dsimp only
  rw [← hu.bandB, ← hu.loB, ← hu.errorB]

end Rx

/-! ## The edges of the filter -/

namespace EdgeRx

variable {s : EdgeRx}

/-- Only the edges differ, and the deviation. -/
structure SameFilters (s t : EdgeRx) : Prop where
  toModeRx : t.toModeRx = s.toModeRx
  filters : t.filters = s.filters

theorem sameFilters_setFilter (s : EdgeRx) (low high : ℤ) :
    SameFilters s (s.setFilter low high) := by
  unfold setFilter
  split <;> exact ⟨rfl, rfl⟩

/-- The edges follow from the mode and the filter. -/
theorem passFilter_edges (s : EdgeRx) : SameFilters s s.passFilter ∧
    (s.passFilter.filterLowA, s.passFilter.filterHighA) = s.edges s.modeA s.filterA := by
  unfold passFilter edges
  cases hmode : s.modeA with
  | fmn =>
    rw [if_pos rfl]
    dsimp only
    by_cases hfilter : (s.filterA : ℕ) = 0
    · rw [if_pos hfilter, if_pos hfilter, if_pos rfl]
      refine ⟨⟨(sameFilters_setFilter _ _ _).1, (sameFilters_setFilter _ _ _).2⟩, ?_⟩
      unfold setFilter
      rw [hmode]
    · rw [if_neg hfilter, if_neg hfilter, if_neg (by decide), if_pos rfl]
      refine ⟨⟨(sameFilters_setFilter _ _ _).1, (sameFilters_setFilter _ _ _).2⟩, ?_⟩
      unfold setFilter
      rw [hmode]
  | _ =>
    rw [if_neg (by decide)]
    refine ⟨sameFilters_setFilter _ _ _, ?_⟩
    unfold setFilter
    rw [hmode]

/-- The mode that stands there already is entered: only the edges are written. -/
theorem enterMode_same (s : EdgeRx) :
    ModeRx.SameVfos s.toModeRx (s.enterMode s.modeA).toModeRx ∧
      (s.enterMode s.modeA).filterA = s.filterA ∧
      (s.enterMode s.modeA).filters = s.filters ∧
      ((s.enterMode s.modeA).filterLowA, (s.enterMode s.modeA).filterHighA) =
        s.edges s.modeA s.filterA := by
  obtain ⟨hsame, hfilter⟩ := s.toModeRx.enterMode_same
  obtain ⟨hpassed, hedges⟩ :=
    passFilter_edges { s with toModeRx := s.toModeRx.enterMode s.modeA }
  have henter : s.enterMode s.modeA =
      passFilter { s with toModeRx := s.toModeRx.enterMode s.modeA } := rfl
  have hwritten : edges { s with toModeRx := s.toModeRx.enterMode s.modeA }
      (s.toModeRx.enterMode s.modeA).modeA (s.toModeRx.enterMode s.modeA).filterA =
        s.edges s.modeA s.filterA := by
    unfold edges
    dsimp only
    rw [hfilter, hsame.toRx]
  rw [henter, hpassed.toModeRx]
  exact ⟨hsame, hfilter, hpassed.filters, hedges.trans hwritten⟩

/-! ## The swap and the copies -/

/-- What `vfo_aswapb` leaves. -/
theorem vfoAswapb_toRx (hs : Settled s) (hB : s.Steady s.vfoB) (edges : ℤ × ℤ) :
    s.toRx.vfoAswapb edges = { s.toRx with
      bandA := s.bandB
      frequencyA := s.frequencyB
      modeA := s.modeB
      loA := s.loB
      errorA := s.errorB
      bandB := s.bandA
      frequencyB := s.frequencyA
      modeB := s.modeA
      filterLowB := edges.1
      filterHighB := edges.2
      loB := s.loA
      errorB := s.errorA
      ctunOffset := 0
      shiftOffset := 0
      shiftRun := false } := by
  have hfree : ¬ s.locked = true := by simp [hs.locked]
  unfold Rx.vfoAswapb
  rw [if_neg hfree]
  exact Rx.Rests.frequencyChanged
    { plain := hs.plain
      subrxEnable := hs.subrxEnable
      converter := hB.converter
      window := hB.window
      bandA := hs.impliedB.band
      bandB := hs.impliedA.band
      loB := hs.impliedA.lo
      errorB := hs.impliedA.error }

/-- **The swap** exchanges what the VFOs have. -/
theorem vfoAswapb_vfos (hs : Settled s) (hB : s.Steady s.vfoB) :
    s.vfoAswapb.vfoA = s.vfoB ∧ s.vfoAswapb.vfoB = s.vfoA := by
  have hfree : ¬ s.locked = true := by simp [hs.locked]
  unfold vfoAswapb
  rw [if_neg hfree]
  dsimp only
  set t : EdgeRx := { s with
    toModeRx := { s.toModeRx with
      toRx := s.toRx.vfoAswapb (s.filterLowA, s.filterHighA)
      filterA := s.filterB
      filterB := s.filterA }
    filterLowA := s.filterLowB
    filterHighA := s.filterHighB }
  have hrx : t.toRx = _ := vfoAswapb_toRx hs hB (s.filterLowA, s.filterHighA)
  obtain ⟨⟨hsame, hfilterB, -⟩, hfilterA, -, hedges⟩ := t.enterMode_same
  have hwritten : t.edges t.modeA t.filterA = (s.filterLowB, s.filterHighB) := by
    have himplied := hs.impliedB.edges
    unfold edges at himplied ⊢
    rw [hrx]
    exact himplied.symm
  rw [hwritten] at hedges
  obtain ⟨hlow, hhigh⟩ := Prod.mk.injEq .. ▸ hedges
  constructor
  · unfold vfoA vfoB
    rw [hsame, hrx, hfilterA, hlow, hhigh]
  · unfold vfoA vfoB
    rw [hsame, hrx, hfilterB]

/-- What the VFOs are held against is the same. -/
structure SameRadio (s t : EdgeRx) : Prop where
  settings : t.toSettings = { s.toSettings with
    modeA := t.modeA
    modeB := t.modeB
    filterLowB := t.filterLowB
    filterHighB := t.filterHighB }
  filters : t.filters = s.filters

theorem sameRadio_vfoAswapb (hs : Settled s) (hB : s.Steady s.vfoB) :
    SameRadio s s.vfoAswapb := by
  have hfree : ¬ s.locked = true := by simp [hs.locked]
  unfold vfoAswapb
  rw [if_neg hfree]
  dsimp only
  set t : EdgeRx := { s with
    toModeRx := { s.toModeRx with
      toRx := s.toRx.vfoAswapb (s.filterLowA, s.filterHighA)
      filterA := s.filterB
      filterB := s.filterA }
    filterLowA := s.filterLowB
    filterHighA := s.filterHighB }
  have hrx : t.toRx = _ := vfoAswapb_toRx hs hB (s.filterLowA, s.filterHighA)
  obtain ⟨⟨hsame, -, -⟩, -, hfilters, -⟩ := t.enterMode_same
  refine ⟨?_, hfilters⟩
  rw [hsame, hrx]

theorem SameRadio.implied {t : EdgeRx} (h : SameRadio s t) {v : Vfo} (hv : s.Implied v) :
    t.Implied v := by
  obtain ⟨hband, hlo, herror, hedges⟩ := hv
  refine ⟨?_, ?_, ?_, ?_⟩
  · rw [h.settings]
    exact hband
  · rw [h.settings]
    exact hlo
  · rw [h.settings]
    exact herror
  · unfold edges at hedges ⊢
    rw [h.settings, h.filters]
    exact hedges

theorem SameRadio.steady {t : EdgeRx} (h : SameRadio s t) {v : Vfo} (hv : s.Steady v) :
    t.Steady v := by
  obtain ⟨hconverter, hwindow⟩ := hv
  refine ⟨?_, ?_⟩
  · unfold Settings.Stays Settings.converterRow at hconverter ⊢
    rw [h.settings]
    exact hconverter
  · unfold Rx.windowError Rx.soapyRxTargetFreq at hwindow ⊢
    dsimp only at hwindow ⊢
    rw [h.settings]
    exact hwindow

theorem settled_vfoAswapb (hs : Settled s) (hB : s.Steady s.vfoB) : Settled s.vfoAswapb := by
  have hradio := sameRadio_vfoAswapb hs hB
  obtain ⟨hA', hB'⟩ := vfoAswapb_vfos hs hB
  refine ⟨?_, ?_, ?_, ?_, ?_⟩
  · rw [hradio.settings]
    exact hs.locked
  · rw [hradio.settings]
    exact hs.plain
  · rw [hradio.settings]
    exact hs.subrxEnable
  · rw [hA']
    exact hradio.implied hs.impliedB
  · rw [hB']
    exact hradio.implied hs.impliedA

/-- A second swap exchanges them again. -/
theorem vfoAswapb_vfoAswapb (hs : Settled s) (hA : s.Steady s.vfoA) (hB : s.Steady s.vfoB) :
    s.vfoAswapb.vfoAswapb.vfoA = s.vfoA ∧ s.vfoAswapb.vfoAswapb.vfoB = s.vfoB := by
  obtain ⟨hA', hB'⟩ := vfoAswapb_vfos hs hB
  have hsteady : s.vfoAswapb.Steady s.vfoAswapb.vfoB := by
    rw [hB']
    exact (sameRadio_vfoAswapb hs hB).steady hA
  obtain ⟨hA'', hB''⟩ := vfoAswapb_vfos (settled_vfoAswapb hs hB) hsteady
  exact ⟨hA''.trans hB', hB''.trans hA'⟩

/-- VFO B with what VFO A has. -/
def copied (s : EdgeRx) (edges : ℤ × ℤ) : Rx :=
  { s.toRx with
    bandB := s.bandA
    frequencyB := s.frequencyA
    modeB := s.modeA
    filterLowB := edges.1
    filterHighB := edges.2
    loB := s.loA
    errorB := s.errorA
    ctunOffset := 0
    shiftOffset := 0
    shiftRun := false }

theorem rests_copied (hs : Settled s) (hA : s.Steady s.vfoA) (edges : ℤ × ℤ) :
    Rx.Rests (s.copied edges) where
  plain := hs.plain
  subrxEnable := hs.subrxEnable
  converter := hA.converter
  window := hA.window
  bandA := hs.impliedA.band
  bandB := hs.impliedA.band
  loB := hs.impliedA.lo
  errorB := hs.impliedA.error

/-- What `vfo_a2b` leaves. -/
theorem vfoA2b_toRx (hs : Settled s) (hA : s.Steady s.vfoA) (edges : ℤ × ℤ) :
    s.toRx.vfoA2b edges = s.copied edges := by
  -- `Rests` does not look at the cursor, which the copy itself has not put back yet
  obtain ⟨hplain, hsub, hconverter, hwindow, hbandA, hbandB, hlo, herror⟩ :=
    rests_copied hs hA edges
  unfold Rx.vfoA2b
  exact Rx.Rests.frequencyChanged
    ⟨hplain, hsub, hconverter, hwindow, hbandA, hbandB, hlo, herror⟩

/-- **The copy** leaves VFO A alone, and gives VFO B all that VFO A has. -/
theorem vfoA2b_vfos (hs : Settled s) (hA : s.Steady s.vfoA) :
    s.vfoA2b.vfoA = s.vfoA ∧ s.vfoA2b.vfoB = s.vfoA := by
  unfold vfoA2b ModeRx.vfoA2b vfoA vfoB
  dsimp only
  rw [vfoA2b_toRx hs hA]
  exact ⟨rfl, rfl⟩

theorem vfoB2a_copied (hs : Settled s) (hA : s.Steady s.vfoA) (edges : ℤ × ℤ) :
    (s.copied edges).vfoB2a = s.copied edges := by
  have hfree : ¬ (s.copied edges).locked = true := by simp [copied, hs.locked]
  have hrests := (rests_copied hs hA edges).frequencyChanged
  unfold Rx.vfoB2a
  rw [if_neg hfree]
  unfold copied at hrests ⊢
  exact hrests

/-- After it the copy the other way changes nothing. -/
theorem vfoB2a_vfoA2b (hs : Settled s) (hA : s.Steady s.vfoA) : s.vfoA2b.vfoB2a = s.vfoA2b := by
  have hcopied := vfoA2b_toRx hs hA (s.filterLowA, s.filterHighA)
  have hfree : ¬ s.vfoA2b.locked = true := by
    have hsettings : s.vfoA2b.locked = (s.toRx.vfoA2b (s.filterLowA, s.filterHighA)).locked := rfl
    rw [hsettings, hcopied]
    simp [copied, hs.locked]
  unfold vfoB2a
  rw [if_neg hfree]
  unfold vfoA2b ModeRx.vfoA2b
  dsimp only
  rw [hcopied, vfoB2a_copied hs hA]
  unfold copied
  dsimp only
  rw [if_neg (by simp), if_neg (by simp)]

end EdgeRx

/-- **Copies and swaps of the VFOs**: the swap exchanges them and is its own inverse, the copy makes
them agree, and copying back changes nothing. -/
theorem copies_right (s : EdgeRx) (hs : Settled s) (hA : s.Steady s.vfoA) (hB : s.Steady s.vfoB) :
    (s.vfoAswapb.vfoA = s.vfoB ∧ s.vfoAswapb.vfoB = s.vfoA) ∧
      (s.vfoAswapb.vfoAswapb.vfoA = s.vfoA ∧ s.vfoAswapb.vfoAswapb.vfoB = s.vfoB) ∧
      s.vfoA2b.vfoA = s.vfoA2b.vfoB ∧ s.vfoA2b.vfoB2a = s.vfoA2b := by
  obtain ⟨hcopied, hcopy⟩ := EdgeRx.vfoA2b_vfos hs hA
  exact ⟨EdgeRx.vfoAswapb_vfos hs hB, EdgeRx.vfoAswapb_vfoAswapb hs hA hB,
    hcopied.trans hcopy.symm, EdgeRx.vfoB2a_vfoA2b hs hA⟩

/-! ## A receiver on 20 m, with VFO B at the other end of the band -/

def edgeTwentyMetres : EdgeRx where
  toModeRx := { slowInUsb with frequencyB := 14340000 }
  filterLowA := 150
  filterHighA := 2850
  deviation := 2500
  filters := fun _ _ => (150, 2850)

theorem settled_edgeTwentyMetres : Settled edgeTwentyMetres :=
  ⟨rfl, rfl, rfl, ⟨by decide, by decide, by decide, by decide⟩,
    ⟨by decide, by decide, by decide, by decide⟩⟩

theorem copies_right_edgeTwentyMetres : Settled edgeTwentyMetres ∧
    edgeTwentyMetres.vfoAswapb.vfoA = edgeTwentyMetres.vfoB ∧
    edgeTwentyMetres.vfoA2b.vfoB2a = edgeTwentyMetres.vfoA2b := by
  have hright := copies_right edgeTwentyMetres settled_edgeTwentyMetres
    ⟨.inl rfl, by decide⟩ ⟨.inl rfl, by decide⟩
  exact ⟨settled_edgeTwentyMetres, hright.1.1, hright.2.2.2⟩

/-- It shares the hardware of a receiver that is tuned to 14.2 MHz. -/
def edgeShared : EdgeRx := { edgeTwentyMetres with
  owner := false
  adcLo := 14200000
  hwRate := 384000 }

/-- VFO B has a converter of 100 MHz, which the row for no band has. -/
def edgeConverter : EdgeRx := { edgeTwentyMetres with
  bands := Function.update cwTable bandGen ⟨⟨"GEN", 0, 0, 100000000⟩, 0, 0, fun _ => ⟨0, .usb⟩⟩
  bandB := bandGen
  frequencyB := 114200000
  loB := 100000000 }

/-- The window of the hardware holds the dial back, and a converter that the dial leaves is dropped:
the swap does not bring VFO B to the dial. -/
theorem not_copies_right :
    (Settled edgeShared ∧ edgeShared.vfoAswapb.frequencyA = 14296000) ∧
    (Settled edgeConverter ∧ edgeConverter.vfoAswapb.frequencyA = 14200000 ∧
      edgeConverter.vfoAswapb.loA = 0) :=
  ⟨⟨⟨rfl, rfl, rfl, ⟨by decide, by decide, by decide, by decide⟩,
      ⟨by decide, by decide, by decide, by decide⟩⟩, by decide⟩,
    ⟨⟨rfl, rfl, rfl, ⟨by decide, by decide, by decide, by decide⟩,
      ⟨by decide, by decide, by decide, by decide⟩⟩, by decide, by decide⟩⟩

end MacHPSDR.Receiver
