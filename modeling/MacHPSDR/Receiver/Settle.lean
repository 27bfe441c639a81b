import MacHPSDR.Receiver.Landing
import Mathlib

/-!
# What a receiver settles on

`frequency_changed` has the converter healed and VFO A held in the window of the hardware, whatever
VFO B is. What that makes of VFO A is said here as a function of the receiver, and where VFO B is
held when there is a sub-receiver.
-/

namespace MacHPSDR.Receiver

namespace Rx

section

variable (u : Rx)

/-- What `frequency_changed` makes of VFO A: the converter is healed, and the window holds it. -/
def settle : Rx := u.syncTransverter.clampToSharedWindow

/-- VFO B, held in the passband if there is a sub-receiver. -/
def carriedB (b : ℤ) : ℤ := if u.subrxEnable then { u with frequencyB := b }.passbandB else b

/-- VFO A on the entry of a band, as `set_band` puts it there. -/
def onEntry (band : ℕ) (bsEntry : ℤ) : Rx :=
  { u with
    toSettings := u.bandSettings band bsEntry
    loA := (u.openBand band bsEntry).frequencyLO
    errorA := (u.openBand band bsEntry).errorLO
    bandA := band
    frequencyA := u.bandFrequency band bsEntry
    ctunOffset := 0
    ctunFrequency := if u.freetune then u.bandFrequency band bsEntry else u.ctunFrequency }

end

end Rx

/-- The two have VFO A and its cursor in the same place, with the same settings but for VFO B. -/
structure SameTuning (u v : Rx) : Prop where
  settings : v.toSettings = { u.toSettings with split := v.split, modeB := v.modeB }
  frequencyA : v.frequencyA = u.frequencyA
  loA : v.loA = u.loA
  errorA : v.errorA = u.errorA
  ctunFrequency : v.ctunFrequency = u.ctunFrequency

namespace SameTuning

variable {u v : Rx}

theorem tunedFrequency (h : SameTuning u v) : v.tunedFrequency = u.tunedFrequency := by
  unfold Rx.tunedFrequency
  rw [h.settings, h.ctunFrequency, h.frequencyA]
  rfl

theorem windowError (h : SameTuning u v) : v.windowError = u.windowError := by
  unfold Rx.windowError Rx.soapyRxTargetFreq
  rw [h.settings, h.frequencyA, h.loA, h.errorA]

theorem carriedB (h : SameTuning u v) (b : ℤ) : v.carriedB b = u.carriedB b := by
  unfold Rx.carriedB Rx.passbandB
  dsimp only
  rw [h.settings, h.frequencyA]
  rfl

theorem syncTransverter (h : SameTuning u v) :
    SameTuning u.syncTransverter v.syncTransverter := by
  have hrow : v.converterRow v.loA v.frequencyA = u.converterRow u.loA u.frequencyA := by
    rw [h.settings, h.loA, h.frequencyA]
    rfl
  have hidle : (v.loA = 0 || !v.startupDone || !v.owner) =
      (u.loA = 0 || !u.startupDone || !u.owner : Bool) := by
    rw [h.settings, h.loA]
  have hreal : v.frequencyA - v.loA = u.frequencyA - u.loA := by rw [h.frequencyA, h.loA]
  have htunable : v.Tunable (u.frequencyA - u.loA) ↔ u.Tunable (u.frequencyA - u.loA) := by
    rw [h.settings]
    rfl
  have hband (f : ℤ) : v.getBandFromFrequency f = u.getBandFromFrequency f := by
    rw [h.settings]
    rfl
  have hbands : v.bands = u.bands := by rw [h.settings]
  unfold Rx.syncTransverter
  rw [hidle, hrow]
  split
  · exact h
  · cases u.converterRow u.loA u.frequencyA with
    | some b => exact ⟨h.settings, h.frequencyA, h.loA, h.errorA, h.ctunFrequency⟩
    | none =>
      dsimp only
      rw [hreal, hband, hband, hbands]
      by_cases hreach : u.Tunable (u.frequencyA - u.loA)
      · rw [if_pos hreach, if_pos (htunable.mpr hreach)]
        exact ⟨h.settings, rfl, rfl, rfl, h.ctunFrequency⟩
      · rw [if_neg hreach, if_neg fun hv => hreach (htunable.mp hv)]
        exact ⟨h.settings, h.frequencyA, rfl, rfl, h.ctunFrequency⟩

theorem settle (h : SameTuning u v) : SameTuning u.settle v.settle := by
  have hsync := h.syncTransverter
  refine ⟨hsync.settings, ?_, hsync.loA, hsync.errorA, ?_⟩
  · exact congrArg₂ (· + ·) hsync.frequencyA hsync.windowError
  · exact congrArg₂ (· + ·) hsync.ctunFrequency hsync.windowError

end SameTuning

theorem SameDial.tuning {u v w : Rx} (h : SameDial u v) (h' : SameTuning v w) :
    SameTuning u w where
  settings := by rw [h'.settings, h.settings]
  frequencyA := h'.frequencyA.trans h.frequencyA
  loA := h'.loA.trans h.loA
  errorA := h'.errorA.trans h.errorA
  ctunFrequency := h'.ctunFrequency.trans h.ctunFrequency

namespace Rx

variable {u : Rx}

theorem frequencyChanged_carriedB :
    u.frequencyChanged.frequencyB = u.settle.carriedB u.frequencyB := by
  have hdial := sameDial_placeCursor u.settle
  have hB : u.settle.placeCursor.frequencyB = u.frequencyB :=
    (placeCursor_frequencyB u.settle).trans u.syncTransverter_frequencyB
  have hchanged : u.frequencyChanged.frequencyB =
      if u.settle.placeCursor.subrxEnable then u.settle.placeCursor.passbandB
      else u.settle.placeCursor.frequencyB := by
    unfold frequencyChanged settle
    dsimp only
    split <;> rfl
  have hpassband : u.settle.placeCursor.passbandB =
      { u.settle with frequencyB := u.frequencyB }.passbandB := by
    unfold passbandB
    rw [hdial.settings, hdial.frequencyA, hB]
  rw [hchanged, hpassband, hB, hdial.settings]
  rfl

theorem setBand_onEntry (hlocked : u.locked = false) (band : ℕ) (bsEntry : ℤ) :
    u.setBand band bsEntry = (u.onEntry band bsEntry).frequencyChanged := by
  have hfree : ¬ u.locked = true := by simp [hlocked]
  unfold setBand receiverBandChanged onEntry
  rw [if_neg hfree]
  dsimp only
  by_cases hfreetune : u.freetune = true
  · rw [if_pos hfreetune, if_pos hfreetune]
    rfl
  · rw [if_neg hfreetune, if_neg hfreetune]
    rfl

/-- With the same converter the dial is the same. -/
theorem syncTransverter_kept (h : u.syncTransverter.loA = u.loA) :
    u.syncTransverter.tunedFrequency = u.tunedFrequency := by
  have hf : u.syncTransverter.frequencyA = u.frequencyA := by
    rcases u.syncTransverter_cases with ⟨-, hsync⟩ | ⟨⟨hlo, -, -⟩, hways⟩
    · rw [hsync]
    · rcases hways with ⟨b, -, hsync⟩ | ⟨-, -, hsync⟩ | ⟨-, -, hsync⟩
      · rw [hsync]
      · rw [hsync] at h ⊢
        dsimp only at h ⊢
        rw [h, sub_add_cancel]
      · rw [hsync] at h
        exact absurd h.symm hlo
  unfold tunedFrequency
  rw [u.syncTransverter_settings, u.syncTransverter_ctunFrequency, hf]

theorem settle_of_owner (howner : u.owner = true) : u.settle = u.syncTransverter :=
  clampToSharedWindow_of_owner _ (by rw [u.syncTransverter_settings]; exact howner)

/-- What a receiver with hardware of its own settles on, it settles on again. -/
theorem sameDial_settle (howner : u.owner = true) : SameDial u.settle u.settle.settle := by
  have hsettings : u.settle.toSettings = u.toSettings := by
    rw [settle_of_owner howner, u.syncTransverter_settings]
  have hstays : u.settle.Stays u.settle.loA u.settle.errorA u.settle.frequencyA := by
    rw [hsettings, settle_of_owner howner]
    exact u.stays_syncTransverter
  rw [settle_of_owner (u := u.settle) (by rw [hsettings]; exact howner)]
  exact sameDial_syncTransverter _ hstays

theorem onEntry_tunedFrequency (u : Rx) (band : ℕ) (bsEntry : ℤ) :
    (u.onEntry band bsEntry).tunedFrequency = u.bandFrequency band bsEntry := by
  unfold tunedFrequency onEntry
  dsimp only
  by_cases hfreetune : u.freetune = true
  · rw [if_pos hfreetune, ite_self]
  · rw [if_neg hfreetune]
    exact if_neg (by simp [Settings.hasCursor, bandSettings, hfreetune])

end Rx

end MacHPSDR.Receiver
