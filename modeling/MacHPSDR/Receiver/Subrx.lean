import MacHPSDR.Receiver.Settle
import Mathlib

/-!
# The sub-receiver in the sampled window

`frequency_changed` takes the sub-receiver along when VFO A has moved away from it. Above the window
VFO B is put where the upper edge of its filter is on that of the window. Below it the lower edge of
the filter is added to that of the window, not subtracted from it: VFO B lands twice the edge away
from where it should, which is still inside for an upper sideband and outside for a lower one
(`follows_iff`).
-/

namespace MacHPSDR.Receiver

namespace Rx

variable (s : Rx)

/-- The passband of the sub-receiver lies in the sampled window. -/
def Covered : Prop :=
  s.frequencyA - s.spanHalf ≤ s.frequencyB + s.filterLowB ∧
    s.frequencyB + s.filterHighB ≤ s.frequencyA + s.spanHalf

instance : Decidable s.Covered := inferInstanceAs (Decidable (_ ∧ _))

/-- The receiver whose VFO A has settled, with VFO B where it was. -/
def arrived : Rx := { s.settle with frequencyB := s.frequencyB }

/-- `frequency_changed` brings the sub-receiver into the window, and does not move one that is in
it. -/
structure Follows : Prop where
  inside : s.frequencyChanged.Covered
  stays : s.arrived.Covered → s.frequencyChanged.frequencyB = s.frequencyB

/-- Where the sub-receiver is, and its filter, are such that it is brought into the window. -/
structure Followable : Prop where
  /-- Below the window: no edge is negative, and the filter fits between the edges twice. -/
  below : s.arrived.frequencyB + s.filterLowB < s.arrived.frequencyA - s.spanHalf →
    0 ≤ s.filterLowB ∧ s.filterLowB + s.filterHighB ≤ 2 * s.spanHalf
  /-- Above it: the filter fits into the window. -/
  above : s.arrived.frequencyA - s.spanHalf ≤ s.arrived.frequencyB + s.filterLowB →
    s.arrived.frequencyA + s.spanHalf < s.arrived.frequencyB + s.filterHighB →
    s.filterHighB - s.filterLowB ≤ 2 * s.spanHalf

variable {s}

theorem arrived_settings : s.arrived.toSettings = s.toSettings := s.syncTransverter_settings

/-- VFO B after the call. -/
theorem frequencyChanged_frequencyB_of_subrx (hsub : s.subrxEnable = true) :
    s.frequencyChanged.frequencyB = s.arrived.passbandB := by
  have hsettled : s.settle.subrxEnable = true := by
    have hsettings : s.settle.toSettings = s.toSettings := s.syncTransverter_settings
    rw [hsettings, hsub]
  rw [frequencyChanged_carriedB, carriedB, if_pos hsettled]
  rfl

/-- The window after the call is the one that the sub-receiver is held in. -/
theorem covered_frequencyChanged (hsub : s.subrxEnable = true) :
    s.frequencyChanged.Covered ↔ { s.arrived with frequencyB := s.arrived.passbandB }.Covered := by
  have hdial : s.frequencyChanged.frequencyA = s.arrived.frequencyA :=
    s.sameDial_frequencyChanged.frequencyA
  unfold Covered
  dsimp only
  rw [frequencyChanged_frequencyB_of_subrx hsub, hdial, s.frequencyChanged_settings,
    arrived_settings]

/-- Where the two clamps put the passband. -/
theorem covered_passbandB (u : Rx) : { u with frequencyB := u.passbandB }.Covered ↔
    (u.frequencyB + u.filterLowB < u.frequencyA - u.spanHalf →
      0 ≤ u.filterLowB ∧ u.filterLowB + u.filterHighB ≤ 2 * u.spanHalf) ∧
    (u.frequencyA - u.spanHalf ≤ u.frequencyB + u.filterLowB →
      u.frequencyA + u.spanHalf < u.frequencyB + u.filterHighB →
      u.filterHighB - u.filterLowB ≤ 2 * u.spanHalf) := by
  unfold Covered passbandB
  dsimp only
  split_ifs with hlow hhigh <;> omega

theorem passbandB_of_covered {u : Rx} (h : u.Covered) : u.passbandB = u.frequencyB := by
  obtain ⟨hlow, hhigh⟩ := h
  unfold passbandB
  dsimp only
  rw [if_neg (not_lt.2 hlow), if_neg (not_lt.2 hhigh)]

end Rx

/-- **The sub-receiver follows** if and only if it was not left below the window with a filter edge
under the carrier, and its filter is no wider than the window where it is clamped. -/
theorem follows_iff (s : Rx) (hsub : s.subrxEnable = true) : s.Follows ↔ s.Followable := by
  have hwindow := (Rx.covered_frequencyChanged hsub).trans s.arrived.covered_passbandB
  rw [Rx.arrived_settings] at hwindow
  constructor
  · intro h
    obtain ⟨hbelow, habove⟩ := hwindow.1 h.inside
    exact ⟨hbelow, habove⟩
  · intro h
    refine ⟨hwindow.2 ⟨h.below, h.above⟩, fun hin => ?_⟩
    exact (Rx.frequencyChanged_frequencyB_of_subrx hsub).trans (Rx.passbandB_of_covered hin)

/-! ## A sub-receiver that is left below the window -/

/-- VFO A has moved up the band, and the sub-receiver has been left behind. -/
def leftBehind (low high : ℤ) : Rx := { twentyMetres with
  subrx := true
  subrxEnable := true
  frequencyB := 14000000
  filterLowB := low
  filterHighB := high }

/-- In the upper sideband it is brought along. -/
theorem follows_iff_leftBehind : (leftBehind 150 2850).Follows ∧
    (leftBehind 150 2850).frequencyChanged.frequencyB = 14104150 :=
  ⟨(follows_iff (leftBehind 150 2850) rfl).2 ⟨by decide, by decide⟩, by decide⟩

/-- In the lower one it lands below the window again. -/
theorem not_follows : ¬ (leftBehind (-2850) (-150)).Follows ∧
    (leftBehind (-2850) (-150)).frequencyChanged.frequencyB = 14101150 := by
  have hout : ¬ (leftBehind (-2850) (-150)).frequencyChanged.Covered := by decide
  exact ⟨fun h => hout h.inside, by decide⟩

end MacHPSDR.Receiver
