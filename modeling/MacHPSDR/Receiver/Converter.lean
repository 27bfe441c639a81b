import MacHPSDR.Foundations.Transition
import MacHPSDR.Receiver.Redial
import Mathlib

/-!
# The converter belongs to the band

`receiver_sync_transverter` looks after the converter, and `frequency_changed` looks up the band,
each for itself. `set_band` stores the converter of the receiver in the row of the band that is
shown. So a receiver that comes into a transverter band without its converter, or that is shown in
the first of two overlapping bands and has the converter of the second, writes a wrong local
oscillator into the table.
-/

namespace MacHPSDR.Receiver

namespace Settings

variable (s : Settings)

/-- The local oscillator of a band. -/
def loOf (b : ℕ) : ℤ := (s.bands b).frequencyLO

/-- With the converter `lo` and the dial at `f`, the converter that is kept, found or dropped is the
one of the band that is looked up. -/
def Agrees (lo f : ℤ) : Prop :=
  let bandOf := s.getBandFromFrequency
  if lo = 0 then s.loOf (bandOf f) = 0
  else if (s.converterRow lo f).isSome then s.loOf (bandOf f) = lo
  else if s.Tunable (f - lo) then
    s.loOf (bandOf (f - lo + s.loOf (bandOf (f - lo)))) = s.loOf (bandOf (f - lo))
  else s.loOf (bandOf f) = 0

/-- The filter of the sub-receiver fits into the span. -/
def Fits : Prop :=
  s.filterHighB - s.filterLowB ≤ 2 * s.spanHalf ∧ s.filterLowB + s.filterHighB ≤ 2 * s.spanHalf

end Settings

namespace Rx

variable {s t u : Rx}

/-- The converter is that of the band that is shown. -/
def Belongs (s : Rx) : Prop := s.loA = s.loOf s.bandA

/-! ## One call -/

theorem placeCursor_bandA (hctun : s.ctun = false) :
    s.placeCursor.bandA = s.getBandFromFrequency s.placeCursor.frequencyA := by
  cases hfreetune : s.freetune with
  | true => rw [s.placeCursor_cursor (by simp [Settings.hasCursor, hfreetune]), if_pos hfreetune]
  | false => rw [s.placeCursor_plain (by simp [Settings.hasCursor, hctun, hfreetune])]

theorem frequencyChanged_bandA (hctun : s.ctun = false) :
    s.frequencyChanged.bandA = s.getBandFromFrequency s.frequencyChanged.frequencyA := by
  have hsettings : s.syncTransverter.clampToSharedWindow.toSettings = s.toSettings :=
    s.syncTransverter_settings
  have hplace := placeCursor_bandA (s := s.syncTransverter.clampToSharedWindow)
    (by rw [hsettings]; exact hctun)
  rw [hsettings] at hplace
  have hband : s.frequencyChanged.bandA =
      s.syncTransverter.clampToSharedWindow.placeCursor.bandA := by
    unfold frequencyChanged syncVfoBLo
    dsimp only
    split <;> rfl
  rw [hband, hplace, s.sameDial_frequencyChanged.frequencyA,
    (sameDial_placeCursor s.syncTransverter.clampToSharedWindow).frequencyA]

/-- `frequency_changed` leaves the converter of the band in exactly these states. -/
theorem belongs_frequencyChanged (hstartup : s.startupDone = true) (howner : s.owner = true)
    (hctun : s.ctun = false) : s.frequencyChanged.Belongs ↔ s.Agrees s.loA s.frequencyA := by
  have hdial := s.sameDial_frequencyChanged_of_owner howner
  unfold Belongs
  rw [frequencyChanged_bandA hctun, s.frequencyChanged_settings, hdial.loA, hdial.frequencyA]
  unfold Settings.Agrees
  dsimp only
  rcases s.syncTransverter_cases with ⟨hnot, hsync⟩ | ⟨⟨hlo, -⟩, hways⟩
  · have hzero : s.loA = 0 := by
      by_contra hlo
      exact hnot ⟨hlo, hstartup, howner⟩
    rw [hsync, if_pos hzero, hzero, eq_comm]
  · rw [if_neg hlo]
    rcases hways with ⟨b, hrow, hsync⟩ | ⟨hrow, htunable, hsync⟩ | ⟨hrow, htunable, hsync⟩
    · rw [hsync, hrow, if_pos Option.isSome_some, eq_comm]
    · rw [hsync, hrow, if_neg (by simp), if_pos htunable, eq_comm]
      rfl
    · rw [hsync, hrow, if_neg (by simp), if_neg htunable, eq_comm]

/-- What the hardware is tuned to stays, if the device can tune to it. -/
theorem hardware_frequencyChanged (howner : s.owner = true)
    (htunable : s.Tunable (s.frequencyA - s.loA)) :
    s.frequencyChanged.frequencyA - s.frequencyChanged.loA = s.frequencyA - s.loA := by
  have hdial := s.sameDial_frequencyChanged_of_owner howner
  rw [hdial.frequencyA, hdial.loA]
  rcases s.syncTransverter_cases with ⟨-, hsync⟩ | ⟨-, ⟨b, -, hsync⟩ | ⟨-, -, hsync⟩ | ⟨-, hno, -⟩⟩
  · rw [hsync]
  · rw [hsync]
  · rw [hsync]
    dsimp only
    ring
  · exact absurd htunable hno

/-- VFO B, once it is in the passband, stays there. -/
theorem passbandB_passbandB (hfits : s.Fits) :
    { s with frequencyB := s.passbandB }.passbandB = s.passbandB := by
  obtain ⟨hwidth, hedges⟩ := hfits
  unfold passbandB
  dsimp only
  split_ifs <;> omega

/-- What follows from the dial is as it follows. -/
structure Placed (s : Rx) : Prop extends CursorPlaced s where
  bandA : s.bandA = s.getBandFromFrequency s.frequencyA
  passband : s.subrxEnable = true → s.passbandB = s.frequencyB
  bandB : s.bandB = s.getBandFromFrequency s.frequencyB
  loB : s.loB = s.loOf (s.getBandFromFrequency s.frequencyB)
  errorB : s.errorB = (s.bands (s.getBandFromFrequency s.frequencyB)).errorLO

theorem placed_frequencyChanged (hctun : s.ctun = false)
    (hfits : s.subrxEnable = true → s.Fits) : s.frequencyChanged.Placed := by
  have hsettings := s.frequencyChanged_settings
  refine ⟨s.cursorPlaced_frequencyChanged, ?_, fun hsub => ?_, rfl, rfl, rfl⟩
  · rw [frequencyChanged_bandA hctun, hsettings]
  · rw [hsettings] at hsub
    set x := s.syncTransverter.clampToSharedWindow.placeCursor with hx
    have hxsettings : x.toSettings = s.toSettings :=
      (sameDial_placeCursor _).settings.trans s.syncTransverter_settings
    have hpassband := passbandB_passbandB (s := x) (by rw [hxsettings]; exact hfits hsub)
    have hchanged : s.frequencyChanged = { x with frequencyB := x.passbandB }.syncVfoBLo := by
      unfold frequencyChanged
      dsimp only
      rw [← hx, if_pos (by rw [hxsettings]; exact hsub)]
    rw [hchanged]
    exact hpassband

theorem frequencyChanged_of_placed (howner : s.owner = true) (hctun : s.ctun = false)
    (hplaced : s.Placed) (hstays : s.Stays s.loA s.errorA s.frequencyA) :
    s.frequencyChanged = s := by
  obtain ⟨b, hsync⟩ := s.syncTransverter_of_stays hstays
  have hclamp : { s with bandA := b }.clampToSharedWindow = { s with bandA := b } :=
    clampToSharedWindow_of_owner _ howner
  have hcursor : { s with bandA := b }.placeCursor = s := by
    have heta (offset shift : ℤ) (run : Bool) (band : ℕ) (hoffset : offset = s.ctunOffset)
        (hshift : shift = s.shiftOffset) (hrun : run = s.shiftRun) (hband : band = s.bandA) :
        { s with
          ctunOffset := offset, shiftOffset := shift, shiftRun := run, bandA := band } = s := by
      subst hoffset hshift hrun hband
      rfl
    have hoffset := hplaced.ctunOffset
    have hshift := hplaced.shiftOffset
    have hrun := hplaced.shiftRun
    cases hcursor : s.hasCursor with
    | true =>
      have hfreetune : s.freetune = true := by simpa [Settings.hasCursor, hctun] using hcursor
      rw [hcursor] at hoffset hshift hrun
      rw [placeCursor_cursor { s with bandA := b } hcursor, if_pos hfreetune]
      exact heta _ _ _ _ hoffset.symm hshift.symm hrun.symm hplaced.bandA.symm
    | false =>
      rw [hcursor] at hoffset hshift hrun
      rw [placeCursor_plain { s with bandA := b } hcursor]
      exact heta _ _ _ _ hoffset.symm hshift.symm hrun.symm hplaced.bandA.symm
  have hpassband : (if s.subrxEnable then { s with frequencyB := s.passbandB } else s) = s := by
    split_ifs with hsub
    · rw [hplaced.passband hsub]
    · rfl
  have hvfoB : s.syncVfoBLo = s := by
    have heta (band : ℕ) (lo error : ℤ) (hband : band = s.bandB) (hlo : lo = s.loB)
        (herror : error = s.errorB) : { s with bandB := band, loB := lo, errorB := error } = s := by
      subst hband hlo herror
      rfl
    exact heta _ _ _ hplaced.bandB.symm hplaced.loB.symm hplaced.errorB.symm
  unfold frequencyChanged
  dsimp only
  rw [hsync, hclamp, hcursor, hpassband, hvfoB]

/-- Nothing changes when `frequency_changed` is called again. -/
theorem frequencyChanged_frequencyChanged (howner : s.owner = true) (hctun : s.ctun = false)
    (hfits : s.subrxEnable = true → s.Fits) :
    s.frequencyChanged.frequencyChanged = s.frequencyChanged := by
  have hsettings := s.frequencyChanged_settings
  apply frequencyChanged_of_placed
  · rw [hsettings]
    exact howner
  · rw [hsettings]
    exact hctun
  · exact placed_frequencyChanged hctun hfits
  · rw [hsettings]
    exact s.stays_frequencyChanged

/-! ## A run -/

/-- A receiver as `frequency_changed` leaves it. -/
structure Home (s : Rx) : Prop where
  startupDone : s.startupDone = true
  owner : s.owner = true
  ctun : s.ctun = false
  stays : s.Stays s.loA s.errorA s.frequencyA
  bandA : s.bandA = s.getBandFromFrequency s.frequencyA

theorem home_frequencyChanged (hstartup : s.startupDone = true) (howner : s.owner = true)
    (hctun : s.ctun = false) : s.frequencyChanged.Home := by
  have hsettings := s.frequencyChanged_settings
  refine ⟨?_, ?_, ?_, ?_, ?_⟩
  · rw [hsettings, hstartup]
  · rw [hsettings, howner]
  · rw [hsettings, hctun]
  · rw [hsettings]
    exact s.stays_frequencyChanged
  · rw [frequencyChanged_bandA hctun, hsettings]

theorem Home.congr (hs : s.Home) (hdial : SameDial s t) (hband : t.bandA = s.bandA) : t.Home where
  startupDone := hdial.settings ▸ hs.startupDone
  owner := hdial.settings ▸ hs.owner
  ctun := hdial.settings ▸ hs.ctun
  stays := by
    rw [hdial.settings, hdial.loA, hdial.errorA, hdial.frequencyA]
    exact hs.stays
  bandA := by rw [hband, hdial.settings, hdial.frequencyA, hs.bandA]

theorem Belongs.congr (hdial : SameDial s t) (hband : t.bandA = s.bandA) :
    t.Belongs ↔ s.Belongs := by
  unfold Belongs
  rw [hdial.settings, hdial.loA, hband]

theorem Home.frequencyChanged (hs : s.Home) :
    SameDial s s.frequencyChanged ∧ s.frequencyChanged.bandA = s.bandA := by
  have hdial := (s.sameDial_syncTransverter hs.stays).trans
    (s.sameDial_frequencyChanged_of_owner hs.owner)
  refine ⟨hdial, ?_⟩
  rw [frequencyChanged_bandA hs.ctun, hdial.frequencyA, hs.bandA]

theorem Home.belongs_iff (hs : s.Home) : s.Belongs ↔ s.Agrees s.loA s.frequencyA := by
  obtain ⟨hdial, hband⟩ := hs.frequencyChanged
  rw [← Belongs.congr hdial hband]
  exact belongs_frequencyChanged hs.startupDone hs.owner hs.ctun

/-- The frequencies of the rows are what they were. -/
def SamePlans (s t : Settings) : Prop := ∀ b, (t.bands b).toBandPlan = (s.bands b).toBandPlan

theorem Settings.Agrees.congr {s t : Settings} (hplans : SamePlans s t) (hhl2 : t.hl2 = s.hl2)
    (hmin : t.frequencyMin = s.frequencyMin) (hmax : t.frequencyMax = s.frequencyMax) (lo f : ℤ) :
    t.Agrees lo f ↔ s.Agrees lo f := by
  have hband : t.getBandFromFrequency = s.getBandFromFrequency := by
    funext f
    unfold Settings.getBandFromFrequency
    rw [hhl2]
    simp only [hplans _]
  have hrow : t.converterRow = s.converterRow := by
    funext lo f
    unfold Settings.converterRow
    simp only [hplans _]
  have hlo : t.loOf = s.loOf := by
    funext b
    unfold Settings.loOf
    rw [hplans b]
  have htunable : t.Tunable (f - lo) ↔ s.Tunable (f - lo) := by
    unfold Settings.Tunable
    rw [hmin, hmax]
  unfold Settings.Agrees
  dsimp only
  rw [hband, hrow, hlo]
  simp only [htunable]

/-- What an operation leaves: the receiver is home, and the dial was at `f` with the converter `lo`
when `frequency_changed` was called. -/
structure Ends (s t : Rx) (lo f : ℤ) : Prop where
  home : t.Home
  plans : SamePlans s.toSettings t.toSettings
  belongs : t.Belongs ↔ s.Agrees lo f

/-- Where VFO A and its converter are not touched. -/
theorem Home.ends (hs : s.Home) (hdial : SameDial s t) (hband : t.bandA = s.bandA) :
    s.Ends t s.loA s.frequencyA where
  home := hs.congr hdial hband
  plans := fun b => by rw [hdial.settings]
  belongs := (Belongs.congr hdial hband).trans hs.belongs_iff

/-- `frequency_changed` at the end of an operation. -/
theorem Home.ends_of_plans (hs : s.Home) (hplans : SamePlans s.toSettings u.toSettings)
    (hhl2 : u.hl2 = s.hl2) (hmin : u.frequencyMin = s.frequencyMin)
    (hmax : u.frequencyMax = s.frequencyMax) (hstartup : u.startupDone = s.startupDone)
    (howner : u.owner = s.owner) (hctun : u.ctun = false) :
    s.Ends u.frequencyChanged u.loA u.frequencyA where
  home := home_frequencyChanged (hstartup.trans hs.startupDone) (howner.trans hs.owner) hctun
  plans := fun b => by rw [u.frequencyChanged_settings, hplans b]
  belongs := by
    rw [← Settings.Agrees.congr hplans hhl2 hmin hmax]
    exact belongs_frequencyChanged (hstartup.trans hs.startupDone) (howner.trans hs.owner) hctun

theorem Home.ends_changed (hs : s.Home) (hsettings : u.toSettings = s.toSettings) :
    s.Ends u.frequencyChanged u.loA u.frequencyA := by
  apply hs.ends_of_plans
  · intro b
    rw [hsettings]
  all_goals rw [hsettings]
  exact hs.ctun

theorem Ends.congr {lo f : ℤ} (h : s.Ends t lo f) (hdial : SameDial t u)
    (hband : u.bandA = t.bandA) : s.Ends u lo f where
  home := h.home.congr hdial hband
  plans := fun b => by rw [hdial.settings, h.plans b]
  belongs := (Belongs.congr hdial hband).trans h.belongs

/-! ## The operations -/

variable (s) in
/-- A move of VFO B leaves the converter of the band. -/
def FittingB (hz : ℤ) (round : Bool) : Prop :=
  s.locked = false → ¬ s.RefusedB s.frequencyB (s.frequencyB + hz) → s.vfoLinked = true →
    s.split = .sat ∨ s.split = .rsat →
      s.Agrees s.loA (s.dialA (if s.split = .sat then hz else -hz) round)

variable (s) in
/-- An operation that leaves the converter of the band. -/
def Fitting : DialOp → Prop
  | .tune (.move hz round) => s.locked = false → s.Agrees s.loA (s.dialA hz round)
  | .tune (.moveB hz round) => s.FittingB hz round
  | .tune (.moveTo hz panned) =>
    s.locked = false → s.hasCursor = false → s.clicksB = false →
      s.Agrees s.loA (s.clicked hz panned)
  | .tune (.moveSpan hz) =>
    s.locked = false → hz ≠ 0 → ¬ s.Refused s.frequencyA (s.frequencyA - hz) →
      s.Agrees s.loA (s.frequencyA - hz)
  | .tune (.apply target true) => s.FittingB (target - s.frequencyB) false
  | .tune (.apply target false) =>
    s.locked = false → s.Agrees s.loA (s.dialA (s.pull (target - s.tunedFrequency)) false)
  | .setBand band bsEntry =>
    s.locked = false → s.Agrees (s.loOf band) (s.bandFrequency band bsEntry)
  | .vfoB2a | .vfoAswapb _ => s.locked = false → s.Agrees s.loB s.frequencyB
  | .tune (.step _) | .vfoA2b _ => True

/-- An operation that ends in `frequency_changed`. -/
theorem Home.ends_redialled (hs : s.Home) {lo f c : ℤ} (h : Redialled s.toSettings lo f c t) :
    s.Ends t lo f := by
  obtain ⟨u, hut, hsettings, rfl, rfl, -⟩ := h
  exact (hs.ends_changed hsettings).congr hut.toSameDial hut.bandA

/-- An operation and the condition on it. -/
def Does (s t : Rx) (c : Prop) : Prop := ∃ lo f, s.Ends t lo f ∧ (s.Agrees lo f ↔ c)

/-- VFO A and its converter are not touched, and the converter is that of the band. -/
theorem Home.does (hs : s.Home) (hbelongs : s.Belongs) (hdial : SameDial s t)
    (hband : t.bandA = s.bandA) {c : Prop} (hc : c) : s.Does t c :=
  ⟨_, _, hs.ends hdial hband, iff_of_true (hs.belongs_iff.1 hbelongs) hc⟩

/-- So it is when the receiver is locked, and the condition asks for nothing. -/
theorem Home.does_locked (hs : s.Home) (hbelongs : s.Belongs) (hlocked : s.locked = true)
    {c : Prop} : s.Does s (s.locked = false → c) :=
  hs.does hbelongs (SameDial.refl s) rfl (fun h => absurd (h.symm.trans hlocked) (by decide))

theorem does_receiverMove (hs : s.Home) (hbelongs : s.Belongs) (hz : ℤ) (round : Bool) :
    s.Does (s.receiverMove hz round) (s.locked = false → s.Agrees s.loA (s.dialA hz round)) := by
  cases hlocked : s.locked with
  | true =>
    rw [receiverMove_locked hlocked, ← hlocked]
    exact hs.does_locked hbelongs hlocked
  | false =>
    exact ⟨_, _, hs.ends_redialled (redialled_receiverMove hlocked hz round), by simp⟩

theorem does_receiverMoveB (hs : s.Home) (hbelongs : s.Belongs) (hz : ℤ) (round : Bool) :
    s.Does (s.receiverMoveB hz false round) (s.FittingB hz round) := by
  unfold FittingB
  by_cases hstays : s.locked = true ∨ s.RefusedB s.frequencyB (s.frequencyB + hz)
  · rw [receiverMoveB_stays hstays]
    refine hs.does hbelongs (SameDial.refl s) rfl fun hlocked hB => ?_
    rcases hstays with h | h
    · exact absurd (hlocked.symm.trans h) (by decide)
    · exact absurd h hB
  · push Not at hstays
    obtain ⟨hlocked, hB⟩ := hstays
    have hlocked : s.locked = false := by simpa using hlocked
    by_cases hpair : s.vfoLinked = true ∧ (s.split = .sat ∨ s.split = .rsat)
    · have hends := hs.ends_redialled (redialled_receiverMoveB round hlocked hB hpair.1 hpair.2)
      exact ⟨_, _, hends, fun h _ _ _ _ => h, fun h => h hlocked hB hpair.1 hpair.2⟩
    · have halone := s.sameA_receiverMoveB hz false round (.inr hpair)
      exact hs.does hbelongs halone.toSameDial halone.bandA
        (fun _ _ hlinked hsplit => absurd ⟨hlinked, hsplit⟩ hpair)

theorem does_receiverMoveTo (hs : s.Home) (hbelongs : s.Belongs) (hz panned : ℤ) :
    s.Does (s.receiverMoveTo hz panned) (s.locked = false → s.hasCursor = false →
      s.clicksB = false → s.Agrees s.loA (s.clicked hz panned)) := by
  cases hlocked : s.locked with
  | true =>
    rw [receiverMoveTo_locked hlocked, ← hlocked]
    exact hs.does_locked hbelongs hlocked
  | false =>
    refine ⟨_, _, hs.ends_redialled (redialled_receiverMoveTo hlocked hz panned), ?_⟩
    have hhere := hs.belongs_iff.1 hbelongs
    cases s.hasCursor <;> cases s.clicksB <;> simp [hhere]

theorem does_receiverMoveSpan (hs : s.Home) (hbelongs : s.Belongs) (hz : ℤ) :
    s.Does (s.receiverMoveSpan hz) (s.locked = false → hz ≠ 0 →
      ¬ s.Refused s.frequencyA (s.frequencyA - hz) → s.Agrees s.loA (s.frequencyA - hz)) := by
  by_cases hmoves : s.locked = false ∧ hz ≠ 0 ∧ ¬ s.Refused s.frequencyA (s.frequencyA - hz)
  · obtain ⟨hlocked, hzero, hrefused⟩ := hmoves
    have hends := hs.ends_redialled (redialled_receiverMoveSpan hlocked hzero hrefused)
    exact ⟨_, _, hends, fun h _ _ _ => h, fun h => h hlocked hzero hrefused⟩
  · rw [receiverMoveSpan_stays hmoves]
    exact hs.does hbelongs (SameDial.refl s) rfl
      (fun hlocked hzero hrefused => absurd ⟨hlocked, hzero, hrefused⟩ hmoves)

theorem does_vfoApplyFrequency (hs : s.Home) (hbelongs : s.Belongs) (target : ℤ) (isB : Bool) :
    s.Does (s.vfoApplyFrequency target isB) (s.Fitting (.tune (.apply target isB))) := by
  cases hlocked : s.locked with
  | true =>
    rw [vfoApplyFrequency_locked hlocked]
    cases isB with
    | true => exact hs.does_locked hbelongs hlocked
    | false => exact hs.does_locked hbelongs hlocked
  | false =>
    cases isB with
    | true =>
      rw [vfoApplyFrequency_b hlocked]
      obtain ⟨lo, f, hends, hiff⟩ := does_receiverMoveB hs hbelongs (target - s.frequencyB) false
      obtain ⟨hdial, hband⟩ := hends.home.frequencyChanged
      exact ⟨lo, f, hends.congr hdial hband, hiff⟩
    | false =>
      rw [vfoApplyFrequency_a hlocked]
      exact does_receiverMove hs hbelongs _ false

/-- What `set_band` stores is what the row had. -/
theorem storeBand_plan (hbelongs : s.Belongs) (band : ℕ) (bsEntry : ℤ) (b : ℕ) :
    (s.storeBand band bsEntry b).toBandPlan = (s.bands b).toBandPlan := by
  unfold storeBand
  split_ifs
  · by_cases hb : b = s.bandA
    · subst hb
      rw [Function.update_self, hbelongs]
      rfl
    · rw [Function.update_of_ne hb]
  · rfl

theorem openBand_plan (hbelongs : s.Belongs) (band : ℕ) (bsEntry : ℤ) :
    (s.openBand band bsEntry).toBandPlan = (s.bands band).toBandPlan := by
  rw [← storeBand_plan hbelongs band bsEntry band]
  unfold openBand
  split
  · rfl
  · rfl

theorem does_setBand (hs : s.Home) (hbelongs : s.Belongs) (band : ℕ) (bsEntry : ℤ) :
    s.Does (s.setBand band bsEntry) (s.Fitting (.setBand band bsEntry)) := by
  cases hlocked : s.locked with
  | true =>
    rw [setBand_locked hlocked]
    exact hs.does_locked hbelongs hlocked
  | false =>
    have hopen := openBand_plan hbelongs band bsEntry
    obtain ⟨u, hut, hsettings, hlo, hf, -⟩ := redialled_setBand hlocked band bsEntry
    have hplans : SamePlans s.toSettings u.toSettings := by
      intro c
      rw [hsettings]
      change (Function.update (s.storeBand band bsEntry) band _ c).toBandPlan = _
      by_cases hc : c = band
      · subst hc
        rw [Function.update_self, hopen]
      · rw [Function.update_of_ne hc, storeBand_plan hbelongs]
    have hends := hs.ends_of_plans (u := u) hplans (by rw [hsettings]; rfl) (by rw [hsettings]; rfl)
      (by rw [hsettings]; rfl) (by rw [hsettings]; rfl) (by rw [hsettings]; rfl)
      (by rw [hsettings]; rfl)
    have hbandLo : (s.openBand band bsEntry).frequencyLO = s.loOf band :=
      congrArg BandPlan.frequencyLO hopen
    rw [hlo, hf, hbandLo] at hends
    exact ⟨_, _, hends.congr hut.toSameDial hut.bandA, fun h _ => h, fun h => h hlocked⟩

/-- The copies and the swap. -/
theorem does_copy (hs : s.Home) (hbelongs : s.Belongs) :
    (∀ edges, s.Does (s.vfoA2b edges) True) ∧
    s.Does s.vfoB2a (s.locked = false → s.Agrees s.loB s.frequencyB) ∧
    ∀ edges, s.Does (s.vfoAswapb edges) (s.locked = false → s.Agrees s.loB s.frequencyB) := by
  have hhere := hs.belongs_iff.1 hbelongs
  refine ⟨fun edges => ?_, ?_, fun edges => ?_⟩
  · exact ⟨_, _, hs.ends_of_plans (fun _ => rfl) rfl rfl rfl rfl rfl hs.ctun,
      iff_of_true hhere trivial⟩
  · cases hlocked : s.locked with
    | true =>
      rw [vfoB2a_locked hlocked, ← hlocked]
      exact hs.does_locked hbelongs hlocked
    | false =>
      unfold vfoB2a
      rw [if_neg (by simp [hlocked])]
      exact ⟨_, _, hs.ends_of_plans (fun _ => rfl) rfl rfl rfl rfl rfl hs.ctun, by simp⟩
  · cases hlocked : s.locked with
    | true =>
      rw [vfoAswapb_locked hlocked, ← hlocked]
      exact hs.does_locked hbelongs hlocked
    | false =>
      unfold vfoAswapb
      rw [if_neg (by simp [hlocked])]
      exact ⟨_, _, hs.ends_of_plans (fun _ => rfl) rfl rfl rfl rfl rfl hs.ctun, by simp⟩

/-- **One operation** leaves the converter of the band if and only if it is fitting. -/
theorem does_dial (hs : s.Home) (hbelongs : s.Belongs) (a : DialOp) :
    s.Does (s.dial a) (s.Fitting a) := by
  obtain ⟨ha2b, hb2a, haswapb⟩ := does_copy hs hbelongs
  cases a with
  | tune a =>
    cases a with
    | move hz round => exact does_receiverMove hs hbelongs hz round
    | moveB hz round => exact does_receiverMoveB hs hbelongs hz round
    | moveTo hz panned => exact does_receiverMoveTo hs hbelongs hz panned
    | moveSpan hz => exact does_receiverMoveSpan hs hbelongs hz
    | apply target isB => exact does_vfoApplyFrequency hs hbelongs target isB
    | step step =>
      exact ⟨s.loA, s.frequencyA,
        ⟨⟨hs.startupDone, hs.owner, hs.ctun, hs.stays, hs.bandA⟩, fun _ => rfl, hs.belongs_iff⟩,
        iff_of_true (hs.belongs_iff.1 hbelongs) trivial⟩
  | setBand band bsEntry => exact does_setBand hs hbelongs band bsEntry
  | vfoA2b edges => exact ha2b edges
  | vfoB2a => exact hb2a
  | vfoAswapb edges => exact haswapb edges

end Rx

open Rx

/-- A receiver whose dial is set. -/
def dialer (s : Rx) : System Rx DialOp where
  init := s
  step s a := some (s.dial a)

/-- **The converter and the band.** A call of `frequency_changed` leaves the converter of the band
that it shows if and only if the dial and the converter agree; it keeps what the hardware is tuned
to, and calling it again changes nothing. After it, every state of a run has the converter of its
band and the rows as they were if and only if every operation of the run is fitting. -/
theorem converter (s : Rx) (hstartup : s.startupDone = true) (howner : s.owner = true)
    (hctun : s.ctun = false) :
    (s.frequencyChanged.Belongs ↔ s.Agrees s.loA s.frequencyA) ∧
    (s.Tunable (s.frequencyA - s.loA) →
      s.frequencyChanged.frequencyA - s.frequencyChanged.loA = s.frequencyA - s.loA) ∧
    ((s.subrxEnable = true → s.Fits) → s.frequencyChanged.frequencyChanged = s.frequencyChanged) ∧
    ∀ as, (dialer s.frequencyChanged).Throughout
        (fun t => t.Belongs ∧ SamePlans s.toSettings t.toSettings) s.frequencyChanged as ↔
      s.Agrees s.loA s.frequencyA ∧
        (dialer s.frequencyChanged).Along Fitting s.frequencyChanged as := by
  have hcall := belongs_frequencyChanged hstartup howner hctun
  refine ⟨hcall, hardware_frequencyChanged howner, frequencyChanged_frequencyChanged howner hctun,
    fun as => ?_⟩
  have hplans : SamePlans s.toSettings s.frequencyChanged.toSettings := fun b => by
    rw [s.frequencyChanged_settings]
  rw [← hcall]
  by_cases hbelongs : s.frequencyChanged.Belongs
  · rw [and_iff_right hbelongs, (dialer s.frequencyChanged).throughout_iff_along
      (P := fun t => t.Belongs ∧ SamePlans s.toSettings t.toSettings) as ⟨hbelongs, hplans⟩]
    refine (dialer s.frequencyChanged).along_congr
      (I := fun t => t.Home ∧ t.Belongs ∧ SamePlans s.toSettings t.toSettings) ?_ ?_ as
      ⟨home_frequencyChanged hstartup howner hctun, hbelongs, hplans⟩
    · rintro t a v ⟨hhome, ht, -⟩ hkept hv
      refine ⟨?_, hkept v hv⟩
      obtain rfl := Option.some.inj hv
      obtain ⟨lo, f, hends, -⟩ := does_dial hhome ht a
      exact hends.home
    · rintro t a ⟨hhome, ht, hplans⟩
      obtain ⟨lo, f, hends, hiff⟩ := does_dial hhome ht a
      rw [← hiff, ← hends.belongs]
      constructor
      · exact fun h => (h _ rfl).1
      · rintro h v hv
        obtain rfl := Option.some.inj hv
        exact ⟨h, fun b => (hends.plans b).trans (hplans b)⟩
  · refine iff_of_false (fun h => ?_) (fun h => hbelongs h.1)
    exact hbelongs (h [] _ (List.nil_prefix) rfl).1

/-! ## A receiver with the converter of QO-100 -/

/-- The 20 m band, and a transverter. -/
def qo100Table (b : ℕ) : Band :=
  if b = 7 then ⟨⟨"20", 14000000, 14350000, 0⟩, 0, 0, fun _ => ⟨14200000, .usb⟩⟩
  else if b = 24 then
    ⟨⟨"QO100", 10489500000, 10490000000, 9750000000⟩, 0, 0, fun _ => ⟨10489600000, .usb⟩⟩
  else ⟨⟨"", 0, 0, 0⟩, 0, 0, fun _ => ⟨0, .usb⟩⟩

/-- It listens on 20 m. -/
def twentyMetres : Rx where
  modeA := .usb
  modeB := .usb
  filterLowB := 150
  filterHighB := 2850
  ctun := false
  freetune := false
  ritEnabled := false
  rit := 0
  sampleRate := 192000
  step := 100
  split := .off
  vfoLinked := false
  locked := false
  subrx := false
  subrxEnable := false
  owner := true
  adcLo := 0
  hwRate := 192000
  ppmCorrection := fun _ => 0
  bands := qo100Table
  hl2 := false
  frequencyMin := 0
  frequencyMax := 6000000000
  cwKeyerSidetoneFrequency := 400
  startupDone := true
  frequencyA := 14200000
  loA := 0
  errorA := 0
  bandA := 7
  frequencyB := 14200000
  loB := 0
  errorB := 0
  bandB := 7
  ctunFrequency := 14200000
  ctunOffset := 0
  shiftOffset := 0
  shiftRun := false

instance (s : Settings) (lo f : ℤ) : Decidable (s.Agrees lo f) := by
  unfold Settings.Agrees
  infer_instance

/-- The band menu takes it to the transverter and back. -/
theorem converter_bandMenu : (dialer twentyMetres.frequencyChanged).Throughout
    (fun t => t.Belongs ∧ SamePlans twentyMetres.toSettings t.toSettings)
    twentyMetres.frequencyChanged [.setBand 24 (-1), .setBand 7 (-1)] := by
  refine ((converter twentyMetres rfl rfl rfl).2.2.2 _).2 ⟨by decide, fun _ => by decide, ?_⟩
  intro t ht
  obtain rfl := Option.some.inj ht
  exact ⟨fun _ => by decide, fun _ _ => trivial⟩

/-- A frequency that is typed in takes it into the transverter band without the converter, and the
next band change wipes the local oscillator. -/
theorem not_converter :
    (∃ t, (dialer twentyMetres).exec twentyMetres [.tune (.apply 10489600000 false)] = some t ∧
      t.bandA = 24 ∧ t.loA = 0 ∧ t.loOf 24 = 9750000000) ∧
    ∃ t, (dialer twentyMetres).exec twentyMetres
        [.tune (.apply 10489600000 false), .setBand 7 (-1)] = some t ∧ t.loOf 24 = 0 :=
  ⟨⟨_, rfl, by decide, by decide, by decide⟩, ⟨_, rfl, by decide⟩⟩

end MacHPSDR.Receiver
