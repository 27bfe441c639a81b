import MacHPSDR.Foundations.Transition
import MacHPSDR.Receiver.Converter
import Mathlib

/-!
# What a receiver remembers for each mode

A receiver keeps the filter, the AGC and the squelch of each mode. `receiver_mode_changed` files
what is in force under the mode that it finds, and takes what is filed under the new one. `set_band`
and the copies of VFO B write the new mode first, and so what is in force is filed under the new
mode: the AGC and the squelch of the mode just left go into the mode that is entered.
-/

namespace MacHPSDR.Receiver

open Radio (Mode)

/-- `FILTERS` -/
def filterCount : ℕ := 12

instance : NeZero filterCount := ⟨by decide⟩

/-- What goes with a mode. -/
structure ModeSettings where
  filter : Fin filterCount
  agc : ℤ
  squelch : ℚ

/-- A receiver with what it remembers. -/
structure ModeRx extends Rx where
  filterA : Fin filterCount
  filterB : Fin filterCount
  agc : ℤ
  squelch : ℚ
  modeFilter : Mode → Fin filterCount
  modeAgc : Mode → ℤ
  modeSquelch : Mode → ℚ
  /-- The filter of an entry of a band stack. -/
  entryFilter : ℕ → ℤ → Fin filterCount
  /-- It has a DSP channel. -/
  hasChannel : Bool

/-- The number that a client sends for a mode. -/
def modeOf (m : ℤ) : Option Mode :=
  if m < 0 then none
  else
    [Mode.lsb, .usb, .dsb, .cwl, .cwu, .fmn, .am, .digu, .spec, .digl, .sam, .drm, .wfm][m.toNat]?

namespace ModeRx

variable (s : ModeRx)

/-- `set_squelch` -/
def setSquelch : ModeRx :=
  if s.hasChannel then
    { s with modeSquelch := Function.update s.modeSquelch s.modeA s.squelch }
  else s

/-- `receiver_filter_changed` -/
def receiverFilterChanged (filter : ℤ) : ModeRx :=
  if h : 0 ≤ filter ∧ filter < filterCount then
    let f : Fin filterCount := ⟨filter.toNat, by omega⟩
    let t := { s with filterA := f, modeFilter := Function.update s.modeFilter s.modeA f }
    -- `set_deviation` sets the squelch again
    if t.modeA = .fmn then t.setSquelch else t
  else s

/-- `receiver_mode_changed`, for a mode that there is. -/
def enterMode (mode : Mode) : ModeRx :=
  let t := { s with
    modeFilter := Function.update s.modeFilter s.modeA s.filterA
    modeAgc := Function.update s.modeAgc s.modeA s.agc
    modeSquelch := Function.update s.modeSquelch s.modeA s.squelch }
  let t := { t with modeA := mode }
  let t := { t with
    filterA := t.modeFilter mode
    agc := t.modeAgc mode
    squelch := t.modeSquelch mode }
  t.setSquelch.receiverFilterChanged t.setSquelch.filterA

/-- `receiver_mode_changed` -/
def receiverModeChanged (mode : ℤ) : ModeRx :=
  match modeOf mode with
  | some mode => s.enterMode mode
  | none => s

/-- A new AGC speed. The menu and the shortcuts file it at once, CAT and MIDI leave it to the next
change of the mode. -/
def agcChanged (agc : ℤ) (files : Bool) : ModeRx :=
  let t := { s with agc := agc }
  if files then { t with modeAgc := Function.update t.modeAgc t.modeA agc } else t

/-- A new squelch. -/
def squelchChanged (squelch : ℚ) : ModeRx := { s with squelch := squelch }.setSquelch

/-- `set_band`; what it does to the dial is in `Rx.setBand`, and neither reads nor writes what is
remembered. -/
def setBand (band : ℕ) (bsEntry : ℤ) : ModeRx :=
  if s.locked then s
  else
    let b := s.bands s.bandA
    let entryFilter :=
      if band ≠ s.bandA ∨ bsEntry ≠ b.currentEntry then
        Function.update s.entryFilter s.bandA
          (Function.update (s.entryFilter s.bandA) b.currentEntry s.filterA)
      else s.entryFilter
    let t := { s with
      toRx := s.toRx.setBand band bsEntry
      filterA := entryFilter band (s.openBand band bsEntry).currentEntry
      entryFilter := entryFilter }
    let t := t.enterMode t.modeA
    t.receiverFilterChanged t.filterA

/-- `vfo_a2b` -/
def vfoA2b (edges : ℤ × ℤ) : ModeRx :=
  { s with toRx := s.toRx.vfoA2b edges, filterB := s.filterA }

/-- `vfo_b2a` -/
def vfoB2a : ModeRx :=
  if s.locked then s
  else
    let m := s.modeA
    let f := s.filterA
    let t := { s with toRx := s.toRx.vfoB2a, filterA := s.filterB }
    if m ≠ t.modeA then t.enterMode t.modeA
    else if f ≠ t.filterA then t.receiverFilterChanged t.filterA
    else t

/-- `vfo_aswapb` -/
def vfoAswapb (edges : ℤ × ℤ) : ModeRx :=
  if s.locked then s
  else
    let t := { s with
      toRx := s.toRx.vfoAswapb edges
      filterA := s.filterB
      filterB := s.filterA }
    t.enterMode t.modeA

end ModeRx

/-- What changes the mode, and what goes with it. -/
inductive ModeOp
  | modeChanged (mode : ℤ)
  | filterChanged (filter : ℤ)
  | agcChanged (agc : ℤ) (files : Bool)
  | squelchChanged (squelch : ℚ)
  | setBand (band : ℕ) (bsEntry : ℤ)
  | vfoA2b (edges : ℤ × ℤ)
  | vfoB2a
  | vfoAswapb (edges : ℤ × ℤ)

namespace ModeRx

variable (s : ModeRx)

def apply : ModeOp → ModeRx
  | .modeChanged mode => s.receiverModeChanged mode
  | .filterChanged filter => s.receiverFilterChanged filter
  | .agcChanged agc files => s.agcChanged agc files
  | .squelchChanged squelch => s.squelchChanged squelch
  | .setBand band bsEntry => s.setBand band bsEntry
  | .vfoA2b edges => s.vfoA2b edges
  | .vfoB2a => s.vfoB2a
  | .vfoAswapb edges => s.vfoAswapb edges

/-- What is in force. -/
def inForce : ModeSettings := ⟨s.filterA, s.agc, s.squelch⟩

/-- What is remembered. -/
def remembered (m : Mode) : ModeSettings := ⟨s.modeFilter m, s.modeAgc m, s.modeSquelch m⟩

end ModeRx

/-- A receiver, with what was in force when it last was in each mode. -/
structure ModeRun where
  rx : ModeRx
  last : Mode → ModeSettings

namespace ModeRun

variable (r : ModeRun)

def next (a : ModeOp) : ModeRun :=
  let t := r.rx.apply a
  ⟨t, Function.update r.last t.modeA t.inForce⟩

/-- What the step leaves is right: the AGC and the squelch of each mode but the present one are
remembered, and a mode that is entered has its own, and its own filter if it is entered by a change
of the mode. -/
structure Right (r : ModeRun) (a : ModeOp) : Prop where
  remembers : ∀ m, m ≠ (r.next a).rx.modeA →
    (r.next a).rx.modeAgc m = ((r.next a).last m).agc ∧
      (r.next a).rx.modeSquelch m = ((r.next a).last m).squelch
  enters : (r.next a).rx.modeA ≠ r.rx.modeA →
    (r.next a).rx.agc = (r.last (r.next a).rx.modeA).agc ∧
      (r.next a).rx.squelch = (r.last (r.next a).rx.modeA).squelch
  filter : ∀ mode, a = .modeChanged mode → (r.next a).rx.modeA ≠ r.rx.modeA →
    (r.next a).rx.filterA = (r.last (r.next a).rx.modeA).filter

end ModeRun

namespace ModeRx

variable {s t u : ModeRx}

/-! ## Filing and restoring -/

/-- What is in force is what the present mode remembers of the filter. -/
def Mirrors (s : ModeRx) : Prop := s.modeFilter s.modeA = s.filterA

variable (s) in
/-- What is remembered once what is in force is filed. -/
def filed : Mode → ModeSettings := Function.update s.remembered s.modeA s.inForce

/-- Nothing changes but what the present mode remembers. -/
structure Files (s t : ModeRx) : Prop where
  modeA : t.modeA = s.modeA
  agc : t.agc = s.agc
  squelch : t.squelch = s.squelch
  remembered : ∀ m, m ≠ s.modeA → t.remembered m = s.remembered m
  mirrors : s.Mirrors → t.Mirrors

theorem Files.refl (s : ModeRx) : Files s s := ⟨rfl, rfl, rfl, fun _ _ => rfl, fun h => h⟩

theorem Files.trans (h : Files s t) (h' : Files t u) : Files s u where
  modeA := h'.modeA.trans h.modeA
  agc := h'.agc.trans h.agc
  squelch := h'.squelch.trans h.squelch
  remembered := fun m hm =>
    (h'.remembered m (by rwa [h.modeA])).trans (h.remembered m hm)
  mirrors := fun hs => h'.mirrors (h.mirrors hs)

theorem files_setSquelch (s : ModeRx) : Files s s.setSquelch := by
  unfold setSquelch
  split
  · refine ⟨rfl, rfl, rfl, fun m hm => ?_, fun h => h⟩
    unfold remembered
    dsimp only
    rw [Function.update_of_ne hm]
  · exact Files.refl s

theorem setSquelch_filterA (s : ModeRx) : s.setSquelch.filterA = s.filterA := by
  unfold setSquelch
  split <;> rfl

/-- A filter that there is. -/
theorem receiverFilterChanged_eq (f : Fin filterCount) : s.receiverFilterChanged f =
    let t := { s with filterA := f, modeFilter := Function.update s.modeFilter s.modeA f }
    if t.modeA = .fmn then t.setSquelch else t := by
  have hrange : 0 ≤ ((f : ℕ) : ℤ) ∧ ((f : ℕ) : ℤ) < filterCount := by
    have := f.isLt
    omega
  unfold receiverFilterChanged
  rw [dif_pos hrange]
  rfl

theorem files_filter (f : Fin filterCount) :
    Files s (s.receiverFilterChanged f) ∧ (s.receiverFilterChanged f).Mirrors ∧
      (s.receiverFilterChanged f).filterA = f := by
  have hwritten : Files s { s with
      filterA := f, modeFilter := Function.update s.modeFilter s.modeA f } := by
    refine ⟨rfl, rfl, rfl, fun m hm => ?_, fun _ => Function.update_self ..⟩
    unfold remembered
    dsimp only
    rw [Function.update_of_ne hm]
  have hmirrors : Mirrors { s with
      filterA := f, modeFilter := Function.update s.modeFilter s.modeA f } :=
    Function.update_self ..
  rw [receiverFilterChanged_eq]
  dsimp only
  split
  · have hfiles := files_setSquelch { s with
      filterA := f, modeFilter := Function.update s.modeFilter s.modeA f }
    exact ⟨hwritten.trans hfiles, hfiles.mirrors hmirrors, setSquelch_filterA _⟩
  · exact ⟨hwritten, hmirrors, rfl⟩

theorem files_receiverFilterChanged (filter : ℤ) : Files s (s.receiverFilterChanged filter) := by
  by_cases hrange : 0 ≤ filter ∧ filter < filterCount
  · obtain ⟨f, rfl⟩ : ∃ f : Fin filterCount, filter = f :=
      ⟨⟨filter.toNat, by omega⟩, by simp [hrange.1]⟩
    exact (files_filter f).1
  · unfold receiverFilterChanged
    rw [dif_neg hrange]
    exact Files.refl s

/-- **A mode is entered**: what is in force is filed under the mode that is found, and what is filed
under the new one is taken. -/
theorem enterMode_spec (s : ModeRx) (mode : Mode) :
    (s.enterMode mode).modeA = mode ∧ (s.enterMode mode).inForce = s.filed mode ∧
      (∀ m, m ≠ mode → (s.enterMode mode).remembered m = s.filed m) ∧
      (s.enterMode mode).Mirrors := by
  set t : ModeRx := { s with
    modeFilter := Function.update s.modeFilter s.modeA s.filterA
    modeAgc := Function.update s.modeAgc s.modeA s.agc
    modeSquelch := Function.update s.modeSquelch s.modeA s.squelch
    modeA := mode
    filterA := Function.update s.modeFilter s.modeA s.filterA mode
    agc := Function.update s.modeAgc s.modeA s.agc mode
    squelch := Function.update s.modeSquelch s.modeA s.squelch mode } with ht
  have hfiled (m : Mode) : t.remembered m = s.filed m := by
    unfold filed remembered inForce
    by_cases hm : m = s.modeA
    · subst hm
      simp [ht]
    · simp [ht, hm]
  have hforce : t.inForce = s.filed mode := hfiled mode
  have henter : s.enterMode mode = t.setSquelch.receiverFilterChanged t.setSquelch.filterA := rfl
  obtain ⟨hfiles, hmirrors, hfilter⟩ :=
    files_filter (s := t.setSquelch) t.setSquelch.filterA
  have hall := (files_setSquelch t).trans hfiles
  rw [henter]
  refine ⟨hall.modeA, ?_, fun m hm => (hall.remembered m hm).trans (hfiled m), hmirrors⟩
  rw [← hforce]
  unfold inForce
  rw [hfilter, hall.agc, hall.squelch, setSquelch_filterA]

/-! ## What the operations leave -/

/-- The mode stays, and nothing is filed under another. -/
structure Within (s t : ModeRx) : Prop where
  modeA : t.modeA = s.modeA
  remembered : ∀ m, m ≠ s.modeA → t.remembered m = s.remembered m
  mirrors : s.Mirrors → t.Mirrors

/-- The mode `mode` comes from elsewhere, and the AGC and the squelch stay. -/
structure Carries (s t : ModeRx) (mode : Mode) : Prop where
  modeA : t.modeA = mode
  agc : t.agc = s.agc
  squelch : t.squelch = s.squelch
  remembered : ∀ m, m ≠ mode → t.remembered m = s.remembered m
  mirrors : t.Mirrors

theorem Files.within (h : Files s t) : Within s t := ⟨h.modeA, h.remembered, h.mirrors⟩

theorem within_agcChanged (agc : ℤ) (files : Bool) : Within s (s.agcChanged agc files) := by
  unfold agcChanged
  cases files with
  | true =>
    refine ⟨rfl, fun m hm => ?_, fun h => h⟩
    unfold remembered
    simp only [if_true]
    rw [Function.update_of_ne hm]
  | false => exact ⟨rfl, fun _ _ => rfl, fun h => h⟩

theorem within_squelchChanged (squelch : ℚ) : Within s (s.squelchChanged squelch) := by
  have hfiles := files_setSquelch { s with squelch := squelch }
  exact ⟨hfiles.modeA, hfiles.remembered, hfiles.mirrors⟩

/-- A mode is entered that stands there already, with the AGC and the squelch of the one before. -/
theorem carries_enterMode {mode : Mode} (hmode : t.modeA = mode) (hagc : t.agc = s.agc)
    (hsquelch : t.squelch = s.squelch) (hremembered : t.remembered = s.remembered) :
    Carries s (t.enterMode mode) mode := by
  obtain ⟨hmodeA, hforce, hrest, hmirrors⟩ := enterMode_spec t mode
  have hpresent : t.filed mode = t.inForce := by
    unfold filed
    rw [hmode, Function.update_self]
  rw [hpresent] at hforce
  refine ⟨hmodeA, ?_, ?_, fun m hm => ?_, hmirrors⟩
  · exact (congrArg ModeSettings.agc hforce).trans hagc
  · exact (congrArg ModeSettings.squelch hforce).trans hsquelch
  · rw [hrest m hm, ← hremembered]
    unfold filed
    rw [hmode, Function.update_of_ne hm]

theorem Carries.files {mode : Mode} (h : Carries s t mode) (hfiles : Files t u) :
    Carries s u mode where
  modeA := hfiles.modeA.trans h.modeA
  agc := hfiles.agc.trans h.agc
  squelch := hfiles.squelch.trans h.squelch
  remembered := fun m hm =>
    (hfiles.remembered m (by rwa [h.modeA])).trans (h.remembered m hm)
  mirrors := hfiles.mirrors h.mirrors

variable (s) in
/-- The mode of the entry that `set_band` chooses. -/
def bandMode (band : ℕ) (bsEntry : ℤ) : Mode :=
  let b := s.openBand band bsEntry
  (b.entry b.currentEntry).mode

theorem setBand_modeA (hlocked : s.locked = false) (band : ℕ) (bsEntry : ℤ) :
    (s.toRx.setBand band bsEntry).modeA = s.bandMode band bsEntry := by
  obtain ⟨u, hut, hsettings, -⟩ := Rx.redialled_setBand hlocked band bsEntry
  rw [hut.settings, u.frequencyChanged_settings, hsettings]
  rfl

theorem carries_setBand (hlocked : s.locked = false) (band : ℕ) (bsEntry : ℤ) :
    Carries s (s.setBand band bsEntry) (s.bandMode band bsEntry) := by
  have hmode := setBand_modeA hlocked band bsEntry
  unfold setBand
  rw [if_neg (by simp [hlocked])]
  dsimp only
  rw [hmode]
  set entryFilter := if band ≠ s.bandA ∨ bsEntry ≠ (s.bands s.bandA).currentEntry then
    Function.update s.entryFilter s.bandA
      (Function.update (s.entryFilter s.bandA) (s.bands s.bandA).currentEntry s.filterA)
    else s.entryFilter
  have hcarries := carries_enterMode (s := s) (t := { s with
    toRx := s.toRx.setBand band bsEntry
    filterA := entryFilter band (s.openBand band bsEntry).currentEntry
    entryFilter := entryFilter }) hmode rfl rfl rfl
  exact hcarries.files (files_filter _).1

theorem vfoB2a_modeA (hlocked : s.locked = false) : s.toRx.vfoB2a.modeA = s.modeB := by
  obtain ⟨u, hut, hsettings, -⟩ := Rx.redialled_vfoB2a hlocked
  rw [hut.settings, u.frequencyChanged_settings, hsettings]

theorem vfoAswapb_modeA (hlocked : s.locked = false) (edges : ℤ × ℤ) :
    (s.toRx.vfoAswapb edges).modeA = s.modeB := by
  obtain ⟨u, hut, hsettings, -⟩ := Rx.redialled_vfoAswapb hlocked edges
  rw [hut.settings, u.frequencyChanged_settings, hsettings]

theorem carries_vfoB2a (hs : s.Mirrors) (hlocked : s.locked = false) :
    Carries s s.vfoB2a s.modeB := by
  have hmode := vfoB2a_modeA hlocked
  unfold vfoB2a
  rw [if_neg (by simp [hlocked])]
  dsimp only
  rw [hmode]
  split_ifs with henters hfilter
  · exact carries_enterMode (s := s) hmode rfl rfl rfl
  · have hfiles := files_filter (s := { s with toRx := s.toRx.vfoB2a, filterA := s.filterB })
      s.filterB
    exact ⟨hfiles.1.modeA.trans hmode, hfiles.1.agc, hfiles.1.squelch,
      fun m hm => hfiles.1.remembered m (by rwa [hmode]), hfiles.2.1⟩
  · push Not at henters hfilter
    refine ⟨hmode, rfl, rfl, fun _ _ => rfl, ?_⟩
    unfold Mirrors at hs ⊢
    dsimp only
    rw [hmode, ← henters, hs, hfilter]

theorem carries_vfoAswapb (hlocked : s.locked = false) (edges : ℤ × ℤ) :
    Carries s (s.vfoAswapb edges) s.modeB := by
  have hmode := vfoAswapb_modeA hlocked edges
  unfold vfoAswapb
  rw [if_neg (by simp [hlocked])]
  dsimp only
  rw [hmode]
  exact carries_enterMode (s := s) hmode rfl rfl rfl

theorem within_vfoA2b (edges : ℤ × ℤ) : Within s (s.vfoA2b edges) := by
  obtain ⟨u, hut, hsettings, -⟩ := Rx.redialled_vfoA2b (s := s.toRx) edges
  have hmode : (s.toRx.vfoA2b edges).modeA = s.modeA := by
    rw [hut.settings, u.frequencyChanged_settings, hsettings]
  refine ⟨hmode, fun _ _ => rfl, fun hs => ?_⟩
  unfold Mirrors vfoA2b
  dsimp only
  rw [hmode, hs]

/-! ## The condition -/

variable (s) in
/-- The mode that comes in has the AGC and the squelch that are in force, and they are filed. -/
def Matches (mode : Mode) : Prop :=
  mode ≠ s.modeA → s.modeAgc s.modeA = s.agc ∧ s.modeSquelch s.modeA = s.squelch ∧
    s.modeAgc mode = s.agc ∧ s.modeSquelch mode = s.squelch

variable (s) in
/-- An operation that lets no setting leak into another mode. -/
def Separates : ModeOp → Prop
  | .setBand band bsEntry => s.locked = false → s.Matches (s.bandMode band bsEntry)
  | .vfoB2a | .vfoAswapb _ => s.locked = false → s.Matches s.modeB
  | .modeChanged _ | .filterChanged _ | .agcChanged .. | .squelchChanged _ | .vfoA2b _ => True

end ModeRx

open ModeRx

namespace ModeRun

variable {r : ModeRun} {a : ModeOp}

/-- What is remembered is what was in force. -/
structure Good (r : ModeRun) : Prop where
  mirrors : r.rx.Mirrors
  present : r.last r.rx.modeA = r.rx.inForce
  others : ∀ m, m ≠ r.rx.modeA → r.last m = r.rx.remembered m

theorem next_last_self : (r.next a).last (r.next a).rx.modeA = (r.next a).rx.inForce :=
  Function.update_self ..

theorem next_last_of_ne {m : Mode} (hm : m ≠ (r.next a).rx.modeA) :
    (r.next a).last m = r.last m := Function.update_of_ne hm ..

/-- What is remembered, once what is in force is filed, is what was last in force. -/
theorem Good.filed (hr : r.Good) (m : Mode) : r.rx.filed m = r.last m := by
  by_cases hm : m = r.rx.modeA
  · subst hm
    exact (Function.update_self ..).trans hr.present.symm
  · exact (Function.update_of_ne hm ..).trans (hr.others m hm).symm

/-- A step that files what is in force and takes what is filed. -/
theorem Good.step (hmirrors : (r.rx.apply a).Mirrors)
    (hrest : ∀ m, m ≠ (r.rx.apply a).modeA → r.last m = (r.rx.apply a).remembered m) :
    (r.next a).Good where
  mirrors := hmirrors
  present := next_last_self
  others := fun m hm => (next_last_of_ne hm).trans (hrest m hm)

theorem Right.of_rest
    (hrest : ∀ m, m ≠ (r.rx.apply a).modeA → r.last m = (r.rx.apply a).remembered m)
    (henters : (r.rx.apply a).modeA ≠ r.rx.modeA →
      (r.rx.apply a).inForce = r.last (r.rx.apply a).modeA) : Right r a where
  remembers := fun m hm => by
    have hm' : (r.next a).last m = (r.rx.apply a).remembered m :=
      (next_last_of_ne hm).trans (hrest m hm)
    rw [hm']
    exact ⟨rfl, rfl⟩
  enters := fun hne =>
    ⟨congrArg ModeSettings.agc (henters hne), congrArg ModeSettings.squelch (henters hne)⟩
  filter := fun _ _ hne => congrArg ModeSettings.filter (henters hne)

/-- An operation that stays in the mode. -/
theorem Good.within (hr : r.Good) (h : Within r.rx (r.rx.apply a)) :
    Right r a ∧ (r.next a).Good := by
  have hrest : ∀ m, m ≠ (r.rx.apply a).modeA → r.last m = (r.rx.apply a).remembered m := by
    intro m hm
    rw [h.modeA] at hm
    rw [h.remembered m hm, hr.others m hm]
  exact ⟨Right.of_rest hrest fun hne => absurd h.modeA hne,
    Good.step (h.mirrors hr.mirrors) hrest⟩

/-- A change of the mode. -/
theorem Good.enterMode (hr : r.Good) {mode : Mode} (h : r.rx.apply a = r.rx.enterMode mode) :
    Right r a ∧ (r.next a).Good := by
  obtain ⟨hmodeA, hforce, hremembered, hmirrors⟩ := enterMode_spec r.rx mode
  rw [← h] at hmodeA hforce hremembered hmirrors
  have hrest : ∀ m, m ≠ (r.rx.apply a).modeA → r.last m = (r.rx.apply a).remembered m := by
    intro m hm
    rw [hmodeA] at hm
    rw [hremembered m hm, hr.filed]
  refine ⟨Right.of_rest hrest fun _ => ?_, Good.step hmirrors hrest⟩
  rw [hforce, hr.filed, hmodeA]

/-- A mode that comes from elsewhere has its own settings exactly when they are those in force. -/
theorem Good.carries (hr : r.Good) {mode : Mode} (h : Carries r.rx (r.rx.apply a) mode)
    (hother : ∀ m, a ≠ .modeChanged m) :
    (Right r a ↔ r.rx.Matches mode) ∧ (Right r a → (r.next a).Good) := by
  have hkept : ∀ m, m ≠ mode → m ≠ r.rx.modeA → r.last m = (r.rx.apply a).remembered m := by
    intro m hm hpresent
    rw [h.remembered m hm, hr.others m hpresent]
  -- what is remembered of the mode that is left
  have hleft : mode ≠ r.rx.modeA → (r.last r.rx.modeA = (r.rx.apply a).remembered r.rx.modeA ↔
      r.rx.modeAgc r.rx.modeA = r.rx.agc ∧ r.rx.modeSquelch r.rx.modeA = r.rx.squelch) := by
    intro hne
    rw [h.remembered _ hne.symm, hr.present]
    unfold inForce ModeRx.remembered
    rw [hr.mirrors]
    simp only [ModeSettings.mk.injEq, true_and]
    exact ⟨fun hsame => ⟨hsame.1.symm, hsame.2.symm⟩, fun hsame => ⟨hsame.1.symm, hsame.2.symm⟩⟩
  have hmatches : Right r a → r.rx.Matches mode := by
    intro hright hne
    have hmodeA : (r.next a).rx.modeA = mode := h.modeA
    have hremembers := hright.remembers r.rx.modeA (by rw [hmodeA]; exact hne.symm)
    have henters := hright.enters (by rw [hmodeA]; exact hne)
    have hown : (r.rx.apply a).remembered r.rx.modeA = r.rx.remembered r.rx.modeA :=
      h.remembered _ hne.symm
    have hlast : (r.next a).last r.rx.modeA = r.rx.inForce :=
      (next_last_of_ne (by rw [hmodeA]; exact hne.symm)).trans hr.present
    rw [hlast] at hremembers
    rw [hmodeA, hr.others mode hne] at henters
    refine ⟨?_, ?_, ?_, ?_⟩
    · exact (congrArg ModeSettings.agc hown).symm.trans hremembers.1
    · exact (congrArg ModeSettings.squelch hown).symm.trans hremembers.2
    · exact henters.1.symm.trans h.agc
    · exact henters.2.symm.trans h.squelch
  have hrest : r.rx.Matches mode →
      ∀ m, m ≠ (r.rx.apply a).modeA → r.last m = (r.rx.apply a).remembered m := by
    intro hsame m hm
    rw [h.modeA] at hm
    by_cases hpresent : m = r.rx.modeA
    · subst hpresent
      obtain ⟨hagc, hsquelch, -⟩ := hsame hm.symm
      exact (hleft hm.symm).mpr ⟨hagc, hsquelch⟩
    · exact hkept m hm hpresent
  refine ⟨⟨hmatches, fun hsame => ?_⟩, fun hright =>
    Good.step h.mirrors (hrest (hmatches hright))⟩
  refine ⟨fun m hm => ?_, fun hne => ?_, fun m hm => absurd hm (hother m)⟩
  · have hm' : (r.next a).last m = (r.rx.apply a).remembered m :=
      (next_last_of_ne hm).trans (hrest hsame m hm)
    rw [hm']
    exact ⟨rfl, rfl⟩
  · have hmodeA : (r.next a).rx.modeA = mode := h.modeA
    rw [hmodeA] at hne ⊢
    obtain ⟨-, -, hagc, hsquelch⟩ := hsame hne
    rw [hr.others mode hne]
    exact ⟨h.agc.trans hagc.symm, h.squelch.trans hsquelch.symm⟩

/-- A step is right exactly when it lets nothing leak, and then what is remembered stays so. -/
theorem Good.right_iff (hr : r.Good) (a : ModeOp) :
    (Right r a ↔ r.rx.Separates a) ∧ (Right r a → (r.next a).Good) := by
  have hstays (h : Right r a ∧ (r.next a).Good) (ha : r.rx.Separates a) :
      (Right r a ↔ r.rx.Separates a) ∧ (Right r a → (r.next a).Good) :=
    ⟨iff_of_true h.1 ha, fun _ => h.2⟩
  have hlocked (h : r.rx.apply a = r.rx) : Right r a ∧ (r.next a).Good :=
    hr.within (by rw [h]; exact ⟨rfl, fun _ _ => rfl, fun hs => hs⟩)
  have hcarries (mode : Mode) (hother : ∀ m, a ≠ .modeChanged m)
      (hstuck : r.rx.locked = true → r.rx.apply a = r.rx)
      (h : r.rx.locked = false → Carries r.rx (r.rx.apply a) mode) :
      (Right r a ↔ (r.rx.locked = false → r.rx.Matches mode)) ∧ (Right r a → (r.next a).Good) := by
    cases hl : r.rx.locked with
    | true =>
      obtain ⟨hright, hgood⟩ := hlocked (hstuck hl)
      exact ⟨iff_of_true hright (by simp), fun _ => hgood⟩
    | false =>
      obtain ⟨hiff, hgood⟩ := hr.carries (h hl) hother
      exact ⟨hiff.trans (by simp), hgood⟩
  cases a with
  | modeChanged mode =>
    refine hstays ?_ trivial
    cases h : modeOf mode with
    | none => exact hlocked (by simp only [ModeRx.apply, receiverModeChanged, h])
    | some m =>
      have hentered : r.rx.apply (.modeChanged mode) = r.rx.enterMode m := by
        simp only [ModeRx.apply, receiverModeChanged, h]
      exact hr.enterMode hentered
  | filterChanged filter =>
    exact hstays (hr.within (files_receiverFilterChanged filter).within) trivial
  | agcChanged agc files => exact hstays (hr.within (within_agcChanged agc files)) trivial
  | squelchChanged squelch => exact hstays (hr.within (within_squelchChanged squelch)) trivial
  | setBand band bsEntry =>
    exact hcarries (r.rx.bandMode band bsEntry) (by simp)
      (fun hl => by simp [ModeRx.apply, ModeRx.setBand, hl])
      fun hl => carries_setBand hl band bsEntry
  | vfoA2b edges => exact hstays (hr.within (within_vfoA2b edges)) trivial
  | vfoB2a =>
    exact hcarries r.rx.modeB (by simp) (fun hl => by simp [ModeRx.apply, ModeRx.vfoB2a, hl])
      fun hl => carries_vfoB2a hr.mirrors hl
  | vfoAswapb edges =>
    exact hcarries r.rx.modeB (by simp) (fun hl => by simp [ModeRx.apply, ModeRx.vfoAswapb, hl])
      fun hl => carries_vfoAswapb hl edges

end ModeRun

/-- A receiver as it was last left in each mode. -/
def ModeRx.resumed (s : ModeRx) : ModeRun := ⟨s, s.filed⟩

theorem ModeRx.Mirrors.resumed {s : ModeRx} (hs : s.Mirrors) : s.resumed.Good where
  mirrors := hs
  present := Function.update_self ..
  others := fun _ hm => Function.update_of_ne hm ..

/-- A receiver whose mode is changed, in every way. -/
def moder (s : ModeRx) : System ModeRun ModeOp where
  init := s.resumed
  step r a := some (r.next a)

/-- **Each mode keeps its own settings** in a run exactly as long as a mode that comes with a band
or from VFO B has the AGC and the squelch that are in force. The receiver is as `receiver_state`
restores it. -/
theorem moder_right_iff (s : ModeRx) (hs : s.Mirrors) (as : List ModeOp) :
    (moder s).Along ModeRun.Right s.resumed as ↔
      (moder s).Along (fun r a => r.rx.Separates a) s.resumed as := by
  refine (moder s).along_congr (I := ModeRun.Good) (fun r a t hr hright h => ?_)
    (fun r a hr => (hr.right_iff a).1) as hs.resumed
  obtain rfl := Option.some.inj h
  exact (hr.right_iff a).2 hright

/-! ## A band with an entry in CW -/

/-- The 20 m band, and the 80 m band with an entry in CW. -/
def cwTable (b : ℕ) : Band :=
  if b = 3 then ⟨⟨"80", 3500000, 4000000, 0⟩, 0, 0, fun _ => ⟨3510000, .cwu⟩⟩ else qo100Table b

/-- It listens on 20 m with a slow AGC; in CW it was fast. -/
def slowInUsb : ModeRx where
  toRx := { twentyMetres with bands := cwTable }
  filterA := 5
  filterB := 5
  agc := 2
  squelch := 0
  modeFilter := fun m => if m = .cwu then 7 else 5
  modeAgc := fun m => if m = .cwu then 4 else 2
  modeSquelch := fun _ => 0
  entryFilter := fun _ _ => 5
  hasChannel := true

theorem moder_right_iff_slowInUsb : (moder slowInUsb).Along ModeRun.Right slowInUsb.resumed
    [.modeChanged 4, .agcChanged 3 false, .modeChanged 1] :=
  (moder_right_iff slowInUsb rfl _).mpr
    ⟨trivial, fun _ _ => ⟨trivial, fun _ _ => ⟨trivial, fun _ _ => trivial⟩⟩⟩

/-- The band menu takes it into CW with the slow AGC, and CW has forgotten that it was fast. -/
theorem not_moder_right : slowInUsb.Mirrors ∧
    (slowInUsb.apply (.setBand 3 (-1))).modeA = .cwu ∧
    (slowInUsb.apply (.setBand 3 (-1))).agc = 2 ∧ (slowInUsb.resumed.last .cwu).agc = 4 ∧
    ((slowInUsb.apply (.setBand 3 (-1))).apply (.modeChanged 1)).modeAgc .cwu = 2 :=
  ⟨rfl, by decide, by decide, by decide, by decide⟩

end MacHPSDR.Receiver
