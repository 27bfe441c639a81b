import MacHPSDR.Foundations.Transition
import MacHPSDR.Radio.TransmitMode
import Mathlib

/-!
# Tuning

`set_tune` starts the tone generator, and in CW it takes the sideband in place of the mode and
switches the keyer off. Two functions end it. `set_tune` switches the keyer on, whatever it was
before, and `set_mox` does not touch it; both look at the mode VFO A has then. So tuning leaves no
trace in exactly the runs whose steps are `Clean`.
-/

namespace MacHPSDR.Radio

/-- What tuning changes, in the radio and in its transmit chain. -/
structure TuneRadio where
  mox : Bool
  tune : Bool
  cwKeyerInternal : Bool
  /-- `SetTXAPostGenRun` -/
  postGenRun : Bool
  /-- `SetTXAMode` -/
  txaMode : Mode
  receivers : ℕ → TxReceiver
  /-- `transmitter->rx` -/
  rx : ℕ

inductive TuneAction
  | setTune (state : Bool)
  | setMox (state : Bool)
  | pttChanged (localPtt : Bool)
  /-- The mode menu. -/
  | vfoSetMode (rx : ℕ) (mode : Mode)
  /-- What CAT and MIDI call, without the rest of `vfo_set_mode`. -/
  | receiverModeChanged (rx : ℕ) (mode : Mode)

namespace TuneRadio

variable (s : TuneRadio)

/-- `transmitter->rx->mode_a` -/
def modeA : Mode := (s.receivers s.rx).modeA

/-- `transmitter_get_mode` -/
def ownMode : Mode := transmitterGetMode (some (s.receivers s.rx))

/-- `set_tune` -/
def setTune (state : Bool) : TuneRadio :=
  if state then
    { s with
      mox := false
      tune := true
      txaMode := match s.modeA with
        | .cwl => .lsb
        | .cwu => .usb
        | _ => s.txaMode
      cwKeyerInternal := if s.modeA.isCw then false else s.cwKeyerInternal
      postGenRun := true }
  else
    { s with
      mox := false
      tune := false
      postGenRun := false
      txaMode := if s.modeA.isCw then s.modeA else s.txaMode
      cwKeyerInternal := if s.modeA.isCw then true else s.cwKeyerInternal }

/-- `set_mox` -/
def setMox (state : Bool) : TuneRadio :=
  if s.tune then
    { s with
      tune := false
      postGenRun := false
      txaMode := if s.modeA.isCw then s.modeA else s.txaMode
      mox := state }
  else { s with mox := state }

/-- `receiver_mode_changed` -/
def receiverModeChanged (rx : ℕ) (mode : Mode) : TuneRadio :=
  { s with receivers := Function.update s.receivers rx { s.receivers rx with modeA := mode } }

/-- `vfo_set_mode` -/
def vfoSetMode (rx : ℕ) (mode : Mode) : TuneRadio :=
  let t := s.receiverModeChanged rx mode
  let r := t.receivers rx
  let r' := if r.split then { r with modeB := mode } else r
  { t with
    receivers := Function.update t.receivers rx r'
    txaMode := if t.rx = rx then if r'.split then r'.modeB else r'.modeA else t.txaMode }

/-- One call. -/
def act : TuneAction → TuneRadio
  | .setTune state => s.setTune state
  | .setMox state => s.setMox state
  | .pttChanged localPtt => s.setMox localPtt
  | .vfoSetMode rx mode => s.vfoSetMode rx mode
  | .receiverModeChanged rx mode => s.receiverModeChanged rx mode

/-- No trace of tuning is left; the operator has the keyer option at `keyer`. -/
structure NoTrace (keyer : Bool) : Prop where
  postGenRun : s.postGenRun = false
  txaMode : s.txaMode = s.ownMode
  cwKeyerInternal : s.cwKeyerInternal = keyer

/-- What ends tuning puts everything back: in CW the mode of the transmitter is that of VFO A and
the keyer option is at `restored`, and in another mode there is nothing to put back. -/
def Restores (keyer restored : Bool) : Prop :=
  if s.modeA.isCw then s.ownMode = s.modeA ∧ restored = keyer
  else s.txaMode = s.ownMode ∧ s.cwKeyerInternal = keyer

/-- The steps that leave no trace. -/
def Clean (keyer : Bool) : TuneAction → Prop
  | .setTune state => state = false → s.Restores keyer true
  | .setMox _ | .pttChanged _ => s.tune = true → s.Restores keyer s.cwKeyerInternal
  | .vfoSetMode _ _ => True
  | .receiverModeChanged rx mode =>
    s.tune = false → rx = s.rx → (s.receivers s.rx).split = true ∨ mode = s.modeA

end TuneRadio

/-- The radio from a state on. -/
def tuning (s : TuneRadio) : System TuneRadio TuneAction where
  init := s
  step s a := some (s.act a)

namespace TuneRadio

variable {s : TuneRadio} {keyer : Bool}

/-- Between the calls, the tone generator runs when the radio tunes, and no trace is left when it
does not. -/
structure Inv (s : TuneRadio) (keyer : Bool) : Prop where
  postGenRun : s.postGenRun = s.tune
  noTrace : s.tune = false → s.NoTrace keyer

/-- Leaving tuning, by either function. -/
theorem noTrace_leave {restored : Bool} {t : TuneRadio} (hgen : t.postGenRun = false)
    (hrx : t.receivers = s.receivers ∧ t.rx = s.rx)
    (hmode : t.txaMode = if s.modeA.isCw then s.modeA else s.txaMode)
    (hkeyer : t.cwKeyerInternal = if s.modeA.isCw then restored else s.cwKeyerInternal) :
    t.NoTrace keyer ↔ s.Restores keyer restored := by
  have hown : t.ownMode = s.ownMode := by
    unfold ownMode
    rw [hrx.1, hrx.2]
  unfold Restores
  constructor
  · rintro ⟨-, htxa, hk⟩
    rw [hmode, hown] at htxa
    rw [hkeyer] at hk
    split_ifs at htxa hk ⊢
    · exact ⟨htxa.symm, hk⟩
    · exact ⟨htxa, hk⟩
  · intro h
    refine ⟨hgen, ?_, ?_⟩
    · rw [hmode, hown]
      split_ifs at h ⊢
      · exact h.1.symm
      · exact h.1
    · rw [hkeyer]
      split_ifs at h ⊢
      · exact h.2
      · exact h.2

theorem setMox_noTrace (hs : s.Inv keyer) (state : Bool) :
    ((s.setMox state).tune = false → (s.setMox state).NoTrace keyer) ↔
      (s.tune = true → s.Restores keyer s.cwKeyerInternal) := by
  unfold setMox
  cases htune : s.tune with
  | false =>
    obtain ⟨hgen, hmode, hkeyer⟩ := hs.noTrace htune
    exact iff_of_true (fun _ => ⟨hgen, hmode, hkeyer⟩) (fun h => absurd h (by decide))
  | true =>
    rw [if_pos rfl]
    exact imp_congr (iff_of_true rfl rfl)
      (noTrace_leave (s := s) rfl ⟨rfl, rfl⟩ rfl (ite_self _).symm)

theorem setTune_noTrace (state : Bool) :
    ((s.setTune state).tune = false → (s.setTune state).NoTrace keyer) ↔
      (state = false → s.Restores keyer true) := by
  unfold setTune
  cases state with
  | false =>
    rw [if_neg (by decide)]
    exact imp_congr (iff_of_true rfl rfl) (noTrace_leave (s := s) rfl ⟨rfl, rfl⟩ rfl rfl)
  | true => simp

/-- The transmit chain gets the new mode of the transmitter. -/
theorem vfoSetMode_noTrace (hs : s.NoTrace keyer) (rx : ℕ) (mode : Mode) :
    (s.vfoSetMode rx mode).NoTrace keyer := by
  refine ⟨hs.postGenRun, ?_, hs.cwKeyerInternal⟩
  have htxa := hs.txaMode
  unfold ownMode transmitterGetMode at htxa ⊢
  unfold vfoSetMode receiverModeChanged
  dsimp only at htxa ⊢
  by_cases hrx : s.rx = rx
  · subst hrx
    cases (s.receivers s.rx).split <;> simp
  · simp [hrx, htxa]

/-- The transmit chain keeps its mode, which is that of VFO B when the receiver is split. -/
theorem receiverModeChanged_noTrace (hs : s.NoTrace keyer) (rx : ℕ) (mode : Mode) :
    (s.receiverModeChanged rx mode).NoTrace keyer ↔
      (rx = s.rx → (s.receivers s.rx).split = true ∨ mode = s.modeA) := by
  have hiff : (s.receiverModeChanged rx mode).NoTrace keyer ↔
      s.txaMode = (s.receiverModeChanged rx mode).ownMode :=
    ⟨fun h => h.txaMode, fun h => ⟨hs.postGenRun, h, hs.cwKeyerInternal⟩⟩
  rw [hiff, hs.txaMode]
  unfold ownMode receiverModeChanged transmitterGetMode modeA
  dsimp only
  by_cases hrx : rx = s.rx
  · subst hrx
    cases (s.receivers s.rx).split <;> simp [eq_comm]
  · simp [hrx, Ne.symm hrx]

/-- **One call** that leaves no trace where it ends is clean. -/
theorem act_noTrace (hs : s.Inv keyer) (a : TuneAction) :
    ((s.act a).tune = false → (s.act a).NoTrace keyer) ↔ s.Clean keyer a := by
  cases a with
  | setTune state => exact setTune_noTrace state
  | setMox state => exact setMox_noTrace hs state
  | pttChanged localPtt => exact setMox_noTrace hs localPtt
  | vfoSetMode rx mode =>
    exact iff_of_true (fun htune => vfoSetMode_noTrace (hs.noTrace htune) rx mode) trivial
  | receiverModeChanged rx mode =>
    exact imp_congr_right fun htune => receiverModeChanged_noTrace (hs.noTrace htune) rx mode

theorem act_postGenRun (hs : s.postGenRun = s.tune) (a : TuneAction) :
    (s.act a).postGenRun = (s.act a).tune := by
  have hmox (state : Bool) : (s.setMox state).postGenRun = (s.setMox state).tune := by
    unfold setMox
    split
    · rfl
    · exact hs
  cases a with
  | setTune state => cases state <;> rfl
  | setMox state => exact hmox state
  | pttChanged localPtt => exact hmox localPtt
  | vfoSetMode rx mode => exact hs
  | receiverModeChanged rx mode => exact hs

end TuneRadio

open TuneRadio

/-- **Tuning leaves no trace** in the runs of clean steps, and in no others: whenever the radio does
not tune, the tone generator is stopped, the transmit chain has the mode of the transmitter, and the
keyer option is what it was. -/
theorem tuning_noTrace (s : TuneRadio) (htune : s.tune = false) (hgen : s.postGenRun = false)
    (hmode : s.txaMode = s.ownMode) (as : List TuneAction) :
    (tuning s).Throughout (fun t => t.tune = false → t.NoTrace s.cwKeyerInternal) s as ↔
      (tuning s).Along (fun t a => t.Clean s.cwKeyerInternal a) s as := by
  have hs : s.Inv s.cwKeyerInternal := ⟨hgen.trans htune.symm, fun _ => ⟨hgen, hmode, rfl⟩⟩
  rw [(tuning s).throughout_iff_along as hs.noTrace]
  refine (tuning s).along_congr (I := fun t => t.Inv s.cwKeyerInternal) ?_ ?_ as hs
  · intro t a u ht hP hu
    refine ⟨?_, hP u hu⟩
    obtain rfl := Option.some.inj hu
    exact act_postGenRun ht.postGenRun a
  · intro t a ht
    rw [← act_noTrace ht a]
    constructor
    · exact fun h => h _ rfl
    · rintro h u hu
      obtain rfl := Option.some.inj hu
      exact h

/-- A radio in CW, whose keyer is on. -/
def cwRadio : TuneRadio := ⟨false, false, true, false, .cwu, fun _ => ⟨false, .cwu, .cwu⟩, 0⟩

/-- `set_tune` begins and ends it. -/
theorem tuning_noTrace_setTune :
    (tuning cwRadio).Throughout (fun t => t.tune = false → t.NoTrace true) cwRadio
      [.setTune true, .setTune false] := by
  refine (tuning_noTrace cwRadio rfl rfl rfl _).2 ⟨fun h => absurd h (by decide), fun t ht => ?_⟩
  obtain rfl := Option.some.inj ht
  exact ⟨fun _ => ⟨rfl, rfl⟩, fun _ _ => trivial⟩

/-- The key ends it, and the keyer stays off. -/
theorem not_tuning_noTrace :
    ¬ (tuning cwRadio).Throughout (fun t => t.tune = false → t.NoTrace true) cwRadio
      [.setTune true, .setMox true] := by
  intro h
  have htrace := (h _ _ (List.prefix_refl _) rfl rfl).cwKeyerInternal
  exact absurd htrace (by decide)

end MacHPSDR.Radio
