import MacHPSDR.Foundations.Transition
import Mathlib

/-!
# The transmit gain of a SoapySDR device

Off the air the device is held at its lowest gain. The gain of the drive is commanded when the
stream is started, and again when the drive is moved; a key that changes its kind while the stream
stays up commands nothing, and so a Tune can go out at the drive of speech.
-/

namespace MacHPSDR.Soapy

/-- Who commands a gain: `soapy_tx_hold_safe`, `soapy_protocol_activate_tx`,
`soapy_protocol_set_tx_drive` or `soapy_protocol_set_tx_gain`. -/
inductive Commander
  | hold
  | key
  | drive
  | gain

/-- What the device is told, all of which succeeds. -/
inductive TxCommand
  | setGain (commander : Commander) (gain : ℚ)
  | activateStream
  | deactivateStream

namespace TxCommand

def gain? : TxCommand → Option ℚ
  | setGain _ gain => some gain
  | activateStream | deactivateStream => none

/-- A gain that a key or a drive operation commands. -/
def keyGain? : TxCommand → Option ℚ
  | setGain .gain _ => none
  | setGain _ gain => some gain
  | activateStream | deactivateStream => none

end TxCommand

/-- The transmit side of the radio; the latest command is the first of `log`. -/
structure TxRadio where
  txGainMin : ℚ
  txGainMax : ℚ
  tunePercent : ℚ
  tuneUseDrive : Bool
  /-- The transmitter has been created. -/
  txStream : Bool
  drive : ℚ
  dacGain : ℚ
  ptt : Bool
  mox : Bool
  vox : Bool
  tune : Bool
  txStreamActive : Bool
  log : List TxCommand

namespace TxRadio

variable (s : TxRadio)

/-- `isTransmitting` -/
def isTransmitting : Bool := s.ptt || s.mox || s.vox || s.tune

/-- The drive that a key is given: that of Tune is scaled, and every drive is brought into range. -/
def keyDrive (tune : Bool) (drive : ℚ) : ℚ :=
  let drive := if tune && !s.tuneUseDrive then drive * s.tunePercent / 100 else drive
  let drive := if drive < 0 then 0 else drive
  if drive > 100 then 100 else drive

/-- The position of a drive in the range of the gain. -/
def gainAt (drive : ℚ) : ℚ := s.txGainMin + (s.txGainMax - s.txGainMin) * (drive / 100)

/-- `soapy_tx_hold_safe` -/
def holdSafe : TxRadio := { s with log := .setGain .hold s.txGainMin :: s.log }

/-- `soapy_protocol_activate_tx` -/
def activateTx : TxRadio :=
  if !s.txStream then s
  else
    let drive := s.keyDrive s.tune s.drive
    if !s.txStreamActive then
      let gain := s.gainAt drive
      { s with
        dacGain := gain
        log := .activateStream :: .setGain .key gain :: s.log
        txStreamActive := true }
    else s

/-- `soapy_protocol_deactivate_tx` -/
def deactivateTx : TxRadio :=
  if s.txStreamActive then
    let s := s.holdSafe
    { s with log := .deactivateStream :: s.log, txStreamActive := false }
  else s

/-- `rxtx` -/
def rxtx : TxRadio := if s.isTransmitting then s.activateTx else s.deactivateTx

/-- `set_mox` -/
def setMox (state : Bool) : TxRadio :=
  let s := if s.tune then { s with tune := false } else s
  rxtx { s with mox := state }

/-- `set_tune` -/
def setTune (state : Bool) : TxRadio :=
  let s := if s.mox then { s with mox := false } else s
  rxtx { s with tune := state }

/-- `soapy_protocol_set_tx_drive`, after `tx->drive` is set -/
def setTxDrive (drive : ℚ) : TxRadio :=
  let s := { s with drive := drive }
  let g := s.gainAt (s.keyDrive s.tune drive)
  let applied := if s.txStreamActive then g else s.txGainMin
  { s with dacGain := g, log := .setGain .drive applied :: s.log }

/-- `soapy_protocol_set_tx_gain`, after `dac->gain` is set -/
def setTxGain (gain : ℚ) : TxRadio :=
  let applied := if s.txStreamActive then gain else s.txGainMin
  { s with dacGain := gain, log := .setGain .gain applied :: s.log }

/-- The radio when `soapy_protocol_init` returns. -/
def atInit : TxRadio :=
  holdSafe { s with
    ptt := false
    mox := false
    vox := false
    tune := false
    txStreamActive := false
    log := [] }

end TxRadio

/-- What an operator and a client can do. -/
inductive TxOp
  | setMox (state : Bool)
  | setTune (state : Bool)
  | pttChanged (localPtt : Bool)
  | setDrive (drive : ℚ)
  | setTxGain (gain : ℚ)

namespace TxRadio

variable (s : TxRadio)

def apply : TxOp → TxRadio
  | .setMox state => s.setMox state
  | .setTune state => s.setTune state
  -- `ptt_changed` is `set_mox`
  | .pttChanged localPtt => s.setMox localPtt
  | .setDrive drive => s.setTxDrive drive
  | .setTxGain gain => s.setTxGain gain

/-- The last gain commanded. -/
def lastGain : Option ℚ := s.log.findSome? TxCommand.gain?

/-- The last gain that a key or a drive operation commanded. -/
def lastKeyGain : Option ℚ := s.log.findSome? TxCommand.keyGain?

/-- The gain that is right for a key, of Tune or not. -/
def keyGain (tune : Bool) : ℚ := s.gainAt (s.keyDrive tune s.drive)

/-- What is left is right, `t` after `s`. -/
structure Right (s t : TxRadio) : Prop where
  idle : t.txStreamActive = false → t.lastGain = some t.txGainMin
  starts : s.txStreamActive = false → t.txStreamActive = true →
    t.log = .activateStream :: .setGain .key (t.keyGain t.tune) :: s.log
  keyed : t.txStreamActive = true → t.lastKeyGain = some (t.keyGain t.tune)

/-- A key that does not change its kind while the stream is up, or whose gain is the same. -/
def Steady : TxOp → Prop
  | .setMox true | .pttChanged true =>
    s.txStreamActive = true → s.keyGain s.tune = s.keyGain false
  | .setTune true => s.txStreamActive = true → s.keyGain s.tune = s.keyGain true
  | .setMox false | .pttChanged false | .setTune false | .setDrive _ | .setTxGain _ => True

/-- The stream is up exactly as long as there is a key, and the device knows its gain. -/
structure Inv (s : TxRadio) : Prop where
  ptt : s.ptt = false
  vox : s.vox = false
  active : s.txStreamActive = (s.txStream && (s.mox || s.tune))
  idle : s.txStreamActive = false → s.lastGain = some s.txGainMin
  keyed : s.txStreamActive = true → s.lastKeyGain = some (s.keyGain s.tune)

variable {s}

theorem inv_atInit (s : TxRadio) : s.atInit.Inv where
  ptt := rfl
  vox := rfl
  active := (Bool.and_false _).symm
  idle := fun _ => rfl
  keyed := fun h => absurd h (by simp [atInit, holdSafe])

/-! ## Keys -/

variable (s) in
/-- Another key. -/
def withKey (mox tune : Bool) : TxRadio := { s with mox := mox, tune := tune }

theorem setMox_eq (s : TxRadio) (state : Bool) : s.setMox state = (s.withKey state false).rxtx := by
  rcases s with ⟨_, _, _, _, _, _, _, _, _, _, tune, _, _⟩
  cases tune <;> rfl

theorem setTune_eq (s : TxRadio) (state : Bool) :
    s.setTune state = (s.withKey false state).rxtx := by
  rcases s with ⟨_, _, _, _, _, _, _, _, mox, _, _, _, _⟩
  cases mox <;> rfl

variable {mox tune : Bool}

theorem Inv.isTransmitting (hs : s.Inv) : (s.withKey mox tune).isTransmitting = (mox || tune) := by
  unfold TxRadio.isTransmitting withKey
  dsimp only
  rw [hs.ptt, hs.vox, Bool.false_or, Bool.or_false]

/-- Without a key the stream is stopped, and the device is held first. -/
theorem rxtx_unkeyed (hs : s.Inv) (hkey : (mox || tune) = false) :
    Right s (s.withKey mox tune).rxtx ∧ (s.withKey mox tune).rxtx.Inv := by
  have hrxtx : (s.withKey mox tune).rxtx = (s.withKey mox tune).deactivateTx := by
    unfold rxtx
    rw [hs.isTransmitting, hkey]
    rfl
  have hidle : (s.withKey mox tune).deactivateTx.txStreamActive = false := by
    unfold deactivateTx
    split
    · rfl
    · rename_i h
      exact Bool.eq_false_iff.mpr h
  have hkept : (s.withKey mox tune).deactivateTx.ptt = false ∧
      (s.withKey mox tune).deactivateTx.vox = false ∧
      (s.withKey mox tune).deactivateTx.mox = mox ∧
      (s.withKey mox tune).deactivateTx.tune = tune := by
    unfold deactivateTx
    split <;> exact ⟨hs.ptt, hs.vox, rfl, rfl⟩
  have hheld : (s.withKey mox tune).deactivateTx.lastGain =
      some (s.withKey mox tune).deactivateTx.txGainMin := by
    unfold deactivateTx
    split
    · rfl
    · rename_i h
      exact hs.idle (Bool.eq_false_iff.mpr h)
  rw [hrxtx]
  refine ⟨⟨fun _ => hheld, ?_, ?_⟩, ⟨hkept.1, hkept.2.1, ?_, fun _ => hheld, ?_⟩⟩
  · intro _ hactive
    exact absurd hactive (by simp [hidle])
  · intro hactive
    exact absurd hactive (by simp [hidle])
  · rw [hidle, hkept.2.2.1, hkept.2.2.2, hkey, Bool.and_false]
  · intro hactive
    exact absurd hactive (by simp [hidle])

theorem rxtx_keyed (hs : s.Inv) (hkey : (mox || tune) = true) :
    (s.withKey mox tune).rxtx = (s.withKey mox tune).activateTx := by
  unfold rxtx
  rw [hs.isTransmitting, hkey]
  rfl

/-- The stream starts, if there is one, with the gain of the key. -/
theorem rxtx_starts (hs : s.Inv) (hkey : (mox || tune) = true) (hidle : s.txStreamActive = false) :
    Right s (s.withKey mox tune).rxtx ∧ (s.withKey mox tune).rxtx.Inv := by
  rw [rxtx_keyed hs hkey]
  unfold activateTx
  cases hstream : s.txStream with
  | false =>
    have hstream' : (s.withKey mox tune).txStream = false := hstream
    have hidle' : (s.withKey mox tune).txStreamActive = false := hidle
    rw [if_pos (by simp [hstream'])]
    refine ⟨⟨fun _ => hs.idle hidle, ?_, ?_⟩, ⟨hs.ptt, hs.vox, ?_, fun _ => hs.idle hidle, ?_⟩⟩
    · intro _ hactive
      exact absurd hactive (by simp [hidle'])
    · intro hactive
      exact absurd hactive (by simp [hidle'])
    · rw [hidle', hstream', Bool.false_and]
    · intro hactive
      exact absurd hactive (by simp [hidle'])
  | true =>
    have hstream' : (s.withKey mox tune).txStream = true := hstream
    have hidle' : (s.withKey mox tune).txStreamActive = false := hidle
    rw [if_neg (by simp [hstream'])]
    dsimp only
    rw [if_pos (by simp [hidle'])]
    refine ⟨⟨?_, fun _ _ => rfl, fun _ => rfl⟩, ⟨hs.ptt, hs.vox, ?_, ?_, fun _ => rfl⟩⟩
    · intro hstops
      exact absurd hstops (by simp)
    · change true = ((s.withKey mox tune).txStream && (mox || tune))
      rw [hstream', hkey, Bool.and_true]
    · intro hstops
      exact absurd hstops (by simp)

/-- The stream stays up, and nothing is commanded. -/
theorem rxtx_stays (hs : s.Inv) (hkey : (mox || tune) = true) (hactive : s.txStreamActive = true) :
    (Right s (s.withKey mox tune).rxtx ↔ s.keyGain s.tune = s.keyGain tune) ∧
      (Right s (s.withKey mox tune).rxtx → (s.withKey mox tune).rxtx.Inv) := by
  have hstream : s.txStream = true := by
    have := hs.active
    rw [hactive] at this
    exact (Bool.and_eq_true_iff.mp this.symm).1
  have hsame : (s.withKey mox tune).rxtx = s.withKey mox tune := by
    have hstream' : (s.withKey mox tune).txStream = true := hstream
    have hactive' : (s.withKey mox tune).txStreamActive = true := hactive
    rw [rxtx_keyed hs hkey]
    unfold activateTx
    rw [if_neg (by simp [hstream'])]
    dsimp only
    rw [if_neg (by simp [hactive'])]
  have hlast : (s.withKey mox tune).lastKeyGain = some (s.keyGain s.tune) := hs.keyed hactive
  have hgain : (s.withKey mox tune).keyGain (s.withKey mox tune).tune = s.keyGain tune := rfl
  rw [hsame]
  constructor
  · constructor
    · intro hright
      have hkeyed := hright.keyed hactive
      rw [hlast, hgain, Option.some.injEq] at hkeyed
      exact hkeyed
    · intro hequal
      refine ⟨fun hidle => ?_, fun hidle _ => ?_, fun _ => ?_⟩
      · exact absurd (show s.txStreamActive = false from hidle) (by simp [hactive])
      · exact absurd hidle (by simp [hactive])
      · rw [hlast, hgain, hequal]
  · intro hright
    refine ⟨hs.ptt, hs.vox, ?_, fun hidle => ?_, hright.keyed⟩
    · change s.txStreamActive = (s.txStream && (mox || tune))
      rw [hactive, hstream, hkey, Bool.and_true]
    · exact absurd (show s.txStreamActive = false from hidle) (by simp [hactive])

/-- What a key leaves is right exactly when it starts or stops the stream or the gain stays. -/
theorem Inv.key (hs : s.Inv) (mox tune : Bool) :
    (Right s (s.withKey mox tune).rxtx ↔
      ((mox || tune) = true → s.txStreamActive = true → s.keyGain s.tune = s.keyGain tune)) ∧
    (Right s (s.withKey mox tune).rxtx → (s.withKey mox tune).rxtx.Inv) := by
  cases hkey : (mox || tune) with
  | false =>
    obtain ⟨hright, hinv⟩ := rxtx_unkeyed hs hkey
    exact ⟨iff_of_true hright (by simp), fun _ => hinv⟩
  | true =>
    cases hactive : s.txStreamActive with
    | false =>
      obtain ⟨hright, hinv⟩ := rxtx_starts hs hkey hactive
      exact ⟨iff_of_true hright (by simp), fun _ => hinv⟩
    | true =>
      obtain ⟨hiff, hinv⟩ := rxtx_stays hs hkey hactive
      exact ⟨hiff.trans (by simp), hinv⟩

/-! ## Gains -/

theorem Inv.setTxDrive (hs : s.Inv) (drive : ℚ) :
    Right s (s.setTxDrive drive) ∧ (s.setTxDrive drive).Inv := by
  have hidle : s.txStreamActive = false →
      (s.setTxDrive drive).lastGain = some (s.setTxDrive drive).txGainMin := by
    intro h
    change some (if s.txStreamActive = true then _ else s.txGainMin) = some s.txGainMin
    rw [h]
    rfl
  have hkeyed : s.txStreamActive = true → (s.setTxDrive drive).lastKeyGain =
      some ((s.setTxDrive drive).keyGain (s.setTxDrive drive).tune) := by
    intro h
    change some (if s.txStreamActive = true then s.gainAt (s.keyDrive s.tune drive) else _) =
      some (s.gainAt (s.keyDrive s.tune drive))
    rw [if_pos h]
  refine ⟨⟨hidle, fun h h' => ?_, hkeyed⟩, ⟨hs.ptt, hs.vox, hs.active, hidle, hkeyed⟩⟩
  exact absurd (show s.txStreamActive = true from h') (by simp [h])

theorem Inv.setTxGain (hs : s.Inv) (gain : ℚ) :
    Right s (s.setTxGain gain) ∧ (s.setTxGain gain).Inv := by
  have hidle : s.txStreamActive = false →
      (s.setTxGain gain).lastGain = some (s.setTxGain gain).txGainMin := by
    intro h
    change some (if s.txStreamActive = true then _ else s.txGainMin) = some s.txGainMin
    rw [h]
    rfl
  have hkeyed : s.txStreamActive = true → (s.setTxGain gain).lastKeyGain =
      some ((s.setTxGain gain).keyGain (s.setTxGain gain).tune) := hs.keyed
  refine ⟨⟨hidle, fun h h' => ?_, hkeyed⟩, ⟨hs.ptt, hs.vox, hs.active, hidle, hkeyed⟩⟩
  exact absurd (show s.txStreamActive = true from h') (by simp [h])

theorem Inv.right_iff (hs : s.Inv) (a : TxOp) :
    (Right s (s.apply a) ↔ s.Steady a) ∧ (Right s (s.apply a) → (s.apply a).Inv) := by
  have hmox (state : Bool) : (Right s (s.setMox state) ↔ s.Steady (.setMox state)) ∧
      (Right s (s.setMox state) → (s.setMox state).Inv) := by
    rw [setMox_eq]
    refine ⟨(hs.key state false).1.trans ?_, (hs.key state false).2⟩
    cases state <;> simp [Steady]
  cases a with
  | setMox state => exact hmox state
  | pttChanged localPtt =>
    refine ⟨(hmox localPtt).1.trans ?_, (hmox localPtt).2⟩
    cases localPtt <;> rfl
  | setTune state =>
    change (Right s (s.setTune state) ↔ _) ∧ (Right s (s.setTune state) → (s.setTune state).Inv)
    rw [setTune_eq]
    refine ⟨(hs.key false state).1.trans ?_, (hs.key false state).2⟩
    cases state <;> simp [Steady]
  | setDrive drive =>
    obtain ⟨hright, hinv⟩ := hs.setTxDrive drive
    exact ⟨iff_of_true hright trivial, fun _ => hinv⟩
  | setTxGain gain =>
    obtain ⟨hright, hinv⟩ := hs.setTxGain gain
    exact ⟨iff_of_true hright trivial, fun _ => hinv⟩

end TxRadio

open TxRadio

/-! ## Runs -/

/-- A radio from `soapy_protocol_init` on. -/
def keyer (s : TxRadio) : System TxRadio TxOp where
  init := s.atInit
  step s a := some (s.apply a)

/-- **The transmit gain.** The device starts at its lowest gain. In a run every operation leaves the
gain right if and only if no key changes its kind to one of another gain while the stream is up. -/
theorem keyer_right_iff (s : TxRadio) (as : List TxOp) :
    (s.atInit.txStreamActive = false ∧ s.atInit.lastGain = some s.txGainMin) ∧
      ((keyer s).Along (fun t a => Right t (t.apply a)) s.atInit as ↔
        (keyer s).Along Steady s.atInit as) := by
  refine ⟨⟨rfl, rfl⟩, ?_⟩
  refine (keyer s).along_congr (I := Inv) (fun t a u ht hright h => ?_)
    (fun t a ht => (ht.right_iff a).1) as (inv_atInit s)
  obtain rfl := Option.some.inj h
  exact (ht.right_iff a).2 hright

/-- A radio at full drive, whose Tune is to go out at a tenth of it. -/
def fullDrive : TxRadio where
  txGainMin := 0
  txGainMax := 40
  tunePercent := 10
  tuneUseDrive := false
  txStream := true
  drive := 100
  dacGain := 0
  ptt := false
  mox := false
  vox := false
  tune := false
  txStreamActive := false
  log := []

/-- Tune out of MOX: the carrier goes out at the gain of speech. -/
theorem not_keyer_right :
    (fullDrive.atInit.setMox true |>.setTune true).txStreamActive = true ∧
      (fullDrive.atInit.setMox true |>.setTune true).lastKeyGain = some 40 ∧
      (fullDrive.atInit.setMox true |>.setTune true).keyGain true = 4 := by
  norm_num [fullDrive, atInit, holdSafe, setMox, setTune, rxtx, isTransmitting, activateTx,
    keyDrive, gainAt, keyGain, lastKeyGain]
  rfl

end MacHPSDR.Soapy
