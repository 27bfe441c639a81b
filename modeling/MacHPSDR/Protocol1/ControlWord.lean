import MacHPSDR.Foundations.BitField
import MacHPSDR.Radio.Device
import Mathlib

/-!
# The control words of protocol 1

The five control bytes of the general frame and of the command frames 3, 4 and 5 are put together
from the settings of the radio, each with its own place. Three settings are not where they should
be (`carries_iff`):

* while the radio transmits, the RX antenna is put over the TX antenna in the relay field of C4;
* the RX antennas XVTR and EXT2 have the same bits in C3;
* the low-pass filter of command 3 is put over the high-pass filter, the preamplifier and the PA in
  C3, while its own byte, C4, stays empty.
-/

namespace MacHPSDR.Protocol1

open Radio BitField

/-! ## The settings -/

/-- `radio->cw_keyer_mode` -/
inductive KeyerMode
  | straight
  | modeA
  | modeB
  deriving DecidableEq

structure Adc where
  filters : Filters
  hpf : Hpf
  lpf : Lpf
  /-- `ANTENNA_1`, `ANTENNA_2`, `ANTENNA_3`, `ANTENNA_XVTR`, `ANTENNA_EXT1`, `ANTENNA_EXT2` -/
  antenna : ℤ
  dither : Bool
  random : Bool
  preamp : Bool
  att10 : Bool
  att20 : Bool
  attenuation : ℤ
  enableStepAttenuation : Bool

/-- What a band sets. The masks are those of the seven outputs. -/
structure Band where
  ocRx : ℕ
  ocRx_lt : ocRx < 2 ^ 7
  ocTx : ℕ
  ocTx_lt : ocTx < 2 ^ 7
  disablePA : Bool

/-- `radio->transmitter->rx` -/
structure TransmitterRx where
  split : Bool
  bandA : Band
  bandB : Band
  /-- `band_a==band6` -/
  onBand6 : Bool

structure ControlState where
  transmitting : Bool
  tune : Bool
  /-- `tx_mode==CWU || tx_mode==CWL` -/
  txCw : Bool
  cwKeyerInternal : Bool
  usbozy : Bool
  device : Device
  sampleRate : ℕ
  atlasMicSource : Bool
  atlasClockSource10mhz : ℕ
  atlasClockSource128mhz : Bool
  classE : Bool
  rx : Option TransmitterRx
  ocMemoryTuneTime : ℤ
  tuneTimeout : ℤ
  now : ℤ
  ocTune : ℕ
  ocTune_lt : ocTune < 2 ^ 7
  psuClk : Bool
  adc0 : Adc
  adc1Preamp : Bool
  diversityMixers : ℤ
  receivers : ℕ
  receivers_pos : 0 < receivers
  receivers_le : receivers ≤ 8
  alexTxAntenna : ℤ
  /-- The drive level, which is computed with floating point. -/
  level : UInt8
  micBoost : Bool
  micLinein : Bool
  filterBoard : FilterBoard
  micPttEnabled : Bool
  micBiasEnabled : Bool
  micPttTipBiasRing : Bool
  lineinGain : ℕ
  lineinGain_lt : lineinGain < 2 ^ 5
  puresignal : Bool
  cwKeysReversed : Bool
  cwKeyerSpeed : ℕ
  cwKeyerSpeed_lt : cwKeyerSpeed < 2 ^ 6
  cwKeyerMode : KeyerMode
  cwKeyerWeight : ℕ
  cwKeyerWeight_lt : cwKeyerWeight < 2 ^ 7
  cwKeyerSpacing : Bool
  /-- The range of the gain control of an HL2. -/
  gain_bounds : device = .hermesLite2 → -12 ≤ adc0.attenuation ∧ adc0.attenuation ≤ 48
  /-- The range of the attenuator of the other boards. -/
  attenuation_bounds : device ≠ .hermesLite2 → 0 ≤ adc0.attenuation ∧ adc0.attenuation < 2 ^ 5

/-- `C0` to `C4` -/
structure Control where
  c0 : UInt8
  c1 : UInt8
  c2 : UInt8
  c3 : UInt8
  c4 : UInt8
  deriving DecidableEq

/-! ## The frames -/

def speedCode (sampleRate : ℕ) : ℕ :=
  if sampleRate = 48000 then 0x00
  else if sampleRate = 96000 then 0x01
  else if sampleRate = 192000 then 0x02
  else if sampleRate = 384000 then 0x03
  else 0

/-- The relay of an antenna. -/
def antRelay (antenna : ℤ) : ℕ :=
  if antenna = 0 then 0x00 else if antenna = 1 then 0x01 else if antenna = 2 then 0x02 else 0

/-- The receive antenna select of C3. -/
def rxAntennaCode (antenna : ℤ) : ℕ :=
  if antenna = 3 then 0xE0 else if antenna = 4 then 0xA0 else if antenna = 5 then 0xE0 else 0

def hpfCode : Hpf → ℕ
  | .bypass => 0x20
  | .hpf1_5 => 0x10
  | .hpf6_5 => 0x08
  | .hpf9_5 => 0x04
  | .hpf13 => 0x01
  | .hpf20 => 0x02

def lpfCode : Lpf → ℕ
  | .lpf160 => 0x08
  | .lpf80 => 0x04
  | .lpf60_40 => 0x02
  | .lpf30_20 => 0x01
  | .lpf17_15 => 0x40
  | .lpf12_10 => 0x20
  | .lpf6 => 0x10

def KeyerMode.toNat : KeyerMode → ℕ
  | straight => 0
  | modeA => 1
  | modeB => 2

namespace ControlState

variable (s : ControlState)

/-- `radio->hl2 != NULL` -/
def hl2 : Bool := s.device = .hermesLite2

/-- The Atlas boards. -/
def atlas : Bool := (s.usbozy && s.device = .ozy) || s.device = .metis

/-- The Hermes boards. -/
def hermes : Bool :=
  s.device = .hermes || s.device = .angelia || s.device = .orion || s.device = .orion2

/-- The relay that the RX antenna asks for. -/
def rxRelay : ℕ :=
  if s.adc0.antenna = 0 ∨ s.adc0.antenna = 1 ∨ s.adc0.antenna = 2 then antRelay s.adc0.antenna
  else if s.adc0.antenna = 3 ∨ s.adc0.antenna = 4 ∨ s.adc0.antenna = 5 then
    antRelay s.alexTxAntenna
  else 0

/-- The outputs that are switched while the radio tunes. -/
def ocTuned : ℕ :=
  if s.tune && s.ocMemoryTuneTime ≠ 0 && s.tuneTimeout > s.now then s.ocTune else 0

/-- The band of the transmitter. -/
def txBand (rx : TransmitterRx) : Band :=
  if s.transmitting && rx.split then rx.bandB else rx.bandA

/-- The general frame, before `set mox`. -/
def generalFrame : Control where
  c0 := 0x00
  c1 := byte <| speedCode s.sampleRate |||
    if s.atlas then flag s.atlasMicSource 0x80 ||| 0x60 ||| flag s.atlasClockSource128mhz 0x10 |||
      (s.atlasClockSource10mhz &&& 3) <<< 2 else 0
  c2 := byte <| flag s.classE 0x01 |||
    match s.rx with
    | none => 0
    | some rx =>
      if s.transmitting then (s.txBand rx).ocTx <<< 1 ||| s.ocTuned <<< 1
      else rx.bandA.ocRx <<< 1
  c3 := byte <| flag (if s.hl2 then !s.psuClk else s.adc0.random) 0x10 |||
    flag s.adc0.dither 0x08 ||| flag s.adc0.preamp 0x04 ||| flag s.adc0.att10 0x01 |||
    flag s.adc0.att20 0x02 ||| rxAntennaCode s.adc0.antenna
  c4 := byte <| 0x04 ||| flag (s.diversityMixers > 0) 0x80 ||| (s.receivers - 1) <<< 3 |||
    (if s.transmitting then antRelay s.alexTxAntenna else 0) ||| s.rxRelay

/-- Command 3; without `radio->transmitter->rx` it is not built. -/
def command3 : Option Control :=
  s.rx.map fun rx =>
    let band := s.txBand rx
    { c0 := 0x12
      c1 := s.level
      c2 := byte <| flag s.micBoost 0x01 ||| flag s.micLinein 0x02 |||
        flag ((s.hl2 && !band.disablePA) || s.filterBoard = .apollo) 0x2C |||
        flag ((s.filterBoard = .apollo || s.hl2) && s.tune) 0x10 |||
        flag (s.adc0.filters = .manual) 0x40
      c3 := byte <| flag rx.onBand6 0x40 ||| flag (!s.hl2 && band.disablePA) 0x80 |||
        flag (s.adc0.filters = .manual) (hpfCode s.adc0.hpf) |||
        flag (s.adc0.filters = .manual) (lpfCode s.adc0.lpf)
      c4 := 0x00 }

def command4 : Control where
  c0 := 0x14
  c1 := byte <| flag s.adc0.preamp (1 <<< 0) ||| flag s.adc1Preamp (1 <<< 1) |||
    flag (!s.micPttEnabled) 0x40 ||| flag s.micBiasEnabled 0x20 ||| flag s.micPttTipBiasRing 0x10
  c2 := byte <| s.lineinGain ||| flag (s.transmitting && s.puresignal) 0x40
  c3 := 0x00
  c4 := byte <|
    if s.device = .hermesLite2 then 0x40 ||| ((s.adc0.attenuation + 12) % 0x40).toNat
    else if s.device = .hermesLite then flag (!s.adc0.enableStepAttenuation) 0x20
    else if s.hermes then
      flag s.adc0.enableStepAttenuation 0x20 ||| (s.adc0.attenuation % 0x20).toNat
    else 0x00

def command5 : Control where
  c0 := 0x16
  c1 := 0x00
  c2 := byte <| flag s.cwKeysReversed 0x40
  c3 := byte <| s.cwKeyerSpeed ||| s.cwKeyerMode.toNat <<< 6
  c4 := byte <| s.cwKeyerWeight ||| flag s.cwKeyerSpacing (1 <<< 7)

/-- `set mox` -/
def mox : Bool := if s.txCw && s.cwKeyerInternal then s.tune else s.transmitting

def setMox (c : Control) : Control := { c with c0 := c.c0 ||| byte (flag s.mox 0x01) }

end ControlState

/-! ## Reading the settings back -/

/-- A field of a control byte. -/
def read (off width : ℕ) (c : UInt8) : ℕ := field off width c.toNat

/-- The receive antennas beside the three of the relay. -/
def External (antenna : ℤ) : Prop := antenna = 3 ∨ antenna = 4 ∨ antenna = 5

instance (antenna : ℤ) : Decidable (External antenna) := inferInstanceAs (Decidable (_ ∨ _ ∨ _))

namespace ControlState

variable (s : ControlState)

/-- The relay of C4: of the TX antenna while the radio transmits. -/
def relay : ℕ := if s.transmitting then antRelay s.alexTxAntenna else s.rxRelay

/-- The open-collector outputs. -/
def openCollector : ℕ :=
  match s.rx with
  | none => 0
  | some rx => if s.transmitting then (s.txBand rx).ocTx ||| s.ocTuned else rx.bandA.ocRx

/-- The general frame, field by field. -/
structure GeneralFields (c : Control) : Prop where
  mox : read 0 1 c.c0 = s.mox.toNat
  address : read 1 7 c.c0 = 0
  speed : read 0 2 c.c1 = speedCode s.sampleRate
  clock10mhz : read 2 2 c.c1 = if s.atlas then s.atlasClockSource10mhz % 4 else 0
  clock128mhz : read 4 1 c.c1 = (s.atlas && s.atlasClockSource128mhz).toNat
  config : read 5 2 c.c1 = flag s.atlas 3
  micSource : read 7 1 c.c1 = (s.atlas && s.atlasMicSource).toNat
  classE : read 0 1 c.c2 = s.classE.toNat
  openCollector : read 1 7 c.c2 = s.openCollector
  att10 : read 0 1 c.c3 = s.adc0.att10.toNat
  att20 : read 1 1 c.c3 = s.adc0.att20.toNat
  preamp : read 2 1 c.c3 = s.adc0.preamp.toNat
  dither : read 3 1 c.c3 = s.adc0.dither.toNat
  random : read 4 1 c.c3 = (if s.hl2 then !s.psuClk else s.adc0.random).toNat
  /-- No other setting has the same bits. -/
  rxAntenna : ∀ antenna, read 5 3 c.c3 = field 5 3 (rxAntennaCode antenna) →
    antenna = s.adc0.antenna ∨ (¬ External antenna ∧ ¬ External s.adc0.antenna)
  relay : read 0 2 c.c4 = s.relay
  duplex : read 2 1 c.c4 = 1
  receivers : read 3 3 c.c4 = s.receivers - 1
  timeStamp : read 6 1 c.c4 = 0
  diversity : read 7 1 c.c4 = (decide (s.diversityMixers > 0)).toNat

/-- Command 3, field by field. -/
structure Command3Fields (rx : TransmitterRx) (c : Control) : Prop where
  mox : read 0 1 c.c0 = s.mox.toNat
  address : read 1 7 c.c0 = 9
  level : c.c1 = s.level
  micBoost : read 0 1 c.c2 = s.micBoost.toNat
  micLinein : read 1 1 c.c2 = s.micLinein.toNat
  apollo : read 2 2 c.c2 = flag ((s.hl2 && !(s.txBand rx).disablePA) || s.filterBoard = .apollo) 3
  tune : read 4 1 c.c2 = ((s.filterBoard = .apollo || s.hl2) && s.tune).toNat
  enablePA : read 5 1 c.c2 =
    ((s.hl2 && !(s.txBand rx).disablePA) || s.filterBoard = .apollo).toNat
  manual : read 6 1 c.c2 = (decide (s.adc0.filters = .manual)).toNat
  hpf : read 0 6 c.c3 = if s.adc0.filters = .manual then hpfCode s.adc0.hpf else 0
  preamp6m : read 6 1 c.c3 = rx.onBand6.toNat
  disablePA : read 7 1 c.c3 = (!s.hl2 && (s.txBand rx).disablePA).toNat
  lpf : read 0 7 c.c4 = if s.adc0.filters = .manual then lpfCode s.adc0.lpf else 0

/-- Command 4, field by field. -/
structure Command4Fields (c : Control) : Prop where
  mox : read 0 1 c.c0 = s.mox.toNat
  address : read 1 7 c.c0 = 10
  preamp0 : read 0 1 c.c1 = s.adc0.preamp.toNat
  preamp1 : read 1 1 c.c1 = s.adc1Preamp.toNat
  tipBiasRing : read 4 1 c.c1 = s.micPttTipBiasRing.toNat
  bias : read 5 1 c.c1 = s.micBiasEnabled.toNat
  pttDisabled : read 6 1 c.c1 = (!s.micPttEnabled).toNat
  lineinGain : read 0 5 c.c2 = s.lineinGain
  puresignal : read 6 1 c.c2 = (s.transmitting && s.puresignal).toNat
  gain : s.device = .hermesLite2 → (read 0 6 c.c4 : ℤ) = s.adc0.attenuation + 12
  attenuation : s.hermes → (read 0 5 c.c4 : ℤ) = s.adc0.attenuation
  stepAttenuation : s.hermes → read 5 1 c.c4 = s.adc0.enableStepAttenuation.toNat

/-- Command 5, field by field. -/
structure Command5Fields (c : Control) : Prop where
  mox : read 0 1 c.c0 = s.mox.toNat
  address : read 1 7 c.c0 = 11
  keysReversed : read 6 1 c.c2 = s.cwKeysReversed.toNat
  speed : read 0 6 c.c3 = s.cwKeyerSpeed
  mode : read 6 2 c.c3 = s.cwKeyerMode.toNat
  weight : read 0 7 c.c4 = s.cwKeyerWeight
  spacing : read 7 1 c.c4 = s.cwKeyerSpacing.toNat

/-- Every field of the control words has its own setting. -/
def Carries : Prop :=
  s.GeneralFields (s.setMox s.generalFrame) ∧
    (∀ rx ∈ s.rx, ∀ c ∈ s.command3, s.Command3Fields rx (s.setMox c)) ∧
    s.Command4Fields (s.setMox s.command4) ∧ s.Command5Fields (s.setMox s.command5)

/-! ## Field by field -/

theorem read_byte {off width : ℕ} (x : ℕ) (h : off + width ≤ 8) :
    read off width (byte x) = field off width x := field_byte x h

/-- The MOX bit is beside the address. -/
theorem read_setMox (c : UInt8) (h : read 0 1 c = 0) :
    read 0 1 (c ||| byte (flag s.mox 0x01)) = s.mox.toNat ∧
      read 1 7 (c ||| byte (flag s.mox 0x01)) = read 1 7 c := by
  unfold read at *
  rw [UInt8.toNat_or, field_or, field_or, h, field_byte _ (by decide), field_byte _ (by decide),
    field_flag, field_flag]
  have h0 : field 0 1 0x01 = 1 := rfl
  have h1 : field 1 7 0x01 = 0 := rfl
  rw [h0, h1, flag_one, flag_zero, Nat.zero_or, Nat.or_zero]
  exact ⟨rfl, rfl⟩

theorem command5Fields : s.Command5Fields (s.setMox s.command5) := by
  have hmode : s.cwKeyerMode.toNat < 2 ^ 2 := by cases s.cwKeyerMode <;> decide
  constructor
  case mox => exact (s.read_setMox 0x16 rfl).1
  case address => exact (s.read_setMox 0x16 rfl).2
  case speed =>
    simp (disch := decide) only [setMox, command5, read_byte, field_or,
      field_self s.cwKeyerSpeed_lt, field_shiftLeft_of_le, Nat.or_zero]
  case mode =>
    simp (disch := decide) only [setMox, command5, read_byte, field_or,
      field_of_lt s.cwKeyerSpeed_lt, field_shiftLeft 6 hmode, Nat.zero_or]
  all_goals
    simp (disch := decide) only [setMox, command5, read_byte, field_or, field_flag,
      field_self s.cwKeyerWeight_lt, field_of_lt s.cwKeyerWeight_lt]
    simp [field, flag_one]

/-- A Hermes board is none of the two light ones. -/
theorem device_of_hermes (h : s.hermes) : s.device ≠ .hermesLite2 ∧ s.device ≠ .hermesLite := by
  unfold hermes at h
  constructor <;> intro hd <;> rw [hd] at h <;> exact absurd h (by decide)

theorem command4Fields : s.Command4Fields (s.setMox s.command4) := by
  constructor
  case mox => exact (s.read_setMox 0x14 rfl).1
  case address => exact (s.read_setMox 0x14 rfl).2
  case lineinGain =>
    simp (disch := decide) only [setMox, command4, read_byte, field_or, field_flag,
      field_self s.lineinGain_lt]
    simp [field]
  case puresignal =>
    simp (disch := decide) only [setMox, command4, read_byte, field_or, field_flag,
      field_of_lt s.lineinGain_lt]
    simp [field, flag_one]
  case gain =>
    intro h
    obtain ⟨hlow, hhigh⟩ := s.gain_bounds h
    have hgain : (s.adc0.attenuation + 12) % 0x40 = s.adc0.attenuation + 12 :=
      Int.emod_eq_of_lt (by omega) (by omega)
    have hlt : (s.adc0.attenuation + 12).toNat < 2 ^ 6 := by omega
    simp (disch := decide) only [setMox, command4, if_pos h, hgain, read_byte, field_or,
      field_self hlt]
    simp [field]
    omega
  case attenuation =>
    intro h
    obtain ⟨h2, h1⟩ := s.device_of_hermes h
    obtain ⟨hlow, hhigh⟩ := s.attenuation_bounds h2
    have hatt : s.adc0.attenuation % 0x20 = s.adc0.attenuation :=
      Int.emod_eq_of_lt hlow hhigh
    have hlt : s.adc0.attenuation.toNat < 2 ^ 5 := by omega
    simp (disch := decide) only [setMox, command4, if_neg h2, if_neg h1, if_pos h, hatt,
      read_byte, field_or, field_flag, field_self hlt]
    simp [field]
    omega
  case stepAttenuation =>
    intro h
    obtain ⟨h2, h1⟩ := s.device_of_hermes h
    have hlt : (s.adc0.attenuation % 0x20).toNat < 2 ^ 5 := by omega
    simp (disch := decide) only [setMox, command4, if_neg h2, if_neg h1, if_pos h,
      read_byte, field_or, field_flag, field_of_lt hlt]
    simp [field, flag_one]
  all_goals
    simp (disch := decide) only [setMox, command4, read_byte, field_or, field_flag]
    simp [field, flag_one]

/-- Every low-pass filter has a bit of C3, and none of C4. -/
theorem command3Fields_iff (rx : TransmitterRx) (c : Control) (hrx : s.rx = some rx)
    (hc : s.command3 = some c) :
    s.Command3Fields rx (s.setMox c) ↔ s.adc0.filters = .automatic := by
  unfold command3 at hc
  rw [hrx] at hc
  obtain rfl := Option.some.inj hc
  constructor
  · intro h
    have hlpf := h.lpf
    have hnone : read 0 7 0x00 = 0 := rfl
    cases hfilters : s.adc0.filters with
    | automatic => rfl
    | manual =>
      rw [hfilters, if_pos rfl] at hlpf
      have hzero := hlpf.symm.trans hnone
      cases hl : s.adc0.lpf <;> rw [hl] at hzero <;> exact absurd hzero (by decide)
  · intro h
    have hnot : ¬ s.adc0.filters = .manual := by
      rw [h]
      decide
    constructor
    case mox => exact (s.read_setMox 0x12 rfl).1
    case address => exact (s.read_setMox 0x12 rfl).2
    case level => rfl
    case lpf =>
      rw [if_neg hnot]
      rfl
    all_goals
      simp (disch := decide) only [setMox, hnot, decide_false, read_byte, field_or, field_flag,
        if_false]
      simp only [field, Nat.reduceShiftRight, Nat.reducePow, Nat.reduceMod, flag_zero, flag_false,
        flag_one, Nat.zero_or, Nat.or_zero, Bool.toNat_false]

theorem antRelay_lt (antenna : ℤ) : antRelay antenna < 2 ^ 2 := by
  unfold antRelay
  split_ifs <;> decide

/-- Two relays at once are the one alone only if they are the same, or the other is none. -/
theorem antRelay_or (tx rx : ℤ) :
    antRelay tx ||| antRelay rx = antRelay tx ↔ (rx = 1 ∨ rx = 2 → rx = tx) := by
  unfold antRelay
  split_ifs <;> simp <;> omega

theorem rxRelay_lt : s.rxRelay < 2 ^ 2 := by
  unfold rxRelay
  split_ifs
  · exact antRelay_lt _
  · exact antRelay_lt _
  · decide

theorem relay_or : antRelay s.alexTxAntenna ||| s.rxRelay = antRelay s.alexTxAntenna ↔
    (s.adc0.antenna = 1 ∨ s.adc0.antenna = 2 → s.adc0.antenna = s.alexTxAntenna) := by
  unfold rxRelay
  split_ifs with hant hext
  · exact antRelay_or _ _
  · rw [Nat.or_self]
    omega
  · rw [Nat.or_zero]
    omega

/-- The bits of two antennas are the same only if the antennas are, or both are of the relay: but
for XVTR and EXT2. -/
theorem rxAntenna_iff (b : ℤ) :
    (∀ a, field 5 3 (rxAntennaCode b) = field 5 3 (rxAntennaCode a) →
      a = b ∨ (¬ External a ∧ ¬ External b)) ↔ b ≠ 3 ∧ b ≠ 5 := by
  have hcode (a : ℤ) : field 5 3 (rxAntennaCode a) =
      if a = 3 then 7 else if a = 4 then 5 else if a = 5 then 7 else 0 := by
    unfold rxAntennaCode
    split_ifs <;> rfl
  simp only [hcode]
  unfold External
  constructor
  · intro h
    constructor
    · rintro rfl
      exact absurd (h 5 rfl) (by decide)
    · rintro rfl
      exact absurd (h 3 rfl) (by decide)
  · rintro ⟨h3, h5⟩ a h
    split_ifs at h <;> omega

theorem ocTuned_lt : s.ocTuned < 2 ^ 7 := by
  unfold ocTuned
  split_ifs
  · exact s.ocTune_lt
  · decide

/-- The outputs are beside the class E bit. -/
theorem read_openCollector :
    read 0 1 (s.setMox s.generalFrame).c2 = s.classE.toNat ∧
      read 1 7 (s.setMox s.generalFrame).c2 = s.openCollector := by
  have htuned := field_shiftLeft 1 s.ocTuned_lt
  simp (disch := decide) only [setMox, generalFrame, openCollector, read_byte, field_or, field_flag]
  cases s.rx with
  | none => simp [field, flag_one]
  | some rx =>
    have htx := field_shiftLeft 1 (s.txBand rx).ocTx_lt
    have hrx := field_shiftLeft 1 rx.bandA.ocRx_lt
    cases s.transmitting <;>
      simp (disch := decide) only [if_true, Bool.false_eq_true, if_false, field_or, htx, hrx,
        htuned, field_shiftLeft_of_le] <;>
      simp [field, flag_one]

theorem speedCode_lt (sampleRate : ℕ) : speedCode sampleRate < 2 ^ 2 := by
  unfold speedCode
  split_ifs <;> decide

/-- The TX antenna is put into C4 while the radio transmits. -/
theorem txRelay_lt : (if s.transmitting then antRelay s.alexTxAntenna else 0) < 2 ^ 2 := by
  split_ifs
  · exact antRelay_lt _
  · decide

/-- C4: the TX antenna and the RX antenna stand one over the other. -/
theorem read_c4 : read 0 2 (s.setMox s.generalFrame).c4 =
      (if s.transmitting then antRelay s.alexTxAntenna else 0) ||| s.rxRelay ∧
    read 2 1 (s.setMox s.generalFrame).c4 = 1 ∧
    read 3 3 (s.setMox s.generalFrame).c4 = s.receivers - 1 ∧
    read 6 1 (s.setMox s.generalFrame).c4 = 0 ∧
    read 7 1 (s.setMox s.generalFrame).c4 = (decide (s.diversityMixers > 0)).toNat := by
  have hreceivers : s.receivers - 1 < 2 ^ 3 := by
    have := s.receivers_le
    omega
  have hshifted : (s.receivers - 1) <<< 3 < 2 ^ 6 := by
    rw [Nat.shiftLeft_eq]
    omega
  refine ⟨?_, ?_, ?_, ?_, ?_⟩ <;>
    simp (disch := decide) only [setMox, generalFrame, read_byte, field_or, field_flag,
      field_shiftLeft_of_le, field_shiftLeft 3 hreceivers, field_of_lt hshifted,
      field_self s.txRelay_lt, field_self s.rxRelay_lt, field_of_lt s.txRelay_lt,
      field_of_lt s.rxRelay_lt] <;>
    simp [field, flag_one]

theorem read_relay_iff : read 0 2 (s.setMox s.generalFrame).c4 = s.relay ↔
    (s.transmitting → s.adc0.antenna = 1 ∨ s.adc0.antenna = 2 →
      s.adc0.antenna = s.alexTxAntenna) := by
  rw [s.read_c4.1]
  unfold relay
  cases s.transmitting
  · simp
  · simpa using s.relay_or

theorem rxAntennaCode_dvd (antenna : ℤ) : 2 ^ 5 ∣ rxAntennaCode antenna := by
  unfold rxAntennaCode
  split_ifs <;> decide

/-- C3: the receive antenna stands above five single bits. -/
theorem read_c3 :
    read 0 1 (s.setMox s.generalFrame).c3 = s.adc0.att10.toNat ∧
      read 1 1 (s.setMox s.generalFrame).c3 = s.adc0.att20.toNat ∧
      read 2 1 (s.setMox s.generalFrame).c3 = s.adc0.preamp.toNat ∧
      read 3 1 (s.setMox s.generalFrame).c3 = s.adc0.dither.toNat ∧
      read 4 1 (s.setMox s.generalFrame).c3 =
        (if s.hl2 then !s.psuClk else s.adc0.random).toNat ∧
      read 5 3 (s.setMox s.generalFrame).c3 = field 5 3 (rxAntennaCode s.adc0.antenna) := by
  have hdvd := rxAntennaCode_dvd s.adc0.antenna
  refine ⟨?_, ?_, ?_, ?_, ?_, ?_⟩ <;>
    simp (disch := decide) only [setMox, generalFrame, read_byte, field_or, field_flag,
      field_of_dvd hdvd] <;>
    simp [field, flag_one]

/-- C1: the speed, and above it what an Atlas board is told. -/
theorem read_c1 :
    read 0 2 (s.setMox s.generalFrame).c1 = speedCode s.sampleRate ∧
      read 2 2 (s.setMox s.generalFrame).c1 =
        (if s.atlas then s.atlasClockSource10mhz % 4 else 0) ∧
      read 4 1 (s.setMox s.generalFrame).c1 = (s.atlas && s.atlasClockSource128mhz).toNat ∧
      read 5 2 (s.setMox s.generalFrame).c1 = flag s.atlas 3 ∧
      read 7 1 (s.setMox s.generalFrame).c1 = (s.atlas && s.atlasMicSource).toNat := by
  have hspeed := speedCode_lt s.sampleRate
  have hmask : s.atlasClockSource10mhz &&& 3 = s.atlasClockSource10mhz % 4 :=
    Nat.and_two_pow_sub_one_eq_mod _ 2
  have hclock : s.atlasClockSource10mhz % 4 < 2 ^ 2 := Nat.mod_lt _ (by decide)
  have hshifted : (s.atlasClockSource10mhz % 4) <<< 2 < 2 ^ 4 := by
    rw [Nat.shiftLeft_eq]
    omega
  cases hatlas : s.atlas <;> refine ⟨?_, ?_, ?_, ?_, ?_⟩ <;>
    simp (disch := decide) only [setMox, generalFrame, hatlas, hmask, if_true, Bool.false_eq_true,
      if_false, read_byte, field_or, field_flag, field_self hspeed, field_of_lt hspeed,
      field_shiftLeft 2 hclock, field_shiftLeft_of_le, field_of_lt hshifted] <;>
    simp [field, flag_one]

theorem generalFields_iff :
    s.GeneralFields (s.setMox s.generalFrame) ↔
      (s.transmitting → s.adc0.antenna = 1 ∨ s.adc0.antenna = 2 →
        s.adc0.antenna = s.alexTxAntenna) ∧ s.adc0.antenna ≠ 3 ∧ s.adc0.antenna ≠ 5 := by
  obtain ⟨hspeed, hclock10mhz, hclock128mhz, hconfig, hmicSource⟩ := s.read_c1
  obtain ⟨hclassE, hopenCollector⟩ := s.read_openCollector
  obtain ⟨hatt10, hatt20, hpreamp, hdither, hrandom, hantenna⟩ := s.read_c3
  obtain ⟨-, hduplex, hreceivers, htimeStamp, hdiversity⟩ := s.read_c4
  rw [← rxAntenna_iff, ← read_relay_iff, ← hantenna]
  refine ⟨fun h => ⟨h.relay, h.rxAntenna⟩, fun ⟨hrelay, hrxAntenna⟩ => ?_⟩
  constructor
  case mox => exact (s.read_setMox 0x00 rfl).1
  case address => exact (s.read_setMox 0x00 rfl).2
  all_goals assumption

/-- **The control words** carry every setting in its own field if and only if the receive antenna
is neither XVTR nor EXT2, nor while the radio transmits another relay than the transmit antenna's,
and the filters are left to the firmware. -/
theorem carries_iff :
    s.Carries ↔
      (s.transmitting → s.adc0.antenna = 1 ∨ s.adc0.antenna = 2 →
        s.adc0.antenna = s.alexTxAntenna) ∧
      (s.adc0.antenna ≠ 3 ∧ s.adc0.antenna ≠ 5) ∧
      (s.rx = none ∨ s.adc0.filters = .automatic) := by
  unfold Carries
  rw [generalFields_iff, and_assoc]
  refine and_congr_right fun _ => and_congr_right fun _ => ?_
  constructor
  · rintro ⟨h3, -⟩
    cases hrx : s.rx with
    | none => exact .inl rfl
    | some rx =>
      have hc : s.command3 = some _ := congrArg _ hrx
      exact .inr ((s.command3Fields_iff rx _ hrx hc).1 (h3 rx hrx _ hc))
  · intro h
    refine ⟨fun rx hrx c hc => ?_, s.command4Fields, s.command5Fields⟩
    obtain hnone | hauto := h
    · rw [hnone] at hrx
      cases hrx
    · exact (s.command3Fields_iff rx c hrx hc).2 hauto

end ControlState

/-! ## A Hermes with manual filters -/

/-- A band without outputs. -/
def plainBand : Band := ⟨0, Nat.two_pow_pos 7, 0, Nat.two_pow_pos 7, false⟩

/-- A Hermes that transmits on ANT 3 and has ANT 2 selected for reception. -/
def hermesState (hpf : Hpf) (lpf : Lpf) : ControlState where
  transmitting := true
  tune := false
  txCw := false
  cwKeyerInternal := false
  usbozy := false
  device := .hermes
  sampleRate := 192000
  atlasMicSource := false
  atlasClockSource10mhz := 0
  atlasClockSource128mhz := false
  classE := false
  rx := some ⟨false, plainBand, plainBand, false⟩
  ocMemoryTuneTime := 0
  tuneTimeout := 0
  now := 0
  ocTune := 0
  ocTune_lt := Nat.two_pow_pos 7
  psuClk := false
  adc0 := ⟨.manual, hpf, lpf, 1, false, false, false, false, false, 0, false⟩
  adc1Preamp := false
  diversityMixers := 0
  receivers := 1
  receivers_pos := Nat.one_pos
  receivers_le := by decide
  alexTxAntenna := 2
  level := 100
  micBoost := false
  micLinein := false
  filterBoard := .alex
  micPttEnabled := true
  micBiasEnabled := false
  micPttTipBiasRing := false
  lineinGain := 16
  lineinGain_lt := by decide
  puresignal := false
  cwKeysReversed := false
  cwKeyerSpeed := 20
  cwKeyerSpeed_lt := by decide
  cwKeyerMode := .modeA
  cwKeyerWeight := 50
  cwKeyerWeight_lt := by decide
  cwKeyerSpacing := false
  gain_bounds h := by cases h
  attenuation_bounds _ := ⟨le_rfl, show (0 : ℤ) < 2 ^ 5 by decide⟩

/-- The relay field asks for ANT 2 and ANT 3 at once, and two selections of filters that differ in
both give the same command 3. -/
theorem not_carries :
    (∀ hpf lpf, ¬ (hermesState hpf lpf).Carries) ∧
      read 0 2 (hermesState .bypass .lpf6).generalFrame.c4 = 3 ∧
      (hermesState .hpf6_5 .lpf80).command3 = (hermesState .hpf9_5 .lpf160).command3 := by
  refine ⟨fun hpf lpf h => ?_, by decide, by decide⟩
  have hrelay : (1 : ℤ) = 2 :=
    ((hermesState hpf lpf).generalFields_iff.1 h.1).1 rfl (.inl rfl)
  exact absurd hrelay (by decide)

end MacHPSDR.Protocol1
