import MacHPSDR.Foundations.CString
import MacHPSDR.Foundations.ReplyScript
import MacHPSDR.Radio.TransmitMode
import Mathlib

/-!
# What the CAT commands read and set

The fields of the receiver, the radio and the transmitter that `rigctl_parse.c` looks at (`Rig`),
what its commands do to them (`Effect`), the text of a command as the buffer holds it, and the
conversions of `sprintf` that its replies use. A command is a script over these (`Cat`).

`gboolean` is `int` in the source, and prints as one.
-/

namespace MacHPSDR.Rigctl

open Radio (Mode)
open ReplyScript ReplyScript.Script

/-! ## The text of a command -/

/-- `command[k]`; the buffer is filled with zeros before a command is read into it. -/
def char (c : List Char) (k : ℕ) : Char := c.getD k '\x00'

/-- `command[k]==';'` -/
def ends (k : ℕ) (c : List Char) : Bool := char c k == ';'

/-- `atoi(&command[k])` -/
def atoi (k : ℕ) (c : List Char) : ℤ := CString.atoi (c.drop k)

/-- `atoll(&command[k])` -/
def atoll (k : ℕ) (c : List Char) : ℤ :=
  max (-2 ^ 63) (min (2 ^ 63 - 1) (CString.readNumber (c.drop k)))

/-- `atoi` of the three characters from `k`. -/
def atoi3 (k : ℕ) (c : List Char) : ℤ := CString.atoi ((c.drop k).take 3)

/-! ## The state -/

/-- `FILTERS` -/
def filterCount : ℕ := 12

/-- `FVar1` -/
def fVar1 : ℕ := 10

/-- `MODES` -/
def modeCount : ℕ := 13

/-- `AGC_LAST` -/
def agcLast : ℤ := 4

/-- `CTCSS_FREQUENCIES` -/
def ctcssFrequencies : ℤ := 38

/-- `SPLIT_OFF`, `SPLIT_ON`, `SPLIT_SAT` and `SPLIT_RSAT` -/
def splitOff : ℤ := 0
def splitOn : ℤ := 1
def splitSat : ℤ := 2
def splitRsat : ℤ := 3

/-- The number of a mode. -/
def modeNumber : Mode → ℕ
  | .lsb => 0
  | .usb => 1
  | .dsb => 2
  | .cwl => 3
  | .cwu => 4
  | .fmn => 5
  | .am => 6
  | .digu => 7
  | .spec => 8
  | .digl => 9
  | .sam => 10
  | .drm => 11
  | .wfm => 12

/-- `FILTER` -/
structure Filter where
  low : ℤ
  high : ℤ
  title : List Char

/-- `TRANSMITTER`, with the DAC that it uses. -/
structure Transmitter where
  /-- `transmitter->rx==rx` -/
  isForRx : Bool
  dacAntenna : ℤ
  micGain : Float
  drive : Float
  tunePercent : Float
  enableEqualizer : ℤ
  equalizer : ℕ → ℤ
  ctcssEnabled : ℤ
  ctcss : ℤ
  compressorLevel : Float
  puresignalEnabled : ℤ
  xitEnabled : ℤ
  xit : ℤ

/-- A receiver with the radio and the tables around it. -/
structure Rig where
  /-- It has a DSP channel. -/
  channel : Bool
  bandA : ℤ
  modeA : Mode
  modeB : Mode
  filterA : ℕ
  filterB : ℕ
  filterLowA : ℤ
  filterHighA : ℤ
  frequencyA : ℤ
  frequencyB : ℤ
  ctun : ℤ
  freetune : ℤ
  ctunFrequency : ℤ
  split : ℤ
  deviation : ℤ
  agc : ℤ
  agcGain : Float
  ritEnabled : ℤ
  rit : ℤ
  step : ℤ
  locked : ℤ
  volume : Float
  nb : ℤ
  nb2 : ℤ
  nr : ℤ
  nr2 : ℤ
  snb : ℤ
  anf : ℤ
  smeter : ℤ
  meterDb : Float
  displayAverageTime : Float
  panadapterLow : ℤ
  panadapterHigh : ℤ
  panadapterStep : ℤ
  waterfallLow : ℤ
  waterfallHigh : ℤ
  enableEqualizer : ℤ
  equalizer : ℕ → ℤ
  subrxEnable : Bool
  /-- `radio->adc[rx->adc]` -/
  adcAttenuation : ℤ
  adcAntenna : ℤ
  adcPreamp : ℤ
  isHermesLite2 : Bool
  frequencyMax : ℤ
  mox : ℤ
  tune : ℤ
  vox : ℤ
  ptt : ℤ
  voxEnabled : Bool
  voxThreshold : Float
  transmitter : Option Transmitter
  /-- `filters[mode][filter]` -/
  filters : ℕ → ℕ → Filter
  /-- `bands[band].frequencyMin` -/
  bandMin : ℕ → ℤ

/-! ## What the commands do -/

/-- The integer fields that the commands assign. -/
inductive Field
  | step | ctun | frequencyB | filterB | modeB | split | deviation | agc | rit | ritEnabled | locked
  | nb | nb2 | nr | nr2 | nr3 | nr4 | snb | anf | smeter
  | panadapterLow | panadapterHigh | panadapterStep | waterfallLow | waterfallHigh
  | enableEqualizer | txEnableEqualizer | equalizer (k : ℕ) | txEqualizer (k : ℕ)
  | adcAttenuation | adcPreamp | xit | xitEnabled
  | filterLow (mode filter : ℕ) | filterHigh (mode filter : ℕ)

/-- The fields of type `double`. -/
inductive RealField
  | volume | agcGain | micGain | drive | compressorLevel | voxThreshold

/-- The functions that the commands call. -/
inductive Call
  | updateVfo
  | updateNoise
  | updateFrequency
  | frequencyChanged
  | vfoApplyFrequency (hz : ℤ)
  | receiverMove (hz : ℤ) (round : Bool)
  | receiverMoveB (hz : ℤ) (bOnly round : Bool)
  | receiverSetVolume
  | receiverSetAgcGain
  | receiverSetCtun
  | receiverFilterChanged (filter : ℤ)
  | receiverModeChanged (mode : ℤ)
  | subrxFilterChanged
  | subrxModeChanged
  | setBand (band entry : ℤ)
  | setAgc
  | setMox (state : ℤ)
  | setTune (state : ℤ)
  | extSetMox (state : ℤ)
  | extTxSetPs (on : Bool)
  | voxSetEnabled (on : Bool)
  | transmitterSetMode (mode : Mode)
  | transmitterSetCtcss (run f : ℤ)
  | setRXAGrphEQ10
  | setTXAGrphEQ10
  | setRXAEQRun (run : ℤ)
  | setTXAEQRun (run : ℤ)
  | setTXAPanelGain1 (gain : Float)

inductive Effect
  | assign (f : Field) (v : ℤ)
  | assignReal (f : RealField) (v : Float)
  | call (f : Call)

/-- The body of a CAT command. -/
abbrev Cat := Script (List Char) Rig Effect

/-! ## Conversions of `sprintf` -/

def digits (i : ℤ) : List Char := Nat.toDigits 10 i.natAbs

/-- The sign of a number, one for every number if there is a `+` flag. -/
def sign (plus : Bool) (i : ℤ) : List Char :=
  if i < 0 then ['-'] else if plus then ['+'] else []

/-- `%<width>d` -/
def spaced (plus : Bool) (width : ℕ) (i : ℤ) : List Char :=
  let s := sign plus i ++ digits i
  List.replicate (width - s.length) ' ' ++ s

/-- `%0<width>d` -/
def zeroed (plus : Bool) (width : ℕ) (i : ℤ) : List Char :=
  sign plus i ++
    List.replicate (width - (sign plus i ++ digits i).length) '0' ++ digits i

/-- `%d` -/
def dec (i : ℤ) : List Char := spaced false 0 i

/-- `%0<width>d` of a number without a `+` flag. -/
def zeros (width : ℕ) (i : ℤ) : List Char := zeroed false width i

/-- `(int)x` -/
def truncate (x : Float) : ℤ := x.toInt32.toInt

/-- `lround` -/
def lround (x : Float) : ℤ := x.round.toInt64.toInt

def fmin (x y : Float) : Float := if x.isNaN || y < x then y else x

def fmax (x y : Float) : Float := if x.isNaN || x < y then y else x

/-! ## The forms of a command -/

/-- `sprintf` and `send_resp`, with the letters that the format starts with. -/
def say (letters : String) (value : List Char → Rig → List Char) : Cat :=
  reply letters.toList fun c r => value c r ++ [';']

/-- `if(command[k]==';')` for a read, which is answered with what is in the state. -/
def read (k : ℕ) (letters : String) (value : Rig → List Char) (next : Cat) : Cat :=
  onText (ends k) (say letters fun _ => value) next

/-- `if(command[k]==';')` for a setting. -/
def set (k : ℕ) (effects : List Char → Rig → List Effect) (next : Cat := accept) : Cat :=
  onText (ends k) (apply effects) next

/-- `if(radio->transmitter)`, otherwise not implemented. -/
def withTransmitter (body : Cat) : Cat := onState (fun r => r.transmitter.isSome) body refuse

/-- What the transmitter has, for a radio with one. -/
def Rig.tx (r : Rig) (f : Transmitter → ℤ) : ℤ := (r.transmitter.map f).getD 0

def Rig.txReal (r : Rig) (f : Transmitter → Float) : Float := (r.transmitter.map f).getD 0

/-! ## The small helpers of `rigctl_parse.c` -/

/-- `steps` -/
def steps : List ℤ :=
  [1, 10, 25, 50, 100, 250, 500, 1000, 5000, 9000, 10000, 12500, 100000, 250000, 500000, 1000000]

/-- `step_size` -/
def stepSize (r : Rig) : ℤ := (((steps.take 15).idxOf? r.step).getD 0 : ℕ) + 1

/-- `steps[i-1]` where `i` is a number that the commands take, otherwise 0. -/
def stepAt (i : ℤ) : ℤ := if 0 < i ∧ i ≤ 14 then steps.getD (i - 1).toNat 0 else 0

/-- `cat_band`: the bands from 2200 m to 6 m, then `bandGen` and `bandWWV`. -/
def catBand (r : Rig) : ℤ :=
  if r.bandA < 0 then 20
  else [888, 888, 160, 80, 60, 40, 30, 20, 17, 15, 12, 10, 6, 888, 999].getD r.bandA.toNat 20

/-- `s_meter_level` -/
def sMeterLevel (r : Rig) : Float :=
  let attenuation := Float.ofInt r.adcAttenuation
  r.meterDb + if r.isHermesLite2 then attenuation * -1 else attenuation

/-- `ts2000_mode` -/
def ts2000Mode : Mode → ℤ
  | .lsb => 1
  | .usb => 2
  | .cwl => 7
  | .cwu => 3
  | .fmn => 4
  | .am | .sam => 5
  | .digl => 6
  | .digu => 9
  | _ => 1

/-- `BANDS` -/
def bandCount : ℕ := 24

def bandGen : ℤ := 13

def bandWwv : ℤ := 14

/-- `next_band` -/
def nextBand (r : Rig) : ℤ :=
  let b := r.bandA + 1
  if bandCount ≤ b then bandWwv
  else if r.frequencyMax < r.bandMin b.toNat then bandGen
  else b

/-- The loop of `previous_band`. -/
def previousBandLoop (r : Rig) : ℕ → ℕ
  | 0 => 0
  | b + 1 => if r.frequencyMax < r.bandMin (b + 1) then previousBandLoop r b else b + 1

/-- `previous_band` -/
def previousBand (r : Rig) : ℤ :=
  if r.bandA - 1 < 0 then 0 else previousBandLoop r (r.bandA - 1).toNat

/-- `receiver_tuned_frequency` -/
def tunedFrequency (r : Rig) : ℤ :=
  if r.ctun ≠ 0 ∨ r.freetune ≠ 0 then r.ctunFrequency else r.frequencyA

/-- `isTransmitting` -/
def isTransmitting (r : Rig) : ℤ := Int.lor (Int.lor (Int.lor r.ptt r.mox) r.vox) r.tune

/-- `filters[rx->mode_a][FVar1]` -/
def Rig.var1 (r : Rig) : Filter := r.filters (modeNumber r.modeA) fVar1

end MacHPSDR.Rigctl
