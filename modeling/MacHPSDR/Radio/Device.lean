import Mathlib.Logic.Basic

/-!
# The boards and their filters

The devices that the two network protocols distinguish, and the selections that the operator makes
for their filter boards.
-/

namespace MacHPSDR.Radio

/-- `DEVICE_...`, `NEW_DEVICE_...` -/
inductive Device
  /-- The board of the USB build. -/
  | ozy
  /-- `NEW_DEVICE_ATLAS` in protocol 2. -/
  | metis
  | hermes
  | hermes2
  | angelia
  | orion
  | orion2
  | hermesLite
  | hermesLite2
  deriving DecidableEq

/-- `adc.filters` -/
inductive Filters
  | automatic
  | manual
  deriving DecidableEq

/-- `adc.hpf` -/
inductive Hpf
  | bypass
  | hpf1_5
  | hpf6_5
  | hpf9_5
  | hpf13
  | hpf20
  deriving DecidableEq

/-- `adc.lpf` -/
inductive Lpf
  | lpf160
  | lpf80
  | lpf60_40
  | lpf30_20
  | lpf17_15
  | lpf12_10
  | lpf6
  deriving DecidableEq

/-- `radio->filter_board` -/
inductive FilterBoard
  | none
  | alex
  | apollo
  | n2adr
  | hl2Mrf101
  deriving DecidableEq

end MacHPSDR.Radio
