import Mathlib.Logic.Basic

/-!
# The mode of the transmitter

The transmitter follows one of the receivers, and of its two VFOs the second one when it is split.
-/

namespace MacHPSDR.Radio

inductive Mode
  | lsb
  | usb
  | dsb
  | cwl
  | cwu
  | fmn
  | am
  | digu
  | spec
  | digl
  | sam
  | drm
  | wfm
  deriving DecidableEq

/-- `CWL` and `CWU` -/
def Mode.isCw (m : Mode) : Bool := m = .cwl || m = .cwu

/-- The modes of `transmitter->rx`. -/
structure TxReceiver where
  split : Bool
  modeA : Mode
  modeB : Mode
  deriving DecidableEq

/-- `transmitter_get_mode` -/
def transmitterGetMode : Option TxReceiver → Mode
  | none => .usb
  | some rx => if rx.split then rx.modeB else rx.modeA

end MacHPSDR.Radio
