import Mathlib

/-!
# The MIDI actions

The actions that a MIDI control can be given, with the words that stand for them.
-/

namespace MacHPSDR.Midi

/-- `enum MIDIaction` -/
inductive MidiAction where
  | actionNone | vfoA2b | midiAfGain | agcattack | midiAgc | anf | att | vfoB2a | midiBand160
  | midiBand80 | midiBand60 | midiBand40 | midiBand30 | midiBand20 | midiBand17 | midiBand15
  | midiBand12 | midiBand10 | midiBand6 | midiBand70 | midiBand144 | midiBand220 | midiBand430
  | midiBand902 | midiBand1240 | midiBand2300 | midiBand3400 | midiBandAir | midiBandGen
  | midiBandWwv | bandDown | bandUp | compress | midiCtun | vfo | cwleft | cwright | cwspeed
  | divCoarsegain | divCoarsephase | divFinegain | divFinephase | divGain | divPhase | divToggle
  | midiDup | filterDown | filterUp | midiLock | menuAbout | menuEer | menuMidi | menuOc | menuPa
  | menuPs | menuRadio | menuRx | menuTx | menuXvtr | micVolume | modeDown | modeUp | midiMox
  | midiMute | midiNb | midiNr | numpad0 | numpad1 | numpad2 | numpad3 | numpad4 | numpad5
  | numpad6 | numpad7 | numpad8 | numpad9 | numpadCl | numpadEnter | midiPan | panHigh | panLow
  | pre | midiPtt | midiPs | midiRfGain | txDrive | midiRitClear | ritStep | ritToggle | ritVal
  | midiSat | snb | midiSplit | swapRx | swapVfo | midiTune | vfoa | vfob | vfoStepUp | vfoStepDown
  | vox | voxlevel | midiXitClear | xitVal | midiZoom | zoomUp | zoomDown
deriving DecidableEq

/-- `ActionTable` -/
def actionTable : List (MidiAction × String) :=
  [(.actionNone, "NONE"), (.vfoA2b, "A2B"), (.midiAfGain, "AF GAIN"), (.agcattack, "AGC"),
   (.midiAgc, "AGC GAIN"), (.anf, "ANF"), (.att, "ATT"), (.vfoB2a, "B2A"), (.midiBand160, "1.8"),
   (.midiBand80, "3.5"), (.midiBand60, "5"), (.midiBand40, "7"), (.midiBand30, "10"),
   (.midiBand20, "14"), (.midiBand17, "18"), (.midiBand15, "21"), (.midiBand12, "24"),
   (.midiBand10, "28"), (.midiBand6, "50"), (.midiBand70, "70"), (.midiBand144, "144"),
   (.midiBand220, "220"), (.midiBand430, "430"), (.midiBand902, "902"), (.midiBand1240, "1240"),
   (.midiBand2300, "2300"), (.midiBand3400, "3400"), (.midiBandAir, "AIR"), (.midiBandGen, "GEN"),
   (.midiBandWwv, "WWV"), (.bandDown, "BAND DOWN"), (.bandUp, "BAND UP"), (.compress, "COMPRESS"),
   (.midiCtun, "CTUN"), (.vfo, "CURR VFO"), (.cwleft, "CW LEFT"), (.cwright, "CW RIGHT"),
   (.cwspeed, "CW SPEED"), (.divCoarsegain, "DIV COARSE GAIN"),
   (.divCoarsephase, "DIV COARSE PHASE"), (.divFinegain, "DIV FINE GAIN"),
   (.divFinephase, "DIV FINE PHASE"), (.divGain, "DIV GAIN"), (.divPhase, "DIV PHASE"),
   (.divToggle, "DIV TOGGLE"), (.midiDup, "DUP"), (.filterDown, "FILTER DOWN"),
   (.filterUp, "FILTER UP"), (.midiLock, "LOCK"), (.menuAbout, "MENU ABOUT"),
   (.menuEer, "MENU EER"), (.menuMidi, "MENU MID"), (.menuOc, "MENU OC"), (.menuPa, "MENU PA"),
   (.menuPs, "MENU  PS"), (.menuRadio, "MENU  RADIO"), (.menuRx, "MENU RX"), (.menuTx, "MENU TX"),
   (.menuXvtr, "MENU XVTR"), (.micVolume, "MIC GAIN"), (.modeDown, "MODE DOWN"),
   (.modeUp, "MODE UP"), (.midiMox, "MOX"), (.midiMute, "MUTE"), (.midiNb, "NOISE BLANKER"),
   (.midiNr, "NOISE REDUCTION"), (.numpad0, "NUMPAD 0"), (.numpad1, "NUMPAD 1"),
   (.numpad2, "NUMPAD 2"), (.numpad3, "NUMPAD 3"), (.numpad4, "NUMPAD 4"), (.numpad5, "NUMPAD 5"),
   (.numpad6, "NUMPAD 6"), (.numpad7, "NUMPAD 7"), (.numpad8, "NUMPAD 8"), (.numpad9, "NUMPAD 9"),
   (.numpadCl, "NUMPAD CLEAR"), (.numpadEnter, "NUMPAD ENTER"), (.midiPan, "PAN"),
   (.panHigh, "PAN HIGH"), (.panLow, "PAN LOW"), (.pre, "PREAMP"), (.midiPtt, "PTT"),
   (.midiPs, "PURESIGNAL"), (.midiRfGain, "RFGAIN"), (.txDrive, "DRIVE"),
   (.midiRitClear, "RIT CLEAR"), (.ritStep, "RIT STEP"), (.ritToggle, "RIT TOGGLE"),
   (.ritVal, "RIT VAL"), (.midiSat, "SAT"), (.snb, "SNB"), (.midiSplit, "SPLIT"),
   (.swapRx, "NEXT RX"), (.swapVfo, "SWAP VFO"), (.midiTune, "TUNE"), (.vfoa, "VFOA"),
   (.vfob, "VFOB"), (.vfoStepUp, "VFO STEP UP"), (.vfoStepDown, "VFO STEP DOWN"), (.vox, "VOX"),
   (.voxlevel, "VOX LEVEL"), (.midiXitClear, "XIT CLEAR"), (.xitVal, "XIT VAL"),
   (.midiZoom, "ZOOM"), (.zoomUp, "ZOOM UP"), (.zoomDown, "ZOOM DOWN"), (.actionNone, "NONE")]

/-- The action that a word of the table stands for. -/
def named (s : List Char) : Option MidiAction :=
  (actionTable.find? fun row => row.2.toList == s).map Prod.fst

/-- `keyword2action` -/
def keyword2action (s : List Char) : MidiAction := (named s).getD .actionNone

end MacHPSDR.Midi
