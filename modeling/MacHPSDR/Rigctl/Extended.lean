import MacHPSDR.Rigctl.Rig
import Mathlib

/-!
# The extended commands

`parse_extended_cmd`: the `ZZ` commands, by the two letters that follow. The arms of the source
that only say `implemented=FALSE` are its default and are left out of the tables.
-/

namespace MacHPSDR.Rigctl

open Radio (Mode)
open ReplyScript ReplyScript.Script

/-- `update_vfo(rx)` -/
def vfo : Effect := .call .updateVfo

/-! ## Families -/

/-- Move the dial by one of the steps that the commands name. -/
def moveByStep (move : ℤ → Call) : Cat :=
  set 6 fun c _ => if stepAt (atoi 4 c) ≠ 0 then [.call (move (stepAt (atoi 4 c)))] else []

/-- Move VFO A by a number of the steps set. -/
def moveBySteps (s : ℤ) : Cat :=
  set 6 fun c r => [.call (.receiverMove (r.step * (s * atoi 4 c)) true)]

/-- The gain of the audio, in percent. -/
def audioGain (letters : String) : Cat :=
  read 4 letters (fun r => zeros 3 (truncate (r.volume * 100.0))) <|
    apply fun c _ =>
      [.assignReal .volume (Float.ofInt (atoi 4 c) / 100.0), .call .receiverSetVolume, vfo]

/-- A command that is not set, and reads as 0. -/
def always0 (letters : String) : Cat := read 4 letters (fun _ => dec 0) refuse

/-- A level of the display. -/
def level (letters : String) (f : Field) (v : Rig → ℤ) : Cat :=
  read 4 letters (fun r => spaced true 4 (v r)) <|
    set 8 (fun c _ => [.assign f (atoi 4 c)]) refuse

/-- A noise control that puts the controls `others` off when it goes on. -/
def noise (letters : String) (f : Field) (v : Rig → ℤ) (others : List Field) : Cat :=
  read 4 letters (fun r => dec (v r)) <|
    set 5 fun c _ =>
      .assign f (atoi 4 c) ::
        (if atoi 4 c ≠ 0 then others.map (.assign · 0) else []) ++ [.call .updateNoise]

/-- An edge of the filter `FVar1`, which is selected first. -/
def filterEdge (letters : String) (f : ℕ → ℕ → Field) (v : Rig → ℤ) : Cat :=
  read 4 letters (fun r => zeros 5 (v r)) <|
    set 9 fun c r =>
      (if r.filterA ≠ fVar1 then [.call (.receiverFilterChanged fVar1)] else []) ++
        [.assign (f (modeNumber r.modeA) fVar1) (max (-9999) (min 9999 (atoi 4 c))),
          .call (.receiverFilterChanged fVar1)]

/-- A number below `count` in two digits. -/
def choice (letters : String) (count : ℤ) (v : Rig → ℤ) (effects : ℤ → Rig → List Effect) : Cat :=
  read 4 letters (fun r => zeros 2 (v r)) <|
    onText (ends 6)
      (onText (fun c => atoi 4 c < 0 || count ≤ atoi 4 c) refuse
        (apply fun c => effects (atoi 4 c))) accept

/-- The RIT, up or down by a step, or set. -/
def ritStep (s : ℤ) : Cat :=
  set 4 (fun _ r => [.assign .rit (r.rit + s * if r.modeA.isCw then 10 else 50), vfo]) <|
    set 9 fun c _ => [.assign .rit (atoi 4 c), vfo]

/-- The split, with the mode of the transmitter. -/
def splitMode (letters : String) : Cat :=
  read 4 letters (fun r => dec r.split) <|
    set 5 fun c r => [.assign .split (atoi 4 c)] ++
      (if r.transmitter.isSome then [.call (.transmitterSetMode r.modeB)] else []) ++ [vfo]

/-- The preamplifier in the numbering of the protocol. -/
def preamp (r : Rig) : ℤ :=
  let a := r.adcAttenuation
  if a = 0 then 1 else if a ≤ -30 then 4 else if a ≤ -20 then 0 else if a ≤ -10 then 2 else 3

/-- The equalizer of the receiver or of the transmitter, three bands and what comes before. -/
def equalizer (letters : String) (v : Rig → ℕ → ℤ) (f : ℕ → Field)
    (run : Rig → List Effect) : Cat :=
  read 4 letters (fun r => zeros 3 3 ++ (List.range 4).flatMap (fun k => zeros 3 (v r k)) ++
      "00000000000000000000".toList) <|
    set 37 fun c r =>
      if atoi3 4 c = 3 then
        [.assign (f 0) (atoi3 7 c), .assign (f 1) (atoi3 10 c), .assign (f 2) (atoi3 13 c)] ++ run r
      else []

/-! ## The tables -/

/-- `ZZA` -/
def zzA : List (Char × Cat) := [
  ('C', read 4 "ZZAC" (fun r => zeros 2 (stepSize r)) <|
    set 6 fun c _ =>
      if stepAt (atoi 4 c) ≠ 0 then [.assign .step (stepAt (atoi 4 c)), vfo] else []),
  ('D', moveByStep fun hz => .receiverMove (-hz) false),
  ('E', moveBySteps (-1)),
  ('F', moveBySteps 1),
  ('G', audioGain "ZZAG"),
  ('R', read 4 "ZZAR" (fun r => zeroed true 4 (truncate r.agcGain)) <|
    apply fun c _ =>
      [.assignReal .agcGain (Float.ofInt (atoi 4 c)), .call .receiverSetAgcGain]),
  ('U', moveByStep fun hz => .receiverMove hz true)]

/-- `ZZB` -/
def zzB : List (Char × Cat) := [
  ('D', set 4 fun _ r => [.call (.setBand (previousBand r) (-1))]),
  ('E', moveBySteps (-1)),
  ('F', moveBySteps 1),
  ('G', always0 "ZZBG"),
  ('I', always0 "ZZBI"),
  ('M', moveByStep fun hz => .receiverMoveB (-hz) false false),
  ('P', moveByStep fun hz => .receiverMoveB hz false false),
  ('R', always0 "ZZBR"),
  ('S', read 4 "ZZBS" (fun r => zeros 3 (catBand r)) refuse)]

/-- `ZZC` -/
def zzC : List (Char × Cat) := [
  ('N', read 4 "ZZCN" (fun r => dec r.ctun) <|
    set 5 (fun c _ => [.assign .ctun (atoi 4 c), .call .receiverSetCtun]) refuse),
  ('P', always0 "ZZCP")]

/-- `ZZDQ`: the trailing `implemented=FALSE` stands behind all its branches. -/
def zzDQ : Cat := seq (level "ZZDQ" .panadapterLow (·.panadapterLow)) refuse

/-- What `ZZDU` reports after the first digit. -/
def statusRest (r : Rig) : List Char :=
  dec (if r.split ≠ splitOff then 1 else 0) ++ dec r.tune ++ dec r.mox ++ dec r.adcAntenna ++
    dec r.adcAntenna ++ dec (r.tx (·.dacAntenna)) ++ dec 0 ++ dec r.ritEnabled ++ dec 0 ++
    dec r.agc ++ dec 0 ++ dec (r.tx (·.xitEnabled)) ++ zeros 2 (stepSize r) ++
    zeros 2 (modeNumber r.modeA) ++ zeros 2 0 ++ zeros 2 0 ++ zeros 2 r.filterA ++ zeros 3 0 ++
    zeros 3 0 ++ zeros 3 (truncate (r.txReal (·.drive))) ++ zeros 3 (catBand r) ++
    zeros 3 (truncate (r.volume * 100.0)) ++ zeros 2 0 ++
    zeros 3 (truncate (r.txReal (·.tunePercent))) ++ zeros 4 0 ++
    zeros 4 (truncate (sMeterLevel r)) ++ zeros 5 r.rit ++ zeros 5 0 ++ zeros 5 (r.tx (·.xit)) ++
    "0.00".toList ++ zeros 11 r.frequencyA ++ zeros 11 r.frequencyB

/-- `ZZDU`: the format has no letters in front. -/
def zzDU : Cat :=
  say "" fun _ r => dec (if r.split ≠ splitOff then 1 else 0) ++ statusRest r

/-- `ZZD` -/
def zzD : List (Char × Cat) := [
  ('A', read 4 "ZZDA" (fun r => dec (if 1.0 < r.displayAverageTime then 1 else 0)) refuse),
  ('M', read 4 "ZZDM" (fun _ => dec 8) refuse),
  ('N', level "ZZDN" .waterfallLow (·.waterfallLow)),
  ('O', level "ZZDO" .waterfallHigh (·.waterfallHigh)),
  ('P', level "ZZDP" .panadapterHigh (·.panadapterHigh)),
  ('Q', zzDQ),
  ('R', read 4 "ZZDR" (fun r => zeros 2 r.panadapterStep) <|
    set 6 (fun c _ => [.assign .panadapterStep (atoi 4 c)]) refuse),
  ('U', zzDU)]

/-- `ZZE` -/
def zzE : List (Char × Cat) := [
  ('A', equalizer "ZZEA" (·.equalizer) .equalizer fun r =>
    if r.channel then [.call .setRXAGrphEQ10] else []),
  ('B', onState (fun r => r.transmitter.any (·.isForRx))
    (equalizer "ZZEB" (fun r k => r.tx (·.equalizer k)) .txEqualizer fun _ =>
      [.call .setTXAGrphEQ10]) refuse),
  ('R', withTransmitter <| read 4 "ZZER" (fun r => dec r.enableEqualizer) <|
    set 5 fun c r =>
      let on := if atoi 4 c ≠ 0 then 1 else 0
      .assign .enableEqualizer on :: if r.channel then [.call (.setRXAEQRun on)] else []),
  ('T', withTransmitter <| read 4 "ZZET" (fun r => dec (r.tx (·.enableEqualizer))) <|
    set 5 fun c _ =>
      let on := if atoi 4 c ≠ 0 then 1 else 0
      [.assign .txEnableEqualizer on, .call (.setTXAEQRun on)])]

/-- `ZZF` -/
def zzF : List (Char × Cat) := [
  ('A', read 4 "ZZFA" (fun r => zeros 11 (tunedFrequency r)) <|
    set 15 fun c _ => if 0 < atoll 4 c then [.call (.vfoApplyFrequency (atoll 4 c))] else []),
  ('B', read 4 "ZZFB" (fun r => zeros 11 r.frequencyB) <|
    set 15 fun c r =>
      if r.locked = 0 then
        [.assign .frequencyB (atoll 4 c), .call .frequencyChanged, .call .updateFrequency]
      else []),
  ('D', read 4 "ZZFD" (fun r => dec (if r.deviation = 2500 then 0 else 1)) <|
    set 5 fun c _ =>
      (if atoi 4 c = 0 then [.assign .deviation 2500]
        else if atoi 4 c = 1 then [.assign .deviation 5000] else []) ++ [vfo]),
  ('H', filterEdge "ZZFH" .filterHigh (·.filterHighA)),
  ('I', choice "ZZFI" filterCount (·.filterA) fun i _ => [.call (.receiverFilterChanged i)]),
  ('J', choice "ZZFJ" filterCount (·.filterB) fun i r =>
    .assign .filterB i :: if r.subrxEnable then [.call .subrxFilterChanged] else []),
  ('L', filterEdge "ZZFL" .filterLow (·.filterLowA))]

/-- `ZZG` -/
def zzG : List (Char × Cat) := [
  ('T', read 4 "ZZGT" (fun r => dec r.agc) <|
    onText (ends 5)
      (onText (fun c => atoi 4 c < 0 || agcLast < atoi 4 c) refuse <|
        apply fun c r =>
          .assign .agc (atoi 4 c) :: (if r.channel then [.call .setAgc] else []) ++ [vfo])
      accept)]

/-- `ZZI` -/
def zzI : List (Char × Cat) := [('D', say "ZZID" fun _ _ => "240".toList)]

/-- `ZZL` -/
def zzL : List (Char × Cat) := [
  ('A', audioGain "ZZLA"),
  ('I', withTransmitter <| seq
    (read 4 "ZZLI" (fun r => dec (r.tx (·.puresignalEnabled))) <|
      apply fun c _ => [.call (.extTxSetPs (atoi 4 c ≠ 0))])
    (apply fun _ _ => [vfo]))]

/-- `ZZM` -/
def zzM : List (Char × Cat) := [
  ('D', choice "ZZMD" modeCount (fun r => modeNumber r.modeA) fun m _ =>
    [.call (.receiverModeChanged m)]),
  ('E', choice "ZZME" modeCount (fun r => modeNumber r.modeB) fun m r =>
    .assign .modeB m :: if r.subrxEnable then [.call .subrxModeChanged] else []),
  ('G', withTransmitter <| read 4 "ZZMG" (fun r => zeros 3 (truncate (r.txReal (·.micGain)))) <|
    set 7 fun c _ =>
      let g := Float.ofInt (atoi 4 c)
      let g := if g < -10.0 then -10.0 else g
      let g := if 50.0 < g then 50.0 else g
      [.assignReal .micGain g, .call (.setTXAPanelGain1 (Float.pow 10.0 (g / 20.0)))]),
  ('L', read 4 "ZZML" (fun _ =>
    (" LSB00: USB01: DSB02: CWL03: CWU04: FMN05:  AM06:DIGU07:SPEC08:DIGL09: SAM10:" ++
      " DRM11").toList) accept),
  ('N', onText (ends 6)
    (onText (fun c => atoi 4 c - 1 < 0 || modeCount ≤ atoi 4 c - 1) refuse <|
      say "ZZMN" fun c r =>
        (List.range filterCount).flatMap fun i =>
          let f := r.filters (atoi 4 c - 1).toNat i
          List.replicate (5 - f.title.length) ' ' ++ f.title ++
            spaced false 5 f.high ++ spaced false 5 f.low)
    accept),
  ('O', read 4 "ZZMO" (fun _ => dec 0) accept),
  ('R', read 4 "ZZMR" (fun r => dec (r.smeter + 1)) <|
    set 5 fun c _ => [.assign .smeter (atoi 4 c - 1)]),
  ('T', read 4 "ZZMT" (fun _ => zeros 2 1) accept)]

/-- `ZZN`: the commands of the second receiver are those of the first. -/
def zzN : List (Char × Cat) := [
  ('A', noise "ZZNA" .nb (·.nb) [.nb2]),
  ('B', noise "ZZNB" .nb2 (·.nb2) [.nb]),
  ('C', noise "ZZNC" .nb (·.nb) [.nb2]),
  ('D', noise "ZZND" .nb2 (·.nb2) [.nb]),
  ('N', noise "ZZNN" .snb (·.snb) []),
  ('O', noise "ZZNO" .snb (·.snb) []),
  ('R', noise "ZZNR" .nr (·.nr) [.nr2, .nr3, .nr4]),
  ('S', noise "ZZNS" .nr2 (·.nr2) [.nr, .nr3, .nr4]),
  ('T', noise "ZZNT" .anf (·.anf) []),
  ('U', noise "ZZNU" .anf (·.anf) []),
  ('V', noise "ZZNV" .nr (·.nr) [.nr2, .nr3, .nr4]),
  ('W', noise "ZZNW" .nr2 (·.nr2) [.nr, .nr3, .nr4])]

/-- `ZZP` -/
def zzP : List (Char × Cat) := [
  ('A', read 4 "ZZPA" (fun r => dec (preamp r)) <|
    set 5 fun c _ => [.assign .adcAttenuation <| match atoi 4 c with
      | 0 => -20
      | 1 => 0
      | 2 => -10
      | 3 => -20
      | 4 => -30
      | _ => 0])]

/-- `ZZR` -/
def zzR : List (Char × Cat) := [
  ('C', set 4 fun _ _ => [.assign .rit 0, vfo]),
  ('D', ritStep (-1)),
  ('F', read 4 "ZZRF" (fun r => spaced true 5 r.rit) <|
    set 9 fun c _ => [.assign .rit (atoi 4 c), vfo]),
  ('M', read 5 "ZZRM" (fun r => dec r.smeter ++ spaced false 20 (truncate (sMeterLevel r))) accept),
  ('T', read 4 "ZZRT" (fun r => dec r.ritEnabled) <|
    set 5 fun c _ => [.assign .ritEnabled (atoi 4 c), .call .frequencyChanged, vfo]),
  ('U', ritStep 1)]

/-- `ZZS` -/
def zzS : List (Char × Cat) := [
  ('A', set 4 fun _ r => [.call (.receiverMove (-r.step) true)]),
  ('B', set 4 fun _ r => [.call (.receiverMove r.step true)]),
  ('G', set 4 fun _ r => [.call (.receiverMoveB (-r.step) false true)]),
  ('H', set 4 fun _ r => [.call (.receiverMoveB r.step false true)]),
  ('M', onText (fun c => ends 5 c && (atoi 4 c = 0 || atoi 4 c = 1))
    (say "ZZSM" fun c r =>
      let l := fmin (-10.0) (fmax (-140.0) (sMeterLevel r))
      dec (atoi 4 c) ++ zeros 3 (truncate ((l + 140.0) * 2)))
    accept),
  ('P', splitMode "ZZSP"),
  ('W', splitMode "ZZSW")]

/-- `ZZT` -/
def zzT : List (Char × Cat) := [
  ('U', read 4 "ZZTU" (fun r => dec r.tune) <| set 5 fun c _ => [.call (.setTune (atoi 4 c))]),
  ('X', read 4 "ZZTX" (fun r => dec r.mox) <| set 5 fun c _ => [.call (.setMox (atoi 4 c))])]

/-- `ZZU` -/
def zzU : List (Char × Cat) := [
  ('X', read 4 "ZZUX" (fun r => dec r.locked) <|
    set 5 fun c _ => [.assign .locked (if char c 4 = '1' then 1 else 0), vfo])]

/-- `ZZV` -/
def zzV : List (Char × Cat) := [('S', onText (ends 5) accept refuse)]

/-- `ZZX` -/
def zzX : List (Char × Cat) := [
  ('C', withTransmitter <| set 4 fun _ _ => [.assign .xit 0, vfo]),
  ('F', withTransmitter <| read 4 "ZZXF" (fun r => zeroed true 5 (r.tx (·.xit))) <|
    set 9 fun c _ => [.assign .xit (atoi 4 c), vfo]),
  ('N', read 4 "ZZXN" (fun r => zeros 4 (r.agc % 4 + preamp r % 4 * 2 ^ 3 + r.nb % 2 * 2 ^ 7 +
    r.nb2 % 2 * 2 ^ 8 + r.nr % 2 * 2 ^ 9 + r.nr2 % 2 * 2 ^ 10 + r.snb % 2 * 2 ^ 11 +
    r.anf % 2 * 2 ^ 12)) accept),
  ('S', withTransmitter <| read 4 "ZZXS" (fun r => dec (r.tx (·.xitEnabled))) <|
    set 5 fun c _ => [.assign .xitEnabled (atoi 4 c), vfo]),
  ('V', read 4 "ZZXV" (fun r =>
    let bit (on : Bool) (v : ℤ) : ℤ := if on then v else 0
    zeros 3 (bit (r.ritEnabled ≠ 0) 0x01 + bit (r.locked ≠ 0) 0x06 + bit (r.split ≠ 0) 0x08 +
      bit (r.ctun ≠ 0) 0x30 + bit (r.mox ≠ 0) 0x40 + bit (r.tune ≠ 0) 0x80)) accept)]

/-- The switch on `command[2]`. -/
def extended : List (Char × List (Char × Cat)) := [
  ('A', zzA), ('B', zzB), ('C', zzC), ('D', zzD), ('E', zzE), ('F', zzF), ('G', zzG), ('I', zzI),
  ('L', zzL), ('M', zzM), ('N', zzN), ('P', zzP), ('R', zzR), ('S', zzS), ('T', zzT), ('U', zzU),
  ('V', zzV), ('X', zzX)]

end MacHPSDR.Rigctl
