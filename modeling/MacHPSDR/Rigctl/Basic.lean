import MacHPSDR.Rigctl.Extended
import Mathlib

/-!
# The commands of the TS-2000

The switches of `parse_cmd`, by the two letters of a command. As in the tables of the extended
commands, the arms that only say `implemented=FALSE` are left out. The bodies of `KS`, `KY`, `SD`
and `SQ` are commented out in the source: they are accepted, and nothing happens.
-/

namespace MacHPSDR.Rigctl

open Radio (Mode)
open ReplyScript ReplyScript.Script

/-- `CN`: without a transmitter the command is accepted, and there is no reply. -/
def cn : Cat :=
  onState (fun r => r.transmitter.isSome)
    (read 2 "CN" (fun r => zeros 2 (r.tx (·.ctcss) + 1)) <|
      onText (ends 4)
        (onText (fun c => atoi 2 c - 1 < 0 || ctcssFrequencies ≤ atoi 2 c - 1) refuse <|
          apply fun c r => [.call (.transmitterSetCtcss (r.tx (·.ctcssEnabled)) (atoi 2 c - 1))])
        accept)
    accept

/-- What `FW;` answers, in a mode in which it has a meaning. -/
def filterWidth (r : Rig) : Option ℤ :=
  match r.modeA with
  | .cwl | .cwu => some (r.var1.low * 2)
  | .am | .sam => some (if -4000 ≤ r.var1.low then 1 else 0)
  | .fmn => some (if r.deviation = 5000 then 1 else 0)
  | _ => none

/-- What `FW` sets in the mode of the receiver. -/
def setFilterWidth (fw : ℤ) (r : Rig) : List Effect :=
  let edges (low high : ℤ) : List Effect :=
    [.assign (.filterLow (modeNumber r.modeA) fVar1) low,
      .assign (.filterHigh (modeNumber r.modeA) fVar1) high]
  match r.modeA with
  | .cwl | .cwu => edges (fw.tdiv 2) (fw.tdiv 2)
  | .fmn =>
    if fw = 0 then edges (-4000) 4000 ++ [.assign .deviation 2500]
    else edges (-8000) 8000 ++ [.assign .deviation 5000]
  | .am | .sam => if fw = 0 then edges (-4000) 4000 else edges (-8000) 8000
  | _ => []

/-- `if(rx->filter_a!=FVar1) receiver_filter_changed(rx,FVar1);` -/
def selectVar1 : Cat :=
  apply fun _ r => if r.filterA ≠ fVar1 then [.call (.receiverFilterChanged fVar1)] else []

/-- `FW`: a setting selects the filter before it looks at the mode. -/
def fw : Cat :=
  onText (ends 2)
    (onState (fun r => (filterWidth r).isSome)
      (say "FW" fun _ r => zeros 4 ((filterWidth r).getD 0)) refuse) <|
    onText (ends 6)
      (seq selectVar1 <| onState (fun r => (filterWidth r).isSome)
        (apply fun c r =>
          setFilterWidth (atoi 2 c) r ++ [.call (.receiverFilterChanged fVar1)])
        refuse)
      accept

/-- `IF` -/
def information (r : Rig) : List Char :=
  zeros 11 (if r.ctun ≠ 0 then r.ctunFrequency else r.frequencyA) ++
    zeros 4 (max 0 (min 9999 r.step)) ++ zeroed true 6 (max (-99999) (min 99999 r.rit)) ++
    dec r.ritEnabled ++ dec (r.tx (·.xitEnabled)) ++ dec 0 ++ zeros 2 0 ++ dec (isTransmitting r) ++
    dec (ts2000Mode r.modeA) ++ dec 0 ++ dec 0 ++ dec r.split ++
    dec (if r.tx (·.ctcssEnabled) ≠ 0 then 2 else 0) ++ zeros 2 (r.tx (·.ctcss)) ++ dec 0

/-- The number of the first bound that the value does not exceed, otherwise how many there are. -/
def place (bounds : List ℤ) (v : ℤ) : ℤ := (bounds.takeWhile (· < v)).length

/-- A filter edge of `SH` and `SL` from its number: in the voice modes, in the two AM modes, and
in the others. -/
def edgeOf (voice : List ℤ) (r : Rig) (i : ℤ) : ℤ :=
  let named (l : List ℤ) : ℤ := if i < 0 then 100 else l.getD i.toNat 100
  match r.modeA with
  | .lsb | .usb | .fmn => named voice
  | .am | .sam => named [10, 100, 200, 500]
  | _ => 100

/-- `SH` and `SL`, on the edge that is the upper one (or the lower one) of a mode other than
`LSB`, and the other edge with its sign changed in `LSB`. -/
def shSl (letters : String) (bounds voice : List ℤ) (edge : Filter → ℤ) (edgeLsb : Filter → ℤ)
    (f fLsb : ℕ → ℕ → Field) : Cat :=
  seq selectVar1 <|
    read 2 letters (fun r => zeros 2 <| place bounds <|
      if r.modeA = .lsb then (edgeLsb r.var1).natAbs else edge r.var1) <|
    set 4 fun c r =>
      [if r.modeA = .lsb then
          .assign (fLsb (modeNumber r.modeA) fVar1) (-edgeOf voice r (atoi 2 c))
        else .assign (f (modeNumber r.modeA) fVar1) (edgeOf voice r (atoi 2 c)),
        .call (.receiverFilterChanged fVar1)]

/-- The split that `SA` sets, unless its columns name none. -/
def satellite (c : List Char) : Option (List Effect) :=
  match char c 2, char c 6, char c 7 with
  | '0', _, _ => some [.assign .split splitOff]
  | '1', '0', '0' => some [.assign .split splitOff]
  | '1', '1', '0' => some [.assign .split splitSat]
  | '1', '0', '1' => some [.assign .split splitRsat]
  | '1', _, _ => none
  | _, _, _ => some []

/-- `case 'A'` to `case 'F'` -/
def basicAF : List (Char × List (Char × Cat)) := [
  ('A', [
    ('G', read 2 "AG" (fun r => dec 0 ++ zeros 3 (truncate (r.volume * 255.0))) <|
      set 6 fun c _ =>
        [.assignReal .volume (Float.ofInt (atoi 3 c) / 255.0), .call .receiverSetVolume]),
    ('I', read 2 "AI" (fun _ => dec 0) accept)]),
  ('B', [
    ('D', apply fun _ r => [.call (.setBand (previousBand r) (-1))]),
    ('U', apply fun _ r => [.call (.setBand (nextBand r) (-1))])]),
  ('C', [
    ('N', cn),
    ('T', withTransmitter <| read 2 "CT" (fun r => dec (r.tx (·.ctcssEnabled))) <|
      set 3 fun c r => [.call (.transmitterSetCtcss (atoi 2 c) (r.tx (·.ctcss)))])]),
  ('D', [('N', apply fun _ r => [.call (.receiverMove (-r.step) true)])]),
  ('F', [
    ('A', read 2 "FA" (fun r => zeros 11 (tunedFrequency r)) <|
      set 13 fun c _ => if 0 < atoll 2 c then [.call (.vfoApplyFrequency (atoll 2 c))] else []),
    ('B', read 2 "FB" (fun r => zeros 11 r.frequencyB) <|
      set 13 fun c r =>
        if r.locked = 0 then
          [.assign .frequencyB (atoll 2 c), .call .frequencyChanged, .call .updateFrequency]
        else []),
    ('R', read 2 "FR" (fun _ => dec 0) <| onText (ends 3) refuse accept),
    ('T', read 2 "FT" (fun r => dec (if r.split ≠ splitOff then 1 else 0)) <|
      set 3 fun c r =>
        let on := atoi 2 c ≠ 0
        .assign .split (if on then splitOn else splitOff) ::
          (if r.transmitter.isSome then
            [.call (.transmitterSetMode (if on then r.modeB else r.modeA))] else []) ++ [vfo]),
    ('W', fw)])]

/-- `case 'G'` to `case 'N'` -/
def basicGN : List (Char × List (Char × Cat)) := [
  ('G', [('T', read 2 "GT" (fun r => zeros 3 (r.agc * 5)) <|
    onText (ends 5)
      (onText (fun c => (atoi 2 c).tdiv 5 < 0 || agcLast < (atoi 2 c).tdiv 5) refuse <|
        apply fun c r =>
          .assign .agc ((atoi 2 c).tdiv 5) ::
            (if r.channel then [.call .setAgc] else []) ++ [vfo])
      accept)]),
  ('I', [
    ('D', say "ID" fun _ _ => "019".toList),
    ('F', say "IF" fun _ => information),
    ('S', read 2 "IS" (fun _ => " 0000".toList) refuse)]),
  ('K', [('S', accept), ('Y', accept)]),
  ('L', [('K', read 2 "LK" (fun r => dec r.locked ++ dec r.locked) <|
    set 4 fun c _ => [.assign .locked (if char c 2 = '1' then 1 else 0), vfo])]),
  ('M', [
    ('D', read 2 "MD" (fun r => dec (ts2000Mode r.modeA)) <|
      set 3 fun c _ => [.call <| .receiverModeChanged <| modeNumber <| match atoi 2 c with
        | 1 => .lsb
        | 2 => .usb
        | 3 => .cwu
        | 4 => .fmn
        | 5 => .am
        | 6 => .digl
        | 7 => .cwl
        | 9 => .digu
        | _ => .usb]),
    ('G', withTransmitter <|
      read 2 "MG" (fun r =>
        zeros 3 (truncate (((r.txReal (·.micGain) + 12.0) / 72.0) * 100.0))) <|
      set 5 fun c _ =>
        let gain := Float.ofInt (atoi 2 c) / 100.0 * 72.0 - 12.0
        let gain := if gain < -10.0 then -10.0 else gain
        let gain := if 50.0 < gain then 50.0 else gain
        [.assignReal .micGain gain,
          .call (.setTXAPanelGain1 (Float.pow 10.0 (gain / 20.0)))])]),
  ('N', [
    ('B', read 2 "NB" (fun r => dec r.nb) <|
      set 3 fun c _ =>
        .assign .nb (atoi 2 c) :: (if atoi 2 c ≠ 0 then [.assign .nb2 0] else []) ++
          [.call .updateNoise]),
    ('R', read 2 "NR" (fun r => dec (if r.nr ≠ 0 then 1 else if r.nr2 ≠ 0 then 2 else 0)) <|
      set 3 fun c _ =>
        let n := atoi 2 c
        (if n = 0 ∨ n = 1 ∨ n = 2 then
          [.assign .nr (if n = 1 then 1 else 0), .assign .nr2 (if n = 2 then 1 else 0),
            .assign .nr3 0, .assign .nr4 0] else []) ++ [.call .updateNoise]),
    ('T', read 2 "NT" (fun r => dec r.anf) <|
      set 3 fun c _ => [.assign .anf (atoi 2 c), .call .updateNoise])])]

/-- `case 'P'` to `case 'R'` -/
def basicPR : List (Char × List (Char × Cat)) := [
  ('P', [
    ('A', read 2 "PA" (fun r => dec r.adcPreamp ++ dec 0) <|
      set 4 fun c _ => [.assign .adcPreamp (if char c 2 = '1' then 1 else 0)]),
    ('C', withTransmitter <| read 2 "PC" (fun r => zeros 3 (truncate (r.txReal (·.drive)))) <|
      set 5 fun c _ => [.assignReal .drive (Float.ofInt (atoi 2 c))]),
    ('L', withTransmitter <|
      read 2 "PL" (fun r => zeros 3 (truncate (r.txReal (·.compressorLevel) / 20.0 * 100.0)) ++
        "000".toList) <|
      set 8 fun c _ =>
        [.assignReal .compressorLevel (Float.ofInt (atoi3 2 c) / 100.0 * 20.0), vfo]),
    ('S', read 2 "PS" (fun _ => dec 1) accept)]),
  ('R', [
    ('A', read 2 "RA" (fun r =>
        zeros 2 (truncate (Float.ofInt r.adcAttenuation / 31.0 * 99.0)) ++ "00".toList) <|
      set 4 fun c _ =>
        [.assign .adcAttenuation (truncate (Float.ofInt (atoi 2 c) / 99.0 * 31.0))]),
    ('C', set 2 fun _ _ => [.assign .rit 0, vfo]),
    ('D', set 2 (fun _ r => [.assign .rit (r.rit - if r.modeA.isCw then 10 else 50), vfo]) <|
      set 7 fun c _ => [.assign .rit (atoi 2 c), vfo]),
    ('T', read 2 "RT" (fun r => dec r.ritEnabled) <|
      set 3 fun c _ => [.assign .ritEnabled (atoi 2 c), .call .frequencyChanged, vfo]),
    ('U', set 2 (fun _ r => [.assign .rit (r.rit + if r.modeA.isCw then 10 else 50), vfo]) <|
      set 7 fun c _ => [.assign .rit (atoi 2 c), vfo]),
    ('X', set 2 fun _ _ => [.call (.extSetMox 0)])])]

/-- `case 'S'` to `case 'X'` -/
def basicSX : List (Char × List (Char × Cat)) := [
  ('S', [
    ('A', read 2 "SA" (fun r =>
        dec (if r.split = splitSat ∨ r.split = splitRsat then 1 else 0) ++
          dec 0 ++ dec 0 ++ dec 0 ++ dec (if r.split = splitSat then 1 else 0) ++
          dec (if r.split = splitRsat then 1 else 0) ++ dec 0 ++ "SAT?    ".toList) <|
      onText (fun c => ends 9 c && (satellite c).isSome)
        (apply fun c _ => (satellite c).getD []) refuse),
    ('D', accept),
    ('H', shSl "SH" [1400, 1600, 1800, 2000, 2200, 2400, 2600, 2800, 3000, 3400, 4000]
      [1400, 1600, 1800, 2000, 2200, 2400, 2600, 2800, 3000, 3400, 4000, 5000]
      (·.high) (·.low) .filterHigh .filterLow),
    ('L', shSl "SL" [10, 50, 100, 200, 300, 400, 500, 600, 700, 800, 900]
      [10, 50, 100, 200, 300, 400, 500, 600, 700, 800, 900, 1000]
      (·.low) (·.high) .filterLow .filterHigh),
    ('M', onText (fun c => ends 3 c && (atoi 2 c = 0 || atoi 2 c = 1))
      (say "SM" fun _ r =>
        let l := fmax (-140.0) (fmin (-10.0) (sMeterLevel r))
        zeros 4 (max 0 (min 30 (lround ((l + 140.0) * 30.0 / 130.0)))))
      accept),
    ('Q', accept)]),
  ('T', [('X', set 2 fun _ _ => [.call (.extSetMox 1)])]),
  ('U', [('P', set 2 fun _ r => [.call (.receiverMove r.step true)])]),
  ('V', [
    ('G', read 2 "VG" (fun r => zeros 3 (max 0 (min 9 (lround (r.voxThreshold * 9.0))))) <|
      set 5 fun c _ =>
        [.assignReal .voxThreshold (Float.ofInt (max 0 (min 9 (atoi 2 c))) / 9.0), vfo]),
    ('X', read 2 "VX" (fun r => dec (if r.voxEnabled then 1 else 0)) <|
      set 3 fun c _ => [.call (.voxSetEnabled (atoi 2 c ≠ 0)), vfo])]),
  ('X', [('T', withTransmitter <| read 2 "XT" (fun r => dec (r.tx (·.xitEnabled))) <|
    set 3 fun c _ => [.assign .xitEnabled (atoi 2 c), vfo])])]

/-- The switch on `command[0]`, without `ZZ`. -/
def basic : List (Char × List (Char × Cat)) := basicAF ++ basicGN ++ basicPR ++ basicSX

end MacHPSDR.Rigctl
