import Mathlib

/-!
# The system table

The ground network broadcasts the table of its stations in up to sixteen parts, each with the
version of the table, its own index and the number of parts. `systable_store_pdu` collects the
parts of one version; with the last of them it decodes the whole (`systable_decode`) and keeps the
stations if the version is newer than the one it has (`systable_is_newer`).

Where the source puts fields of a record together with shifts and `|` they do not overlap, so they
are added here. Coordinates are exact rationals instead of doubles.
-/

namespace MacHPSDR.Hfdl

/-- `SYSTABLE_MAX_PDUS`. -/
def systableMaxPdus : ℕ := 16

/-- `SYSTABLE_PDU_MAX_LEN`. -/
def systablePduMaxLen : ℕ := 1024

/-- `SYSTABLE_VERSION_MAX`. -/
def systableVersionMax : ℤ := 4095

/-- `SYSTABLE_GS_MIN_LEN`. -/
def systableGsMinLen : ℕ := 8

/-- `GS_MAX_FREQ_CNT`. -/
def gsMaxFreqCnt : ℕ := 20

/-- `GS_LEARNED_MAX`. -/
def gsLearnedMax : ℕ := 128

/-- `HFDL_GS_LEARNED`, for a station that is valid; a frequency in kHz with its master slot. -/
structure GsLearned where
  utcSync : Bool
  lat : ℚ
  lon : ℚ
  spduVersion : ℕ
  freqs : List (ℕ × ℕ)
  deriving DecidableEq

/-- `gs_learned`. -/
abbrev Learned := ℕ → Option GsLearned

/-! ## Records -/

/-- `parse_coordinate`: 20 bits with a sign, full scale 180 degrees. -/
def parseCoordinate (c : ℕ) : ℚ :=
  let r : ℤ := if c < 0x80000 then c else (c : ℤ) - 0x100000
  r * 180 / 0x7ffff

/-- `systable_decode_frequency`: six decimal digits, in units of 100 Hz. -/
def systableDecodeFrequency (b0 b1 b2 : UInt8) : ℕ :=
  let hz := 100 * (b0.toNat % 16) + 1000 * (b0.toNat / 16) + 10000 * (b1.toNat % 16) +
    100000 * (b1.toNat / 16) + 1000000 * (b2.toNat % 16) + 10000000 * (b2.toNat / 16)
  hz / 1000

/-- The loop of `systable_decode_gs` over the frequencies. -/
def systableDecodeFreqs : ℕ → List UInt8 → Option (List (ℕ × ℕ))
  | 0, _ => some []
  | n + 1, b0 :: b1 :: b2 :: slot :: buf =>
    (systableDecodeFreqs n buf).map ((systableDecodeFrequency b0 b1 b2, slot.toNat % 16) :: ·)
  | _ + 1, _ => none

/-- `systable_decode_gs`: the octets consumed, the station and its id. -/
def systableDecodeGs (buf : List UInt8) : Option (ℕ × ℕ × GsLearned) :=
  if buf.length < systableGsMinLen then none
  else
    match buf.map UInt8.toNat with
    | b0 :: b1 :: b2 :: b3 :: b4 :: b5 :: b6 :: _ =>
      let freqCnt := b6 / 8
      if freqCnt > gsMaxFreqCnt then none
      else (systableDecodeFreqs freqCnt (buf.drop 7)).map fun freqs =>
        (systableGsMinLen - 1 + 4 * freqCnt, b0 % 128,
          { utcSync := 128 ≤ b0
            lat := parseCoordinate (b1 + 256 * b2 + 65536 * (b3 % 16))
            lon := parseCoordinate (b3 / 16 + 16 * b4 + 4096 * b5)
            spduVersion := b6 % 8
            freqs := freqs })
    | _ => none

/-- The loop of `systable_decode`; it stops when the table of stations is full or fewer octets are
left than a record has. -/
def systableStations : ℕ → List UInt8 → Option (List (ℕ × GsLearned))
  | 0, _ => some []
  | room + 1, buf =>
    if buf.length < systableGsMinLen then some []
    else
      match systableDecodeGs buf with
      | none => none
      | some (used, id, gs) => (systableStations room (buf.drop used)).map ((id, gs) :: ·)

/-! ## Versions -/

/-- `systable_is_newer`. -/
def systableIsNewer (vOld vNew : ℤ) : Bool :=
  if vOld < 0 ∧ vNew ≥ 0 then true
  else if vNew < 0 ∧ vOld ≥ 0 then false
  else if vNew = vOld then false
  else vNew > vOld || vNew + systableVersionMax - vOld < (systableVersionMax + 1) / 2

/-- What `systable_store_pdu` reports. -/
inductive SystableReport
  | ignored
  | collected (have_ total : ℕ)
  | malformed
  | kept (n : ℕ)
  | adopted (stations : List (ℕ × GsLearned))
  deriving DecidableEq

/-- The stations that have been learned, and the version of their table. -/
structure Stations where
  learned : Learned
  version : ℤ

/-- No table has been received. -/
def Stations.none : Stations := ⟨fun _ => Option.none, -1⟩

/-- The stations of a table; of two with one id the later one counts. -/
def learnedFrom (stations : List (ℕ × GsLearned)) : Learned := fun id =>
  (stations.reverse.lookup id)

/-- `systable_decode`. -/
def systableDecode (s : Stations) (whole : List UInt8) (version : ℤ) :
    Stations × SystableReport :=
  match systableStations gsLearnedMax whole with
  | Option.none | some [] => (s, .malformed)
  | some stations =>
    if systableIsNewer s.version version then
      (⟨learnedFrom stations, version⟩, .adopted stations)
    else (s, .kept stations.length)

/-! ## Parts -/

/-- `systable_set`: the version that is being collected, the number of its parts and the parts that
have come. A part that has not come has length 0. -/
structure SystableSet where
  version : ℤ
  len : ℕ
  have_ : ℕ
  frag : ℕ → List UInt8

/-- A part of a table, as the HFNPDU brings it. -/
structure Part where
  version : ℤ
  idx : ℕ
  total : ℕ
  buf : List UInt8

/-- The receiver of system tables; the set is not in use if there is none. -/
structure Systable where
  set : Option SystableSet
  stations : Stations

/-- The set for a part: the one that is in use, unless it is of another version or size. -/
def systableSetFor (set : Option SystableSet) (p : Part) : SystableSet :=
  match set with
  | some set =>
    if set.version ≠ p.version ∨ set.len ≠ p.total then ⟨p.version, p.total, 0, fun _ => []⟩
    else set
  | Option.none => ⟨p.version, p.total, 0, fun _ => []⟩

/-- `systable_store_pdu`. -/
def systableStorePdu (s : Systable) (p : Part) : Systable × SystableReport :=
  if p.total < 1 ∨ p.total > systableMaxPdus ∨ p.idx ≥ p.total then (s, .ignored)
  else if p.buf.length = 0 ∨ p.buf.length > systablePduMaxLen then (s, .ignored)
  else
    let set := systableSetFor s.set p
    let set := { set with
      have_ := if (set.frag p.idx).length = 0 then set.have_ + 1 else set.have_
      frag := Function.update set.frag p.idx p.buf }
    if set.have_ < p.total then (⟨some set, s.stations⟩, .collected set.have_ p.total)
    else
      let whole := (List.range p.total).flatMap set.frag
      let (stations, report) := systableDecode s.stations whole p.version
      (⟨Option.none, stations⟩, report)

end MacHPSDR.Hfdl
