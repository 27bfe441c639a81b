import MacHPSDR.Property.Store
import Mathlib

/-!
# What is restored from the store

At the start `filterRestoreState` and `bandRestoreState` read the filters and the bands out of the
store, and `receiver_restore_state` reads each receiver. A setting that is not in the store keeps
the value that it has. The file may be old or edited by hand, so that a value may be any text.

Of a receiver only the settings that subscript a table or select one of an enumeration are kept
here; every other line reads a setting of its own. The floating-point calibration of a band is left
out.
-/

namespace MacHPSDR.Property

open CString

/-! ## Reading the store -/

def getProperty (s : Store) (name : String) : Option CStr := s.lookup (lit name)

/-- The characters of a value. -/
def chars (value : CStr) : List Char := value.map fun c => Char.ofNat c.1

def atoi (value : CStr) : ℤ := CString.atoi (chars value)

/-- `atol` and `atoll`: 64 bits -/
def atol (value : CStr) : ℤ := max (-2 ^ 63) (min (2 ^ 63 - 1) (readNumber (chars value)))

/-- The number that is stored under a name. -/
def number (s : Store) (name : String) : Option ℤ := (getProperty s name).map atoi

/-- `if(value) old=atoi(value);` -/
def readInt (s : Store) (name : String) (old : ℤ) : ℤ := (number s name).getD old

/-- `if(value) old=atoll(value);` -/
def readLong (s : Store) (name : String) (old : ℤ) : ℤ := ((getProperty s name).map atol).getD old

/-! ## The tables -/

/-- `MODES` -/
def modeCount : ℕ := 13

/-- `FILTERS` -/
def filterCount : ℕ := 12

/-- `AGC_LAST` -/
def agcLast : ℤ := 4

/-- `BANDS+XVTRS` -/
def bandRows : ℕ := 32

/-- `MAX_NOTCHES` -/
def maxNotches : ℤ := 16

/-- `FILTER_EDGE_LIMIT_HZ` -/
def filterEdgeLimitHz : ℤ := 192000

def splitOff : ℤ := 0
def splitOn : ℤ := 1
def splitRsat : ℤ := 3

/-- `BANDSTACK_ENTRY` -/
structure BandstackEntry where
  frequency : ℤ
  mode : ℤ
  filter : ℤ
  var1Low : ℤ
  var1High : ℤ
  var2Low : ℤ
  var2High : ℤ

/-- `BANDSTACK`, with the array that is compiled in. -/
structure Bandstack where
  entries : ℤ
  currentEntry : ℤ
  entry : List BandstackEntry

/-- `BAND` -/
structure Band where
  title : CStr
  bandstack : Bandstack
  ocRx : ℤ
  ocTx : ℤ
  preamp : ℤ
  alexRxAntenna : ℤ
  alexTxAntenna : ℤ
  alexAttenuation : ℤ
  frequencyMin : ℤ
  frequencyMax : ℤ
  frequencyLO : ℤ
  errorLO : ℤ
  disablePA : ℤ
  waterfallLow : ℤ
  waterfallHigh : ℤ
  waterfallAutomatic : ℤ

/-- The edges of a filter. -/
structure Filter where
  low : ℤ
  high : ℤ

/-- The settings of a receiver that subscript a table or select one of an enumeration. -/
structure Receiver where
  channel : ℤ
  adc : ℤ
  soapyRxAntenna : ℤ
  bandA : ℤ
  modeA : ℤ
  filterA : ℤ
  modeFilter : ℕ → ℤ
  modeAgc : ℕ → ℤ
  split : ℤ
  splitLast : ℤ
  notches : ℤ
  agc : ℤ

/-- What a restore asks of `radio->discovered`. -/
structure Discovered where
  /-- The protocol is `PROTOCOL_SOAPYSDR`. -/
  soapy : Bool
  adcs : ℤ
  /-- `info.soapy.rx_channels`, which is cast to an `int` -/
  rxChannels : ℕ
  rxChannels_lt : rxChannels < 2 ^ 31

/-- The bands, the current band, the filters of each mode and a receiver. -/
structure Settings where
  bands : ℕ → Band
  band : ℤ
  filters : ℕ → ℕ → Filter
  rx : Receiver

/-! ## The bands -/

/-- The count of a band stack, which may only shrink. -/
def restoreEntries (s : Store) (b : ℕ) (capacity : ℤ) : ℤ :=
  match number s s!"band.{b}.entries" with
  | none => capacity
  | some n =>
    let n := if n < 0 then 0 else n
    if n > capacity then capacity else n

def restoreCurrent (s : Store) (b : ℕ) (entries current : ℤ) : ℤ :=
  match number s s!"band.{b}.current" with
  | none => current
  | some n => if n < 0 || n ≥ entries then 0 else n

def restoreEntry (s : Store) (b stack : ℕ) (e : BandstackEntry) : BandstackEntry where
  frequency := readLong s s!"band.{b}.stack.{stack}.a" e.frequency
  mode := readInt s s!"band.{b}.stack.{stack}.mode" e.mode
  filter := readInt s s!"band.{b}.stack.{stack}.filter" e.filter
  var1Low := readInt s s!"band.{b}.stack.{stack}.var1Low" e.var1Low
  var1High := readInt s s!"band.{b}.stack.{stack}.var1High" e.var1High
  var2Low := readInt s s!"band.{b}.stack.{stack}.var2Low" e.var2Low
  var2High := readInt s s!"band.{b}.stack.{stack}.var2High" e.var2High

def restoreStack (s : Store) (b : ℕ) (st : Bandstack) : Bandstack :=
  let entries := restoreEntries s b st.entries
  { entries
    currentEntry := restoreCurrent s b entries st.currentEntry
    entry := st.entry.mapIdx fun stack e =>
      if (stack : ℤ) < entries then restoreEntry s b stack e else e }

def restoreBand (s : Store) (b : ℕ) (band : Band) : Band where
  title := ((getProperty s s!"band.{b}.title").map (strlcpy 16)).getD band.title
  bandstack := restoreStack s b band.bandstack
  preamp := readInt s s!"band.{b}.preamp" band.preamp
  alexRxAntenna := readInt s s!"band.{b}.alexRxAntenna" band.alexRxAntenna
  alexTxAntenna :=
    let antenna := readInt s s!"band.{b}.alexTxAntenna" band.alexTxAntenna
    if antenna > 2 then 0 else antenna
  alexAttenuation := readInt s s!"band.{b}.alexAttenuation" band.alexAttenuation
  -- unsigned char
  ocRx := ((number s s!"band.{b}.OCrx").map (· % 256)).getD band.ocRx
  ocTx := ((number s s!"band.{b}.OCtx").map (· % 256)).getD band.ocTx
  frequencyMin := readLong s s!"band.{b}.frequencyMin" band.frequencyMin
  frequencyMax := readLong s s!"band.{b}.frequencyMax" band.frequencyMax
  frequencyLO := readLong s s!"band.{b}.frequencyLO" band.frequencyLO
  errorLO := readLong s s!"band.{b}.errorLO" band.errorLO
  disablePA := readInt s s!"band.{b}.disablePA" band.disablePA
  waterfallLow := readInt s s!"band.{b}.waterfall_low" band.waterfallLow
  waterfallHigh := readInt s s!"band.{b}.waterfall_high" band.waterfallHigh
  waterfallAutomatic := readInt s s!"band.{b}.waterfall_automatic" band.waterfallAutomatic

def bandRestoreState (s : Store) (st : Settings) : Settings :=
  { st with
    bands := fun b => if b < bandRows then restoreBand s b (st.bands b) else st.bands b
    band := readInt s "band" st.band }

/-! ## The filters -/

/-- `mode_string` -/
def modeString : List String :=
  ["LSB", "USB", "DSB", "CWL", "CWU", "FMN", "AM", "DIGU", "SPEC", "DIGL", "SAM", "DRM", "WFM"]

/-- The first of the two filters that can be edited, `FVar1`. -/
def fVar1 : ℕ := 10

def fVar2 : ℕ := 11

def filterVarKey (mode var : ℕ) (edge : String) : String :=
  let m := String.ofList (((modeString.getD mode "").toList.take 15).map Char.toLower)
  let v := if var = fVar1 then 1 else 2
  s!"filter.{m}.var{v}.{edge}"

def filterEdge (value : Option CStr) (fallback : ℤ) : ℤ :=
  match value with
  | none => fallback
  | some value =>
    let v := atol value
    let v := if v > filterEdgeLimitHz then filterEdgeLimitHz else v
    if v < -filterEdgeLimitHz then -filterEdgeLimitHz else v

def filterRestoreState (s : Store) (st : Settings) : Settings :=
  { st with
    filters := fun mode var =>
      if mode < modeCount ∧ fVar1 ≤ var ∧ var ≤ fVar2 then
        ⟨filterEdge (getProperty s (filterVarKey mode var "low")) (st.filters mode var).low,
          filterEdge (getProperty s (filterVarKey mode var "high")) (st.filters mode var).high⟩
      else st.filters mode var }

/-! ## A receiver -/

/-- The name of a setting of a receiver. -/
def rxKey (channel : ℤ) (field : String) : String := s!"receiver[{channel}].{field}"

def splitFromProps (value : CStr) (fallback : ℤ) : ℤ :=
  let v := atoi value
  if v < splitOff || v > splitRsat then fallback else v

/-- `hwch`, the feeds that the device has. -/
def feeds (dev : Discovered) : ℤ := if dev.soapy && dev.rxChannels > 0 then dev.rxChannels else 1

/-- `if(value) { int m=atoi(value); if(m>=0 && m<count) old=m; }` -/
def readIndex (s : Store) (name : String) (count : ℕ) (old : ℤ) : ℤ :=
  match number s name with
  | none => old
  | some m => if m ≥ 0 && m < count then m else old

/-- An array with a value for each mode: the stored ones, and what is in force for the current
mode. -/
def readModes (s : Store) (channel : ℤ) (field : String) (old : ℕ → ℤ) (mode inForce : ℤ) :
    ℕ → ℤ :=
  let read := fun i : ℕ =>
    if i < modeCount then readInt s (rxKey channel s!"{field}[{i}]") (old i) else old i
  if mode ≥ 0 && mode < modeCount then Function.update read mode.toNat inForce else read

def readAntenna (s : Store) (dev : Discovered) (rx : Receiver) : ℤ :=
  let a := readInt s (rxKey rx.channel "soapy_rx_antenna") rx.soapyRxAntenna
  let a := if a < 0 then 0 else a
  if a ≥ feeds dev then feeds dev - 1 else a

def readAdc (s : Store) (dev : Discovered) (rx : Receiver) : ℤ :=
  let a := readInt s (rxKey rx.channel "adc") rx.adc
  if dev.soapy && a ≥ dev.adcs then 0 else a

def readNotches (s : Store) (rx : Receiver) : ℤ :=
  let n := readInt s (rxKey rx.channel "notches") rx.notches
  let n := if n < 0 then 0 else n
  if n > maxNotches then maxNotches else n

def readSplit (s : Store) (rx : Receiver) : ℤ :=
  ((getProperty s (rxKey rx.channel "split")).map (splitFromProps · splitOff)).getD rx.split

/-- What the button turns on, never off. -/
def readSplitLast (s : Store) (rx : Receiver) (split : ℤ) : ℤ :=
  let last := ((getProperty s (rxKey rx.channel "split_last")).map
    (splitFromProps · splitOn)).getD split
  if last = splitOff then splitOn else last

def receiverRestoreState (s : Store) (dev : Discovered) (rx : Receiver) : Receiver :=
  let modeA := readIndex s (rxKey rx.channel "mode_a") modeCount rx.modeA
  let filterA := readIndex s (rxKey rx.channel "filter_a") filterCount rx.filterA
  let agc := readInt s (rxKey rx.channel "agc") rx.agc
  { channel := rx.channel
    adc := readAdc s dev rx
    soapyRxAntenna := readAntenna s dev rx
    bandA := readInt s (rxKey rx.channel "band_a") rx.bandA
    modeA
    filterA
    modeFilter := readModes s rx.channel "mode_filter" rx.modeFilter modeA filterA
    -- The AGC in force is read long after the array.
    modeAgc := readModes s rx.channel "mode_agc" rx.modeAgc modeA agc
    split := readSplit s rx
    splitLast := readSplitLast s rx (readSplit s rx)
    notches := readNotches s rx
    agc }

/-- The settings after a start. -/
def restore (s : Store) (dev : Discovered) (st : Settings) : Settings :=
  let t := bandRestoreState s (filterRestoreState s st)
  { t with rx := receiverRestoreState s dev t.rx }

/-! ## What is compiled in -/

/-- An entry of a band stack that is compiled in, with the edges that all of its band have. -/
def entryAt (low high : ℤ) (e : ℤ × ℤ × ℤ) : BandstackEntry :=
  ⟨e.1, e.2.1, e.2.2, low, high, low, high⟩

def stackAt (current low high : ℤ) (es : List (ℤ × ℤ × ℤ)) : Bandstack :=
  ⟨es.length, current, es.map (entryAt low high)⟩

/-- The band stacks, from 2200 m to the aircraft band and then the transverters. -/
def bandstacks : List Bandstack :=
  [stackAt 0 (-2800) (-200) [(135800, 3, 6), (137100, 3, 6)],
   stackAt 0 (-2800) (-200) [(472100, 3, 6), (475100, 3, 6)],
   stackAt 1 (-2800) (-200) [(1810000, 3, 6), (1835000, 4, 6), (1845000, 1, 5)],
   stackAt 1 (-2800) (-200) [(3501000, 3, 6), (3751000, 0, 5), (3850000, 0, 5)],
   stackAt 1 (-2800) (-200) [(5261250, 1, 5), (5280000, 1, 5), (5290250, 1, 5), (5302500, 1, 5),
     (5318000, 1, 5), (5335500, 1, 5), (5356000, 1, 5), (5368250, 1, 5), (5380000, 1, 5),
     (5398250, 1, 5), (5405000, 1, 5)],
   stackAt 1 (-2800) (-200) [(7001000, 3, 6), (7152000, 0, 5), (7255000, 0, 5)],
   stackAt 1 200 2800 [(10120000, 4, 6), (10130000, 4, 6), (10140000, 4, 6)],
   stackAt 1 200 2800 [(14010000, 4, 6), (14150000, 1, 5), (14230000, 1, 5), (14336000, 1, 5)],
   stackAt 1 200 2800 [(18068600, 4, 6), (18125000, 1, 5), (18140000, 1, 5)],
   stackAt 1 200 2800 [(21001000, 4, 6), (21255000, 1, 5), (21300000, 1, 5)],
   stackAt 1 200 2800 [(24895000, 4, 6), (24900000, 1, 5), (24910000, 1, 5)],
   stackAt 1 200 2800 [(28010000, 4, 6), (28300000, 1, 5), (28400000, 1, 5)],
   stackAt 1 200 2800 [(50010000, 4, 6), (50125000, 1, 5), (50200000, 1, 5)],
   ⟨3, 1, [(909000 : ℤ), 5975000, 13845000].map fun f => ⟨f, 6, 3, -6000, 6000, -6000, 60000⟩⟩,
   stackAt 1 200 2800 [(2500000, 10, 3), (5000000, 10, 3), (10000000, 10, 3), (15000000, 10, 3),
     (20000000, 10, 3)],
   stackAt 1 200 2800 [(70010000, 4, 6), (70200000, 1, 5), (70250000, 1, 5)],
   stackAt 1 200 2800 [(144010000, 4, 6), (144200000, 1, 5), (144250000, 1, 5),
     (145600000, 5, 1), (145725000, 5, 1), (145900000, 5, 1)],
   stackAt 1 200 2800 [(220010000, 4, 6), (220200000, 1, 5), (220250000, 1, 5)],
   stackAt 1 200 2800 [(430010000, 4, 6), (432100000, 1, 5), (432300000, 1, 5)],
   stackAt 1 200 2800 [(902010000, 4, 6), (902100000, 1, 5), (902300000, 1, 5)],
   stackAt 1 200 2800 [(1240010000, 4, 6), (1240100000, 1, 5), (1240300000, 1, 5)],
   stackAt 1 200 2800 [(2300010000, 4, 6), (2300100000, 1, 5), (2300300000, 1, 5)],
   stackAt 1 200 2800 [(3400010000, 4, 6), (3400100000, 1, 5), (3400300000, 1, 5)],
   stackAt 1 200 2800 [(118800000, 6, 3), (120000000, 6, 3), (121700000, 6, 3),
     (124100000, 6, 3), (126600000, 6, 3), (136500000, 6, 3)]] ++
  List.replicate 8 (stackAt 0 150 2550 [(0, 1, 6), (0, 1, 6), (0, 1, 6)])

/-- The title and the limits of each band. -/
def bandLimits : List (String × ℤ × ℤ) :=
  [("2200", 135700, 137800), ("630", 472000, 479000), ("160", 1810000, 2000000),
   ("80", 3500000, 4000000), ("60", 5258500, 5403500), ("40", 7000000, 7300000),
   ("30", 10100000, 10150000), ("20", 14000000, 14350000), ("17", 18068000, 18168000),
   ("15", 21000000, 21450000), ("12", 24890000, 24990000), ("10", 28000000, 29700000),
   ("6", 50000000, 54000000), ("GEN", 0, 0), ("WWV", 0, 0), ("70", 70000000, 70500000),
   ("144", 144000000, 148000000), ("220", 222000000, 224980000), ("430", 420000000, 450000000),
   ("902", 902000000, 928000000), ("1240", 1240000000, 1300000000),
   ("2300", 2300000000, 2450000000), ("3400", 3400000000, 3410000000),
   ("AIR", 108000000, 137000000)]

/-- A row of `bands`; the power amplifier is off where there is no band to send in. -/
def bandAt (b : ℕ) : Band where
  title := lit (bandLimits.getD b ("", 0, 0)).1
  bandstack := bandstacks.getD b ⟨0, 0, []⟩
  ocRx := 0
  ocTx := 0
  preamp := 0
  alexRxAntenna := 0
  alexTxAntenna := 0
  alexAttenuation := 0
  frequencyMin := (bandLimits.getD b ("", 0, 0)).2.1
  frequencyMax := (bandLimits.getD b ("", 0, 0)).2.2
  frequencyLO := 0
  errorLO := 0
  disablePA := if b = 13 ∨ b = 14 then 1 else 0
  waterfallLow := -145
  waterfallHigh := -65
  waterfallAutomatic := 1

/-- The edges of the two filters that can be edited, for each mode. -/
def varEdges : List (ℤ × ℤ) :=
  [(-2850, -150), (150, 2850), (-3300, 3300), (250, 250), (250, 250), (-3300, 3300), (-3300, 3300),
   (150, 2850), (-3300, 3300), (-2850, -150), (-3300, 3300), (-3300, 3300), (-90000, 90000)]

/-- A receiver as `create_receiver` makes it for a device on the network. -/
def newReceiver (channel : ℤ) : Receiver where
  channel
  adc := 0
  soapyRxAntenna := 0
  bandA := 7
  modeA := 1
  filterA := 5
  modeFilter := fun _ => 5
  modeAgc := fun _ => 0
  split := splitOff
  splitLast := splitOn
  notches := 0
  agc := 0

/-- The settings before the first restore. -/
def compiled (channel : ℤ) : Settings where
  bands := bandAt
  band := 7
  -- Of the filters only the two that can be edited are kept.
  filters := fun mode _ => ⟨(varEdges.getD mode (0, 0)).1, (varEdges.getD mode (0, 0)).2⟩
  rx := newReceiver channel

end MacHPSDR.Property
