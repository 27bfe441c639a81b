import MacHPSDR.WebServer.Scanner
import MacHPSDR.WebServer.Spectrum
import Mathlib

/-!
# Browser requests

`web_protocol_parse`: one pass over the members of a JSON object, which stores the values of the
keys it knows, and then the checks of the request type. The variables of the function (a value and
a flag for each key) are one table from keys to values here, `Fields`; what the keys have in common
is in `Fields.store`, and their differences are in `MemberKey.takes` and the texts of the errors.
-/

namespace MacHPSDR.WebServer

open FlatJson

/-- `WEB_MAX_TEXT_MESSAGE` -/
def webMaxTextMessage : ℕ := 4096

/-! ## The request -/

/-- `WEB_REQUEST_TYPE` -/
inductive WebRequestType
  | invalid | getState | setFrequency | setMode | setMox | setTune | setFilter | setControl
  | setTxControl | spectrumSubscribe | spectrumUnsubscribe | audioSubscribe | audioUnsubscribe
  | rtcAnswer | rtcCandidate | audioFeedback | leaseAcquire | leaseRenew | leaseRelease
  | controlAcquire | controlRenew | controlRelease
  deriving DecidableEq

/-- `WEB_CONTROL` -/
inductive WebControl
  | none | afGain | agc | agcGain | squelch | step | nb | nr | anf | snb | filterPreset | rit
  | ritEnable | xit | xitEnable | split | band | setBand | rfGain | subrx | subrxMix | bookmark
  | frequencyB | vfoOp | lock | ctun | duplex | zoom
  deriving DecidableEq

/-- `WEB_TX_CONTROL` -/
inductive WebTxControl
  | none | drive | tuneDrive | micGain | compressor | compLevel | leveler | cessb
  deriving DecidableEq

/-- `WEB_REQUEST` -/
structure WebRequest where
  type : WebRequestType
  id : ℤ
  rx : ℤ
  value : ℤ
  flag : Bool
  valueIsBool : Bool
  low : ℤ
  high : ℤ
  control : WebControl
  txControl : WebTxControl
  profile : SpectrumProfile
  force : Bool
  sdp : Option (List UInt8)
  candidate : Option (List UInt8)
  mid : Option (List UInt8)
  deriving DecidableEq

/-- `web_request_clear`: what the request owns is freed. -/
def webRequestClear (req : WebRequest) : WebRequest :=
  { req with sdp := none, candidate := none, mid := none }

/-- A refusal: its text, and the request as far as it was read. -/
structure ParseError where
  message : String
  out : WebRequest
  deriving DecidableEq

/-! ## Escapes -/

/-- `hex_value` -/
def hexValue (c : UInt8) : Option ℕ :=
  if 0x30 ≤ c ∧ c ≤ 0x39 then some (c.toNat - 0x30)
  else if 0x61 ≤ c ∧ c ≤ 0x66 then some (c.toNat - 0x61 + 10)
  else if 0x41 ≤ c ∧ c ≤ 0x46 then some (c.toNat - 0x41 + 10)
  else none

/-- `g_string_append_unichar`, for the code points of four hexadecimal digits. -/
def gUnicharToUtf8 (cp : ℕ) : List UInt8 :=
  if cp < 0x80 then [.ofNat cp]
  else if cp < 0x800 then [.ofNat (0xC0 + cp / 64), .ofNat (0x80 + cp % 64)]
  else [.ofNat (0xE0 + cp / 4096), .ofNat (0x80 + cp / 64 % 64), .ofNat (0x80 + cp % 64)]

/-- The byte that a backslash and a byte stand for. -/
def escapeValue (c : UInt8) : Option UInt8 :=
  if c = quote then some quote
  else if c = backslash then some backslash
  else if c = 0x2F then some 0x2F
  else if c = 0x62 then some 0x08
  else if c = 0x66 then some 0x0C
  else if c = 0x6E then some 0x0A
  else if c = 0x72 then some 0x0D
  else if c = 0x74 then some 0x09
  else none

/-- The code point of four hexadecimal digits. -/
def codePoint (c₀ c₁ c₂ c₃ : UInt8) : Option ℕ := do
  let h₀ ← hexValue c₀
  let h₁ ← hexValue c₁
  let h₂ ← hexValue c₂
  let h₃ ← hexValue c₃
  return ((h₀ * 16 + h₁) * 16 + h₂) * 16 + h₃

/-- The loop of `json_unescape`. -/
def jsonUnescapeLoop : List UInt8 → Option (List UInt8)
  | [] => some []
  | c :: s =>
    if c ≠ backslash then (jsonUnescapeLoop s).map (c :: ·)
    else
      match s with
      | [] => none
      | e :: s =>
        match escapeValue e with
        | some b => (jsonUnescapeLoop s).map (b :: ·)
        | none =>
          if e = 0x75 then
            match s with
            | c₀ :: c₁ :: c₂ :: c₃ :: s =>
              match codePoint c₀ c₁ c₂ c₃ with
              | some cp =>
                -- surrogates are refused
                if cp ≥ 0xD800 ∧ cp ≤ 0xDFFF then none
                else (jsonUnescapeLoop s).map (gUnicharToUtf8 cp ++ ·)
              | none => none
            | _ => none
          else none

/-- `json_unescape`. The result is a C string, so it ends at the first NUL. -/
def jsonUnescape (s : List UInt8) : Option (List UInt8) :=
  (jsonUnescapeLoop s).map fun out => out.takeWhile (· ≠ 0)

/-! ## Members -/

/-- The keys that the parser knows. -/
inductive MemberKey
  | type | action | id | profile | rx | value | low | high | force | sdp | candidate | mid
  deriving DecidableEq

namespace MemberKey

def all : List MemberKey :=
  [type, action, id, profile, rx, value, low, high, force, sdp, candidate, mid]

def name : MemberKey → List UInt8
  | type => ascii "type"
  | action => ascii "action"
  | id => ascii "id"
  | profile => ascii "profile"
  | rx => ascii "rx"
  | value => ascii "value"
  | low => ascii "low"
  | high => ascii "high"
  | force => ascii "force"
  | sdp => ascii "sdp"
  | candidate => ascii "candidate"
  | mid => ascii "mid"

/-- The value is read by `scan_string`. -/
def isSpan : MemberKey → Bool
  | sdp | candidate | mid => true
  | _ => false

/-- What a second member with the key is refused with. -/
def duplicateError : MemberKey → String
  | type => "invalid or duplicate type"
  | action => "invalid or duplicate action"
  | id => "invalid or duplicate id"
  | profile => "duplicate spectrum profile"
  | rx => "duplicate receiver index"
  | value => "duplicate command value"
  | low => "duplicate low filter edge"
  | high => "duplicate high filter edge"
  | force => "invalid or duplicate force"
  | sdp => "duplicate sdp"
  | candidate => "duplicate candidate"
  | mid => "duplicate mid"

/-- What a value of the wrong kind is refused with. -/
def typeError : MemberKey → String
  | type => "invalid or duplicate type"
  | action => "invalid or duplicate action"
  | id => "invalid or duplicate id"
  | force => "invalid or duplicate force"
  | _ => "invalid field type"

end MemberKey

def memberKey? (key : List UInt8) : Option MemberKey :=
  MemberKey.all.find? fun k => k.name = key

/-- The value of a member: read, or the text between its quotes. -/
inductive Item
  | value (v : JsonValue)
  | span (tok : List UInt8)
  deriving DecidableEq

/-- `G_MININT` to `G_MAXINT`. -/
def fitsInt (i : ℤ) : Bool := decide (-2 ^ 31 ≤ i ∧ i ≤ 2 ^ 31 - 1)

/-- The values that a key may have. -/
def MemberKey.takes : MemberKey → Item → Bool
  | type, .value (.string _) => true
  | action, .value (.string _) => true
  | id, .value (.integer _) => true
  | profile, .value (.string _) => true
  | rx, .value (.integer i) => fitsInt i
  | value, .value (.integer _) => true
  | value, .value (.boolean _) => true
  | low, .value (.integer i) => fitsInt i
  | high, .value (.integer i) => fitsInt i
  | force, .value (.boolean _) => true
  | sdp, .span _ => true
  | candidate, .span _ => true
  | mid, .span _ => true
  | _, _ => false

/-- The values stored so far. -/
abbrev Fields := MemberKey → Option Item

namespace Fields

def empty : Fields := fun _ => none

/-- One member. -/
def store (f : Fields) (key : List UInt8) (item : Item) : Except String Fields :=
  match memberKey? key with
  | none => .ok f
  | some k =>
    if !k.takes item then .error k.typeError
    else if (f k).isSome then .error k.duplicateError
    else .ok (Function.update f k (some item))

def integer (f : Fields) (k : MemberKey) : Option ℤ :=
  match f k with
  | some (.value (.integer i)) => some i
  | _ => none

def boolean (f : Fields) (k : MemberKey) : Option Bool :=
  match f k with
  | some (.value (.boolean b)) => some b
  | _ => none

/-- A string in a buffer of `size` bytes (`g_strlcpy`). -/
def text (f : Fields) (k : MemberKey) (size : ℕ) : List UInt8 :=
  match f k with
  | some (.value (.string s)) => s.take (size - 1)
  | _ => []

def span (f : Fields) (k : MemberKey) : Option (List UInt8) :=
  match f k with
  | some (.span tok) => some tok
  | _ => none

/-- The request with the values stored in it. -/
def out (f : Fields) : WebRequest where
  type := .invalid
  id := (f.integer .id).getD 0
  rx := (f.integer .rx).getD (-1)
  value := (f.integer .value).getD 0
  flag := (f.boolean .value).getD false
  valueIsBool := (f.boolean .value).isSome
  low := (f.integer .low).getD 0
  high := (f.integer .high).getD 0
  control := .none
  txControl := .none
  profile := .low
  force := (f.boolean .force).getD false
  sdp := none
  candidate := none
  mid := none

end Fields

/-- The value of a member with this key. -/
def readItem (key p : List UInt8) : Option (Item × List UInt8) :=
  if (memberKey? key).any MemberKey.isSpan then
    (scanString p).map fun r => (.span r.1, r.2)
  else (parseValue p).map fun r => (.value r.1, r.2)

/-- The loop over the members, as many as the fuel allows: the text after the closing brace. -/
def parseMembers : ℕ → List UInt8 → Fields → Except ParseError (List UInt8 × Fields)
  | 0, _, f => .error ⟨"invalid object key", f.out⟩
  | n + 1, p, f =>
    let p := skipWs p
    if p.head? = some closeBrace then .ok (p.tail, f)
    else
      match parseString 64 p with
      | none => .error ⟨"invalid object key", f.out⟩
      | some (key, p) =>
        let p := skipWs p
        if p.head? ≠ some colon then .error ⟨"expected colon", f.out⟩
        else
          match readItem key (skipWs p.tail) with
          | none => .error ⟨"invalid value", f.out⟩
          | some (item, p) =>
            match f.store key item with
            | .error message => .error ⟨message, f.out⟩
            | .ok f =>
              let p := skipWs p
              if p.head? = some comma then parseMembers n p.tail f
              else if p.head? = some closeBrace then .ok (p.tail, f)
              else .error ⟨"expected comma or object end", f.out⟩

/-! ## The checks of the request types -/

/-- `g_ascii_tolower` -/
def gAsciiTolower (c : UInt8) : UInt8 := if 0x41 ≤ c ∧ c ≤ 0x5A then c + 0x20 else c

/-- `web_spectrum_profile_parse`, where `g_ascii_strcasecmp` compares. -/
def webSpectrumProfileParse (name : List UInt8) : Option SpectrumProfile :=
  let name := name.map gAsciiTolower
  if name = ascii "low" then some .low
  else if name = ascii "balanced" then some .balanced
  else if name = ascii "high" then some .high
  else if name = ascii "ultra" then some .ultra
  else none

/-- The requests without members of their own. -/
def plainTypes : List (String × WebRequestType) :=
  [("get_state", .getState), ("lease_acquire", .leaseAcquire), ("lease_renew", .leaseRenew),
    ("lease_release", .leaseRelease), ("control_acquire", .controlAcquire),
    ("control_renew", .controlRenew), ("control_release", .controlRelease)]

/-- The actions with a request type of their own. -/
def commandTypes : List (String × WebRequestType) :=
  [("set_frequency", .setFrequency), ("set_mode", .setMode), ("set_mox", .setMox),
    ("set_tune", .setTune), ("set_filter", .setFilter)]

def txControls : List (String × WebTxControl) :=
  [("set_drive", .drive), ("set_tune_drive", .tuneDrive), ("set_mic_gain", .micGain),
    ("set_compressor", .compressor), ("set_comp_level", .compLevel), ("set_leveler", .leveler),
    ("set_cessb", .cessb)]

def controls : List (String × WebControl) :=
  [("set_af_gain", .afGain), ("set_agc", .agc), ("set_agc_gain", .agcGain),
    ("set_squelch", .squelch), ("set_step", .step), ("set_nb", .nb), ("set_nr", .nr),
    ("set_anf", .anf), ("set_snb", .snb), ("set_filter_preset", .filterPreset), ("set_rit", .rit),
    ("set_rit_enable", .ritEnable), ("set_xit", .xit), ("set_xit_enable", .xitEnable),
    ("set_split", .split), ("band_step", .band), ("set_band", .setBand), ("set_rf_gain", .rfGain),
    ("set_subrx", .subrx), ("set_subrx_mix", .subrxMix), ("recall_bookmark", .bookmark),
    ("set_frequency_b", .frequencyB), ("vfo_op", .vfoOp), ("set_lock", .lock),
    ("set_ctun", .ctun), ("set_duplex", .duplex), ("set_zoom", .zoom)]

/-- The entry of a name in a table. -/
def lookupName {α : Type*} (table : List (String × α)) (name : List UInt8) : Option α :=
  (table.find? fun e => ascii e.1 = name).map Prod.snd

/-- The type of a command, from its action. -/
def commandAction (out : WebRequest) (action : List UInt8) : Except ParseError WebRequest :=
  match lookupName commandTypes action with
  | some type => .ok { out with type := type }
  | none =>
    match lookupName txControls action with
    | some control => .ok { out with type := .setTxControl, txControl := control }
    | none =>
      match lookupName controls action with
      | some control => .ok { out with type := .setControl, control := control }
      | none => .error ⟨"unknown action", out⟩

/-- The values of a command. -/
def commandValues (f : Fields) (out : WebRequest) : Except ParseError WebRequest :=
  let keys := out.type = .setMox ∨ out.type = .setTune
  if out.type = .setFilter then
    if (f .rx).isNone then .error ⟨"missing receiver index", out⟩
    else if (f .low).isNone ∨ (f .high).isNone ∨ out.low ≥ out.high then
      .error ⟨"invalid filter edges", out⟩
    else .ok out
  else if (f .value).isNone then .error ⟨"missing command value", out⟩
  else if keys ∧ !out.valueIsBool then
    .error ⟨"set_mox/set_tune requires a boolean value", out⟩
  else if ¬ keys ∧ out.valueIsBool then
    .error ⟨"numeric command requires an integer value", out⟩
  else if ¬ keys ∧ out.type ≠ .setTxControl ∧ (f .rx).isNone then
    .error ⟨"missing receiver index", out⟩
  else .ok out

/-- `rtc_candidate` -/
def rtcCandidate (f : Fields) (out : WebRequest) : Except ParseError WebRequest :=
  match f.span .candidate with
  | none => .error ⟨"missing candidate", out⟩
  | some tok =>
    match jsonUnescape tok with
    | none => .error ⟨"invalid candidate escape", out⟩
    | some candidate =>
      match f.span .mid with
      | none => .ok { out with type := .rtcCandidate, candidate := some candidate }
      | some tok =>
        match jsonUnescape tok with
        | none =>
          .error ⟨"invalid mid escape", webRequestClear { out with candidate := some candidate }⟩
        | some mid =>
          .ok { out with type := .rtcCandidate, candidate := some candidate, mid := some mid }

/-- `rtc_answer` -/
def rtcAnswer (f : Fields) (out : WebRequest) : Except ParseError WebRequest :=
  match f.span .sdp with
  | none => .error ⟨"missing sdp", out⟩
  | some tok =>
    match jsonUnescape tok with
    | none => .error ⟨"invalid sdp escape", out⟩
    | some sdp => .ok { out with type := .rtcAnswer, sdp := some sdp }

/-- The requests that name a receiver, and commands. -/
def receiverRequest (f : Fields) (out : WebRequest) (type : List UInt8) :
    Except ParseError WebRequest :=
  let haveRx := (f .rx).isSome
  let missingRx : Except ParseError WebRequest := .error ⟨"missing receiver index", out⟩
  if type = ascii "spectrum_subscribe" then
    if !haveRx then missingRx
    else
      match webSpectrumProfileParse (f.text .profile 32) with
      | some profile => .ok { out with type := .spectrumSubscribe, profile := profile }
      | none => .error ⟨"profile must be Low, Balanced, High or Ultra", out⟩
  else if type = ascii "spectrum_unsubscribe" then
    if !haveRx then missingRx else .ok { out with type := .spectrumUnsubscribe }
  else if type = ascii "audio_subscribe" then
    if !haveRx then missingRx else .ok { out with type := .audioSubscribe }
  else if type = ascii "audio_unsubscribe" then
    if !haveRx then missingRx else .ok { out with type := .audioUnsubscribe }
  else if type = ascii "audio_feedback" then
    if !haveRx then missingRx
    else if (f .value).isNone ∨ out.valueIsBool ∨ out.value < 0 ∨ out.value > 100 then
      .error ⟨"audio_feedback value must be a loss percentage", out⟩
    else .ok { out with type := .audioFeedback }
  else if type = ascii "rtc_answer" then if !haveRx then missingRx else rtcAnswer f out
  else if type = ascii "rtc_candidate" then if !haveRx then missingRx else rtcCandidate f out
  else if type ≠ ascii "command" then .error ⟨"unknown request type", out⟩
  else (commandAction out (f.text .action 64)).bind (commandValues f)

/-- The end of `web_protocol_parse`: the request that the stored values are. -/
def webRequest (f : Fields) : Except ParseError WebRequest :=
  let out := f.out
  let type := f.text .type 32
  if (f .type).isNone then .error ⟨"missing request type", out⟩
  else if (f .id).isNone ∨ out.id < 0 then .error ⟨"missing request id", out⟩
  else if (f .force).isSome ∧ type ≠ ascii "control_acquire" then
    .error ⟨"force is only valid on control_acquire", out⟩
  else
    match lookupName plainTypes type with
    | some type => .ok { out with type := type }
    | none => receiverRequest f out type

/-- `web_protocol_parse` -/
def webProtocolParse (text : List UInt8) : Except ParseError WebRequest :=
  if text = [] ∨ text.length > webMaxTextMessage then
    .error ⟨"message is empty or too large", Fields.empty.out⟩
  else
    let p := skipWs text
    if p.head? ≠ some openBrace then .error ⟨"expected JSON object", Fields.empty.out⟩
    else
      match parseMembers p.tail.length p.tail Fields.empty with
      | .error e => .error e
      | .ok (p, f) =>
        if skipWs p ≠ [] then .error ⟨"trailing data", f.out⟩ else webRequest f

end MacHPSDR.WebServer
