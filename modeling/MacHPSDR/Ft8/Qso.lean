import MacHPSDR.Foundations.CString
import MacHPSDR.Foundations.Transition
import Mathlib

/-!
# The FT8 auto-QSO engine

`ft8_qso.c` polls the decoder every half second, drives the standard exchange (CQ, grid, report,
R-report, RR73, 73) and appends what it takes for completed contacts to a log. The decoder's list
belongs to one slot of 15 seconds (7.5 for FT4) and grows within it, so the engine remembers which
slot it last looked at and how many entries of it (`last_utc`, `last_n`).

What the transmit engine does comes in through the polls: whether it is transmitting, and whether
the message handed to it can be encoded. The status line and the sets of stations worked before
are not part of the model.
-/

namespace MacHPSDR.Ft8

open CString

/-- What the QSO engine reads of an `FT8_DECODE`. The label `utc` of a slot ("hhmmss") stands as
the second of the day. -/
structure Decode where
  utc : ℕ
  snr : ℚ
  callTo : List Char
  callDe : List Char
  extra : List Char
  deriving DecidableEq

/-- `qso_state_t`. -/
inductive QsoState
  | idle
  | callingCq
  | cqSentReport
  | cqSentRr73
  | ansSentGrid
  | ansSentRreport
  | ansSent73
  | free
  deriving DecidableEq

/-- The settings of the station. -/
structure Station where
  stationCall : List Char
  stationGrid : List Char
  cqDir : List Char
  txEven : Bool
  /-- FT4, not FT8. -/
  proto : Bool

/-- What `log_qso` writes of the contact. -/
structure LogEntry where
  call : List Char
  grid : List Char
  rstSent : ℤ
  rstRcvd : ℤ
  deriving DecidableEq

/-- The variables of `ft8_qso.c`, and the entries written to the log. -/
structure Qso where
  state : QsoState
  myCall : List Char
  myGrid : List Char
  dxCall : List Char
  dxGrid : List Char
  sentReport : ℤ
  recvReport : ℤ
  txEven : Bool
  txEnabled : Bool
  autoSeq : Bool
  pendingMsg : List Char
  preparedMsg : List Char
  havePending : Bool
  needArm : Bool
  /-- The slot that was looked at last; an empty label is `none`. -/
  lastUtc : Option ℕ
  lastN : ℕ
  prevActive : Bool
  cycles : ℕ
  logged : Bool
  txEnabledSince : ℤ
  prevTxen : Bool
  log : List LogEntry

/-- `WATCHDOG_CYCLES`. -/
def watchdogCycles : ℕ := 5

/-- `TX_WATCHDOG_SEC`. -/
def txWatchdogSec : ℤ := 6 * 60

/-! ## Texts -/

def isGrid : List Char → Bool
  | a :: b :: c :: d :: rest =>
    (rest.length == 0 || rest.length == 2) && ('A' ≤ a && a ≤ 'R') && ('A' ≤ b && b ≤ 'R') &&
      c.isDigit && d.isDigit
  | _ => false

/-- "-12", "+05" -/
def isReport : List Char → Bool
  | c :: d :: _ => (c == '-' || c == '+') && d.isDigit
  | _ => false

/-- "R-12", "R+05" -/
def hasRoger : List Char → Bool
  | 'R' :: c :: _ => c == '-' || c == '+'
  | _ => false

def isRr73 (s : List Char) : Bool := s == "RR73".toList || s == "RRR".toList

def is73 (s : List Char) : Bool := s == "73".toList

def parseReport : List Char → ℤ
  | 'R' :: s => atoi s
  | s => atoi s

/-- `lroundf`: to the nearest whole number, halves away from zero. -/
def lround (x : ℚ) : ℤ := if 0 ≤ x then ⌊x + 1 / 2⌋ else -⌊-x + 1 / 2⌋

def clampReport (snr : ℚ) : ℤ := max (-24) (min 20 (lround snr))

/-- `strcasecmp(a, b) == 0`. -/
def sameCase (a b : List Char) : Bool := a.map Char.toLower == b.map Char.toLower

/-- `%+03d` -/
def signed (n : ℤ) : List Char :=
  let digits := Nat.toDigits 10 n.natAbs
  (if n < 0 then '-' else '+') :: (if digits.length < 2 then '0' :: digits else digits)

/-- The words with a blank between them. -/
def words : List (List Char) → List Char := List.intercalate [' ']

/-- `slot_even_from_utc`. -/
def slotEvenFromUtc (proto : Bool) (utc : ℕ) : Bool :=
  (if proto then utc * 2 / 15 else utc / 15) % 2 == 0

namespace Qso

/-! ## Outgoing messages -/

def setPending (q : Qso) (msg : List Char) : Qso :=
  { q with pendingMsg := strlcpy 32 msg, havePending := true, needArm := true }

def msgCq (r : Station) (q : Qso) : Qso :=
  q.setPending (words (["CQ".toList] ++ (if r.cqDir ≠ [] then [r.cqDir] else []) ++ [q.myCall] ++
    (if q.myGrid ≠ [] then [q.myGrid] else [])))

/-- The messages to the DX station: `msg_grid` and its siblings. -/
def msgTo (q : Qso) (rest : List Char) : Qso := q.setPending (words [q.dxCall, q.myCall, rest])

def msgGrid (q : Qso) : Qso := q.msgTo q.myGrid

def msgReport (q : Qso) : Qso := q.msgTo (signed q.sentReport)

def msgRreport (q : Qso) : Qso := q.msgTo ('R' :: signed q.sentReport)

def msgRr73 (q : Qso) : Qso := q.msgTo "RR73".toList

def msg73 (q : Qso) : Qso := q.msgTo "73".toList

def progress (now : ℤ) (q : Qso) : Qso := { q with cycles := 0, txEnabledSince := now }

def logQso (q : Qso) : Qso :=
  if q.logged then q
  else
    { q with
      logged := true
      log := q.log ++ [⟨q.dxCall, q.dxGrid, q.sentReport, q.recvReport⟩] }

/-! ## Received messages -/

def goIdle (q : Qso) : Qso :=
  { q with
    state := .idle
    havePending := false
    needArm := false
    txEnabled := false
    pendingMsg := []
    preparedMsg := []
    cycles := 0 }

def setDx (call grid : List Char) (q : Qso) : Qso :=
  { q with dxCall := strlcpy 16 call, dxGrid := strlcpy 8 (if isGrid grid then grid else []) }

def sameDx (q : Qso) (call : List Char) : Bool := q.dxCall != [] && sameCase call q.dxCall

/-- The message is to us, and its sender is known. -/
def ToMe (q : Qso) (d : Decode) : Prop :=
  d.callDe ≠ [] ∧ q.myCall ≠ [] ∧ sameCase d.callTo q.myCall = true

instance (q : Qso) (d : Decode) : Decidable (q.ToMe d) :=
  inferInstanceAs (Decidable (_ ∧ _ ∧ _))

/-- The `switch` of `handle_decode`. -/
def advance (now : ℤ) (q : Qso) (d : Decode) : Qso :=
  match q.state with
  | .callingCq =>
    let q := { q.setDx d.callDe d.extra with sentReport := clampReport d.snr }
    { q.msgReport with state := .cqSentReport }.progress now
  | .cqSentReport =>
    if q.sameDx d.callDe && (hasRoger d.extra || isReport d.extra || isRr73 d.extra) then
      let q := if hasRoger d.extra || isReport d.extra then
        { q with recvReport := parseReport d.extra } else q
      { q.msgRr73.logQso with state := .cqSentRr73 }.progress now
    else q
  | .cqSentRr73 => if q.sameDx d.callDe && (is73 d.extra || isRr73 d.extra) then q.goIdle else q
  | .ansSentGrid =>
    if q.sameDx d.callDe then
      if isRr73 d.extra || is73 d.extra then
        { { q with recvReport := 0 }.msg73.logQso with state := .ansSent73 }.progress now
      else if isReport d.extra && !hasRoger d.extra then
        let q := { q with recvReport := parseReport d.extra, sentReport := clampReport d.snr }
        { q.msgRreport with state := .ansSentRreport }.progress now
      else q
    else q
  | .ansSentRreport =>
    if q.sameDx d.callDe && (isRr73 d.extra || is73 d.extra || hasRoger d.extra) then
      { q.msg73.logQso with state := .ansSent73 }.progress now
    else q
  | .idle | .ansSent73 | .free => q

def handleDecode (now : ℤ) (q : Qso) (d : Decode) : Qso :=
  if q.autoSeq = true ∧ q.ToMe d then q.advance now d else q

/-! ## User commands -/

def setTxEnabled (en : Bool) (q : Qso) : Qso :=
  { q with txEnabled := en, needArm := q.needArm || en && q.havePending }

def startCq (r : Station) (q : Qso) : Qso :=
  if r.stationCall = [] then q
  else
    { q with
      myCall := strlcpy 16 r.stationCall
      myGrid := strlcpy 8 r.stationGrid
      dxCall := []
      dxGrid := []
      sentReport := 0
      recvReport := 0
      txEven := r.txEven
      logged := false
      preparedMsg := []
      lastUtc := none
      lastN := 0
      cycles := 0
      state := .callingCq
      txEnabled := true }.msgCq r

def answer (r : Station) (d : Decode) (q : Qso) : Qso :=
  if r.stationCall = [] ∨ d.callDe = [] then q
  else
    let q := { q with myCall := strlcpy 16 r.stationCall, myGrid := strlcpy 8 r.stationGrid }
    if q.myGrid = [] then q
    else
      { q.setDx d.callDe d.extra with
        sentReport := 0
        recvReport := 0
        txEven := !slotEvenFromUtc r.proto d.utc
        logged := false
        preparedMsg := []
        lastUtc := none
        lastN := 0
        cycles := 0
        state := .ansSentGrid
        txEnabled := true }.msgGrid

/-- `ft8_qso_select_tx`. -/
def selectTx (r : Station) (idx : ℕ) (q : Qso) : Qso :=
  if r.stationCall = [] then q
  else
    let q := { q with myCall := strlcpy 16 r.stationCall, myGrid := strlcpy 8 r.stationGrid }
    if idx = 6 then
      { q with
        txEven := r.txEven
        logged := false
        preparedMsg := []
        cycles := 0
        dxCall := []
        dxGrid := []
        state := .callingCq }.msgCq r
    else if q.dxCall = [] then q
    else
      let q := { q with
        sentReport := if q.sentReport = 0 then -15 else q.sentReport
        logged := false
        preparedMsg := []
        cycles := 0 }
      match idx with
      | 1 => { q with state := .ansSentGrid }.msgGrid
      | 2 => { q with state := .cqSentReport }.msgReport
      | 3 => { q with state := .ansSentRreport }.msgRreport
      | 4 => { q with state := .cqSentRr73 }.msgRr73
      | 5 => { q with state := .ansSent73 }.msg73
      | _ => q

/-- `ft8_qso_send_free`. -/
def sendFree (text : List Char) (q : Qso) : Qso :=
  if text = [] then q
  else
    { q with
      logged := false
      preparedMsg := []
      cycles := 0
      state := .free
      txEnabled := true }.setPending ((text.take 13).map Char.toUpper)

/-! ## The poll -/

/-- The transmit watchdog of `qso_poll`. -/
def pollWatchdog (now : ℤ) (q : Qso) : Qso :=
  let q := if q.txEnabled && !q.prevTxen then { q with txEnabledSince := now } else q
  let q := { q with prevTxen := q.txEnabled }
  if q.txEnabled = true ∧ now - q.txEnabledSince > txWatchdogSec then q.setTxEnabled false else q

/-- The end of one of our transmissions. -/
def pollTxEnd (active : Bool) (q : Qso) : Qso :=
  let q :=
    if q.prevActive && !active then
      let q := { q with cycles := q.cycles + 1 }
      if q.state = .ansSent73 then q.goIdle
      else if q.autoSeq = true ∧ q.state ≠ .callingCq ∧ q.state ≠ .free ∧
          q.cycles ≥ watchdogCycles then q.goIdle
      else if q.havePending then { q with needArm := true }
      else q
    else q
  { q with prevActive := active }

/-- The pending message is handed to the transmit engine; `encodes` says whether it can be
encoded. -/
def pollArm (active encodes : Bool) (q : Qso) : Qso :=
  if q.needArm && q.havePending && q.txEnabled && !active && q.state != .idle then
    let q := if q.pendingMsg ≠ q.preparedMsg ∧ encodes = true then
      { q with preparedMsg := q.pendingMsg } else q
    if q.pendingMsg = q.preparedMsg then { q with needArm := false } else q
  else q

end Qso

/-! ## The decoder's list -/

/-- The label of a slot. -/
def utcLabel (slot : ℤ) : ℕ := (slot % 86400).toNat

/-- The decode result list of `ft8_decoder.c`. -/
structure Decodes where
  results : List Decode
  resultUtc : Option ℕ
  resultSlot : ℤ
  haveSlot : Bool

/-- `MAX_DECODES`. -/
def maxDecodes : ℕ := 64

namespace Decodes

/-- The end of `decode_slot`: new decodes of one slot. A newer slot replaces the list, an older one
is dropped. -/
def publish (slot : ℤ) (new : List Decode) (l : Decodes) : Decodes :=
  let l :=
    if !l.haveSlot ∨ slot > l.resultSlot then
      { results := [], resultUtc := some (utcLabel slot), resultSlot := slot, haveSlot := true }
    else l
  if slot = l.resultSlot then
    { l with results := l.results ++ new.take (maxDecodes - l.results.length) }
  else l

/-- `ft8_decoder_set_enabled`, when it enables the decoder. -/
def clear (l : Decodes) : Decodes :=
  { l with results := [], resultUtc := none, haveSlot := false }

end Decodes

end MacHPSDR.Ft8
