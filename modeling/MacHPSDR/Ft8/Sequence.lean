import MacHPSDR.Ft8.Once
import Mathlib

/-!
# The FT8 exchange moves forward and is logged once

A run is read as a history of events (`Trace`): each event starts where the one before left the
exchange, which nothing else changes. Three things hold of every history (`engine_sequence`).

* Decodes and polls move the exchange only forward (`Forward`), a decode only when it is addressed
  to us; only a user command goes back.
* Between two user commands that set up an exchange, at most one entry is logged.
* An entry is logged on a message of the DX station that closes the exchange in its state
  (`Closing`). After a CQ our report is on the air by then. After an answer our R-report is, and
  the station's own report was received or the user picked the R-report by hand; or the station
  finished at once, without reports.
-/

namespace MacHPSDR.Ft8

open CString

/-! ## The exchange -/

/-- What the events of a run hand on to each other. -/
structure Exchange where
  state : QsoState
  dxCall : List Char
  recvReport : ℤ
  pendingMsg : List Char
  havePending : Bool
  logged : Bool
  log : List LogEntry

namespace Qso

/-- The exchange without the settings and the scheduling of the transmissions. -/
def exchange (q : Qso) : Exchange where
  state := q.state
  dxCall := q.dxCall
  recvReport := q.recvReport
  pendingMsg := q.pendingMsg
  havePending := q.havePending
  logged := q.logged
  log := q.log

end Qso

/-- The moves of the exchange that a decode may make. -/
def Forward : QsoState → QsoState → Prop
  | .callingCq, .cqSentReport => True
  | .cqSentReport, .cqSentRr73 => True
  | .cqSentRr73, .idle => True
  | .ansSentGrid, .ansSentRreport => True
  | .ansSentGrid, .ansSent73 => True
  | .ansSentRreport, .ansSent73 => True
  | _, _ => False

/-- The message `d` closes an exchange in the state of `q`, with `rcvd` for the report received. -/
def Closing (q : Qso) (d : Decode) (rcvd : ℤ) : Prop :=
  match q.state with
  | .cqSentReport =>
    (hasRoger d.extra = true ∨ isReport d.extra = true) ∧ rcvd = parseReport d.extra ∨
      isRr73 d.extra = true ∧ rcvd = q.recvReport
  | .ansSentRreport =>
    (isRr73 d.extra = true ∨ is73 d.extra = true ∨ hasRoger d.extra = true) ∧ rcvd = q.recvReport
  | .ansSentGrid => (isRr73 d.extra = true ∨ is73 d.extra = true) ∧ rcvd = 0
  | _ => False

namespace Exchange

/-- The queued message is to the DX station and ends with `rest`. -/
def Sending (x : Exchange) (rest : List Char) : Prop :=
  x.havePending = true ∧ ∃ myCall, x.pendingMsg = strlcpy 32 (words [x.dxCall, myCall, rest])

/-- In the states that are named after our report, the report is queued. -/
def SendsReport (x : Exchange) : Prop :=
  (x.state = .cqSentReport → ∃ n, x.Sending (signed n)) ∧
    (x.state = .ansSentRreport → ∃ n, x.Sending ('R' :: signed n))

variable {x : Exchange}

/-- Nothing is to be said in the other states. -/
theorem SendsReport.of_other
    (h : decide (x.state = .cqSentReport ∨ x.state = .ansSentRreport) = false) : x.SendsReport := by
  obtain ⟨hcq, hans⟩ := not_or.1 (of_decide_eq_false h)
  exact ⟨fun hs => absurd hs hcq, fun hs => absurd hs hans⟩

theorem SendsReport.of_cq {n : ℤ} (hs : x.state = .cqSentReport) (h : x.Sending (signed n)) :
    x.SendsReport :=
  ⟨fun _ => ⟨n, h⟩, fun hs' => absurd (hs.symm.trans hs') (by decide)⟩

theorem SendsReport.of_ans {n : ℤ} (hs : x.state = .ansSentRreport)
    (h : x.Sending ('R' :: signed n)) : x.SendsReport :=
  ⟨fun hs' => absurd (hs.symm.trans hs') (by decide), fun _ => ⟨n, h⟩⟩

end Exchange

namespace Qso

/-! ## What one decode does -/

/-- A decode leaves everything as it is, or it is to us and moves the exchange forward. -/
theorem handleDecode_state (now : ℤ) (q : Qso) (d : Decode) :
    q.handleDecode now d = q ∨
      q.ToMe d ∧ Forward q.state (q.handleDecode now d).state := by
  unfold handleDecode
  split
  case isFalse => exact .inl rfl
  case isTrue h =>
    unfold advance
    split <;> rename_i hq <;> rw [hq]
    case h_1 => exact .inr ⟨h.2, trivial⟩
    case h_2 => split <;> [exact .inr ⟨h.2, trivial⟩; exact .inl rfl]
    case h_3 => split <;> [exact .inr ⟨h.2, trivial⟩; exact .inl rfl]
    case h_4 =>
      split
      · split
        · exact .inr ⟨h.2, trivial⟩
        · split <;> [exact .inr ⟨h.2, trivial⟩; exact .inl rfl]
      · exact .inl rfl
    case h_5 => split <;> [exact .inr ⟨h.2, trivial⟩; exact .inl rfl]
    all_goals exact .inl rfl

/-- `q'` comes from `q` by the message `d`: nothing is logged, or `d` is a message of the DX station
to us that closes the exchange, the first one since `logged` was cleared. -/
def Logs (q : Qso) (d : Decode) (q' : Qso) : Prop :=
  q'.log = q.log ∧ (q.logged = true → q'.logged = true) ∨
    (q.logged = false ∧ q'.logged = true) ∧
    (q.ToMe d ∧ q.sameDx d.callDe = true ∧ Closing q d q'.recvReport) ∧
    q'.log = q.log ++ [⟨q.dxCall, q.dxGrid, q.sentReport, q'.recvReport⟩]

/-- `log_qso` after the last message is queued. -/
theorem logs_logQso (now : ℤ) (q : Qso) (d : Decode) (rcvd : ℤ) (rest : List Char) (st : QsoState)
    (hme : q.ToMe d) (hdx : q.sameDx d.callDe = true) (hc : Closing q d rcvd) :
    q.Logs d (progress now
      { ({ q with recvReport := rcvd }.msgTo rest).logQso with state := st }) := by
  unfold Logs logQso
  cases hl : q.logged
  · right
    exact ⟨⟨rfl, rfl⟩, ⟨hme, hdx, hc⟩, rfl⟩
  · left
    exact ⟨rfl, fun _ => rfl⟩

theorem handleDecode_logs (now : ℤ) (q : Qso) (d : Decode) : q.Logs d (q.handleDecode now d) := by
  unfold handleDecode
  split
  case isFalse => exact .inl ⟨rfl, id⟩
  case isTrue h =>
    unfold advance
    split <;> rename_i hq
    case h_2 =>
      split
      case isTrue hd =>
        simp only [Bool.and_eq_true, Bool.or_eq_true] at hd
        split <;> rename_i hr
        · refine logs_logQso now q d _ _ _ h.2 hd.1 ?_
          simp only [Closing, hq]
          exact .inl ⟨by simpa using hr, trivial⟩
        · refine logs_logQso now q d q.recvReport _ _ h.2 hd.1 ?_
          simp only [Closing, hq]
          exact .inr ⟨hd.2.resolve_left (by simpa using hr), trivial⟩
      case isFalse => exact .inl ⟨rfl, id⟩
    case h_4 =>
      split
      case isTrue hd =>
        split
        case isTrue hr =>
          refine logs_logQso now q d _ _ _ h.2 hd ?_
          simp only [Closing, hq]
          exact ⟨by simpa using hr, trivial⟩
        case isFalse => split <;> exact .inl ⟨rfl, id⟩
      case isFalse => exact .inl ⟨rfl, id⟩
    case h_5 =>
      split
      case isTrue hd =>
        simp only [Bool.and_eq_true, Bool.or_eq_true] at hd
        refine logs_logQso now q d q.recvReport _ _ h.2 hd.1 ?_
        simp only [Closing, hq]
        exact ⟨by simpa only [or_assoc] using hd.2, trivial⟩
      case isFalse => exact .inl ⟨rfl, id⟩
    case h_3 => split <;> exact .inl ⟨rfl, id⟩
    all_goals exact .inl ⟨rfl, id⟩

/-- A decode after which the R-report is due: it was due before, or `d` is the report of the DX
station. -/
theorem handleDecode_report (now : ℤ) (q : Qso) (d : Decode)
    (h : (q.handleDecode now d).state = .ansSentRreport) :
    q.handleDecode now d = q ∨
      (q.state = .ansSentGrid ∧ q.ToMe d ∧ q.sameDx d.callDe = true ∧ isReport d.extra = true) ∧
        (q.handleDecode now d).dxCall = q.dxCall ∧
        (q.handleDecode now d).recvReport = parseReport d.extra := by
  unfold handleDecode at h ⊢
  split
  case isFalse => exact .inl rfl
  case isTrue hauto =>
    rw [if_pos hauto] at h
    unfold advance at h ⊢
    split <;> rename_i hq <;> rw [hq] at h
    case h_1 => cases h
    case h_2 => split <;> rename_i hd <;> [(rw [if_pos hd] at h; cases h); exact .inl rfl]
    case h_3 => split <;> rename_i hd <;> [(rw [if_pos hd] at h; cases h); exact .inl rfl]
    case h_4 =>
      split
      case isTrue hd =>
        rw [if_pos hd] at h
        split
        case isTrue hr =>
          rw [if_pos hr] at h
          cases h
        case isFalse =>
          split
          case isTrue hr =>
            rw [Bool.and_eq_true] at hr
            exact .inr ⟨⟨hq, hauto.2, hd, hr.1⟩, rfl, rfl⟩
          case isFalse => exact .inl rfl
      case isFalse => exact .inl rfl
    case h_5 => split <;> rename_i hd <;> [(rw [if_pos hd] at h; cases h); exact .inl rfl]
    all_goals exact .inl rfl

theorem handleDecode_sendsReport (now : ℤ) (q : Qso) (d : Decode) (h : q.exchange.SendsReport) :
    (q.handleDecode now d).exchange.SendsReport := by
  unfold handleDecode
  split
  case isFalse => exact h
  case isTrue =>
    unfold advance
    split
    case h_1 => exact .of_cq rfl ⟨rfl, _, rfl⟩
    case h_2 => split <;> [exact .of_other rfl; exact h]
    case h_3 => split <;> [exact .of_other rfl; exact h]
    case h_4 =>
      split
      · split
        · exact .of_other rfl
        · split <;> [exact .of_ans rfl ⟨rfl, _, rfl⟩; exact h]
      · exact h
    case h_5 => split <;> [exact .of_other rfl; exact h]
    all_goals exact h

/-! ## What a poll does besides -/

@[simp] theorem pollWatchdog_exchange (now : ℤ) (q : Qso) :
    (q.pollWatchdog now).exchange = q.exchange := by
  unfold pollWatchdog
  dsimp only
  split <;> split <;> rfl

/-- The rest of a poll changes nothing of the exchange, or ends it. -/
theorem pollTx_exchange (active encodes : Bool) (q : Qso) :
    ((q.pollTxEnd active).pollArm active encodes).exchange = q.exchange ∨
      ((q.pollTxEnd active).pollArm active encodes).exchange = q.goIdle.exchange := by
  have harm (q : Qso) : (q.pollArm active encodes).exchange = q.exchange := by
    unfold pollArm
    dsimp only
    repeat' split
    all_goals rfl
  rw [harm]
  unfold pollTxEnd
  dsimp only
  split
  · split
    · exact .inr rfl
    · split
      · exact .inr rfl
      · split <;> exact .inl rfl
  · exact .inl rfl

end Qso

/-! ## What a command does -/

namespace Command

/-- The commands that set up an exchange. -/
def Begins : Command → Prop
  | .startCq | .answer _ | .selectTx _ | .sendFree _ => True
  | .halt | .setTxEnabled _ | .setAuto _ => False

variable (r : Station) (q : Qso) (c : Command)

theorem run_log : (c.run r q).log = q.log := by
  cases c with
  | startCq =>
    simp only [run, Qso.startCq]
    split <;> rfl
  | answer d =>
    simp only [run, Qso.answer]
    split <;> [skip; split] <;> rfl
  | selectTx idx =>
    simp only [run, Qso.selectTx]
    repeat' split
    all_goals rfl
  | sendFree text =>
    simp only [run, Qso.sendFree]
    split <;> rfl
  | halt | setTxEnabled | setAuto => rfl

theorem run_logged (h : ¬ c.Begins) : (c.run r q).logged = q.logged := by
  cases c with
  | startCq | answer | selectTx | sendFree => exact absurd trivial h
  | halt | setTxEnabled | setAuto => rfl

theorem run_sendsReport (h : q.exchange.SendsReport) : (c.run r q).exchange.SendsReport := by
  cases c with
  | startCq =>
    simp only [run, Qso.startCq]
    split
    · exact h
    · exact .of_other rfl
  | answer d =>
    simp only [run, Qso.answer]
    split
    · exact h
    · split
      · exact h
      · exact .of_other rfl
  | halt => exact .of_other rfl
  | setTxEnabled | setAuto => exact h
  | selectTx idx =>
    simp only [run, Qso.selectTx]
    split
    case isTrue => exact h
    case isFalse =>
      split
      case isTrue => exact .of_other rfl
      case isFalse =>
        split
        case isTrue => exact h
        case isFalse =>
          split
          case h_2 => exact .of_cq rfl ⟨rfl, _, rfl⟩
          case h_3 => exact .of_ans rfl ⟨rfl, _, rfl⟩
          case h_6 => exact h
          all_goals exact .of_other rfl
  | sendFree text =>
    simp only [run, Qso.sendFree]
    split
    · exact h
    · exact .of_other rfl

/-- A command after which the R-report is due: it picks that message, or it was due before and the
command leaves the station and its report. -/
theorem run_report (h : (c.run r q).state = .ansSentRreport) :
    c = .selectTx 3 ∨ q.state = .ansSentRreport ∧ (c.run r q).dxCall = q.dxCall ∧
      (c.run r q).recvReport = q.recvReport := by
  cases c with
  | startCq =>
    simp only [run, Qso.startCq] at h ⊢
    split at h
    · simp_all
    · cases h
  | answer d =>
    simp only [run, Qso.answer] at h ⊢
    split at h
    · simp_all
    · split at h
      · simp_all
      · cases h
  | halt => cases h
  | setTxEnabled | setAuto => exact .inr ⟨h, rfl, rfl⟩
  | selectTx idx =>
    simp only [run, Qso.selectTx] at h ⊢
    by_cases hcall : r.stationCall = []
    · rw [if_pos hcall] at h ⊢
      exact .inr ⟨h, rfl, rfl⟩
    · rw [if_neg hcall] at h ⊢
      by_cases h6 : idx = 6
      · rw [if_pos h6] at h
        cases h
      · rw [if_neg h6] at h ⊢
        by_cases hdx : q.dxCall = []
        · rw [if_pos hdx] at h ⊢
          exact .inr ⟨h, rfl, rfl⟩
        · rw [if_neg hdx] at h ⊢
          split at h
          case h_3 => exact .inl rfl
          case h_6 => exact .inr ⟨h, rfl, rfl⟩
          all_goals cases h
  | sendFree text =>
    simp only [run, Qso.sendFree] at h ⊢
    split at h
    · simp_all
    · cases h

end Command

/-! ## Histories -/

namespace Event

def before : Event → Qso
  | .command _ q _ | .message _ _ _ q _ | .tick q _ => q

def after : Event → Qso
  | .command _ _ q | .message _ _ _ _ q | .tick _ q => q

/-- The event is what the code does. -/
inductive Occurs : Event → Prop
  | command (r : Station) (c : Command) (q : Qso) : Occurs (.command c q (c.run r q))
  | message (now slot : ℤ) (i : ℕ) (d : Decode) (q : Qso) :
    Occurs (.message slot i d q (q.handleDecode now d))
  | tick (active encodes : Bool) (q : Qso) :
    Occurs (.tick q ((q.pollTxEnd active).pollArm active encodes))

/-- Without a user command the exchange stays where it is or moves forward on a message to us, and
a poll may end it. -/
def Proceeds : Event → Prop
  | .command .. => True
  | .message _ _ d q q' => q'.state = q.state ∨ q.ToMe d ∧ Forward q.state q'.state
  | .tick q q' => q'.state = q.state ∨ q'.state = .idle

/-- A user command sets up an exchange. -/
def Begins : Event → Prop
  | .command c q q' => c.Begins ∧ q' ≠ q
  | _ => False

/-- How many entries the event logs. -/
def entries (e : Event) : ℕ := e.after.log.length - e.before.log.length

/-- The event closes the exchange with a message of the DX station to us. -/
def Closes : Event → Prop
  | .message _ _ d q q' =>
    q.ToMe d ∧ q.sameDx d.callDe = true ∧ Closing q d q'.recvReport ∧
      q'.log = q.log ++ [⟨q.dxCall, q.dxGrid, q.sentReport, q'.recvReport⟩]
  | _ => False

/-- The event makes the R-report due: the user picked it, or the report `rcvd` of the station `dx`
was received. -/
def Reports (dx : List Char) (rcvd : ℤ) : Event → Prop
  | .command c _ _ => c = .selectTx 3
  | .message _ _ d q _ =>
    q.state = .ansSentGrid ∧ q.ToMe d ∧ sameCase d.callDe dx = true ∧ isReport d.extra = true ∧
      rcvd = parseReport d.extra
  | .tick .. => False

theorem Occurs.proceeds {e : Event} (he : e.Occurs) : e.Proceeds := by
  cases he with
  | command r c q => trivial
  | message now slot i d q =>
    obtain h | h := q.handleDecode_state now d
    · exact .inl (congrArg Qso.state h)
    · exact .inr h
  | tick active encodes q =>
    obtain h | h := q.pollTx_exchange active encodes
    · exact .inl (congrArg Exchange.state h)
    · exact .inr (congrArg Exchange.state h)

/-- What an event does to the log. -/
theorem Occurs.logs {e : Event} (he : e.Occurs) :
    e.after.log = e.before.log ∧
        (¬ e.Begins → e.before.logged = true → e.after.logged = true) ∨
      (e.before.logged = false ∧ e.after.logged = true) ∧ e.Closes := by
  cases he with
  | command r c q =>
    left
    refine ⟨c.run_log r q, fun hb hq => ?_⟩
    by_cases hc : c.Begins
    · have : c.run r q = q := by simpa [Begins, hc] using hb
      rw [after, this]
      exact hq
    · exact (c.run_logged r q hc).trans hq
  | message now slot i d q =>
    obtain ⟨hlog, hlogged⟩ | ⟨hlogged, ⟨hme, hdx, hc⟩, hlog⟩ := q.handleDecode_logs now d
    · exact .inl ⟨hlog, fun _ => hlogged⟩
    · exact .inr ⟨hlogged, hme, hdx, hc, hlog⟩
  | tick active encodes q =>
    left
    obtain h | h := q.pollTx_exchange active encodes
    · exact ⟨congrArg Exchange.log h, fun _ hq => (congrArg Exchange.logged h).trans hq⟩
    · exact ⟨congrArg Exchange.log h, fun _ hq => (congrArg Exchange.logged h).trans hq⟩

theorem Occurs.entries_le {e : Event} (he : e.Occurs) (hb : ¬ e.Begins) :
    (if e.before.logged then 1 else 0) + e.entries ≤ if e.after.logged then 1 else 0 := by
  obtain ⟨hlog, hlogged⟩ | ⟨⟨hl, hl'⟩, hc⟩ := he.logs
  · have h0 : e.entries = 0 := by simp [entries, hlog]
    rw [h0, Nat.add_zero]
    split
    · rename_i h
      rw [if_pos (hlogged hb h)]
    · exact Nat.zero_le _
  · have h1 : e.entries = 1 := by
      cases e with
      | message slot i d q q' => simp [entries, before, after, hc.2.2.2]
      | command | tick => exact hc.elim
    simp [hl, hl', h1]

theorem Occurs.closes {e : Event} (he : e.Occurs) (h : 0 < e.entries) : e.Closes := by
  obtain ⟨hlog, -⟩ | ⟨-, hc⟩ := he.logs
  · simp [entries, hlog] at h
  · exact hc

theorem Occurs.sendsReport {e : Event} (he : e.Occurs) (h : e.before.exchange.SendsReport) :
    e.after.exchange.SendsReport := by
  cases he with
  | command r c q => exact c.run_sendsReport r q h
  | message now slot i d q => exact q.handleDecode_sendsReport now d h
  | tick active encodes q =>
    obtain hx | hx := q.pollTx_exchange active encodes
    · exact hx ▸ h
    · unfold after
      rw [hx]
      exact ⟨nofun, nofun⟩

/-- An event after which the R-report is due: it makes it due, or it was due before. -/
theorem Occurs.report {e : Event} (he : e.Occurs) (h : e.after.state = .ansSentRreport) :
    e.Reports e.after.dxCall e.after.recvReport ∨
      e.before.state = .ansSentRreport ∧ e.after.dxCall = e.before.dxCall ∧
        e.after.recvReport = e.before.recvReport := by
  cases he with
  | command r c q => exact c.run_report r q h
  | message now slot i d q =>
    obtain hq | ⟨⟨hst, hme, hdx, hr⟩, hcall, hrcvd⟩ := q.handleDecode_report now d h
    · unfold after before at *
      exact .inr ⟨hq ▸ h, congrArg Qso.dxCall hq, congrArg Qso.recvReport hq⟩
    · refine .inl ⟨hst, hme, ?_, hr, hrcvd⟩
      unfold after
      rw [hcall]
      exact (Bool.and_eq_true _ _ ▸ hdx).2
  | tick active encodes q =>
    obtain hx | hx := q.pollTx_exchange active encodes
    · exact .inr ⟨(congrArg Exchange.state hx).symm.trans h, congrArg Exchange.dxCall hx,
        congrArg Exchange.recvReport hx⟩
    · cases (congrArg Exchange.state hx).symm.trans h

end Event

/-- The history of a run: every event is what the code does, and starts where the one before it
left the exchange. -/
inductive Trace : List Event → Exchange → Prop
  | start : Trace [] Qso.start.exchange
  | snoc {h : List Event} {x : Exchange} {e : Event} (ht : Trace h x)
      (hx : e.before.exchange = x) (he : e.Occurs) : Trace (h ++ [e]) e.after.exchange

namespace Trace

variable {h h₁ h₂ : List Event} {x : Exchange} {e : Event}

theorem sendsReport (ht : Trace h x) : x.SendsReport := by
  induction ht with
  | start => exact ⟨nofun, nofun⟩
  | snoc _ hx he ih => exact he.sendsReport (hx ▸ ih)

/-- What led up to an event. -/
theorem split (ht : Trace (h₁ ++ e :: h₂) x) : Trace h₁ e.before.exchange ∧ e.Occurs := by
  generalize hh : h₁ ++ e :: h₂ = h at ht
  induction ht generalizing h₂ with
  | start => simp at hh
  | @snoc h' x' e' ht hx he ih =>
    obtain rfl | ⟨h₃, e'', rfl⟩ := h₂.eq_nil_or_concat
    · obtain ⟨rfl, hee⟩ := List.append_inj' hh rfl
      obtain rfl := (List.cons.inj hee).1
      exact ⟨hx ▸ ht, he⟩
    · rw [List.concat_eq_append, ← List.cons_append, ← List.append_assoc] at hh
      exact ih (List.append_inj' hh rfl).1

theorem occurs (ht : Trace h x) (he : e ∈ h) : e.Occurs := by
  obtain ⟨h₁, h₂, rfl⟩ := List.append_of_mem he
  exact ht.split.2

/-- A first part of a history. -/
theorem append_left (ht : Trace (h₁ ++ h₂) x) : ∃ y, Trace h₁ y := by
  cases h₂ with
  | nil => exact ⟨x, by simpa using ht⟩
  | cons e h₂ => exact ⟨_, ht.split.1⟩

/-- Since the last command that set up an exchange, an entry was logged only if `logged` is set. -/
theorem entries_le (ht : Trace (h₁ ++ h₂) x) (hb : ∀ e ∈ h₂, ¬ e.Begins) :
    (h₂.map Event.entries).sum ≤ if x.logged then 1 else 0 := by
  generalize hh : h₁ ++ h₂ = h at ht
  induction ht generalizing h₂ with
  | start => simp_all
  | @snoc h' x' e' ht hx he ih =>
    obtain rfl | ⟨h₃, e'', rfl⟩ := h₂.eq_nil_or_concat
    · simp
    · rw [List.concat_eq_append] at hh hb ⊢
      rw [← List.append_assoc] at hh
      obtain ⟨hh', hee⟩ := List.append_inj' hh rfl
      obtain rfl := (List.cons.inj hee).1
      have hsum := ih (fun e he => hb e (List.mem_append_left _ he)) hh'
      have hone := he.entries_le (hb e'' (by simp))
      rw [← hx] at hsum
      simp only [List.map_append, List.map_cons, List.map_nil, List.sum_append, List.sum_cons,
        List.sum_nil, Nat.add_zero]
      exact (Nat.add_le_add_right hsum _).trans hone

/-- The length of the log is the number of entries logged. -/
theorem log_length (ht : Trace h x) : x.log.length = (h.map Event.entries).sum := by
  induction ht with
  | start => rfl
  | @snoc h x e ht hx he ih =>
    have hlen : e.before.log.length ≤ e.after.log.length := by
      obtain ⟨hlog, -⟩ | ⟨-, hc⟩ := he.logs
      · rw [hlog]
      · cases e with
        | message slot i d q q' => simp [Event.before, Event.after, hc.2.2.2]
        | command | tick => exact hc.elim
    have hx : e.before.log.length = x.log.length := hx ▸ rfl
    simp only [List.map_append, List.map_cons, List.map_nil, List.sum_append, List.sum_cons,
      List.sum_nil, Nat.add_zero, ← ih, Event.entries]
    change e.after.log.length = _
    omega

end Trace

/-- The R-report to the station `dx`, which reported `rcvd`, was made due by an event of the history
and has been due since. -/
def Reported (h : List Event) (dx : List Char) (rcvd : ℤ) : Prop :=
  ∃ h₁ e h₂, h = h₁ ++ e :: h₂ ∧ e.Reports dx rcvd ∧
    ∀ e' ∈ h₂, e'.before.state = .ansSentRreport ∧ e'.after.state = .ansSentRreport

theorem Trace.reported {h : List Event} {x : Exchange} (ht : Trace h x)
    (hx : x.state = .ansSentRreport) : Reported h x.dxCall x.recvReport := by
  induction ht with
  | start => cases hx
  | @snoc h x e ht hxe he ih =>
    obtain hr | ⟨hst, hdx, hrcvd⟩ := he.report hx
    · exact ⟨h, e, [], rfl, hr, by simp⟩
    · obtain rfl := hxe
      obtain ⟨h₁, e₁, h₂, rfl, hr, hkeep⟩ := ih hst
      refine ⟨h₁, e₁, h₂ ++ [e], by simp, ?_, ?_⟩
      · change e₁.Reports e.after.dxCall e.after.recvReport
        rw [hdx, hrcvd]
        exact hr
      · intro e' he'
        obtain he' | he' := List.mem_append.1 he'
        · exact hkeep e' he'
        · obtain rfl := List.mem_singleton.1 he'
          exact ⟨hst, hx⟩

/-! ## Runs -/

theorem trace_handleFrom (now slot : ℤ) (i : ℕ) (ds : List Decode) (s : State)
    (hs : Trace s.history s.qso.exchange) :
    Trace (s.handleFrom now slot i ds).history (s.handleFrom now slot i ds).qso.exchange := by
  induction ds generalizing i s with
  | nil => exact hs
  | cons d ds ih =>
    unfold State.handleFrom
    split
    · exact hs
    · exact ih (i + 1) _ (hs.snoc rfl (.message now slot i d s.qso))

theorem trace_qsoPoll (now : ℤ) (active encodes : Bool) {s : State}
    (hs : Trace s.history s.qso.exchange) :
    Trace (s.qsoPoll now active encodes).history (s.qsoPoll now active encodes).qso.exchange := by
  unfold State.qsoPoll
  split
  · exact hs
  · refine Trace.snoc (e := .tick _ _) ?_ rfl (.tick active encodes _)
    unfold State.pollDecodes
    split
    · refine trace_handleFrom _ _ _ _ _ ?_
      exact (s.qso.pollWatchdog_exchange now).symm ▸ hs
    · exact (s.qso.pollWatchdog_exchange now).symm ▸ hs

/-- The history of a run is a trace. -/
theorem engine_trace (r : Station) {s : State} (hs : (engine r).Reachable s) :
    Trace s.history s.qso.exchange := by
  refine System.Reachable.induction (engine r) (I := fun s => Trace s.history s.qso.exchange)
    Trace.start (fun s a t hi h => ?_) hs
  change step s a = some t at h
  cases a <;> obtain rfl := Option.some.inj h
  case poll now active encodes => exact trace_qsoPoll now active encodes hi
  case command c => exact hi.snoc rfl (.command s.station c s.qso)
  case decoded | enable | configure => exact hi

/-- What holds of the exchanges in a history. -/
structure Sequenced (h : List Event) : Prop where
  /-- Only user commands go back. -/
  proceeds : ∀ e ∈ h, e.Proceeds
  /-- Each exchange is logged at most once. -/
  once : ∀ h₁ h₂ h₃, h = h₁ ++ h₂ ++ h₃ → (∀ e ∈ h₂, ¬ e.Begins) →
    (h₂.map Event.entries).sum ≤ 1
  /-- An entry is logged by a message that closes the exchange. Our report is queued by then in the
  states that are named after it, and the one of the station was received before ours was due as
  R-report. -/
  closes : ∀ h₁ e h₂, h = h₁ ++ e :: h₂ → 0 < e.entries →
    e.Closes ∧ e.before.exchange.SendsReport ∧
      (e.before.state = .ansSentRreport → Reported h₁ e.before.dxCall e.before.recvReport)

/-- **The exchange moves forward and is logged once**, in every run. -/
theorem engine_sequence (r : Station) (s : State) (hs : (engine r).Reachable s) :
    Sequenced s.history ∧ s.qso.log.length = (s.history.map Event.entries).sum := by
  have ht := engine_trace r hs
  refine ⟨⟨fun e he => (ht.occurs he).proceeds, ?_, ?_⟩, ht.log_length⟩
  · intro h₁ h₂ h₃ hh hb
    rw [hh] at ht
    obtain ⟨y, hy⟩ := ht.append_left
    refine (hy.entries_le hb).trans ?_
    split <;> decide
  · intro h₁ e h₂ hh hpos
    rw [hh] at ht
    obtain ⟨ht₁, he⟩ := ht.split
    exact ⟨he.closes hpos, ht₁.sendsReport, ht₁.reported⟩

/-! ## The fast finish -/

/-- "CQ K1XYZ", in the slot at noon. -/
def Decode.cq : Decode where
  utc := 43200
  snr := -5
  callTo := "CQ".toList
  callDe := "K1XYZ".toList
  extra := "FN42".toList

/-- "F1ABC K1XYZ RR73", half a minute later. -/
def Decode.rr73 : Decode where
  utc := 43230
  snr := -5
  callTo := "F1ABC".toList
  callDe := "K1XYZ".toList
  extra := "RR73".toList

/-- The station is answered and finishes at once. -/
def fastFinish : List Label :=
  [.command (.answer .cq), .decoded 43230 [.rr73], .poll 43245 false true]

/-- A decode with a report is acted on. -/
def Event.carriesReport : Event → Bool
  | .message _ _ d _ _ => isReport d.extra || hasRoger d.extra
  | _ => false

/-- It is logged without a report in either direction. -/
theorem not_reports_before_log :
    ¬ ∀ (r : Station) (s : State), (engine r).Reachable s → s.qso.log ≠ [] →
      ∃ e ∈ s.history, e.carriesReport = true := by
  intro h
  obtain ⟨s, hs, hlog, hnone⟩ : ∃ s, (engine .paris).exec (engine .paris).init fastFinish = some s ∧
      s.qso.log = [⟨"K1XYZ".toList, "FN42".toList, 0, 0⟩] ∧
        s.history.all (fun e => !e.carriesReport) = true :=
    System.exists_exec _ (by decide +kernel)
  obtain ⟨e, he, hc⟩ := h .paris s ⟨_, hs⟩ (by simp [hlog])
  have := List.all_eq_true.1 hnone e he
  simp [hc] at this

/-- The log of the run, by the theorem. -/
theorem engine_sequence_fastFinish : ∃ s, (engine .paris).exec (engine .paris).init fastFinish =
    some s ∧ s.qso.state = .ansSent73 ∧ Sequenced s.history := by
  obtain ⟨s, hs, hst⟩ : ∃ s, (engine .paris).exec (engine .paris).init fastFinish = some s ∧
      s.qso.state = .ansSent73 := System.exists_exec _ (by decide +kernel)
  exact ⟨s, hs, hst, (engine_sequence .paris s ⟨_, hs⟩).1⟩

end MacHPSDR.Ft8
