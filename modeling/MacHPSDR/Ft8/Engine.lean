import MacHPSDR.Ft8.Qso

/-!
# Runs of the FT8 auto-QSO engine

A run is any order of polls, new decodes, user commands and changes of the station settings. The
history keeps every call of `handle_decode`, with the slot and the index of the decode in it, every
user command, and what each poll did after the decodes.
-/

namespace MacHPSDR.Ft8

/-- What the user does. -/
inductive Command
  | startCq
  | answer (d : Decode)
  | halt
  | setTxEnabled (en : Bool)
  | setAuto (en : Bool)
  | selectTx (idx : ℕ)
  | sendFree (text : List Char)

def Command.run (r : Station) (q : Qso) : Command → Qso
  | .startCq => q.startCq r
  | .answer d => q.answer r d
  | .halt => q.goIdle
  | .setTxEnabled en => q.setTxEnabled en
  | .setAuto en => { q with autoSeq := en }
  | .selectTx idx => q.selectTx r idx
  | .sendFree text => q.sendFree text

/-- What has happened to the engine. -/
inductive Event
  | command (c : Command) (before after : Qso)
  /-- Entry `index` of `slot` was passed to `handle_decode`. -/
  | message (slot : ℤ) (index : ℕ) (d : Decode) (before after : Qso)
  /-- The rest of a poll. -/
  | tick (before after : Qso)

structure State where
  qso : Qso
  decodes : Decodes
  station : Station
  /-- History: what has happened so far. -/
  history : List Event

namespace State

/-- `handle_decode` on the entries `ds` of the slot from index `i` on, until the engine is idle. -/
def handleFrom (now slot : ℤ) : ℕ → List Decode → State → State
  | _, [], s => s
  | i, d :: ds, s =>
    if s.qso.state = .idle then s
    else
      let q := s.qso.handleDecode now d
      handleFrom now slot (i + 1) ds
        { s with qso := q, history := s.history ++ [.message slot i d s.qso q] }

/-- The entries that were handled already (`first` in `qso_poll`). -/
def first (s : State) : ℕ := if s.qso.lastUtc = s.decodes.resultUtc then s.qso.lastN else 0

/-- There are new decodes, and a sequence that they may concern. -/
def HasNew (s : State) : Prop :=
  s.qso.state ≠ .idle ∧ s.first < s.decodes.results.length ∧ s.decodes.resultUtc ≠ none

instance (s : State) : Decidable s.HasNew := inferInstanceAs (Decidable (_ ∧ _ ∧ _))

/-- The decodes of `qso_poll`. -/
def pollDecodes (now : ℤ) (s : State) : State :=
  if s.HasNew then
    handleFrom now s.decodes.resultSlot s.first (s.decodes.results.drop s.first)
      { s with qso := { s.qso with
          lastUtc := s.decodes.resultUtc, lastN := s.decodes.results.length } }
  else s

/-- The end of `qso_poll`. -/
def pollTx (active encodes : Bool) (s : State) : State :=
  let q := (s.qso.pollTxEnd active).pollArm active encodes
  { s with qso := q, history := s.history ++ [.tick s.qso q] }

/-- `qso_poll`. -/
def qsoPoll (now : ℤ) (active encodes : Bool) (s : State) : State :=
  if s.qso.state = .idle then
    { s with qso := { s.qso with prevActive := false, prevTxen := false } }
  else
    ({ s with qso := s.qso.pollWatchdog now }.pollDecodes now).pollTx active encodes

end State

/-- What can happen next. -/
inductive Label
  | poll (now : ℤ) (active encodes : Bool)
  /-- The decoder has new decodes of a slot. -/
  | decoded (slot : ℤ) (new : List Decode)
  /-- The decoder is enabled anew. -/
  | enable
  | command (c : Command)
  | configure (r : Station)

def step (s : State) : Label → Option State
  | .poll now active encodes => some (s.qsoPoll now active encodes)
  | .decoded slot new => some { s with decodes := s.decodes.publish slot new }
  | .enable => some { s with decodes := s.decodes.clear }
  | .command c =>
    let q := c.run s.station s.qso
    some { s with qso := q, history := s.history ++ [.command c s.qso q] }
  | .configure r => some { s with station := r }

/-- The engine as it starts. -/
def Qso.start : Qso where
  state := .idle
  myCall := []
  myGrid := []
  dxCall := []
  dxGrid := []
  sentReport := 0
  recvReport := 0
  txEven := true
  txEnabled := false
  autoSeq := true
  pendingMsg := []
  preparedMsg := []
  havePending := false
  needArm := false
  lastUtc := none
  lastN := 0
  prevActive := false
  cycles := 0
  logged := false
  txEnabledSince := 0
  prevTxen := false
  log := []

/-- The application as it starts, with the settings `r`. -/
def engine (r : Station) : System State Label where
  init := ⟨.start, ⟨[], none, 0, false⟩, r, []⟩
  step := step

/-- The entries passed to `handle_decode`, as slot and index. -/
def handled (h : List Event) : List (ℤ × ℕ) :=
  h.filterMap fun e =>
    match e with
    | .message slot index .. => some (slot, index)
    | _ => none

@[simp] theorem handled_append (h h' : List Event) :
    handled (h ++ h') = handled h ++ handled h' := List.filterMap_append ..

@[simp] theorem handled_command (c : Command) (before after : Qso) :
    handled [.command c before after] = [] := rfl

@[simp] theorem handled_message (slot : ℤ) (i : ℕ) (d : Decode) (before after : Qso) :
    handled [.message slot i d before after] = [(slot, i)] := rfl

@[simp] theorem handled_tick (before after : Qso) : handled [.tick before after] = [] := rfl

end MacHPSDR.Ft8
