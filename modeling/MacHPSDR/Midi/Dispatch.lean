import MacHPSDR.Midi.Mapping
import Mathlib

/-!
# MIDI events

`NewMidiEvent` looks up the descriptor for an event and queues its action. The events of a wheel
with a delay are limited in rate: the time of the last one is kept with its action. The event that
opens a series of an action is not limited, and its time is not kept, so the next one is compared
with a time from before.

`right_of_meets` says of which runs the actions are those that the file maps and the wheels keep to
their delays.
-/

namespace MacHPSDR.Midi

/-! ## The clock -/

/-- `struct timespec` -/
structure Timespec where
  tvSec : ℤ
  tvNsec : ℕ
  nsec_lt : tvNsec < 1000000000

namespace Timespec

/-- The milliseconds between two readings, as they are counted. -/
def delta (tp last : Timespec) : ℤ :=
  1000 * (tp.tvSec - last.tvSec) + ((tp.tvNsec : ℤ) - last.tvNsec).tdiv 1000000

/-- A reading in nanoseconds. -/
def ns (tp : Timespec) : ℤ := 1000000000 * tp.tvSec + tp.tvNsec

def zero : Timespec := ⟨0, 0, by decide⟩

end Timespec

/-! ## An event -/

/-- What a platform layer hands over, with the clock at that time. -/
structure Event where
  event : MidiEvent
  channel : ℤ
  note : ℤ
  val : ℤ
  tp : Timespec

/-- `MIDI_DO` -/
structure Do where
  action : MidiAction
  type : MidiType
  val : ℤ
deriving DecidableEq

/-- The static variables of `NewMidiEvent`. -/
structure Wheel where
  lastWheelAction : MidiAction
  lastWheelTp : Timespec

def Thresholds.Holds (t : Thresholds) (val : ℤ) : Prop := t.lo ≤ val ∧ val ≤ t.hi

instance (t : Thresholds) (val : ℤ) : Decidable (t.Holds val) :=
  inferInstanceAs (Decidable (_ ∧ _))

/-- Translate the value of a wheel to its direction. -/
def Control.direction (c : Control) (val : ℤ) : ℤ :=
  let new := val - 64
  let new := if c.vfl.Holds val then -100 else new
  let new := if c.fl.Holds val then -10 else new
  let new := if c.lft.Holds val then -1 else new
  let new := if c.rgt.Holds val then 1 else new
  let new := if c.fr.Holds val then 10 else new
  if c.vfr.Holds val then 100 else new

/-- An event of a wheel. -/
def wheelEvent (d : Desc) (s : Wheel) (e : Event) : Wheel × List Do :=
  let c := d.control
  let limited := c.delay > 0 ∧ s.lastWheelAction = d.action
  if limited ∧ e.tp.delta s.lastWheelTp < c.delay then (s, [])
  else
    let s := if limited then { s with lastWheelTp := e.tp } else s
    let new := c.direction e.val
    ({ s with lastWheelAction := d.action },
      if new ≠ 0 then [⟨d.action, c.type, new⟩] else [])

/-- What a descriptor that answers to an event does. -/
def Desc.perform (d : Desc) (s : Wheel) (e : Event) : Wheel × List Do :=
  let c := d.control
  match c.event with
  | .midiNote =>
    if (e.val = 1 ∨ c.onoff = 1) ∧ c.type = .midiKey then (s, [⟨d.action, c.type, e.val⟩])
    else (s, [])
  | .midiCtrl =>
    if c.type = .midiKnob then (s, [⟨d.action, c.type, (e.val * 100).tdiv 127⟩])
    else if c.type = .midiWheel then wheelEvent d s e
    else (s, [])
  | .midiPitch =>
    if c.type = .midiKnob then (s, [⟨d.action, c.type, (e.val * 100).tdiv 16383⟩]) else (s, [])
  | .eventNone => (s, [])

/-- The descriptor of an event, if its note is in range. -/
def CmdTable.find (t : CmdTable) (e : Event) : Option Desc :=
  if h : 0 ≤ e.note ∧ e.note ≤ 127 then
    (t.list e.event ⟨e.note.toNat, by omega⟩).find? fun d => d.control.Answers e.event e.channel
  else none

/-- `NewMidiEvent` -/
def newMidiEvent (t : CmdTable) (s : Wheel) (e : Event) : Wheel × List Do :=
  match t.find e with
  | some d => d.perform s e
  | none => (s, [])

def Wheel.start : Wheel := ⟨.actionNone, .zero⟩

/-! ## What the file maps -/

/-- The first line of the file that is for an event. -/
def MappingFile.entry (f : MappingFile) (e : Event) : Option Entry :=
  if h : 0 ≤ e.note ∧ e.note ≤ 127 then
    firstEntry f.pieces e.event e.channel ⟨e.note.toNat, by omega⟩
  else none

/-- A name ends here. -/
def ends : List Char → Bool
  | [] => true
  | c :: _ => c == ' '

/-- The action that is written after `ACTION=`: the longest name of an action that stands there. -/
def written (s : List Char) : MidiAction :=
  ((List.range (s.length + 1)).reverse.findSome? fun n =>
    if ends (s.drop n) then named (s.take n) else none).getD .actionNone

/-- The action of a line, if it gives one. -/
def Entry.action? (en : Entry) : Option MidiAction := en.action.map written

/-- The control does something on an event. -/
def Control.Takes (c : Control) (e : Event) : Prop :=
  match c.event with
  | .midiNote => (e.val = 1 ∨ c.onoff = 1) ∧ c.type = .midiKey
  | .midiCtrl => c.type = .midiKnob ∨ c.type = .midiWheel
  | .midiPitch => c.type = .midiKnob
  | .eventNone => False

/-- A wheel that is mapped to a controller. -/
def Control.IsWheel (c : Control) : Prop := c.event = .midiCtrl ∧ c.type = .midiWheel

instance (c : Control) : Decidable c.IsWheel := inferInstanceAs (Decidable (_ ∧ _))

/-- The value that a control hands on. -/
def Control.value (c : Control) (val : ℤ) : ℤ :=
  match c.event with
  | .midiNote => val
  | .midiCtrl => if c.type = .midiKnob then (val * 100).tdiv 127 else c.direction val
  | .midiPitch => (val * 100).tdiv 16383
  | .eventNone => 0

/-! ## Runs -/

section Run

variable (action : MidiAction) (f : MappingFile)

/-- The table of a file, where `action` is what the variable of the loop holds at its start. -/
def fileTable : CmdTable := (midiStartup action f.contents).table

/-- The wheel after some events. -/
def wheelAfter (es : List Event) : Wheel :=
  es.foldl (fun s e => (newMidiEvent (fileTable action f) s e).1) .start

/-- What is queued on an event, after others. -/
def queued (before : List Event) (e : Event) : List Do :=
  (newMidiEvent (fileTable action f) (wheelAfter action f before) e).2

/-- What is queued is what the first line for the event maps. -/
def Dispatches (e : Event) (d : Do) : Prop :=
  ∃ en, f.entry e = some en ∧ en.control.Takes e ∧ en.action? = some d.action ∧
    d.type = en.control.type ∧ d.val = en.control.value e.val

/-- The events of a run do what the file says: at most one action each, that of the first line for
it, and two from one wheel with no event of another action between them keep its delay. -/
structure Right (es : List Event) : Prop where
  one : ∀ before e after, es = before ++ e :: after → (queued action f before e).length ≤ 1
  dispatches : ∀ before e after, es = before ++ e :: after →
    ∀ d ∈ queued action f before e, Dispatches f e d
  delay : ∀ before e₁ mid e₂ after en a, es = before ++ e₁ :: (mid ++ e₂ :: after) →
    f.entry e₁ = some en → f.entry e₂ = some en → en.action? = some a →
    en.control.type = .midiWheel → 0 < en.control.delay →
    (∀ e ∈ mid, ∀ en' a', f.entry e = some en' → en'.action? = some a' → a' = a) →
    queued action f before e₁ ≠ [] → queued action f (before ++ e₁ :: mid) e₂ ≠ [] →
    1000000 * en.control.delay ≤ e₂.tp.ns - e₁.tp.ns

/-! ### The condition -/

/-- The wheel, and the time of the event that opened its present series, as long as no time of the
series has been kept. -/
structure Series where
  wheel : Wheel
  opened : Option Timespec

/-- The time that the next event of the series should be compared with. -/
def Series.last (s : Series) : Timespec := s.opened.getD s.wheel.lastWheelTp

def Series.step (t : CmdTable) (s : Series) (e : Event) : Series where
  wheel := (newMidiEvent t s.wheel e).1
  opened :=
    match t.find e with
    | some d =>
      if d.control.IsWheel then
        if s.wheel.lastWheelAction = d.action then
          if d.control.delay > 0 ∧ d.control.delay ≤ e.tp.delta s.wheel.lastWheelTp then none
          else s.opened
        else if d.control.delay > 0 then some e.tp
        else none
      else s.opened
    | none => s.opened

def seriesAfter (es : List Event) : Series :=
  es.foldl (Series.step (fileTable action f)) ⟨.start, none⟩

/-- The line for an event has its action, in one word, if it does something on the event; and an
event that comes late enough for a wheel by the time that is kept comes late enough. -/
structure MeetsAt (s : Series) (e : Event) : Prop where
  action : ∀ en, f.entry e = some en → en.control.Takes e →
    ∃ cp, en.action = some cp ∧ keyword2action (word cp) = written cp
  time : ∀ en, f.entry e = some en → en.control.Takes e → en.control.type = .midiWheel →
    0 < en.control.delay → en.action? = some s.wheel.lastWheelAction →
    en.control.delay ≤ e.tp.delta s.wheel.lastWheelTp →
    1000000 * en.control.delay ≤ e.tp.ns - s.last.ns

/-- Every event of a run meets the condition. -/
def Meets (es : List Event) : Prop :=
  ∀ before e after, es = before ++ e :: after → MeetsAt f (seriesAfter action f before) e

end Run

/-! ## What an event does -/

theorem Control.IsWheel.takes {c : Control} (h : c.IsWheel) (e : Event) : c.Takes e := by
  unfold Control.Takes
  rw [h.1]
  exact .inr h.2

theorem perform_wheel {d : Desc} (h : d.control.IsWheel) (s : Wheel) (e : Event) :
    d.perform s e = wheelEvent d s e := by
  unfold Desc.perform
  dsimp only
  rw [h.1, h.2]
  rfl

/-- What is no wheel leaves the wheels alone. -/
theorem perform_of_not_wheel {d : Desc} (h : ¬d.control.IsWheel) (s : Wheel) (e : Event) :
    (d.perform s e).1 = s ∧ ((d.perform s e).2 = [] ∨ d.control.Takes e ∧
      (d.perform s e).2 = [⟨d.action, d.control.type, d.control.value e.val⟩] ∧
      d.control.type ≠ .midiWheel) := by
  unfold Control.IsWheel at h
  unfold Desc.perform Control.Takes Control.value
  dsimp only
  cases hev : d.control.event with
  | midiNote =>
    dsimp only
    split_ifs with htake
    · exact ⟨rfl, .inr ⟨htake, rfl, by rw [htake.2]; decide⟩⟩
    · exact ⟨rfl, .inl rfl⟩
  | midiCtrl =>
    dsimp only
    split_ifs with hknob hwheel
    · exact ⟨rfl, .inr ⟨.inl hknob, rfl, by rw [hknob]; decide⟩⟩
    · exact absurd ⟨hev, hwheel⟩ h
    · exact ⟨rfl, .inl rfl⟩
  | midiPitch =>
    dsimp only
    split_ifs with hknob
    · exact ⟨rfl, .inr ⟨hknob, rfl, by rw [hknob]; decide⟩⟩
    · exact ⟨rfl, .inl rfl⟩
  | eventNone => exact ⟨rfl, .inl rfl⟩

/-- A wheel queues its direction, unless it is limited. -/
theorem wheelEvent_queued {d : Desc} (h : d.control.IsWheel) (s : Wheel) (e : Event) :
    (wheelEvent d s e).2 = [] ∨
      (wheelEvent d s e).2 = [⟨d.action, d.control.type, d.control.value e.val⟩] ∧
        ¬((d.control.delay > 0 ∧ s.lastWheelAction = d.action) ∧
          e.tp.delta s.lastWheelTp < d.control.delay) := by
  have hvalue : d.control.value e.val = d.control.direction e.val := by
    unfold Control.value
    rw [h.1, h.2]
    rfl
  unfold wheelEvent
  dsimp only
  split_ifs with hlim hnew hnew
  · exact .inl rfl
  · rw [hvalue]
    exact .inr ⟨rfl, hlim⟩
  · exact .inl rfl
  · rw [hvalue]
    exact .inr ⟨rfl, hlim⟩
  · exact .inl rfl

/-- What a descriptor queues is its own action, once. -/
theorem perform_queued (d : Desc) (s : Wheel) (e : Event) :
    (d.perform s e).2 = [] ∨ d.control.Takes e ∧
      (d.perform s e).2 = [⟨d.action, d.control.type, d.control.value e.val⟩] := by
  by_cases hwheel : d.control.IsWheel
  · rw [perform_wheel hwheel]
    rcases wheelEvent_queued hwheel s e with h | h
    · exact .inl h
    · exact .inr ⟨hwheel.takes e, h.1⟩
  · rcases (perform_of_not_wheel hwheel s e).2 with h | ⟨htake, h, -⟩
    · exact .inl h
    · exact .inr ⟨htake, h⟩

section Run

variable (action : MidiAction) (f : MappingFile)

/-- The descriptor of an event comes from the first line for it. -/
theorem find_fileTable (e : Event) : Option.Rel From ((fileTable action f).find e) (f.entry e) := by
  unfold CmdTable.find MappingFile.entry
  split_ifs with hnote
  · rw [← firstEntry_contents]
    exact find_entry action _ e.event e.channel _
  · exact .none

theorem seriesAfter_concat (es : List Event) (e : Event) :
    seriesAfter action f (es ++ [e]) = (seriesAfter action f es).step (fileTable action f) e := by
  rw [seriesAfter, List.foldl_append]
  rfl

theorem seriesAfter_wheel (es : List Event) :
    (seriesAfter action f es).wheel = wheelAfter action f es := by
  induction es using List.reverseRecOn with
  | nil => rfl
  | append_singleton es e ih =>
    rw [seriesAfter_concat, wheelAfter, List.foldl_append]
    show (newMidiEvent _ (seriesAfter action f es).wheel e).1 = _
    rw [ih]
    rfl

variable {action f}

/-- What is queued has a descriptor and a line. -/
theorem exists_of_queued {before : List Event} {e : Event} (h : queued action f before e ≠ []) :
    ∃ d en, (fileTable action f).find e = some d ∧ f.entry e = some en ∧ From d en ∧
      queued action f before e = (d.perform (wheelAfter action f before) e).2 := by
  have hrel := find_fileTable action f e
  unfold queued newMidiEvent at h ⊢
  generalize (fileTable action f).find e = found at h hrel ⊢
  generalize f.entry e = entry at hrel ⊢
  cases hrel with
  | none => exact absurd rfl h
  | some hfrom => exact ⟨_, _, rfl, rfl, hfrom, rfl⟩

/-- The line's action is the descriptor's. -/
theorem MeetsAt.action_eq {s : Series} {e : Event} (h : MeetsAt f s e) {d : Desc} {en : Entry}
    (hen : f.entry e = some en) (hfrom : From d en) (htakes : en.control.Takes e) :
    en.action? = some d.action := by
  obtain ⟨cp, hcp, hread⟩ := h.action en hen htakes
  unfold Entry.action?
  rw [hcp, hfrom.action cp hcp, hread]
  rfl

/-! ## The delay -/

/-- The series of an action goes on, and what should be compared with is not before a time. -/
def Series.Keeps (s : Series) (a : MidiAction) (t : ℤ) : Prop :=
  s.wheel.lastWheelAction = a ∧ t ≤ s.last.ns

/-- A wheel with a delay that queues its action begins or continues its series. -/
theorem keeps_of_queued {s : Series} {e : Event} {d : Desc} {t : CmdTable}
    (hfind : t.find e = some d) (hwheel : d.control.IsWheel) (hdelay : 0 < d.control.delay)
    (hq : (wheelEvent d s.wheel e).2 ≠ []) : (s.step t e).Keeps d.action e.tp.ns := by
  have hlim := ((wheelEvent_queued hwheel s.wheel e).resolve_left hq).2
  have hstep : (s.step t e).wheel = (wheelEvent d s.wheel e).1 := by
    show (newMidiEvent t s.wheel e).1 = _
    unfold newMidiEvent
    rw [hfind, ← perform_wheel hwheel]
  unfold Series.Keeps Series.last
  rw [hstep]
  unfold Series.step wheelEvent
  rw [hfind]
  dsimp only
  rw [if_neg hlim, if_pos hwheel]
  refine ⟨rfl, ?_⟩
  by_cases hlast : s.wheel.lastWheelAction = d.action
  · have hlate : d.control.delay ≤ e.tp.delta s.wheel.lastWheelTp := by
      by_contra hearly
      exact hlim ⟨⟨hdelay, hlast⟩, by omega⟩
    rw [if_pos hlast, if_pos ⟨hdelay, hlate⟩, if_pos ⟨hdelay, hlast⟩]
    exact le_rfl
  · rw [if_neg hlast, if_pos hdelay]
    exact le_rfl

/-- An event of the same action, or of none, does not end a series. -/
theorem Series.Keeps.step {s : Series} {a : MidiAction} {t : ℤ} (h : s.Keeps a t) {e : Event}
    (hmeets : MeetsAt f s e)
    (hsame : ∀ en a', f.entry e = some en → en.action? = some a' → a' = a) :
    (s.step (fileTable action f) e).Keeps a t := by
  have hrel := find_fileTable action f e
  obtain ⟨hlast, ht⟩ := h
  unfold Series.last at ht
  unfold Series.Keeps Series.last Series.step newMidiEvent
  cases hfind : (fileTable action f).find e with
  | none => exact ⟨hlast, ht⟩
  | some d =>
    obtain ⟨en, hen, hfrom⟩ : ∃ en, f.entry e = some en ∧ From d en := by
      rw [hfind] at hrel
      generalize f.entry e = entry at hrel ⊢
      cases hrel with
      | some hfrom => exact ⟨_, rfl, hfrom⟩
    dsimp only
    by_cases hwheel : d.control.IsWheel
    · have htakes : en.control.Takes e := by
        rw [← hfrom.control]
        exact hwheel.takes e
      have haction := hmeets.action_eq hen hfrom htakes
      obtain rfl : d.action = a := hsame en _ hen haction
      rw [perform_wheel hwheel, if_pos hwheel, if_pos hlast]
      unfold wheelEvent
      dsimp only
      by_cases hdelay : d.control.delay > 0
      · by_cases hlate : d.control.delay ≤ e.tp.delta s.wheel.lastWheelTp
        · -- the event is in time, and its own time is kept
          have htime := hmeets.time en hen htakes (by rw [← hfrom.control]; exact hwheel.2)
            (by rw [← hfrom.control]; exact hdelay) (by rw [haction, hlast])
            (by rw [← hfrom.control]; exact hlate)
          rw [← hfrom.control] at htime
          unfold Series.last at htime
          rw [if_neg fun hlim => absurd hlim.2 (by omega), if_pos ⟨hdelay, hlast⟩]
          dsimp only
          rw [if_pos ⟨hdelay, hlate⟩]
          refine ⟨rfl, ?_⟩
          show t ≤ e.tp.ns
          omega
        · rw [if_pos ⟨⟨hdelay, hlast⟩, by omega⟩, if_neg fun hlim => hlate hlim.2]
          exact ⟨hlast, ht⟩
      · rw [if_neg fun hlim => hdelay hlim.1.1, if_neg fun hlim => hdelay hlim.1]
        dsimp only
        rw [if_neg fun hlim => hdelay hlim.1]
        exact ⟨rfl, ht⟩
    · rw [(perform_of_not_wheel hwheel s.wheel e).1, if_neg hwheel]
      exact ⟨hlast, ht⟩

/-- A series goes on over the events of its action. -/
theorem Series.Keeps.run {before : List Event} {e₁ : Event} {a : MidiAction} {t : ℤ}
    (h : (seriesAfter action f (before ++ [e₁])).Keeps a t) {mid : List Event}
    (hmeets : Meets action f (before ++ e₁ :: mid))
    (hsame : ∀ e ∈ mid, ∀ en a', f.entry e = some en → en.action? = some a' → a' = a) :
    (seriesAfter action f (before ++ e₁ :: mid)).Keeps a t := by
  induction mid using List.reverseRecOn with
  | nil => exact h
  | append_singleton mid e ih =>
    have hsplit : before ++ e₁ :: (mid ++ [e]) = before ++ e₁ :: mid ++ [e] := by simp
    rw [hsplit] at hmeets ⊢
    have hmeets' : Meets action f (before ++ e₁ :: mid) := by
      intro before' e' after' heq
      refine hmeets before' e' (after' ++ [e]) ?_
      rw [heq]
      simp
    have hkeeps := ih hmeets' fun e' he' => hsame e' (List.mem_append_left _ he')
    rw [seriesAfter_concat]
    exact hkeeps.step (hmeets _ e [] rfl) (hsame e (by simp))

/-! ## A run -/

theorem queued_length_le (before : List Event) (e : Event) :
    (queued action f before e).length ≤ 1 := by
  by_cases hq : queued action f before e = []
  · rw [hq]
    exact Nat.zero_le _
  · obtain ⟨d, en, -, -, -, heq⟩ := exists_of_queued hq
    rw [heq]
    rcases perform_queued d (wheelAfter action f before) e with h | ⟨-, h⟩
    · rw [h]
      exact Nat.zero_le _
    · rw [h]
      exact le_rfl

theorem dispatches_of_meets {before : List Event} {e : Event} {s : Series}
    (h : MeetsAt f s e) : ∀ d ∈ queued action f before e, Dispatches f e d := by
  intro q hmem
  obtain ⟨d, en, -, hen, hfrom, heq⟩ := exists_of_queued (List.ne_nil_of_mem hmem)
  rw [heq] at hmem
  rcases perform_queued d (wheelAfter action f before) e with hnil | ⟨htakes, hone⟩
  · rw [hnil] at hmem
    exact absurd hmem List.not_mem_nil
  · rw [hone] at hmem
    obtain rfl := List.mem_singleton.1 hmem
    rw [hfrom.control] at htakes
    refine ⟨en, hen, htakes, h.action_eq hen hfrom htakes, ?_, ?_⟩
    · exact congrArg Control.type hfrom.control
    · show d.control.value e.val = en.control.value e.val
      rw [hfrom.control]

/-- What a wheel's line queues, the wheel has let through. -/
theorem wheel_of_queued {before : List Event} {e : Event} {en : Entry} {a : MidiAction}
    (hmeets : MeetsAt f (seriesAfter action f before) e) (hen : f.entry e = some en)
    (ha : en.action? = some a) (hwheel : en.control.type = .midiWheel)
    (hq : queued action f before e ≠ []) :
    ∃ d, (fileTable action f).find e = some d ∧ d.control = en.control ∧ d.action = a ∧
      d.control.IsWheel ∧ (wheelEvent d (seriesAfter action f before).wheel e).2 ≠ [] := by
  obtain ⟨d, en', hfind, hen', hfrom, heq⟩ := exists_of_queued hq
  obtain rfl := Option.some.inj (hen.symm.trans hen')
  rw [heq] at hq
  have hd : d.control.IsWheel := by
    by_contra hno
    obtain ⟨-, -, hne⟩ := ((perform_of_not_wheel hno _ e).2.resolve_left hq)
    rw [hfrom.control] at hne
    exact hne hwheel
  have htakes : en.control.Takes e := by
    rw [← hfrom.control]
    exact hd.takes e
  have haction : d.action = a :=
    Option.some.inj ((hmeets.action_eq hen hfrom htakes).symm.trans ha)
  rw [perform_wheel hd] at hq
  rw [seriesAfter_wheel]
  exact ⟨d, hfind, hfrom.control, haction, hd, hq⟩

/-- **The events do what the file says** in every run whose events meet the condition. -/
theorem right_of_meets (action : MidiAction) (f : MappingFile) (es : List Event)
    (h : Meets action f es) : Right action f es where
  one := fun before e _ _ => queued_length_le before e
  dispatches := fun before e after heq => dispatches_of_meets (h before e after heq)
  delay := by
    intro before e₁ mid e₂ after en a heq hen₁ hen₂ ha hwheel hdelay hsame hq₁ hq₂
    have heq₂ : es = before ++ e₁ :: mid ++ e₂ :: after := by
      rw [heq]
      simp
    have hmeets₁ := h before e₁ (mid ++ e₂ :: after) heq
    have hmeets₂ := h (before ++ e₁ :: mid) e₂ after heq₂
    obtain ⟨d₁, hfind₁, hcontrol₁, haction₁, hwheel₁, hout₁⟩ :=
      wheel_of_queued hmeets₁ hen₁ ha hwheel hq₁
    obtain ⟨d₂, hfind₂, hcontrol₂, haction₂, hwheel₂, hout₂⟩ :=
      wheel_of_queued hmeets₂ hen₂ ha hwheel hq₂
    have hmid : Meets action f (before ++ e₁ :: mid) := by
      intro before' e' after' hsplit
      refine h before' e' (after' ++ e₂ :: after) ?_
      rw [heq₂, hsplit]
      simp
    have hstart : (seriesAfter action f (before ++ [e₁])).Keeps a e₁.tp.ns := by
      rw [seriesAfter_concat, ← haction₁]
      exact keeps_of_queued hfind₁ hwheel₁ (by rw [hcontrol₁]; exact hdelay) hout₁
    obtain ⟨hlast, ht⟩ := hstart.run hmid hsame
    have hlim := ((wheelEvent_queued hwheel₂ _ e₂).resolve_left hout₂).2
    rw [hcontrol₂, haction₂] at hlim
    have hlate : en.control.delay ≤
        e₂.tp.delta (seriesAfter action f (before ++ e₁ :: mid)).wheel.lastWheelTp := by
      by_contra hearly
      exact hlim ⟨⟨hdelay, hlast⟩, by omega⟩
    have htakes : en.control.Takes e₂ := by
      rw [← hcontrol₂]
      exact hwheel₂.takes e₂
    have htime := hmeets₂.time en hen₂ htakes hwheel hdelay (by rw [ha, hlast]) hlate
    omega

end Run

/-! ## A line without an action, and a wheel that is turned twice -/

/-- A key of a controller is pressed, at some milliseconds. -/
def press (note : ℤ) (ms : ℕ) (h : ms < 1000) : Event :=
  ⟨.midiNote, 0, note, 1, ⟨1, 1000000 * ms, by omega⟩⟩

/-- A wheel is turned by one step to the right, at some milliseconds. -/
def turn (ctrl : ℤ) (ms : ℕ) (h : ms < 1000) : Event :=
  ⟨.midiCtrl, 0, ctrl, 65, ⟨1, 1000000 * ms, by omega⟩⟩

/-- The second line has no action. -/
def keysFile : MappingFile where
  lines := ["KEY=60 ACTION=TUNE".toList, "KEY=61".toList]
  last := []
  noNewline := by decide +kernel
  short := by decide +kernel

/-- A wheel with a delay. -/
def wheelFile : MappingFile where
  lines := ["CTRL=10 WHEEL DELAY=100 ACTION=VFOA".toList]
  last := []
  noNewline := by decide +kernel
  short := by decide +kernel

def wheelEntry : Entry where
  key := ⟨10, by decide⟩
  control := ⟨-1, .midiCtrl, 0, .midiWheel, ⟨128, -1⟩, ⟨128, -1⟩, ⟨128, -1⟩, ⟨128, -1⟩, ⟨128, -1⟩,
    ⟨128, -1⟩, 100⟩
  action := some "VFOA ".toList

theorem wheelFile_entry (ms : ℕ) (h : ms < 1000) :
    wheelFile.entry (turn 10 ms h) = some wheelEntry := by
  have hentry : firstEntry wheelFile.pieces .midiCtrl 0 ⟨10, by decide⟩ = some wheelEntry := by
    decide +kernel
  exact hentry

theorem meetsAt_turn {s : Series} {ms : ℕ} (h : ms < 1000)
    (htime : s.wheel.lastWheelAction = .vfoa → s.last.ns + 100000000 ≤ (turn 10 ms h).tp.ns) :
    MeetsAt wheelFile s (turn 10 ms h) where
  action := by
    intro en hen _
    obtain rfl := Option.some.inj ((wheelFile_entry ms h).symm.trans hen)
    exact ⟨"VFOA ".toList, rfl, by decide +kernel⟩
  time := by
    intro en hen _ _ _ haction _
    obtain rfl := Option.some.inj ((wheelFile_entry ms h).symm.trans hen)
    have hvfoa : wheelEntry.action? = some .vfoa := by decide +kernel
    have hdelay : wheelEntry.control.delay = 100 := rfl
    have := htime (Option.some.inj (haction.symm.trans hvfoa))
    rw [hdelay]
    omega

/-- A wheel is turned twice with its delay between. -/
theorem right_of_meets_turns :
    Right .actionNone wheelFile [turn 10 0 (by decide), turn 10 100 (by decide)] := by
  refine right_of_meets _ _ _ fun before e after heq => ?_
  match before, heq with
  | [], heq =>
    obtain ⟨rfl, -⟩ := List.cons.inj heq
    exact meetsAt_turn _ fun hlast => absurd hlast (by decide +kernel)
  | [e₁], heq =>
    obtain ⟨he₁, heq⟩ := List.cons.inj heq
    obtain ⟨rfl, -⟩ := List.cons.inj heq
    rw [← he₁]
    exact meetsAt_turn _ fun _ => by decide +kernel
  | _ :: _ :: before, heq =>
    have := congrArg List.length heq
    simp at this

/-- A key without an action tunes, and a wheel is not held back at its second step. -/
theorem not_dispatch_right : ¬Right .actionNone keysFile [press 61 0 (by decide)] ∧
    ¬Right .actionNone wheelFile [turn 10 0 (by decide), turn 10 1 (by decide)] := by
  constructor
  · intro h
    have hq : queued .actionNone keysFile [] (press 61 0 (by decide)) =
        [⟨.midiTune, .midiKey, 1⟩] := by decide +kernel
    obtain ⟨en, hen, -, haction, -⟩ := h.dispatches [] _ [] rfl ⟨.midiTune, .midiKey, 1⟩
      (by rw [hq]; exact List.mem_singleton_self _)
    have hnone : (keysFile.entry (press 61 0 (by decide))).map Entry.action? = some none := by
      decide +kernel
    rw [hen, Option.map_some, haction] at hnone
    exact absurd hnone (by simp)
  · intro h
    have hq₁ : queued .actionNone wheelFile [] (turn 10 0 (by decide)) ≠ [] := by decide +kernel
    have hq₂ : queued .actionNone wheelFile [turn 10 0 (by decide)] (turn 10 1 (by decide)) ≠
        [] := by
      decide +kernel
    have hspaced := h.delay [] _ [] _ [] wheelEntry .vfoa rfl (wheelFile_entry 0 (by decide))
      (wheelFile_entry 1 (by decide)) (by decide +kernel) rfl (by decide)
      (fun _ hmem => absurd hmem List.not_mem_nil) hq₁ hq₂
    exact absurd hspaced (by decide)

end MacHPSDR.Midi
