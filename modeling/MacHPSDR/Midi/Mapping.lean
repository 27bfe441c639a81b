import MacHPSDR.Foundations.CString
import MacHPSDR.Midi.Action
import Mathlib

/-!
# The MIDI mapping file

`MIDIstartup` reads the mapping file line by line and puts what a line says at the end of the list
for its key. Each keyword of a line is looked for anywhere in the line, and each has its default
back for the next line, but the action has not: a line without one takes that of the line before.

`find_entry` says that the list of a key holds its lines in the order of the file.
-/

namespace MacHPSDR.Midi

/-! ## The characters of a line -/

/-- `strstr` -/
def strstr (s needle : List Char) : Option (List Char) :=
  if needle.isPrefixOf s then some s
  else
    match s with
    | [] => none
    | _ :: s => strstr s needle

/-- What stands after a keyword, where it occurs for the first time. -/
def keyword (zeile : List Char) (name : String) : Option (List Char) :=
  (strstr zeile name.toList).map fun cp => cp.drop name.toList.length

/-- `sscanf` with `%d`: the number and what stands behind it -/
def scanD (s : List Char) : Option (ℤ × List Char) :=
  let t := s.dropWhile CString.isSpace
  let u := if t.head? = some '-' ∨ t.head? = some '+' then t.tail else t
  if u.head?.any Char.isDigit then some (CString.atoi s, u.dropWhile Char.isDigit) else none

/-- `sscanf` with `%d` repeated: the numbers up to the first that cannot be read -/
def scanDs : ℕ → List Char → List ℤ
  | 0, _ => []
  | n + 1, s =>
    match scanD s with
    | none => []
    | some (v, s) => v :: scanDs n s

/-- A number after a keyword; if there is none the old one stays. -/
def readD (s : List Char) (old : ℤ) : ℤ := ((scanD s).map Prod.fst).getD old

/-- Newline, comma, slash and the like are blanks. -/
def blank (c : Char) : Char := if c ∈ ['\n', '\r', '\t', ',', '/'] then ' ' else c

/-- What is read, without a comment at its end. -/
def text (piece : List Char) : List Char :=
  ((piece.takeWhile (· ≠ '\x00')).takeWhile (· ≠ '#')).map blank

/-! ## Descriptors -/

/-- `enum MIDIevent` -/
inductive MidiEvent where
  | eventNone | midiNote | midiCtrl | midiPitch
deriving DecidableEq

/-- `enum MIDItype` -/
inductive MidiType where
  | typeNone | midiKey | midiKnob | midiWheel
deriving DecidableEq

/-- A range of controller values. -/
structure Thresholds where
  lo : ℤ
  hi : ℤ
deriving DecidableEq

/-- What a line says of a control: `struct desc` without its action. -/
structure Control where
  channel : ℤ
  event : MidiEvent
  onoff : ℤ
  type : MidiType
  vfl : Thresholds
  fl : Thresholds
  lft : Thresholds
  rgt : Thresholds
  fr : Thresholds
  vfr : Thresholds
  delay : ℤ
deriving DecidableEq

/-- `struct desc` -/
structure Desc where
  control : Control
  action : MidiAction

/-- A line that maps a control: its key, the control, and what stands after `ACTION=`. -/
structure Entry where
  key : Fin 128
  control : Control
  action : Option (List Char)
deriving DecidableEq

/-- `struct cmdtable` -/
structure CmdTable where
  desc : Fin 128 → List Desc
  pitch : List Desc

/-! ## A line -/

/-- The event, the type and the key of a line; of several keywords the last one here wins. -/
structure Kind where
  event : MidiEvent
  type : MidiType
  key : ℤ

def readKind (zeile : List Char) : Kind :=
  let k : Kind := ⟨.eventNone, .typeNone, 0⟩
  let k :=
    match keyword zeile "KEY=" with
    | some s => ⟨.midiNote, .midiKey, readD s k.key⟩
    | none => k
  let k :=
    match keyword zeile "CTRL=" with
    | some s => ⟨.midiCtrl, .midiKnob, readD s k.key⟩
    | none => k
  match keyword zeile "PITCH " with
  | some _ => ⟨.midiPitch, .midiKnob, k.key⟩
  | none => k

/-- Illegal keys are kept in range. -/
def clampKey (key : ℤ) : Fin 128 := ⟨min key.toNat 127, by omega⟩

def readChan (zeile : List Char) : ℤ :=
  match keyword zeile "CHAN=" with
  | some s =>
    let chan := readD s (-1) - 1
    if chan < 0 ∨ chan > 15 then -1 else chan
  | none => -1

/-- The ranges of a wheel; those that are not given never occur. -/
def readThr (zeile : List Char) : ℕ → Thresholds :=
  let t := ((keyword zeile "THR=").map (scanDs 12)).getD []
  fun i => ⟨t.getD (2 * i) 128, t.getD (2 * i + 1) (-1)⟩

/-- The control that a line maps. -/
def readControl (zeile : List Char) : Control :=
  let k := readKind zeile
  let thr := readThr zeile
  { channel := readChan zeile
    event := k.event
    onoff := if (keyword zeile "ONOFF").isSome then 1 else 0
    type := if (keyword zeile "WHEEL").isSome ∧ k.type = .midiKnob then .midiWheel else k.type
    vfl := thr 0
    fl := thr 1
    lft := thr 2
    rgt := thr 3
    fr := thr 4
    vfr := thr 5
    delay := ((keyword zeile "DELAY=").map fun s => readD s 0).getD 0 }

/-- What a line of the file is. -/
inductive Line where
  | skip
  | device (name : List Char)
  | entry (e : Entry)

/-- The name of a device, without blanks at its end. -/
def deviceName : List Char → List Char
  | [] => []
  | c :: s => c :: s.rdropWhile (· = ' ')

/-- The body of the loop of `MIDIstartup`, up to the action. -/
def readLine (piece : List Char) : Line :=
  let zeile := text piece
  match keyword zeile "DEVICE=" with
  | some name => .device (deviceName name)
  | none =>
    if (readKind zeile).event = .eventNone then .skip
    else .entry ⟨clampKey (readKind zeile).key, readControl zeile, keyword zeile "ACTION="⟩

/-- The word after `ACTION=`. -/
def word (s : List Char) : List Char := s.takeWhile fun c => c ≠ '\n' ∧ c ≠ ' ' ∧ c ≠ '\t'

/-! ## The file -/

/-- The variables of the loop of `MIDIstartup`: `action` is not set at its start. -/
structure Reading where
  action : MidiAction
  table : CmdTable
  devices : List (List Char)

def CmdTable.empty : CmdTable := ⟨fun _ => [], []⟩

/-- A descriptor goes to the end of its list. -/
def CmdTable.insert (t : CmdTable) (key : Fin 128) (d : Desc) : CmdTable :=
  match d.control.event with
  | .midiPitch => { t with pitch := t.pitch ++ [d] }
  | .midiNote | .midiCtrl => { t with desc := Function.update t.desc key (t.desc key ++ [d]) }
  | .eventNone => t

def Reading.line (r : Reading) (piece : List Char) : Reading :=
  match readLine piece with
  | .skip => r
  | .device name => { r with devices := r.devices ++ [name] }
  | .entry e =>
    let action :=
      match e.action with
      | some s => keyword2action (word s)
      | none => r.action
    { r with action := action, table := r.table.insert e.key ⟨e.control, action⟩ }

/-- `MIDIstartup`, where `action` is what the variable holds at its start. -/
def midiStartup (action : MidiAction) (file : List Char) : Reading :=
  (CString.lines '\n' 255 file).foldl Reading.line ⟨action, .empty, []⟩

/-! ## The lines of the file -/

/-- A mapping file of lines that are not too long; the last may have no newline at its end. -/
structure MappingFile where
  lines : List (List Char)
  last : List Char
  noNewline : ∀ l ∈ last :: lines, '\n' ∉ l
  short : ∀ l ∈ last :: lines, l.length < 254

namespace MappingFile

def contents (f : MappingFile) : List Char := f.lines.flatMap (· ++ ['\n']) ++ f.last

/-- The lines, with their newlines. -/
def pieces (f : MappingFile) : List (List Char) := f.lines.map (· ++ ['\n']) ++ [f.last]

end MappingFile

/-- The entry of a line, if it maps a control. -/
def readEntry (piece : List Char) : Option Entry :=
  match readLine piece with
  | .entry e => some e
  | _ => none

/-- A control answers to an event on a channel. -/
def Control.Answers (c : Control) (event : MidiEvent) (channel : ℤ) : Prop :=
  (c.channel = channel ∨ c.channel = -1) ∧ c.event = event

instance (c : Control) (event : MidiEvent) (channel : ℤ) : Decidable (c.Answers event channel) :=
  inferInstanceAs (Decidable (_ ∧ _))

/-- An entry is for an event: its kind, its key if it is no pitch, and its channel. -/
def Entry.IsFor (e : Entry) (event : MidiEvent) (channel : ℤ) (note : Fin 128) : Prop :=
  e.control.Answers event channel ∧ (event ≠ .midiPitch → e.key = note)

instance (e : Entry) (event : MidiEvent) (channel : ℤ) (note : Fin 128) :
    Decidable (e.IsFor event channel note) := inferInstanceAs (Decidable (_ ∧ _))

/-- The first entry of some lines that is for an event. -/
def firstEntry (pieces : List (List Char)) (event : MidiEvent) (channel : ℤ) (note : Fin 128) :
    Option Entry :=
  (pieces.filterMap readEntry).find? fun e => e.IsFor event channel note

/-- The list that is searched. -/
def CmdTable.list (t : CmdTable) (event : MidiEvent) (note : Fin 128) : List Desc :=
  if event = .midiPitch then t.pitch else t.desc note

/-- A descriptor comes from an entry. -/
structure From (d : Desc) (e : Entry) : Prop where
  control : d.control = e.control
  action : ∀ s, e.action = some s → d.action = keyword2action (word s)

/-! ## What the table holds -/

theorem readEntry_event {piece : List Char} {e : Entry} (h : readEntry piece = some e) :
    e.control.event ≠ .eventNone := by
  unfold readEntry readLine at h
  dsimp only at h
  cases hdev : keyword (text piece) "DEVICE=" with
  | some name =>
    rw [hdev] at h
    exact absurd h (by simp)
  | none =>
    rw [hdev] at h
    dsimp only at h
    split_ifs at h with hev
    obtain rfl := Option.some.inj h
    exact hev

/-- The line has no entry, and the table stays as it is. -/
theorem line_of_none {r : Reading} {piece : List Char} (h : readEntry piece = none) :
    (r.line piece).table = r.table := by
  unfold readEntry at h
  unfold Reading.line
  cases hline : readLine piece with
  | skip => rfl
  | device name => rfl
  | entry e =>
    rw [hline] at h
    exact absurd h (by simp)

/-- The line has an entry, and a descriptor that comes from it is put into the table. -/
theorem line_of_some {r : Reading} {piece : List Char} {e : Entry} (h : readEntry piece = some e) :
    ∃ d, From d e ∧ (r.line piece).table = r.table.insert e.key d := by
  unfold readEntry at h
  unfold Reading.line
  cases hline : readLine piece with
  | skip =>
    rw [hline] at h
    exact absurd h (by simp)
  | device name =>
    rw [hline] at h
    exact absurd h (by simp)
  | entry e' =>
    rw [hline] at h
    obtain rfl := Option.some.inj h
    refine ⟨_, ⟨rfl, fun s hs => ?_⟩, rfl⟩
    rw [hs]

/-- An insertion puts a descriptor at the end of its own list. -/
theorem list_insert {t : CmdTable} {key note : Fin 128} {d : Desc} {event : MidiEvent} :
    (t.insert key d).list event note =
      if (d.control.event = .midiPitch ↔ event = .midiPitch) ∧ d.control.event ≠ .eventNone ∧
          (event ≠ .midiPitch → key = note) then t.list event note ++ [d]
      else t.list event note := by
  unfold CmdTable.insert CmdTable.list
  by_cases hp : event = .midiPitch
  · cases hd : d.control.event <;> simp [hp]
  · cases hd : d.control.event with
    | midiNote | midiCtrl =>
      by_cases hkey : key = note
      · subst hkey
        simp [hp]
      · simp [hp, hkey, Function.update_of_ne (Ne.symm hkey)]
    | midiPitch | eventNone => simp [hp]

theorem rel_or {α β : Type*} {R : α → β → Prop} {a c : Option α} {b d : Option β}
    (h : Option.Rel R a b) (h' : Option.Rel R c d) : Option.Rel R (a.or c) (b.or d) := by
  cases h with
  | none => exact h'
  | some h => exact .some h

/-- What is found in the list of a key comes from the first entry in the file that is for the
event. -/
theorem find_entry (action : MidiAction) (pieces : List (List Char)) (event : MidiEvent)
    (channel : ℤ) (note : Fin 128) :
    Option.Rel From
      ((((pieces.foldl Reading.line ⟨action, .empty, []⟩).table.list event note).find?
        fun d => d.control.Answers event channel))
      (firstEntry pieces event channel note) := by
  induction pieces using List.reverseRecOn with
  | nil =>
    have hempty : CmdTable.empty.list event note = [] := by
      unfold CmdTable.list
      split_ifs <;> rfl
    show Option.Rel From (List.find? _ (CmdTable.empty.list event note)) none
    rw [hempty]
    exact .none
  | append_singleton pieces piece ih =>
    set r := pieces.foldl Reading.line ⟨action, .empty, []⟩ with hr
    have hfold : (pieces ++ [piece]).foldl Reading.line ⟨action, .empty, []⟩ = r.line piece := by
      rw [List.foldl_append, ← hr]
      rfl
    have hfirst : firstEntry (pieces ++ [piece]) event channel note =
        (firstEntry pieces event channel note).or
          ((readEntry piece).toList.find? fun e => e.IsFor event channel note) := by
      unfold firstEntry
      rw [List.filterMap_append, List.find?_append]
      congr 2
    rw [hfold, hfirst]
    cases hentry : readEntry piece with
    | none =>
      rw [line_of_none hentry]
      simpa using ih
    | some e =>
      obtain ⟨d, hd, htable⟩ := line_of_some (r := r) hentry
      have hev := readEntry_event hentry
      rw [htable, list_insert, hd.control]
      by_cases hfor : e.IsFor event channel note
      · obtain ⟨hans, hkey⟩ := hfor
        have hans' : d.control.Answers event channel := by rw [hd.control]; exact hans
        rw [if_pos ⟨by rw [hans.2], hev, hkey⟩, List.find?_append]
        have hlast : Option.Rel From ([d].find? fun d => d.control.Answers event channel)
            ((some e).toList.find? fun e => e.IsFor event channel note) := by
          have hfor : e.IsFor event channel note := ⟨hans, hkey⟩
          simpa [hans', hfor] using Option.Rel.some hd
        exact rel_or ih hlast
      · have hnone : (some e).toList.find? (fun e => decide (e.IsFor event channel note)) =
            none := by
          simp [hfor]
        rw [hnone, Option.or_none]
        split_ifs with hins
        · rw [List.find?_append]
          have hans : ¬d.control.Answers event channel := by
            rw [hd.control]
            exact fun hans => hfor ⟨hans, hins.2.2⟩
          have hnone' : [d].find? (fun d => decide (d.control.Answers event channel)) = none := by
            simp [hans]
          rw [hnone', Option.or_none]
          exact ih
        · exact ih

/-! ## The lines that are read -/

/-- The last line is read to the end of the file. -/
theorem lines_last {l : List Char} (hl : '\n' ∉ l) (hlen : l.length < 254) :
    CString.lines '\n' 255 l = if l = [] then [] else [l] := by
  split_ifs with hnil
  · rw [hnil, CString.lines_nil]
  · have hread : ∀ (n : ℕ) (t : List Char), '\n' ∉ t → t.length ≤ n →
        CString.fgetsLoop '\n' n t = (t, []) := by
      intro n t
      induction t generalizing n with
      | nil => cases n <;> exact fun _ _ => rfl
      | cons c t ih =>
        intro hc hn
        obtain ⟨hc, ht⟩ := List.ne_and_not_mem_of_not_mem_cons hc
        obtain ⟨n, rfl⟩ : ∃ k, n = k + 1 := ⟨n - 1, by rw [List.length_cons] at hn; omega⟩
        rw [List.length_cons] at hn
        rw [CString.fgetsLoop, if_neg hc.symm, ih n ht (by omega)]
    rw [CString.lines_of_ne_nil (by decide) hnil, hread _ _ hl (by omega), CString.lines_nil]

/-- The complete lines are read one by one, and what follows them. -/
theorem lines_flatMap {ls : List (List Char)} (hnl : ∀ l ∈ ls, '\n' ∉ l)
    (hshort : ∀ l ∈ ls, l.length < 254) (rest : List Char) :
    CString.lines '\n' 255 (ls.flatMap (· ++ ['\n']) ++ rest) =
      ls.map (· ++ ['\n']) ++ CString.lines '\n' 255 rest := by
  induction ls with
  | nil => rfl
  | cons l ls ih =>
    rw [List.forall_mem_cons] at hnl hshort
    rw [List.flatMap_cons, List.append_assoc,
      CString.lines_append (by decide) (List.getLast?_concat ..),
      CString.lines_line (by decide) hnl.1 (by omega), ih hnl.2 hshort.2]
    rfl

/-- The file is read line by line. -/
theorem lines_contents (f : MappingFile) :
    CString.lines '\n' 255 f.contents =
      f.lines.map (· ++ ['\n']) ++ if f.last = [] then [] else [f.last] := by
  have hnl := List.forall_mem_cons.1 f.noNewline
  have hshort := List.forall_mem_cons.1 f.short
  unfold MappingFile.contents
  rw [lines_flatMap hnl.2 hshort.2, lines_last hnl.1 hshort.1]

/-- The entries are those of the lines. -/
theorem firstEntry_contents (f : MappingFile) (event : MidiEvent) (channel : ℤ) (note : Fin 128) :
    firstEntry (CString.lines '\n' 255 f.contents) event channel note =
      firstEntry f.pieces event channel note := by
  rw [lines_contents]
  unfold firstEntry MappingFile.pieces
  split_ifs with hlast
  · have hnone : readEntry [] = none := by decide +kernel
    rw [hlast, List.filterMap_append, List.filterMap_append]
    simp [hnone]
  · rfl

end MacHPSDR.Midi
