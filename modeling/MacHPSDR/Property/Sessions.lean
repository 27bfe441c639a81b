import MacHPSDR.Foundations.PrefixMap
import MacHPSDR.Foundations.Transition
import MacHPSDR.Property.Restore
import Mathlib

/-!
# Saves and the settings of each slot

`radio_save_state` empties the store and writes it again from what is live. The settings of a
receiver that is closed or hidden are put aside before and merged back after. A receiver that is
shown is written by `receiver_save_state`, which leaves out how the pane is split when the pane is
degenerate: "leave the previous good value be". By then the store has been emptied, and the
previous value is gone.

`Wanted` is what should be saved of each slot, kept apart from the store through every session.
`sessions_kept_iff` shows that the store agrees with it all along exactly if no save finds a
receiver with a degenerate pane for which a split is stored.
-/

namespace MacHPSDR.Property

open PrefixMap

/-! ## The statics of `property.c` -/

structure Props where
  properties : Store
  retained : Store
  parked : Option Store

namespace Props

variable (st : Props)

def initProperties : Props := { st with properties := ∅ }

def writeAll (es : List (CStr × CStr)) : Props :=
  { st with properties := PrefixMap.writeAll st.properties es }

def retainProperties (head : CStr) : Props :=
  let r := PrefixMap.retain ⟨st.properties, st.retained⟩ head
  { st with properties := r.active, retained := r.aside }

def releaseRetainedProperties : Props :=
  let r := PrefixMap.release ⟨st.properties, st.retained⟩
  { st with properties := r.active, retained := r.aside }

/-- Only one level is kept. -/
def pushPropertyStore : Props :=
  match st.parked with
  | some _ => st
  | none => { st with parked := some st.properties, properties := ∅ }

def popPropertyStore : Props :=
  match st.parked with
  | none => st
  | some parked => { st with properties := parked, parked := none }

/-- Work on a second file: bookmarks or a MIDI file. -/
def otherFile (work : Store → Store) : Props :=
  let pushed := st.pushPropertyStore
  { pushed with properties := work pushed.properties }.popPropertyStore

end Props

/-! ## What a receiver writes -/

/-- A receiver as far as it is saved. -/
structure Live where
  showRx : Bool
  /-- The text of each setting. -/
  text : String → CStr
  waterfallAutomatic : Bool
  /-- It has an audio output by name. -/
  audioNamed : Bool
  notches : ℕ
  /-- It has a window of its own. -/
  windowed : Bool
  panedPosition : ℤ
  panedHeight : ℤ

namespace Live

variable (rx : Live)

/-- The split of the pane makes no sense now. -/
def Degenerate : Prop := ¬(rx.panedHeight > 1 ∧ rx.panedPosition > 0)

instance : Decidable rx.Degenerate := inferInstanceAs (Decidable ¬_)

/-- A setting with a value for each index. -/
def indexed (field : String) (n : ℕ) : List String := (List.range n).map fun i => s!"{field}[{i}]"

def notchNames (n : ℕ) : List String :=
  (List.range n).flatMap fun i => [s!"notch[{i}].fcenter", s!"notch[{i}].fwidth",
    s!"notch[{i}].active", s!"notch[{i}].af", s!"notch[{i}].af_offset"]

/-- The settings that are written in any case, up to the waterfall. -/
def displayNames : List String :=
  ["channel", "adc", "soapy_rx_antenna", "sample_rate", "dsp_rate", "output_rate", "buffer_size",
    "fft_size", "low_latency", "fps", "meter_smoothing", "display_average_time", "panadapter_low",
    "panadapter_high", "panadapter_step", "panadapter_automatic", "panadapter_filled",
    "panadapter_gradient", "panadapter_agc_line", "panadapter_bandplan",
    "panadapter_single_color", "display_detector_mode", "display_average_mode",
    "panadapter_peak_hold", "panadapter_peak_decay", "panadapter_histogram",
    "panadapter_histogram_decay", "panadapter_phase", "panadapter_phase_mode",
    "panadapter_phase_gain", "panadapter_phase_source"]

/-- Those from the waterfall to the filter of VFO A. -/
def tuningNames : List String :=
  ["waterfall_automatic", "waterfall_auto_contrast", "waterfall_ft8_marker",
    "waterfall_color_theme", "frequency_a", "lo_a", "error_a", "lo_tx", "error_tx",
    "tx_track_rx", "band_a", "mode_a", "filter_a"]

/-- Those from the edges of the filter to the audio. -/
def vfoNames : List String :=
  ["filter_low_a", "filter_high_a", "frequency_b", "lo_b", "error_b", "ctun", "ctun_offset",
    "ctun_frequency", "ctun_min", "ctun_max", "freetune", "qo100_beacon", "split", "split_last",
    "offset", "bandstack", "remote_audio", "local_audio"]

/-- Those from the audio to the equalizer. -/
def audioNames : List String :=
  ["output_index", "mute_when_not_active", "local_audio_buffer_size", "local_audio_latency",
    "audio_channels", "subrx_enable", "subrx_mix", "step", "zoom", "pan", "agc", "agc_gain",
    "agc_slope", "agc_hang_threshold", "enable_equalizer"]

/-- Those from the volume to the squelch. -/
def noiseNames : List String :=
  ["volume", "mute", "nr", "nr2", "nr3", "nr4", "nr3_depth", "nr4_reduction", "nr4_smoothing",
    "nr4_whitening", "nr4_rescale", "nr4_postfilter", "nb", "nb2", "anf", "snb", "squelch",
    "squelch_off"]

/-- Those from the squelch to the notches. -/
def squelchNames : List String :=
  ["amsq_min_db", "amsq_max_db", "amsq_tail", "apf_enable", "apf_bw", "apf_gain", "notches",
    "notch_default_width"]

/-- Those after the notches. -/
def controlNames : List String :=
  ["rit_enabled", "rit", "rit_step", "bpsk_enable", "split", "vfo_linked", "duplex",
    "mute_while_transmitting", "rigctl_port", "rigctl_enable", "rigctl_serial_enable",
    "rigctl_serial_port", "rigctl_debug"]

/-- The names of the split of the pane. -/
def splitNames : List String := ["paned_position", "paned_percent"]

/-- Everything before the split of the pane. -/
def namesBefore : List String :=
  displayNames ++ (if rx.waterfallAutomatic then [] else ["waterfall_low", "waterfall_high"]) ++
    tuningNames ++ indexed "mode_filter" modeCount ++ indexed "mode_agc" modeCount ++ vfoNames ++
    (if rx.audioNamed then ["audio_name"] else []) ++ audioNames ++ indexed "equalizer" 11 ++
    noiseNames ++ indexed "mode_squelch" modeCount ++ squelchNames ++ notchNames rx.notches ++
    controlNames ++ (if rx.windowed then ["x", "y", "width", "height"] else [])

/-- The settings that `receiver_save_state` writes, in its order. -/
def names : List String :=
  rx.namesBefore ++ (if rx.Degenerate then [] else splitNames) ++
    ["show_panadapter", "show_rx", "waterfall_color_theme"]

/-- What it writes; a live receiver is active. -/
def entries : List (CStr × CStr) :=
  rx.names.map (fun f => (lit f, rx.text f)) ++ [(lit "active", lit "1")]

end Live

/-- What the names of the settings of a slot begin with. -/
def slotHead (i : ℕ) : CStr := lit s!"receiver[{i}]."

/-- The settings under their whole names. -/
def inSlot (i : ℕ) (es : List (CStr × CStr)) : List (CStr × CStr) :=
  es.map fun e => (slotHead i ++ e.1, e.2)

def receiverSaveState (st : Props) (i : ℕ) (rx : Live) : Props :=
  if rx.showRx then st.writeAll (inSlot i rx.entries) else st

/-! ## The radio -/

/-- What the rest of `radio_save_state` writes, and what else it retains. -/
structure Rest where
  /-- The window has been opened in this session. -/
  widebandHasState : Bool
  /-- The controller is connected. -/
  midiHasState : Bool
  before : List (CStr × CStr)
  after : List (CStr × CStr)
  /-- None of it is about a receiver. -/
  foreign : ∀ e ∈ before ++ after, ¬lit "receiver[" <+: e.1

/-- The slots that keep what is saved of them: closed ones and hidden ones. -/
def keepsSaved (slot : Option Live) : Bool :=
  match slot with
  | none => true
  | some rx => !rx.showRx

/-- What is put aside before the store is emptied. -/
def retainedHeads (supported : ℕ) (slots : ℕ → Option Live) (rest : Rest) : List CStr :=
  ((List.range supported).filter fun i => keepsSaved (slots i)).map slotHead ++
    (if rest.widebandHasState then [] else [lit "wideband."]) ++
    (if rest.midiHasState then [] else [lit "midi"])

/-- The receivers, one slot after the other. -/
def saveReceivers (supported : ℕ) (slots : ℕ → Option Live) (st : Props) : Props :=
  (List.range supported).foldl (fun st i =>
    match slots i with
    | none => st
    | some rx => receiverSaveState st i rx) st

/-- `radio_save_state`, up to the file; `saveProperties` adds the version. -/
def radioSaveState (supported : ℕ) (slots : ℕ → Option Live) (rest : Rest) (st : Props) : Props :=
  let st := (retainedHeads supported slots rest).foldl Props.retainProperties st
  let st := (saveReceivers supported slots (st.initProperties.writeAll rest.before)).writeAll
    rest.after
  let st := st.releaseRetainedProperties
  { st with properties := markVersion st.properties }

/-! ## Sessions -/

/-- The store and the receivers. -/
structure Desk where
  props : Props
  slots : ℕ → Option Live

inductive DeskOp
  /-- A new session loads what there is in the file. -/
  | load (file : Store)
  /-- A receiver, shown or hidden, is created in a free slot. -/
  | add (i : ℕ) (rx : Live)
  /-- Settings of a receiver change, or it is hidden or shown. -/
  | change (i : ℕ) (rx : Live)
  /-- The operator closes a receiver. -/
  | close (i : ℕ)
  /-- A receiver goes away without being saved: a hidden one. -/
  | drop (i : ℕ)
  /-- A second file is read or written. -/
  | other (work : Store → Store)
  | save (rest : Rest)

/-- `radio->receivers` -/
def receivers (supported : ℕ) (slots : ℕ → Option Live) : ℕ :=
  (List.range supported).countP fun i => (slots i).isSome

/-- `receiver_close`, which never closes the last receiver. -/
def receiverClose (supported : ℕ) (d : Desk) (i : ℕ) (rx : Live) : Desk :=
  if receivers supported d.slots ≤ 1 then d
  else
    let st := receiverSaveState d.props i rx
    { props := st.writeAll (inSlot i [(lit "active", lit "0")])
      slots := Function.update d.slots i none }

def deskStep (supported : ℕ) (d : Desk) : DeskOp → Option Desk
  | .load file => some ⟨⟨file, ∅, none⟩, fun _ => none⟩
  | .add i rx =>
    if i < supported ∧ d.slots i = none then some { d with slots := Function.update d.slots i rx }
    else none
  | .change i rx =>
    if (d.slots i).isSome then some { d with slots := Function.update d.slots i rx } else none
  | .close i => (d.slots i).map (receiverClose supported d i)
  | .drop i => some { d with slots := Function.update d.slots i none }
  | .other work => some { d with props := d.props.otherFile work }
  | .save rest => some { d with props := radioSaveState supported d.slots rest d.props }

/-! ## What should be saved -/

/-- What should be saved of each slot. -/
abbrev Wanted := ℕ → CStr → Option CStr

/-- A save of a receiver that is shown: the live values, except that the split of a degenerate pane
stays what it was. -/
def savedFrom (rx : Live) (old : CStr → Option CStr) (f : CStr) : Option CStr :=
  if rx.Degenerate ∧ f ∈ Live.splitNames.map lit then old f else lastOf rx.entries f

/-- A receiver that is closed: its live values, if it is shown, over what was saved, and no longer
active. -/
def closedFrom (rx : Live) (old : CStr → Option CStr) (f : CStr) : Option CStr :=
  if f = lit "active" then some (lit "0")
  else if rx.showRx then (lastOf rx.entries f).or (old f) else old f

def wantedStep (supported : ℕ) (d : Desk) (w : Wanted) : DeskOp → Wanted
  | .load file => fun i => sectionOf file (slotHead i)
  | .close i =>
    if receivers supported d.slots ≤ 1 then w
    else
      match d.slots i with
      | none => w
      | some rx => Function.update w i (closedFrom rx (w i))
  | .save _ => fun i =>
    match d.slots i with
    | none => w i
    | some rx => if rx.showRx then savedFrom rx (w i) else w i
  | _ => w

/-- Sessions, with what should be saved beside them. -/
def sessions (supported : ℕ) : System (Desk × Wanted) DeskOp where
  init := (⟨⟨∅, ∅, none⟩, fun _ => none⟩, fun _ _ => none)
  step s a := (deskStep supported s.1 a).map fun d => (d, wantedStep supported s.1 s.2 a)

theorem sessions_step (supported : ℕ) (s : Desk × Wanted) (a : DeskOp) :
    (sessions supported).step s a =
      (deskStep supported s.1 a).map fun d => (d, wantedStep supported s.1 s.2 a) := rfl

/-- The store has what should be saved of every slot. -/
def Kept (supported : ℕ) (s : Desk × Wanted) : Prop :=
  ∀ i < supported, sectionOf s.1.props.properties (slotHead i) = s.2 i

/-- A save finds no receiver that is shown with a degenerate pane and has a split in the store. -/
def Spares (supported : ℕ) (s : Desk × Wanted) : DeskOp → Prop
  | .save _ => ∀ i < supported, ∀ rx, s.1.slots i = some rx → rx.showRx = true → rx.Degenerate →
      ∀ f ∈ Live.splitNames, sectionOf s.1.props.properties (slotHead i) (lit f) = none
  | _ => True

/-! ## Names -/

theorem lit_append (a b : String) : lit (a ++ b) = lit a ++ lit b := by
  rw [lit, String.toList_append, List.filterMap_append, ← lit, ← lit]

/-- The characters of an ASCII literal. -/
theorem chars_lit {s : String} (hs : ∀ c ∈ s.toList, 0 < c.toNat ∧ c.toNat < 256) :
    chars (lit s) = s.toList := by
  unfold chars lit
  rw [List.map_filterMap]
  conv_rhs => rw [← List.filterMap_some (l := s.toList)]
  refine List.filterMap_congr fun c hc => ?_
  obtain ⟨hpos, hlt⟩ := hs c hc
  have hne : Fin.ofNat 256 c.toNat ≠ 0 := by
    intro h
    have := congrArg Fin.val h
    rw [Fin.val_ofNat, Nat.mod_eq_of_lt hlt, Fin.val_zero] at this
    omega
  rw [dif_pos hne, Option.map_some]
  simp only [Fin.val_ofNat, Nat.mod_eq_of_lt hlt, Char.ofNat_toNat]

theorem slotHead_eq (i : ℕ) :
    slotHead i = lit "receiver[" ++ (lit (Nat.repr i) ++ lit "].") := by
  rw [← List.append_assoc, ← lit_append, ← lit_append]
  rfl

/-- The number of a slot is read off its names. -/
theorem slotHead_unique {i j : ℕ} {f : CStr} (h : slotHead j <+: slotHead i ++ f) : j = i := by
  obtain ⟨r, hr⟩ := h
  rw [slotHead_eq, slotHead_eq, List.append_assoc, List.append_assoc, List.append_assoc,
    List.append_assoc, List.append_cancel_left_eq] at hr
  have hdigits : ∀ n : ℕ, chars (lit (Nat.repr n)) = Nat.toDigits 10 n := by
    intro n
    rw [chars_lit, Nat.toList_repr]
    intro c hc
    rw [Nat.toList_repr] at hc
    have hd := Nat.isDigit_of_mem_toDigits (by decide) le_rfl hc
    simp only [Char.isDigit, Bool.and_eq_true, decide_eq_true_eq, ge_iff_le, UInt32.le_iff_toNat_le]
      at hd
    have h0 : '0'.val.toNat = 48 := rfl
    have h9 : '9'.val.toNat = 57 := rfl
    have : c.toNat = c.val.toNat := rfl
    omega
  have htail : ∀ (n : ℕ) (g : CStr),
      (chars (lit (Nat.repr n) ++ (lit "]." ++ g))).takeWhile Char.isDigit = Nat.toDigits 10 n := by
    intro n g
    have hclose : chars (lit "]." ++ g) = ']' :: '.' :: chars g := by
      unfold chars
      rw [List.map_append]
      rfl
    have hsplit : chars (lit (Nat.repr n) ++ (lit "]." ++ g)) =
        Nat.toDigits 10 n ++ ']' :: '.' :: chars g := by
      rw [← hclose, ← hdigits n]
      exact List.map_append ..
    rw [hsplit, List.takeWhile_append_of_pos fun c hc =>
      Nat.isDigit_of_mem_toDigits (by decide) le_rfl hc]
    simp [show Char.isDigit ']' = false by decide]
  have heq : Nat.toDigits 10 j = Nat.toDigits 10 i := by
    rw [← htail j r, ← htail i f, hr]
  rw [← Nat.ofDigitChars_ten_toDigits (n := j), heq, Nat.ofDigitChars_ten_toDigits]

theorem receiver_head (i : ℕ) (f : CStr) : lit "receiver[" <+: slotHead i ++ f := by
  rw [slotHead_eq, List.append_assoc]
  exact List.prefix_append ..

/-- What begins with another letter is not the name of a setting of a slot. -/
theorem not_head_of_ne {h : CStr} (hne : h.head? ≠ none) (hr : h.head? ≠ (lit "receiver[").head?)
    (i : ℕ) (f : CStr) : ¬h <+: slotHead i ++ f := by
  intro hp
  cases h with
  | nil => exact hne rfl
  | cons c h =>
    have hhead : (slotHead i ++ f).head? = (lit "receiver[").head? := by
      rw [slotHead_eq, List.append_assoc]
      rfl
    obtain ⟨g, hg⟩ := hp
    rw [← hg] at hhead
    exact hr hhead

variable {supported : ℕ} {slots : ℕ → Option Live} {rest : Rest} {st : Props}

/-- The settings of a slot that are put aside are those of the slots that keep what is saved. -/
theorem retainedHeads_iff {i : ℕ} (hi : i < supported) (f : CStr) :
    (∃ h ∈ retainedHeads supported slots rest, h <+: slotHead i ++ f) ↔
      keepsSaved (slots i) = true := by
  have hwide : ¬lit "wideband." <+: slotHead i ++ f :=
    not_head_of_ne (by decide +kernel) (by decide +kernel) i f
  have hmidi : ¬lit "midi" <+: slotHead i ++ f :=
    not_head_of_ne (by decide +kernel) (by decide +kernel) i f
  constructor
  · rintro ⟨h, hmem, hp⟩
    simp only [retainedHeads, List.mem_append, List.mem_map, List.mem_filter] at hmem
    obtain (⟨j, ⟨-, hj⟩, rfl⟩ | hmem) | hmem := hmem
    · obtain rfl := slotHead_unique hp
      exact hj
    · split_ifs at hmem
      · exact absurd hmem List.not_mem_nil
      · rw [List.mem_singleton] at hmem
        exact absurd (hmem ▸ hp) hwide
    · split_ifs at hmem
      · exact absurd hmem List.not_mem_nil
      · rw [List.mem_singleton] at hmem
        exact absurd (hmem ▸ hp) hmidi
  · intro hk
    refine ⟨slotHead i, ?_, List.prefix_append ..⟩
    simp only [retainedHeads, List.mem_append, List.mem_map, List.mem_filter, List.mem_range]
    exact .inl (.inl ⟨i, ⟨hi, hk⟩, rfl⟩)

/-! ## One save -/

theorem lastOf_inSlot (i : ℕ) (es : List (CStr × CStr)) (f : CStr) :
    lastOf (inSlot i es) (slotHead i ++ f) = lastOf es f :=
  lastOf_map_append (slotHead i) es f

/-- A slot writes nothing under the names of another. -/
theorem lastOf_inSlot_ne {i j : ℕ} (hne : j ≠ i) (es : List (CStr × CStr)) (f : CStr) :
    lastOf (inSlot j es) (slotHead i ++ f) = none := by
  refine lastOf_eq_none fun e he heq => hne ?_
  obtain ⟨d, -, rfl⟩ := List.mem_map.1 he
  exact slotHead_unique (f := f) (heq ▸ List.prefix_append ..)

@[simp] theorem Props.lookup_writeAll (es : List (CStr × CStr)) (k : CStr) :
    (st.writeAll es).properties.lookup k = (lastOf es k).or (st.properties.lookup k) :=
  PrefixMap.lookup_writeAll ..

theorem saveReceivers_succ (n : ℕ) : saveReceivers (n + 1) slots st =
    match slots n with
    | none => saveReceivers n slots st
    | some rx => receiverSaveState (saveReceivers n slots st) n rx := by
  simp only [saveReceivers, List.range_succ, List.foldl_append, List.foldl_cons, List.foldl_nil]

/-- What the receivers write under the names of a slot. -/
theorem lookup_saveReceivers {i : ℕ} (f : CStr) :
    (saveReceivers supported slots st).properties.lookup (slotHead i ++ f) =
      if i < supported then
        match slots i with
        | none => st.properties.lookup (slotHead i ++ f)
        | some rx =>
          if rx.showRx then (lastOf rx.entries f).or (st.properties.lookup (slotHead i ++ f))
          else st.properties.lookup (slotHead i ++ f)
      else st.properties.lookup (slotHead i ++ f) := by
  induction supported with
  | zero => simp [saveReceivers]
  | succ n ih =>
    rw [saveReceivers_succ]
    rcases Nat.lt_trichotomy i n with hlt | rfl | hgt
    · rw [if_pos hlt] at ih
      rw [if_pos (Nat.lt_succ_of_lt hlt), ← ih]
      cases slots n with
      | none => rfl
      | some rx =>
        dsimp only [receiverSaveState]
        split_ifs
        · rw [Props.lookup_writeAll, lastOf_inSlot_ne (Ne.symm (Nat.ne_of_lt hlt)), Option.none_or]
        · rfl
    · rw [if_neg (lt_irrefl i)] at ih
      rw [if_pos (Nat.lt_succ_self i)]
      cases slots i with
      | none => exact ih
      | some rx =>
        dsimp only [receiverSaveState]
        split_ifs
        · rw [Props.lookup_writeAll, lastOf_inSlot, ih]
        · exact ih
    · rw [if_neg (by omega)] at ih
      rw [if_neg (by omega), ← ih]
      cases slots n with
      | none => rfl
      | some rx =>
        dsimp only [receiverSaveState]
        split_ifs
        · rw [Props.lookup_writeAll, lastOf_inSlot_ne (Nat.ne_of_lt hgt), Option.none_or]
        · rfl

@[simp] theorem Props.writeAll_retained (es : List (CStr × CStr)) :
    (st.writeAll es).retained = st.retained := rfl

@[simp] theorem Props.writeAll_parked (es : List (CStr × CStr)) :
    (st.writeAll es).parked = st.parked := rfl

/-- What is retained and what is parked is not touched by a receiver. -/
theorem receiverSaveState_frame (st : Props) (i : ℕ) (rx : Live) :
    (receiverSaveState st i rx).retained = st.retained ∧
      (receiverSaveState st i rx).parked = st.parked := by
  unfold receiverSaveState
  split_ifs
  · exact ⟨Props.writeAll_retained _, Props.writeAll_parked _⟩
  · exact ⟨rfl, rfl⟩

theorem saveReceivers_frame : (saveReceivers supported slots st).retained = st.retained ∧
    (saveReceivers supported slots st).parked = st.parked := by
  induction supported with
  | zero => exact ⟨rfl, rfl⟩
  | succ n ih =>
    rw [saveReceivers_succ]
    cases slots n with
    | none => exact ih
    | some rx =>
      obtain ⟨hretained, hparked⟩ :=
        receiverSaveState_frame (saveReceivers n slots st) n rx
      exact ⟨hretained.trans ih.1, hparked.trans ih.2⟩

theorem foldl_retainProperties (heads : List CStr) (st : Props) :
    heads.foldl Props.retainProperties st =
      { st with
        properties := (retainAll ⟨st.properties, st.retained⟩ heads).active
        retained := (retainAll ⟨st.properties, st.retained⟩ heads).aside } := by
  induction heads generalizing st with
  | nil => rfl
  | cons h heads ih => exact ih _

/-- What a save leaves of a slot: what was there, for a slot that is closed or hidden, and what the
receiver writes, for one that is shown. -/
theorem section_radioSaveState (hst : st.retained = ∅) {i : ℕ} (hi : i < supported) :
    sectionOf (radioSaveState supported slots rest st).properties (slotHead i) =
      match slots i with
      | none => sectionOf st.properties (slotHead i)
      | some rx =>
        if rx.showRx then lastOf rx.entries else sectionOf st.properties (slotHead i) := by
  funext f
  have hversion : slotHead i ++ f ≠ versionName := by
    intro h
    exact not_head_of_ne (h := versionName) (by decide +kernel) (by decide +kernel) i f
      (h ▸ List.prefix_refl _)
  have hbefore : lastOf rest.before (slotHead i ++ f) = none := lastOf_eq_none fun e he heq =>
    rest.foreign e (List.mem_append_left _ he) (heq ▸ receiver_head i f)
  have hafter : lastOf rest.after (slotHead i ++ f) = none := lastOf_eq_none fun e he heq =>
    rest.foreign e (List.mem_append_right _ he) (heq ▸ receiver_head i f)
  -- What is live when the retained settings come back.
  have hlive : ∀ st' : Props, ((saveReceivers supported slots
      (st'.initProperties.writeAll rest.before)).writeAll rest.after).properties.lookup
        (slotHead i ++ f) =
      match slots i with
      | none => none
      | some rx => if rx.showRx then lastOf rx.entries f else none := by
    intro st'
    have hempty : (st'.initProperties.writeAll rest.before).properties.lookup (slotHead i ++ f) =
        none := by
      rw [Props.lookup_writeAll, hbefore, Option.none_or]
      exact Finmap.lookup_empty _
    rw [Props.lookup_writeAll, hafter, Option.none_or, lookup_saveReceivers, if_pos hi, hempty]
    cases slots i with
    | none => rfl
    | some rx => simp only [Option.or_none]
  show (Finmap.insert _ _ _).lookup (slotHead i ++ f) = _
  rw [Finmap.lookup_insert_of_ne _ hversion, foldl_retainProperties]
  dsimp only [Props.releaseRetainedProperties]
  have hretained : ∀ st' : Props, ((saveReceivers supported slots
      (st'.initProperties.writeAll rest.before)).writeAll rest.after).retained = st'.retained :=
    fun st' => saveReceivers_frame.1
  rw [hretained, lookup_release ⟨st.properties, st.retained⟩ hst, hlive]
  simp only [retainedHeads_iff hi]
  cases hslot : slots i with
  | none =>
    simp [keepsSaved, sectionOf]
  | some rx =>
    cases hshow : rx.showRx with
    | false => simp [keepsSaved, hshow, sectionOf]
    | true => simp [keepsSaved, hshow]

/-! ## The split of a degenerate pane -/

/-- A name that begins with another letter than the names of the split. -/
theorem lit_ne_of_head {a n f : String} (hn : lit a <+: lit n) (ha : (lit a).head? ≠ none)
    (hp : (lit a).head? ≠ (lit "p").head?) (hf : f ∈ Live.splitNames) : lit n ≠ lit f := by
  have hsplit : ∀ f ∈ Live.splitNames, (lit f).head? = (lit "p").head? := by decide +kernel
  intro heq
  obtain ⟨g, hg⟩ := hn
  have hhead := hsplit f hf
  rw [← heq, ← hg] at hhead
  cases hl : lit a with
  | nil =>
    rw [hl] at ha
    exact ha rfl
  | cons c l =>
    rw [hl] at hp hhead
    exact hp hhead

theorem lit_indexed_ne {field n f : String} {k : ℕ} (hn : n ∈ Live.indexed field k)
    (ha : (lit field).head? ≠ none) (hp : (lit field).head? ≠ (lit "p").head?)
    (hf : f ∈ Live.splitNames) : lit n ≠ lit f := by
  obtain ⟨i, -, rfl⟩ := List.mem_map.1 hn
  refine lit_ne_of_head (a := field) ?_ ha hp hf
  show lit field <+: lit (field ++ "[" ++ Nat.repr i ++ "]")
  rw [lit_append, lit_append, lit_append, List.append_assoc, List.append_assoc]
  exact List.prefix_append ..

theorem lit_notchNames_ne {n f : String} {k : ℕ} (hn : n ∈ Live.notchNames k)
    (hf : f ∈ Live.splitNames) : lit n ≠ lit f := by
  obtain ⟨i, -, hmem⟩ := List.mem_flatMap.1 hn
  have hhead : ∀ tail : String, lit "notch[" <+: lit ("notch[" ++ Nat.repr i ++ tail) := by
    intro tail
    rw [lit_append, lit_append, List.append_assoc]
    exact List.prefix_append ..
  have hne : ∀ tail : String, lit ("notch[" ++ Nat.repr i ++ tail) ≠ lit f := fun tail =>
    lit_ne_of_head (hhead tail) (by decide +kernel) (by decide +kernel) hf
  simp only [List.mem_cons, List.not_mem_nil, or_false] at hmem
  obtain rfl | rfl | rfl | rfl | rfl := hmem
  all_goals exact hne _

/-- A receiver with a degenerate pane writes nothing about its split. -/
theorem lastOf_entries_of_degenerate {rx : Live} (h : rx.Degenerate) {f : String}
    (hf : f ∈ Live.splitNames) : lastOf rx.entries (lit f) = none := by
  have hne : ∀ l : List String, (∀ n ∈ l, ∀ f ∈ Live.splitNames, lit n ≠ lit f) →
      ∀ n ∈ l, lit n ≠ lit f := fun l hl n hn => hl n hn f hf
  have hempty : ∀ n ∈ ([] : List String), lit n ≠ lit f := fun n hn =>
    absurd hn List.not_mem_nil
  have hindexed : ∀ field k, (lit field).head? ≠ none → (lit field).head? ≠ (lit "p").head? →
      ∀ n ∈ Live.indexed field k, lit n ≠ lit f := fun field k ha hp n hn =>
    lit_indexed_ne hn ha hp hf
  have hnames : ∀ n ∈ rx.names, lit n ≠ lit f := by
    unfold Live.names Live.namesBefore
    rw [if_pos h]
    simp only [List.forall_mem_append, and_assoc]
    refine ⟨hne Live.displayNames (by decide +kernel), ?_, hne Live.tuningNames (by decide +kernel),
      hindexed _ _ (by decide +kernel) (by decide +kernel),
      hindexed _ _ (by decide +kernel) (by decide +kernel),
      hne Live.vfoNames (by decide +kernel), ?_, hne Live.audioNames (by decide +kernel),
      hindexed _ _ (by decide +kernel) (by decide +kernel),
      hne Live.noiseNames (by decide +kernel),
      hindexed _ _ (by decide +kernel) (by decide +kernel),
      hne Live.squelchNames (by decide +kernel), fun n hn => lit_notchNames_ne hn hf,
      hne Live.controlNames (by decide +kernel), ?_, hempty, hne _ (by decide +kernel)⟩
    all_goals split_ifs
    · exact hempty
    · exact hne _ (by decide +kernel)
    · exact hne _ (by decide +kernel)
    · exact hempty
    · exact hne _ (by decide +kernel)
    · exact hempty
  refine lastOf_eq_none fun e he => ?_
  rcases List.mem_append.1 he with he | he
  · obtain ⟨n, hn, rfl⟩ := List.mem_map.1 he
    exact hnames n hn
  · rw [List.mem_singleton] at he
    subst he
    exact hne ["active"] (by decide +kernel) "active" (List.mem_singleton.2 rfl)

/-! ## Sessions keep what should be saved -/

/-- Nothing is put aside or parked between two operations. -/
def Tidy (d : Desk) : Prop := d.props.retained = ∅ ∧ d.props.parked = none

/-- The second file leaves the store of the radio as it was. -/
theorem otherFile_eq (hst : st.parked = none) (work : Store → Store) : st.otherFile work = st := by
  obtain ⟨properties, retained, parked⟩ := st
  obtain rfl : parked = none := hst
  rfl

theorem sectionOf_receiverSaveState (st : Props) (i j : ℕ) (rx : Live) :
    sectionOf (receiverSaveState st j rx).properties (slotHead i) =
      if j = i then
        if rx.showRx then fun f => (lastOf rx.entries f).or (sectionOf st.properties (slotHead i) f)
        else sectionOf st.properties (slotHead i)
      else sectionOf st.properties (slotHead i) := by
  funext f
  unfold receiverSaveState sectionOf
  by_cases hji : j = i
  · subst hji
    rw [if_pos rfl]
    split_ifs
    · rw [Props.lookup_writeAll, lastOf_inSlot]
    · rfl
  · rw [if_neg hji]
    split_ifs
    · rw [Props.lookup_writeAll, lastOf_inSlot_ne hji, Option.none_or]
    · rfl

/-- A receiver that is closed leaves its settings in its slot, and the other slots alone. -/
theorem sectionOf_receiverClose {d : Desk} {rx : Live} {j : ℕ}
    (hmany : ¬receivers supported d.slots ≤ 1) (i : ℕ) :
    sectionOf (receiverClose supported d j rx).props.properties (slotHead i) =
      if j = i then closedFrom rx (sectionOf d.props.properties (slotHead i))
      else sectionOf d.props.properties (slotHead i) := by
  have hsaved := sectionOf_receiverSaveState d.props i j rx
  have hactive : ∀ f : CStr, lastOf [(lit "active", lit "0")] f =
      if f = lit "active" then some (lit "0") else none := fun f => lastOf_singleton _ f
  unfold receiverClose
  rw [if_neg hmany]
  funext f
  show ((receiverSaveState d.props j rx).writeAll _).properties.lookup (slotHead i ++ f) = _
  have hf := congrFun hsaved f
  rw [Props.lookup_writeAll]
  by_cases hji : j = i
  · subst hji
    rw [if_pos rfl] at hf ⊢
    rw [lastOf_inSlot, hactive]
    unfold closedFrom
    split_ifs with ha hs
    · rfl
    · rw [if_pos hs] at hf
      exact hf
    · rw [if_neg hs] at hf
      exact hf
  · rw [if_neg hji] at hf ⊢
    rw [lastOf_inSlot_ne hji, Option.none_or]
    exact hf

/-- The live values are what should be saved, unless a split that is wanted is left out. -/
theorem savedFrom_eq_iff {rx : Live} {old : CStr → Option CStr} :
    lastOf rx.entries = savedFrom rx old ↔
      (rx.Degenerate → ∀ f ∈ Live.splitNames, old (lit f) = none) := by
  constructor
  · intro h hd f hf
    have hat := congrFun h (lit f)
    rw [savedFrom, if_pos ⟨hd, List.mem_map_of_mem hf⟩, lastOf_entries_of_degenerate hd hf] at hat
    exact hat.symm
  · intro h
    funext f
    unfold savedFrom
    split_ifs with hf
    · obtain ⟨n, hn, rfl⟩ := List.mem_map.1 hf.2
      rw [h hf.1 n hn, lastOf_entries_of_degenerate hf.1 hn]
    · rfl

theorem tidy_step {d e : Desk} {a : DeskOp} (hd : Tidy d) (h : deskStep supported d a = some e) :
    Tidy e := by
  obtain ⟨hretained, hparked⟩ := hd
  cases a with
  | load file =>
    obtain rfl := Option.some.inj h
    exact ⟨rfl, rfl⟩
  | add i rx =>
    simp only [deskStep, Option.ite_none_right_eq_some, Option.some.injEq] at h
    obtain ⟨-, rfl⟩ := h
    exact ⟨hretained, hparked⟩
  | change i rx =>
    simp only [deskStep, Option.ite_none_right_eq_some, Option.some.injEq] at h
    obtain ⟨-, rfl⟩ := h
    exact ⟨hretained, hparked⟩
  | close i =>
    obtain ⟨rx, -, rfl⟩ := Option.map_eq_some_iff.1 h
    obtain ⟨hret, hpark⟩ := receiverSaveState_frame d.props i rx
    unfold receiverClose
    split_ifs
    · exact ⟨hretained, hparked⟩
    · refine ⟨?_, ?_⟩
      · rw [Props.writeAll_retained, hret]
        exact hretained
      · rw [Props.writeAll_parked, hpark]
        exact hparked
  | drop i =>
    obtain rfl := Option.some.inj h
    exact ⟨hretained, hparked⟩
  | other work =>
    obtain rfl := Option.some.inj h
    show Tidy { d with props := d.props.otherFile work }
    rw [otherFile_eq hparked]
    exact ⟨hretained, hparked⟩
  | save rest =>
    obtain rfl := Option.some.inj h
    refine ⟨rfl, ?_⟩
    show (saveReceivers supported d.slots _).parked = none
    rw [saveReceivers_frame.2, Props.writeAll_parked, foldl_retainProperties]
    exact hparked

/-- One operation keeps what should be saved, unless it is a save that loses a split. -/
theorem kept_step_iff {s : Desk × Wanted} (hs : Kept supported s) (hd : Tidy s.1) (a : DeskOp) :
    (∀ t, (sessions supported).step s a = some t → Kept supported t) ↔ Spares supported s a := by
  obtain ⟨d, w⟩ := s
  have hkeeps : (∀ e, deskStep supported d a = some e →
      ∀ i < supported, sectionOf e.props.properties (slotHead i) = wantedStep supported d w a i) →
      ∀ t, (sessions supported).step (d, w) a = some t → Kept supported t := by
    intro h t ht
    obtain ⟨e, he, rfl⟩ := Option.map_eq_some_iff.1 ht
    exact h e he
  cases a with
  | load file =>
    refine iff_of_true (hkeeps fun e he i _ => ?_) trivial
    obtain rfl := Option.some.inj he
    rfl
  | add i rx =>
    refine iff_of_true (hkeeps fun e he j hj => ?_) trivial
    simp only [deskStep, Option.ite_none_right_eq_some, Option.some.injEq] at he
    obtain ⟨-, rfl⟩ := he
    exact hs j hj
  | change i rx =>
    refine iff_of_true (hkeeps fun e he j hj => ?_) trivial
    simp only [deskStep, Option.ite_none_right_eq_some, Option.some.injEq] at he
    obtain ⟨-, rfl⟩ := he
    exact hs j hj
  | close i =>
    refine iff_of_true (hkeeps fun e he j hj => ?_) trivial
    obtain ⟨rx, hrx, rfl⟩ := Option.map_eq_some_iff.1 he
    by_cases hmany : receivers supported d.slots ≤ 1
    · rw [receiverClose, if_pos hmany, wantedStep, if_pos hmany]
      exact hs j hj
    · rw [sectionOf_receiverClose hmany, wantedStep, if_neg hmany, hrx]
      dsimp only
      rw [Function.update_apply]
      have hold : sectionOf d.props.properties (slotHead j) = w j := hs j hj
      by_cases hij : i = j
      · subst hij
        rw [if_pos rfl, if_pos rfl, hold]
      · rw [if_neg hij, if_neg (Ne.symm hij), hold]
  | drop i =>
    refine iff_of_true (hkeeps fun e he j hj => ?_) trivial
    obtain rfl := Option.some.inj he
    exact hs j hj
  | other work =>
    refine iff_of_true (hkeeps fun e he j hj => ?_) trivial
    obtain rfl := Option.some.inj he
    show sectionOf (d.props.otherFile work).properties _ = w j
    rw [otherFile_eq hd.2]
    exact hs j hj
  | save rest =>
    have hsave : ∀ i < supported,
        (sectionOf (radioSaveState supported d.slots rest d.props).properties (slotHead i) =
          wantedStep supported d w (.save rest) i ↔
        ∀ rx, d.slots i = some rx → rx.showRx = true → rx.Degenerate →
          ∀ f ∈ Live.splitNames, sectionOf d.props.properties (slotHead i) (lit f) = none) := by
      intro i hi
      have hold : sectionOf d.props.properties (slotHead i) = w i := hs i hi
      rw [section_radioSaveState hd.1 hi, hold]
      simp only [wantedStep]
      cases d.slots i with
      | none => simp
      | some rx =>
        simp only [Option.some.injEq, forall_eq']
        cases rx.showRx with
        | false => simp
        | true => simpa using savedFrom_eq_iff
    constructor
    · intro h i hi
      exact (hsave i hi).1 (h _ rfl i hi)
    · intro h
      refine hkeeps fun e he i hi => ?_
      obtain rfl := Option.some.inj he
      exact (hsave i hi).2 (h i hi)

/-- **What is saved of a slot survives every session** exactly if no save finds a receiver that is
shown with a degenerate pane and has a split in the store. -/
theorem sessions_kept_iff (supported : ℕ) (as : List DeskOp) :
    (sessions supported).Throughout (Kept supported) (sessions supported).init as ↔
      (sessions supported).Along (Spares supported) (sessions supported).init as := by
  have hkept : Kept supported (sessions supported).init := by
    intro i _
    funext f
    exact Finmap.lookup_empty _
  have htidy : Tidy (sessions supported).init.1 := ⟨rfl, rfl⟩
  rw [(sessions supported).throughout_iff_along as hkept]
  refine (sessions supported).along_congr (I := fun s => Kept supported s ∧ Tidy s.1)
    (fun s a t hs hkeeps h => ?_) (fun s a hs => kept_step_iff hs.1 hs.2 a) as ⟨hkept, htidy⟩
  obtain ⟨e, he, rfl⟩ := Option.map_eq_some_iff.1 h
  exact ⟨hkeeps _ h, tidy_step hs.2 he⟩

/-! ## A receiver whose spectroscope is hidden -/

/-- The store holds how its pane was split. -/
def withSplit : Store := setProperty ∅ (slotHead 0 ++ lit "paned_percent") (lit "0.600000")

/-- Its pane has no height yet. -/
def unallocated : Live where
  showRx := true
  text := fun _ => []
  waterfallAutomatic := true
  audioNamed := false
  notches := 0
  windowed := false
  panedPosition := 0
  panedHeight := 0

def nothingElse : Rest := ⟨false, false, [], [], by simp⟩

/-- Its receiver has come up. -/
def upDesk : Desk where
  props := ⟨withSplit, ∅, none⟩
  slots := Function.update (fun _ => none) 0 (some unallocated)

/-- And it has been saved. -/
def savedDesk : Desk := ⟨radioSaveState 1 upDesk.slots nothingElse upDesk.props, upDesk.slots⟩

theorem exec_upDesk : (sessions 1).exec (sessions 1).init [.load withSplit, .add 0 unallocated] =
    some (upDesk, fun i => sectionOf withSplit (slotHead i)) := by
  refine ((sessions 1).exec_cons).2 ⟨(⟨⟨withSplit, ∅, none⟩, fun _ => none⟩,
    fun i => sectionOf withSplit (slotHead i)), rfl, ?_⟩
  refine ((sessions 1).exec_cons).2 ⟨_, ?_, System.exec_nil ..⟩
  have hadd : deskStep 1 ⟨⟨withSplit, ∅, none⟩, fun _ => none⟩ (.add 0 unallocated) = some upDesk :=
    (if_pos ⟨Nat.one_pos, rfl⟩ :
      (if 0 < 1 ∧ (none : Option Live) = none then some upDesk else none) = some upDesk)
  rw [sessions_step, hadd, Option.map_some]
  rfl

/-- A save made while the pane is degenerate loses the split that was saved. -/
theorem not_sessions_kept : ∃ t, (sessions 1).exec (sessions 1).init
      [.load withSplit, .add 0 unallocated, .save nothingElse] = some t ∧
    withSplit.lookup (slotHead 0 ++ lit "paned_percent") = some (lit "0.600000") ∧
    t.1.props.properties.lookup (slotHead 0 ++ lit "paned_percent") = none ∧
    ¬Kept 1 t := by
  have hd : unallocated.Degenerate := by decide
  have hf : "paned_percent" ∈ Live.splitNames := by decide
  have hloaded : withSplit.lookup (slotHead 0 ++ lit "paned_percent") = some (lit "0.600000") :=
    Finmap.lookup_insert _
  have hslot : upDesk.slots 0 = some unallocated := rfl
  have hsection : sectionOf (radioSaveState 1 upDesk.slots nothingElse upDesk.props).properties
      (slotHead 0) = lastOf unallocated.entries := by
    rw [section_radioSaveState rfl Nat.one_pos, hslot]
    exact if_pos rfl
  have hlost : (radioSaveState 1 upDesk.slots nothingElse upDesk.props).properties.lookup
      (slotHead 0 ++ lit "paned_percent") = none :=
    (congrFun hsection (lit "paned_percent")).trans (lastOf_entries_of_degenerate hd hf)
  refine ⟨(savedDesk, wantedStep 1 upDesk (fun i => sectionOf withSplit (slotHead i))
    (.save nothingElse)), ?_, hloaded, hlost, fun hkept => ?_⟩
  · rw [show [DeskOp.load withSplit, .add 0 unallocated, .save nothingElse] =
      [.load withSplit, .add 0 unallocated] ++ [.save nothingElse] from rfl,
      (sessions 1).exec_append exec_upDesk]
    exact ((sessions 1).exec_cons).2 ⟨_, sessions_step .., System.exec_nil ..⟩
  · have hat : sectionOf savedDesk.props.properties (slotHead 0) (lit "paned_percent") =
        wantedStep 1 upDesk (fun i => sectionOf withSplit (slotHead i)) (.save nothingElse) 0
          (lit "paned_percent") := congrFun (hkept 0 Nat.one_pos) (lit "paned_percent")
    have hshown : unallocated.showRx = true := rfl
    have hwanted : wantedStep 1 upDesk (fun i => sectionOf withSplit (slotHead i))
        (.save nothingElse) 0 (lit "paned_percent") = some (lit "0.600000") := by
      simp only [wantedStep, hslot, hshown, if_true]
      rw [savedFrom, if_pos ⟨hd, List.mem_map_of_mem hf⟩]
      exact hloaded
    rw [hwanted] at hat
    exact Option.some_ne_none _ (hat.symm.trans hlost)

end MacHPSDR.Property
