import MacHPSDR.Foundations.Transition
import Mathlib

/-!
# Parking the readers of the receive streams

A stream is only taken down once its reader has said, in `rx_parked`, that it has seen
`rx_stream_active` go off. The flag of the last pause stays up until the reader is on its way into
`readStream` again. A pause that comes just then takes it for an answer, and the stream is taken
down under the reader. As long as no answer of an earlier pause is taken, the streams are safe
(`parking_safe`).
-/

namespace MacHPSDR.Soapy

/-! ## The readers -/

/-- Where a `receive_thread` is; streams are numbered in the order in which they are set up. -/
inductive ReaderPc
  /-- It is going to look at `rx_stream_active`. -/
  | test
  /-- It is going to set `rx_parked`. -/
  | park
  /-- It sleeps. -/
  | nap
  /-- It is going to clear `rx_parked`. -/
  | clear
  /-- It is going to call `readStream`. -/
  | enter
  | reading (stream : ℕ)
  /-- It is going to call `fifo_push`. -/
  | push (stream : ℕ)
  deriving DecidableEq

/-- A reader, with what the time of the others is measured by: how many milliseconds it has been in
`readStream`, and whether it has run since the last one began. -/
structure Reader where
  pc : ReaderPc
  parked : Bool
  inRead : ℕ
  ran : Bool

namespace Reader

/-- One step of `receive_thread`; `got` tells whether `readStream` returns samples. -/
def step (active : Bool) (stream : ℕ) (got : Bool) (r : Reader) : Reader :=
  let r := { r with ran := true }
  match r.pc with
  | .test => { r with pc := if active then .clear else .park }
  | .park => { r with parked := true, pc := .nap }
  | .nap => { r with pc := .test }
  | .clear => { r with parked := false, pc := .enter }
  | .enter => { r with pc := .reading stream, inRead := 0 }
  | .reading g => { r with pc := if got then .push g else .test }
  | .push _ => { r with pc := .test }

/-- What a step pushes into the FIFO. -/
def pushed (r : Reader) : List ℕ :=
  match r.pc with
  | .push g => [g]
  | _ => []

/-- A millisecond may end: the reader has run in it, or is in a `readStream` that is not overdue. -/
def onTime (r : Reader) : Bool :=
  r.ran || match r.pc with
    | .reading _ => decide (r.inRead < 100)
    | _ => false

/-- A millisecond ends. -/
def tick (r : Reader) : Reader := if r.ran then r else { r with inRead := r.inRead + 1 }

end Reader

/-! ## The calls -/

inductive StreamStatus
  | live
  | deactivated
  | closed
  /-- Set up, and not active yet. -/
  | ready
  deriving DecidableEq

/-- What a call has yet to do. -/
inductive Micro (n : ℕ)
  | setActive (active : Bool)
  /-- `wait_rx_parked`, with so many polls left -/
  | wait (ch : Fin n) (polls : ℕ)
  /-- The millisecond between two polls -/
  | sleep (ch : Fin n) (polls : ℕ)
  | deactivate (ch : Fin n)
  | close (ch : Fin n)
  | setup (ch : Fin n)
  | activate (ch : Fin n)
  | fifoClear (ch : Fin n)

/-- The channels with a stream and a reader; the samples of a FIFO are named by their stream. -/
structure Parking (n : ℕ) where
  rxStreamActive : Bool
  reader : Fin n → Reader
  status : Fin n → StreamStatus
  stream : Fin n → ℕ
  fifo : Fin n → List ℕ
  prog : List (Micro n)

namespace Parking

variable {n : ℕ} (s : Parking n)

/-- `soapy_protocol_rx_pause`, once `rx_stream_active` is seen to be on -/
def pauseProg : List (Micro n) :=
  .setActive false :: (List.finRange n).flatMap fun ch => [.wait ch 150, .deactivate ch]

/-- `rx_resume_channel` -/
def resumeChannel (ch : Fin n) : List (Micro n) :=
  [.deactivate ch, .close ch, .setup ch, .activate ch, .fifoClear ch]

/-- `soapy_protocol_rx_resume`, once `rx_stream_active` is seen to be off -/
def resumeProg : List (Micro n) :=
  (List.finRange n).flatMap resumeChannel ++ [.setActive true]

/-- `soapy_protocol_change_sample_rate_locked` with another hardware rate, of a live stream -/
def restartProg (ch : Fin n) : List (Micro n) :=
  [.setActive false, .wait ch 150, .deactivate ch, .close ch, .setup ch, .activate ch,
    .fifoClear ch, .setActive true, .fifoClear ch]

/-- The next thing that a call does. -/
def control : Option (Parking n) :=
  match s.prog with
  | [] => none
  | .setActive active :: ops => some { s with rxStreamActive := active, prog := ops }
  | .wait _ 0 :: ops => some { s with prog := ops }
  | .wait ch (polls + 1) :: ops =>
    if (s.reader ch).parked then some { s with prog := ops }
    else some { s with
      reader := fun c => { s.reader c with ran := false }
      prog := .sleep ch polls :: ops }
  | .sleep ch polls :: ops =>
    if ∀ c, (s.reader c).onTime = true then some { s with
      reader := fun c => (s.reader c).tick
      prog := .wait ch polls :: ops }
    else none
  | .deactivate ch :: ops =>
    some { s with status := Function.update s.status ch .deactivated, prog := ops }
  | .close ch :: ops =>
    some { s with status := Function.update s.status ch .closed, prog := ops }
  | .setup ch :: ops => some { s with
      status := Function.update s.status ch .ready
      stream := Function.update s.stream ch (s.stream ch + 1)
      prog := ops }
  | .activate ch :: ops =>
    some { s with status := Function.update s.status ch .live, prog := ops }
  | .fifoClear ch :: ops =>
    some { s with fifo := Function.update s.fifo ch [], prog := ops }

end Parking

/-- A reader runs, the DSP thread takes `k` blocks, a call begins or goes on. -/
inductive ParkingEvent (n : ℕ)
  | reader (ch : Fin n) (got : Bool)
  | dsp (ch : Fin n) (k : ℕ)
  | control
  | rxPause
  | rxResume
  | changeSampleRate (ch : Fin n) (moves : Bool)

namespace Parking

variable {n : ℕ} (s : Parking n)

/-- A call begins when the last one has returned. -/
def call (prog : List (Micro n)) : Option (Parking n) :=
  if s.prog.isEmpty then some { s with prog := prog } else none

def step : ParkingEvent n → Option (Parking n)
  | .reader ch got =>
    let r := s.reader ch
    some { s with
      reader := Function.update s.reader ch (r.step s.rxStreamActive (s.stream ch) got)
      fifo := Function.update s.fifo ch (s.fifo ch ++ r.pushed) }
  | .dsp ch k => some { s with fifo := Function.update s.fifo ch ((s.fifo ch).drop k) }
  | .control => s.control
  | .rxPause => s.call (if s.rxStreamActive then pauseProg else [])
  | .rxResume => s.call (if s.rxStreamActive then [] else resumeProg)
  | .changeSampleRate ch moves =>
    s.call (if moves && s.rxStreamActive then restartProg ch else [.fifoClear ch])

/-- All streams run. -/
def started : Parking n where
  rxStreamActive := true
  reader _ := ⟨.test, false, 0, false⟩
  status _ := .live
  stream _ := 0
  fifo _ := []
  prog := []

/-- No reader is in a stream that is down, and between two calls no FIFO has samples of a stream
that is gone. -/
structure Safe : Prop where
  reads : ∀ ch g, (s.reader ch).pc = .reading g → g = s.stream ch ∧ s.status ch = .live
  fifo : s.prog = [] → ∀ ch, ∀ g ∈ s.fifo ch, g = s.stream ch

/-- The channel whose flag the next step of the call polls. -/
def polled : Option (Fin n) :=
  match s.prog with
  | .wait ch (_ + 1) :: _ => some ch
  | _ => none

/-- No poll finds the flag of an earlier pause, which the reader is just going to clear. -/
def Genuine : ParkingEvent n → Prop
  | .control => ∀ ch ∈ s.polled, (s.reader ch).parked = true → (s.reader ch).pc ≠ .clear
  | _ => True

instance : DecidableRel (Genuine : Parking n → ParkingEvent n → Prop) := fun s a =>
  match a with
  | .control => inferInstanceAs (Decidable (∀ ch ∈ s.polled, _))
  | .reader _ _ | .dsp _ _ | .rxPause | .rxResume | .changeSampleRate _ _ => .isTrue trivial

end Parking

/-- The readers and the calls, in any order. -/
def parking (n : ℕ) : System (Parking n) (ParkingEvent n) where
  init := .started
  step := Parking.step

/-! ## What a reader does while the streams are off -/

/-- A reader that does not come to `readStream` while `rx_stream_active` is off. -/
def ReaderPc.Quiet : ReaderPc → Prop
  | .test | .park | .nap => True
  | .clear | .enter | .reading _ | .push _ => False

namespace Reader

variable {r : Reader} {active got : Bool} {stream : ℕ}

/-- How long it takes at most until `rx_parked` is set, if `rx_stream_active` is off. -/
def delay (r : Reader) : ℕ :=
  match r.pc with
  | .nap => 0
  | .park => 1
  | .test => 2
  | .push _ => 3
  | .reading _ => 4 + (100 - r.inRead)
  | .enter => 105
  | .clear => 106

theorem delay_le (r : Reader) : r.delay ≤ 106 := by
  unfold delay
  split <;> omega

/-- The flag is up where it may be, and where it must be. -/
structure Flagged (r : Reader) : Prop where
  up : r.pc = .nap → r.parked = true
  down : r.parked = true → r.pc.Quiet ∨ r.pc = .clear

theorem Flagged.step (h : r.Flagged) : (r.step active stream got).Flagged := by
  obtain ⟨pc, parked, inRead, ran⟩ := r
  obtain ⟨hup, hdown⟩ := h
  constructor
  · intro hnap
    cases pc <;> simp_all [Reader.step]
    all_goals split at hnap <;> simp_all
  · intro hparked
    cases pc <;> simp_all [Reader.step, ReaderPc.Quiet]
    cases active <;> simp

/-- While the streams are off, a quiet reader stays so. -/
theorem quiet_step (h : r.pc.Quiet) : (r.step false stream got).pc.Quiet := by
  obtain ⟨pc, parked, inRead, ran⟩ := r
  cases pc <;> first | exact trivial | exact h.elim

/-- A reader has samples of the stream that it has just entered, or of the one it was in. -/
theorem current_step {g : ℕ} (h : (r.step active stream got).pc = .reading g ∨
    (r.step active stream got).pc = .push g) : g = stream ∨ r.pc = .reading g := by
  obtain ⟨pc, parked, inRead, ran⟩ := r
  cases pc with
  | test => cases active <;> simp [Reader.step] at h
  | park | nap | clear | push k => simp [Reader.step] at h
  | enter => exact .inl (by simpa [Reader.step, eq_comm] using h)
  | reading k =>
    refine .inr ?_
    cases got <;> simp [Reader.step] at h
    rw [h]

/-- Within `m` milliseconds the flag is set, and it is not the one of an earlier pause. -/
structure Awaited (r : Reader) (m : ℕ) : Prop where
  own : r.parked = true → r.pc.Quiet
  soon : r.parked = false → r.delay ≤ m

theorem Awaited.mono {m k : ℕ} (h : r.Awaited m) (hmk : m ≤ k) : r.Awaited k :=
  ⟨h.own, fun hp => (h.soon hp).trans hmk⟩

/-- While the streams are off, a reader that has not set the flag comes nearer to it. -/
theorem Awaited.step {m : ℕ} (h : r.Awaited (m + 1)) (hf : r.Flagged) :
    (r.step false stream got).Awaited m := by
  obtain ⟨pc, parked, inRead, ran⟩ := r
  obtain ⟨hup, hdown⟩ := hf
  obtain ⟨hown, hsoon⟩ := h
  constructor <;> cases pc <;> cases parked <;> simp_all [Reader.step, ReaderPc.Quiet, delay]
  all_goals cases got <;> simp <;> omega

@[simp] theorem tick_pc : r.tick.pc = r.pc := by
  unfold tick
  split <;> rfl

@[simp] theorem tick_parked : r.tick.parked = r.parked := by
  unfold tick
  split <;> rfl

/-- At the end of a millisecond, a reader that has not run is nearer to the end of `readStream`. -/
theorem Awaited.tick {m : ℕ} (h : r.Awaited (m + if r.ran then 0 else 1))
    (htime : r.onTime = true) : r.tick.Awaited m := by
  obtain ⟨pc, parked, inRead, ran⟩ := r
  obtain ⟨hown, hsoon⟩ := h
  refine ⟨by simpa using hown, fun hp => ?_⟩
  have hdelay := hsoon (by simpa using hp)
  cases ran
  · cases pc <;> simp [onTime] at htime
    simp only [delay, Bool.false_eq_true, if_false] at hdelay
    simp only [Reader.tick, delay, Bool.false_eq_true, if_false]
    omega
  · simpa [Reader.tick] using hdelay

/-- When it is not awaited any longer, the flag is up, and the reader quiet. -/
theorem Awaited.quiet (h : r.Awaited 0) (hf : r.Flagged) : r.pc.Quiet := by
  refine h.own (Bool.eq_true_of_not_eq_false fun hp => ?_)
  have hdelay := h.soon hp
  obtain ⟨pc, parked, inRead, ran⟩ := r
  have hup := hf.up
  cases pc <;> simp_all [delay]

end Reader

/-! ## What a call may do -/

/-- What is known of the channels within a call: whose readers are quiet, which have no live stream,
and whose FIFO may have samples of a stream that is gone. -/
structure Ledger (n : ℕ) where
  active : Bool
  quiet : Finset (Fin n)
  down : Finset (Fin n)
  stale : Finset (Fin n)

namespace Ledger

variable {n : ℕ} (l : Ledger n)

/-- Streams are taken down under quiet readers, and are all up again before these may go on. -/
def Allows : Micro n → Prop
  | .setActive true => l.down = ∅ ∧ l.stale = ∅
  | .setActive false | .fifoClear _ => True
  | .wait _ _ | .sleep _ _ => l.active = false
  | .deactivate ch | .close ch | .setup ch | .activate ch => l.active = false ∧ ch ∈ l.quiet

def after : Micro n → Ledger n
  | .setActive active => { l with active := active, quiet := ∅ }
  | .wait ch _ | .sleep ch _ => { l with quiet := insert ch l.quiet }
  | .deactivate ch | .close ch => { l with down := insert ch l.down }
  | .setup ch => { l with down := insert ch l.down, stale := insert ch l.stale }
  | .activate ch => { l with down := l.down.erase ch }
  | .fifoClear ch => { l with stale := l.stale.erase ch }

/-- A call may return: the streams run, or their readers are quiet. -/
structure Settled : Prop where
  fifo : l.stale = ∅
  up : l.active = true → l.down = ∅
  quiet : l.active = false → ∀ ch, ch ∈ l.quiet

/-- What is left of a call does nothing that is not allowed. -/
def Permits (l : Ledger n) : List (Micro n) → Prop
  | [] => l.Settled
  | op :: ops => l.Allows op ∧ (l.after op).Permits ops

variable {l}

/-- `soapy_protocol_rx_pause` may do what it does. -/
theorem permits_pause (chs : List (Fin n)) (hactive : l.active = false) (hstale : l.stale = ∅)
    (hquiet : ∀ ch, ch ∈ l.quiet ∨ ch ∈ chs) :
    l.Permits (chs.flatMap fun ch => [.wait ch 150, .deactivate ch]) := by
  induction chs generalizing l with
  | nil =>
    exact ⟨hstale, fun h => absurd (hactive.symm.trans h) (by decide),
      fun _ ch => (hquiet ch).resolve_right (by simp)⟩
  | cons ch chs ih =>
    refine ⟨hactive, ⟨hactive, Finset.mem_insert_self ch _⟩, ih hactive hstale fun c => ?_⟩
    rcases hquiet c with h | h
    · exact .inl (Finset.mem_insert_of_mem h)
    · rcases List.mem_cons.1 h with rfl | h
      · exact .inl (Finset.mem_insert_self c _)
      · exact .inr h

/-- `soapy_protocol_rx_resume` may do what it does, when all readers are quiet. -/
theorem permits_resume (chs : List (Fin n)) (hactive : l.active = false) (hstale : l.stale = ∅)
    (hquiet : ∀ ch, ch ∈ l.quiet) (hdown : ∀ ch ∈ l.down, ch ∈ chs) :
    l.Permits (chs.flatMap Parking.resumeChannel ++ [.setActive true]) := by
  induction chs generalizing l with
  | nil =>
    have hup : l.down = ∅ := Finset.eq_empty_of_forall_notMem fun ch h => by simpa using hdown ch h
    exact ⟨⟨hup, hstale⟩, hstale, fun _ => hup, fun h => Bool.noConfusion h⟩
  | cons ch chs ih =>
    refine ⟨⟨hactive, hquiet ch⟩, ⟨hactive, hquiet ch⟩, ⟨hactive, hquiet ch⟩,
      ⟨hactive, hquiet ch⟩, trivial, ih hactive ?_ hquiet fun c hc => ?_⟩
    · simp [after, hstale]
    · simp only [after, Finset.insert_idem, Finset.erase_insert_eq_erase, Finset.mem_erase] at hc
      exact (List.mem_cons.1 (hdown c hc.2)).resolve_left hc.1

/-- The restart around another hardware rate may do what it does. -/
theorem permits_restart (ch : Fin n) (hstale : l.stale = ∅) (hup : l.down = ∅) :
    l.Permits (Parking.restartProg ch) := by
  have hquiet : ch ∈ insert ch (∅ : Finset (Fin n)) := Finset.mem_insert_self ch _
  refine ⟨trivial, rfl, ⟨rfl, hquiet⟩, ⟨rfl, hquiet⟩, ⟨rfl, hquiet⟩, ⟨rfl, hquiet⟩, trivial, ?_,
    trivial, ?_⟩
  · exact ⟨by simp [after, hup], by simp [after, hstale]⟩
  · exact ⟨by simp [after, hstale], fun _ => by simp [after, hup], fun h => Bool.noConfusion h⟩

end Ledger

namespace Parking

variable {n : ℕ} {s t : Parking n} {l : Ledger n}

/-- The ledger is right about the channels. -/
structure Holds (l : Ledger n) (s : Parking n) : Prop where
  active : s.rxStreamActive = l.active
  running : l.active = true → l.quiet = ∅ ∧ l.down = ∅
  quiet : ∀ ch ∈ l.quiet, (s.reader ch).pc.Quiet
  up : ∀ ch, ch ∉ l.down → s.status ch = .live
  fifo : ∀ ch, ch ∉ l.stale → ∀ g ∈ s.fifo ch, g = s.stream ch
  /-- A reader that is not quiet has a live stream, -/
  busy : ∀ ch, ¬ (s.reader ch).pc.Quiet → s.status ch = .live
  /-- and it is the one it reads. -/
  current : ∀ ch g, (s.reader ch).pc = .reading g ∨ (s.reader ch).pc = .push g → g = s.stream ch

/-- What a reader does leaves the ledger right. -/
theorem Holds.reader (h : Holds l s) (ch : Fin n) (got : Bool)
    (ht : s.step (.reader ch got) = some t) : Holds l t := by
  obtain rfl := Option.some.inj ht
  refine ⟨h.active, h.running, fun c hc => ?_, h.up, fun c hc g hg => ?_, fun c hbusy => ?_,
    fun c g hcur => ?_⟩
  · have hoff : s.rxStreamActive = false := by
      rw [h.active, Bool.eq_false_iff]
      intro hon
      simp [(h.running hon).1] at hc
    rcases eq_or_ne c ch with rfl | hne
    · simpa [hoff] using (s.reader c).quiet_step (h.quiet c hc)
    · simpa [hne] using h.quiet c hc
  · rcases eq_or_ne c ch with rfl | hne
    · rcases List.mem_append.1 (by simpa using hg) with hold | hnew
      · exact h.fifo c hc g hold
      · refine h.current c g (.inr ?_)
        unfold Reader.pushed at hnew
        split at hnew
        · rw [List.mem_singleton.1 hnew]
          assumption
        · simp at hnew
    · exact h.fifo c hc g (by simpa [hne] using hg)
  · rcases eq_or_ne c ch with rfl | hne
    · by_cases hquiet : (s.reader c).pc.Quiet
      · have hon : l.active = true := by
          rw [← h.active, ← Bool.not_eq_false]
          intro hoff
          exact hbusy (by simpa [hoff] using (s.reader c).quiet_step hquiet)
        exact h.up c (by simp [(h.running hon).2])
      · exact h.busy c hquiet
    · exact h.busy c (by simpa [hne] using hbusy)
  · rcases eq_or_ne c ch with rfl | hne
    · rcases (s.reader c).current_step (by simpa using hcur) with hnew | hold
      · exact hnew
      · exact h.current c g (.inl hold)
    · exact h.current c g (by simpa [hne] using hcur)

/-- Taking a stream down, or setting it up again, under a quiet reader. -/
theorem Holds.status (h : Holds l s) {ch : Fin n} (hquiet : ch ∈ l.quiet) (status : StreamStatus)
    (prog : List (Micro n)) : Holds { l with down := insert ch l.down }
      { s with status := Function.update s.status ch status, prog := prog } := by
  have hoff : l.active ≠ true := fun hon => by simp [(h.running hon).1] at hquiet
  refine ⟨h.active, fun hon => absurd hon hoff, h.quiet, fun c hc => ?_, h.fifo, fun c hbusy => ?_,
    h.current⟩
  · simp only [Finset.mem_insert, not_or] at hc
    simpa [hc.1] using h.up c hc.2
  · have hne : c ≠ ch := fun he => hbusy (h.quiet c (he ▸ hquiet))
    simpa [hne] using h.busy c hbusy

/-- Polls and milliseconds leave the ledger right. -/
theorem Holds.idle (h : Holds l s) (hreader : ∀ c, (t.reader c).pc = (s.reader c).pc)
    (ht : ∃ reader prog, t = { s with reader := reader, prog := prog }) : Holds l t := by
  obtain ⟨reader, prog, rfl⟩ := ht
  refine ⟨h.active, h.running, fun c hc => ?_, h.up, h.fifo, fun c hc => ?_, fun c g hc => ?_⟩
  · rw [hreader c]
    exact h.quiet c hc
  · rw [hreader c] at hc
    exact h.busy c hc
  · rw [hreader c] at hc
    exact h.current c g hc

/-- A reader is found quiet. -/
theorem Holds.found (h : Holds l s) {ch : Fin n} (hoff : l.active = false)
    (hquiet : (s.reader ch).pc.Quiet) : Holds { l with quiet := insert ch l.quiet } s := by
  refine ⟨h.active, fun hon => absurd (hoff.symm.trans hon) (by decide), fun c hc => ?_, h.up,
    h.fifo, h.busy, h.current⟩
  rcases Finset.mem_insert.1 hc with rfl | hc
  · exact hquiet
  · exact h.quiet c hc

/-- `rx_stream_active` is set. -/
theorem Holds.setActive (h : Holds l s) (active : Bool) (hallows : l.Allows (.setActive active))
    (prog : List (Micro n)) : Holds (l.after (.setActive active))
      { s with rxStreamActive := active, prog := prog } := by
  refine ⟨rfl, fun hon => ⟨rfl, ?_⟩, fun c hc => absurd hc (Finset.notMem_empty c), h.up, h.fifo,
    h.busy, h.current⟩
  obtain rfl : active = true := hon
  exact hallows.1

/-- A stream is set up. -/
theorem Holds.setup (h : Holds l s) {ch : Fin n} (hallows : l.Allows (.setup ch))
    (prog : List (Micro n)) : Holds (l.after (.setup ch)) { s with
      status := Function.update s.status ch .ready
      stream := Function.update s.stream ch (s.stream ch + 1)
      prog := prog } := by
  have hdown := h.status hallows.2 .ready prog
  refine ⟨hdown.active, hdown.running, hdown.quiet, hdown.up, fun c hc g hg => ?_, hdown.busy,
    fun c g hcur => ?_⟩
  · simp only [Ledger.after, Finset.mem_insert, not_or] at hc
    simpa [hc.1] using h.fifo c hc.2 g hg
  · have hne : c ≠ ch := by
      rintro rfl
      have hquiet := h.quiet c hallows.2
      rcases hcur with hpc | hpc <;> exact ((hpc : (s.reader c).pc = _) ▸ hquiet :)
    simpa [hne] using h.current c g hcur

/-- A stream is activated. -/
theorem Holds.activate (h : Holds l s) {ch : Fin n} (hallows : l.Allows (.activate ch))
    (prog : List (Micro n)) : Holds (l.after (.activate ch))
      { s with status := Function.update s.status ch .live, prog := prog } := by
  have hoff : l.active ≠ true := fun hon => absurd (hallows.1.symm.trans hon) (by decide)
  refine ⟨h.active, fun hon => absurd hon hoff, h.quiet, fun c hc => ?_, h.fifo, fun c hbusy => ?_,
    h.current⟩
  · rcases eq_or_ne c ch with rfl | hne
    · simp
    · simpa [hne] using h.up c (by simpa [Ledger.after, hne] using hc)
  · rcases eq_or_ne c ch with rfl | hne
    · simp
    · simpa [hne] using h.busy c hbusy

/-- A FIFO loses samples from its front. -/
theorem Holds.dropFifo (h : Holds l s) (ch : Fin n) (k : ℕ) (prog : List (Micro n)) :
    Holds l { s with fifo := Function.update s.fifo ch ((s.fifo ch).drop k), prog := prog } := by
  refine ⟨h.active, h.running, h.quiet, h.up, fun c hc g hg => ?_, h.busy, h.current⟩
  rcases eq_or_ne c ch with rfl | hne
  · exact h.fifo c hc g (List.mem_of_mem_drop (by simpa using hg))
  · exact h.fifo c hc g (by simpa [hne] using hg)

/-- A FIFO is cleared. -/
theorem Holds.fifoClear (h : Holds l s) (ch : Fin n) (prog : List (Micro n)) :
    Holds (l.after (.fifoClear ch))
      { s with fifo := Function.update s.fifo ch [], prog := prog } := by
  refine ⟨h.active, h.running, h.quiet, h.up, fun c hc g hg => ?_, h.busy, h.current⟩
  rcases eq_or_ne c ch with rfl | hne
  · simp at hg
  · exact h.fifo c (by simpa [Ledger.after, hne] using hc) g (by simpa [hne] using hg)

/-- The operation has not begun. -/
def Fresh : Micro n → Prop
  | .wait _ polls => polls = 150
  | .sleep _ _ => False
  | _ => True

/-- The polls that are left are enough. -/
def InTime (s : Parking n) : Micro n → Prop
  | .wait ch polls => polls = 150 ∨ (s.reader ch).Awaited polls
  | .sleep ch polls => (s.reader ch).Awaited (polls + if (s.reader ch).ran then 0 else 1)
  | _ => True

/-- The invariant of the readers and the calls. -/
structure Inv (s : Parking n) : Prop where
  flagged : ∀ ch, (s.reader ch).Flagged
  head : ∀ op ∈ s.prog.head?, s.InTime op
  tail : ∀ op ∈ s.prog.tail, Fresh op
  ledger : ∃ l, Holds l s ∧ l.Permits s.prog

theorem Fresh.inTime {op : Micro n} (h : Fresh op) : s.InTime op := by
  cases op with
  | wait ch polls => exact .inl h
  | sleep ch polls => exact h.elim
  | _ => trivial

theorem inv_started : (started : Parking n).Inv where
  flagged _ := ⟨fun h => ReaderPc.noConfusion h, fun h => Bool.noConfusion h⟩
  head op hop := by simp [started] at hop
  tail op hop := by simp [started] at hop
  ledger := by
    refine ⟨⟨true, ∅, ∅, ∅⟩, ⟨rfl, fun _ => ⟨rfl, rfl⟩, fun _ hc => ?_, fun _ _ => rfl,
      fun _ _ _ hg => ?_, fun _ _ => rfl, fun _ _ hc => ?_⟩, ⟨rfl, fun _ => rfl, fun h => ?_⟩⟩
    · exact absurd hc (Finset.notMem_empty _)
    · exact absurd hg List.not_mem_nil
    · rcases hc with hc | hc <;> exact ReaderPc.noConfusion hc
    · exact Bool.noConfusion h

/-- A state that keeps the invariant is safe. -/
theorem Inv.safe (h : s.Inv) : s.Safe := by
  obtain ⟨l, hl, hpermits⟩ := h.ledger
  constructor
  · intro ch g hreading
    refine ⟨hl.current ch g (.inl hreading), hl.busy ch fun hquiet => ?_⟩
    rw [hreading] at hquiet
    exact hquiet
  · intro hprog ch
    rw [hprog] at hpermits
    exact hl.fifo ch (by simp [hpermits.fifo])

/-- A call goes on with what is left of it. -/
theorem Inv.next {op : Micro n} {ops : List (Micro n)} (h : s.Inv) (hprog : s.prog = op :: ops)
    (hops : t.prog = ops) (hreader : t.reader = s.reader)
    (hl : ∀ l, Holds l s → l.Allows op → Holds (l.after op) t) : t.Inv := by
  obtain ⟨l, hholds, hpermits⟩ := h.ledger
  have htail := h.tail
  rw [hprog] at htail hpermits
  refine ⟨hreader ▸ h.flagged, fun op' hop => ?_, fun op' hop => ?_,
    l.after op, hl l hholds hpermits.1, hops ▸ hpermits.2⟩
  · exact (htail op' (by rw [← hops]; exact List.mem_of_mem_head? hop)).inTime
  · exact htail op' (by rw [← hops]; exact List.mem_of_mem_tail hop)

/-- A poll that ends the wait has found the reader quiet. -/
theorem Inv.found {ch : Fin n} {polls : ℕ} {ops : List (Micro n)} (h : s.Inv)
    (hprog : s.prog = .wait ch polls :: ops) (hquiet : (s.reader ch).pc.Quiet) :
    Inv { s with prog := ops } := by
  refine h.next hprog rfl rfl fun l hl hallows => ?_
  exact hl.found hallows hquiet |>.idle (fun _ => rfl) ⟨_, _, rfl⟩

/-- A poll that does not find the flag, and the millisecond after it. -/
theorem Inv.poll {op : Micro n} {ops : List (Micro n)} (h : s.Inv) (op' : Micro n)
    (reader : Fin n → Reader) (hprog : s.prog = op :: ops)
    (hop : ∀ l : Ledger n, l.Allows op → l.Allows op')
    (hafter : ∀ l : Ledger n, l.after op' = l.after op) (hpc : ∀ c, (reader c).pc = (s.reader c).pc)
    (hparked : ∀ c, (reader c).parked = (s.reader c).parked)
    (ht : t = { s with reader := reader, prog := op' :: ops }) (htime : t.InTime op') :
    t.Inv := by
  obtain ⟨l, hholds, hpermits⟩ := h.ledger
  have htail := h.tail
  rw [hprog] at htail hpermits
  subst ht
  refine ⟨fun c => ⟨?_, ?_⟩, fun op hmem => ?_, htail, l, hholds.idle hpc ⟨_, _, rfl⟩,
    hop l hpermits.1, ?_⟩
  · simpa only [hpc c, hparked c] using (h.flagged c).up
  · simpa only [hpc c, hparked c] using (h.flagged c).down
  · obtain rfl := Option.some.inj hmem
    exact htime
  · rw [hafter l]
    exact hpermits.2

theorem Inv.control (h : s.Inv) (hg : s.Genuine .control) (ht : s.control = some t) : t.Inv := by
  obtain ⟨active, reader, status, stream, fifo, prog⟩ := s
  cases prog with
  | nil => cases ht
  | cons op ops =>
    cases op with
    | setActive active =>
      obtain rfl := Option.some.inj ht
      exact h.next rfl rfl rfl fun l hl hallows => hl.setActive active hallows ops
    | wait ch polls =>
      have hhead : polls = 150 ∨ (reader ch).Awaited polls := h.head _ rfl
      cases polls with
      | zero =>
        obtain rfl := Option.some.inj ht
        have hawaited := hhead.resolve_left (by decide)
        exact h.found rfl (hawaited.quiet (h.flagged ch))
      | succ polls =>
        simp only [Parking.control] at ht
        split at ht
        · rename_i hparked
          obtain rfl := Option.some.inj ht
          exact h.found rfl (((h.flagged ch).down hparked).resolve_right (hg ch rfl hparked))
        · rename_i hparked
          obtain rfl := Option.some.inj ht
          refine h.poll (.sleep ch polls) (fun c => { reader c with ran := false }) rfl
            (fun _ hl => hl) (fun _ => rfl) (fun _ => rfl) (fun _ => rfl) rfl ?_
          have hdelay := (reader ch).delay_le
          refine ⟨fun hp => absurd hp hparked, fun _ => ?_⟩
          rcases hhead with h150 | hawaited
          · change (reader ch).delay ≤ polls + 1
            omega
          · exact hawaited.soon (Bool.eq_false_iff.2 hparked)
    | sleep ch polls =>
      simp only [Parking.control] at ht
      split at ht
      · rename_i htime
        obtain rfl := Option.some.inj ht
        have hhead : (reader ch).Awaited (polls + if (reader ch).ran then 0 else 1) := h.head _ rfl
        exact h.poll (.wait ch polls) (fun c => (reader c).tick) rfl (fun _ hl => hl)
          (fun _ => rfl) (fun _ => Reader.tick_pc) (fun _ => Reader.tick_parked) rfl
          (.inr (hhead.tick (htime ch)))
      · cases ht
    | deactivate ch =>
      obtain rfl := Option.some.inj ht
      exact h.next rfl rfl rfl fun l hl hallows => hl.status hallows.2 _ ops
    | close ch =>
      obtain rfl := Option.some.inj ht
      exact h.next rfl rfl rfl fun l hl hallows => hl.status hallows.2 _ ops
    | setup ch =>
      obtain rfl := Option.some.inj ht
      exact h.next rfl rfl rfl fun l hl hallows => hl.setup hallows ops
    | activate ch =>
      obtain rfl := Option.some.inj ht
      exact h.next rfl rfl rfl fun l hl hallows => hl.activate hallows ops
    | fifoClear ch =>
      obtain rfl := Option.some.inj ht
      exact h.next rfl rfl rfl fun l hl hallows => hl.fifoClear ch ops

/-- While a call waits for a reader, the streams are off. -/
theorem Inv.off (h : s.Inv) {op : Micro n} {ops : List (Micro n)} (hprog : s.prog = op :: ops)
    (hop : ∀ l : Ledger n, l.Allows op → l.active = false) : s.rxStreamActive = false := by
  obtain ⟨l, hl, hpermits⟩ := h.ledger
  rw [hprog] at hpermits
  exact hl.active.trans (hop l hpermits.1)

/-- A step of a reader leaves what the call waits for within reach. -/
theorem Inv.head_reader (h : s.Inv) (ch : Fin n) (got : Bool)
    (ht : s.step (.reader ch got) = some t) : ∀ op ∈ s.prog.head?, t.InTime op := by
  intro op hop
  obtain ⟨ops, hprog⟩ : ∃ ops, s.prog = op :: ops := List.head?_eq_some_iff.1 hop
  have hhead := h.head op hop
  obtain rfl := Option.some.inj ht
  cases op with
  | wait c polls =>
    rcases hhead with h150 | hawaited
    · exact .inl h150
    · right
      rcases eq_or_ne c ch with rfl | hne
      · have hoff := h.off hprog fun _ hl => hl
        simpa [hoff] using (hawaited.mono (Nat.le_succ polls)).step (h.flagged c)
      · simpa [hne] using hawaited
  | sleep c polls =>
    rcases eq_or_ne c ch with rfl | hne
    · have hoff := h.off hprog fun _ hl => hl
      have hle : (polls + if (s.reader c).ran = true then 0 else 1) ≤ polls + 1 := by
        split <;> omega
      have hstep : ((s.reader c).step false (s.stream c) got).Awaited polls :=
        Reader.Awaited.step (Reader.Awaited.mono hhead hle) (h.flagged c)
      simpa [InTime, hoff] using hstep.mono (Nat.le_add_right polls _)
    · simpa [InTime, hne] using hhead
  | _ => trivial

theorem Inv.reader (h : s.Inv) (ch : Fin n) (got : Bool)
    (ht : s.step (.reader ch got) = some t) : t.Inv := by
  obtain ⟨l, hl, hpermits⟩ := h.ledger
  have hhead := h.head_reader ch got ht
  have hholds := hl.reader ch got ht
  obtain rfl := Option.some.inj ht
  refine ⟨fun c => ?_, hhead, h.tail, l, hholds, hpermits⟩
  rcases eq_or_ne c ch with rfl | hne
  · simpa using (h.flagged c).step
  · simpa [hne] using h.flagged c

theorem Inv.dsp (h : s.Inv) (ch : Fin n) (k : ℕ) (ht : s.step (.dsp ch k) = some t) : t.Inv := by
  obtain ⟨l, hl, hpermits⟩ := h.ledger
  obtain rfl := Option.some.inj ht
  exact ⟨h.flagged, h.head, h.tail, l, hl.dropFifo ch k s.prog, hpermits⟩

/-- A call begins that may do what it does. -/
theorem Inv.call (h : s.Inv) (prog : List (Micro n)) (hfresh : ∀ op ∈ prog, Fresh op)
    (hpermits : ∀ l : Ledger n, l.active = s.rxStreamActive → l.Settled → l.Permits prog)
    (ht : s.call prog = some t) : t.Inv := by
  unfold Parking.call at ht
  split at ht
  · rename_i hidle
    obtain rfl := Option.some.inj ht
    obtain ⟨l, hl, hsettled⟩ := h.ledger
    rw [List.isEmpty_iff.1 hidle] at hsettled
    exact ⟨h.flagged, fun op hop => (hfresh op (List.mem_of_mem_head? hop)).inTime,
      fun op hop => hfresh op (List.mem_of_mem_tail hop), l, hl.idle (fun _ => rfl) ⟨_, _, rfl⟩,
      hpermits l hl.active.symm hsettled⟩
  · cases ht

theorem fresh_pauseProg : ∀ op ∈ (pauseProg : List (Micro n)), Fresh op := by
  intro op hop
  rcases List.mem_cons.1 hop with rfl | hop
  · trivial
  · obtain ⟨ch, -, hop⟩ := List.mem_flatMap.1 hop
    rcases List.mem_pair.1 hop with rfl | rfl
    · rfl
    · trivial

theorem fresh_resumeProg : ∀ op ∈ (resumeProg : List (Micro n)), Fresh op := by
  intro op hop
  rcases List.mem_append.1 hop with hop | hop
  · obtain ⟨ch, -, hop⟩ := List.mem_flatMap.1 hop
    simp only [resumeChannel, List.mem_cons, List.not_mem_nil, or_false] at hop
    rcases hop with rfl | rfl | rfl | rfl | rfl <;> trivial
  · rw [List.mem_singleton.1 hop]
    trivial

theorem fresh_restartProg (ch : Fin n) : ∀ op ∈ restartProg ch, Fresh op := by
  intro op hop
  simp only [restartProg, List.mem_cons, List.not_mem_nil, or_false] at hop
  rcases hop with rfl | rfl | rfl | rfl | rfl | rfl | rfl | rfl | rfl <;> trivial

theorem Inv.rxPause (h : s.Inv) (ht : s.step .rxPause = some t) : t.Inv := by
  simp only [Parking.step] at ht
  split at ht
  · rename_i hon
    refine h.call _ fresh_pauseProg (fun l hl hsettled => ⟨trivial, ?_⟩) ht
    exact Ledger.permits_pause _ rfl hsettled.fifo fun ch => .inr (List.mem_finRange ch)
  · exact h.call [] (fun _ hop => absurd hop List.not_mem_nil) (fun _ _ hsettled => hsettled) ht

theorem Inv.rxResume (h : s.Inv) (ht : s.step .rxResume = some t) : t.Inv := by
  simp only [Parking.step] at ht
  split at ht
  · exact h.call [] (fun _ hop => absurd hop List.not_mem_nil) (fun _ _ hsettled => hsettled) ht
  · rename_i hoff
    refine h.call _ fresh_resumeProg (fun l hl hsettled => ?_) ht
    have hl' : l.active = false := hl.trans (Bool.eq_false_iff.2 hoff)
    exact Ledger.permits_resume _ hl' hsettled.fifo (hsettled.quiet hl') fun ch _ =>
      List.mem_finRange ch

theorem Inv.changeSampleRate (h : s.Inv) (ch : Fin n) (moves : Bool)
    (ht : s.step (.changeSampleRate ch moves) = some t) : t.Inv := by
  simp only [Parking.step] at ht
  split at ht
  · rename_i hon
    refine h.call _ (fresh_restartProg ch) (fun l hl hsettled => ?_) ht
    exact Ledger.permits_restart ch hsettled.fifo (hsettled.up (by simp_all))
  · refine h.call [.fifoClear ch] (fun op hop => ?_) (fun l hl hsettled => ?_) ht
    · rw [List.mem_singleton.1 hop]
      trivial
    · exact ⟨trivial, by simp [Ledger.after, hsettled.fifo], hsettled.up, hsettled.quiet⟩

/-- What one step preserves. -/
theorem Inv.step (h : s.Inv) {a : ParkingEvent n} (hg : s.Genuine a) (ht : s.step a = some t) :
    t.Inv := by
  cases a with
  | reader ch got => exact h.reader ch got ht
  | dsp ch k => exact h.dsp ch k ht
  | control => exact h.control hg ht
  | rxPause => exact h.rxPause ht
  | rxResume => exact h.rxResume ht
  | changeSampleRate ch moves => exact h.changeSampleRate ch moves ht

end Parking

/-- **As long as no answer of an earlier pause is taken, the streams are safe.** -/
theorem parking_safe {n : ℕ} {as : List (ParkingEvent n)} {s : Parking n}
    (hrun : (parking n).exec .started as = some s)
    (hgenuine : (parking n).Along Parking.Genuine .started as) : s.Safe :=
  ((parking n).exec_induction_along (fun _ _ _ h hg ht => h.step hg ht) as .started s
    Parking.inv_started hgenuine hrun).safe

/-- The only reader of a channel. -/
abbrev onlyReader : Fin 1 := ⟨0, Nat.one_pos⟩

/-- A pause with its answer, and the resume. -/
def pauseResume : List (ParkingEvent 1) :=
  [.rxPause, .control, .reader onlyReader true, .reader onlyReader true, .control, .control,
    .rxResume] ++ List.replicate 6 .control

theorem parking_safe_pauseResume :
    ∃ s, (parking 1).exec .started pauseResume = some s ∧ s.Safe := by
  obtain ⟨s, hrun⟩ : ∃ s, (parking 1).exec .started pauseResume = some s := ⟨_, rfl⟩
  exact ⟨s, hrun, parking_safe hrun (by decide)⟩

/-- A pause, the resume, and the next pause before the reader has cleared its flag: the stream is
deactivated, and the reader goes on into `readStream`. -/
def keyUnkeyKey : List (ParkingEvent 1) :=
  pauseResume ++ [.reader onlyReader true, .reader onlyReader true, .rxPause, .control, .control,
    .control, .reader onlyReader true, .reader onlyReader true]

/-- The streams are not safe in all runs. -/
theorem not_parking_safe : ¬ ∀ (n : ℕ) (as : List (ParkingEvent n)) (s : Parking n),
    (parking n).exec .started as = some s → s.Safe := by
  intro h
  obtain ⟨s, hrun, hreading, hstatus⟩ : ∃ s, (parking 1).exec .started keyUnkeyKey = some s ∧
      (s.reader 0).pc = .reading 1 ∧ s.status 0 = .deactivated :=
    (parking 1).exists_exec (by decide)
  have hlive := ((h 1 _ s hrun).reads 0 1 hreading).2
  rw [hstatus] at hlive
  exact StreamStatus.noConfusion hlive

end MacHPSDR.Soapy
