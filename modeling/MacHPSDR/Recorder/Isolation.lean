import MacHPSDR.Foundations.Transition
import MacHPSDR.Recorder.Writer
import Mathlib

/-!
# One recording and the next

A tap compares `rec_rx` with its receiver outside `rec_mutex` and converts its samples;
`rec_enqueue` then asks only whether a writer runs. A write that fails queues `rec_stop_idle`, which
stops whatever is recorded when it is dispatched. The GTK thread starts and stops recordings, one
call at a time, and lets go of the mutex while it joins the writer thread. A step is a section that
holds the mutex, the check of a tap, a callback, or a write. The recordings are numbered, and every
block carries the receiver and the number of the recording that its tap saw.
-/

namespace MacHPSDR.Recorder.Isolation

/-- Where the GTK thread is. -/
inductive Gtk
  | mainLoop
  /-- In `g_thread_join`. -/
  | joining
  deriving DecidableEq

/-- What ends a recording. -/
inductive Cause (ρ : Type*)
  | toggle
  | receiverClosed (rx : ρ)
  /-- A write of the recording `n` failed. -/
  | diskError (n : ℕ)
  deriving DecidableEq

structure State (ρ τ : Type*) where
  recRx : Option ρ
  recWriter : Bool
  recording : Recording (ρ × ℕ)
  gtk : Gtk
  /-- The `rec_stop_idle`s that are queued, by the recording that asked. -/
  stopIdles : List ℕ
  /-- The block on its way from each tap to `rec_enqueue`. -/
  taps : τ → Option (Block (ρ × ℕ))
  /-- The number of the last recording. -/
  current : ℕ
  /-- The receiver that a recording was started on. -/
  owner : ℕ → Option ρ
  /-- The blocks that were written, and the recording. -/
  written : List (ℕ × Block (ρ × ℕ))
  ended : List (ℕ × Cause ρ)

inductive Label (ρ τ : Type*)
  /-- `recorder_iq` or `recorder_audio`, up to `rec_enqueue` -/
  | tap (t : τ) (rx : ρ) (stream : Stream) (samples : List (ℚ × ℚ))
  | enqueue (t : τ)
  | toggle (rx : ρ) (wanted opened : Stream → Bool) (thread : Bool)
  | stopForReceiver (rx : ρ)
  | stopIdle
  /-- The writer thread is joined. -/
  | joined
  | take
  | write (d : Disk)
  | finish (reached : Stream → ℕ)

variable {ρ τ : Type*}

namespace State

/-- `stop_locked`, up to the join -/
def stopLocked (s : State ρ τ) (cause : Cause ρ) : State ρ τ :=
  let s := { s with recRx := none, ended := s.ended ++ [(s.current, cause)] }
  if ¬ s.recWriter then s
  else
    { s with
      recording := { s.recording with run := false }
      recWriter := false
      gtk := .joining }

/-- `recorder_toggle` -/
def recorderToggle (s : State ρ τ) (rx : ρ) (wanted opened : Stream → Bool) (thread : Bool) :
    State ρ τ :=
  if s.recRx.isSome then s.stopLocked .toggle
  else if ¬ wanted .iq ∧ ¬ wanted .af then s
  else if wanted .iq ∧ ¬ opened .iq ∨ wanted .af ∧ ¬ opened .af then s
  else
    let recording := Recording.start wanted s.recording.queue.blocks
    if ¬ thread then
      { s with
        recording := { recording with
          run := false, writer := .ended, output := fun k => (recording.output k).finish 44 } }
    else
      { s with
        recRx := some rx
        recWriter := true
        recording := recording
        current := s.current + 1
        owner := Function.update s.owner (s.current + 1) (some rx) }

variable [DecidableEq ρ]

/-- `recorder_stop_for_receiver` -/
def recorderStopForReceiver (s : State ρ τ) (rx : ρ) : State ρ τ :=
  if s.recRx = some rx then s.stopLocked (.receiverClosed rx) else s

/-- `recorder_stop`, which the recording `n` asked for -/
def recorderStop (s : State ρ τ) (n : ℕ) : State ρ τ :=
  if s.recRx.isSome ∨ s.recWriter then s.stopLocked (.diskError n) else s

/-- The end of `stop_locked`, with the writer thread gone. -/
def afterJoin (s : State ρ τ) : State ρ τ :=
  { s with
    recording := { s.recording with
      queue := { s.recording.queue with blocks := [], bytes := 0 } }
    gtk := .mainLoop }

/-- The block that is written is taken down, and a failure asks for a stop. -/
def write (s : State ρ τ) (d : Disk) : Option (State ρ τ) :=
  match s.recording.writer with
  | .writing b =>
    (s.recording.write d).map fun r =>
      { s with
        recording := r
        written := s.written ++ [(s.current, b)]
        stopIdles :=
          if ((s.recording.output b.stream).recWriteBlock b d).2 then s.stopIdles ++ [s.current]
          else s.stopIdles }
  | _ => none

variable [DecidableEq τ]

/-- The check of a tap, outside the mutex. -/
def tap (s : State ρ τ) (t : τ) (rx : ρ) (stream : Stream) (samples : List (ℚ × ℚ)) : State ρ τ :=
  if s.recRx ≠ some rx ∨ samples = [] then s
  else { s with taps := Function.update s.taps t (some (convert stream samples (rx, s.current))) }

/-- `rec_enqueue` -/
def enqueue (s : State ρ τ) (t : τ) (b : Block (ρ × ℕ)) : State ρ τ :=
  { s with recording := s.recording.enqueue b, taps := Function.update s.taps t none }

end State

variable [DecidableEq ρ] [DecidableEq τ]

/-- The call runs on the GTK thread. -/
def State.call (s : State ρ τ) (t : State ρ τ) : Option (State ρ τ) :=
  if s.gtk = .mainLoop then some t else none

variable (ρ τ)

def system : System (State ρ τ) (Label ρ τ) where
  init :=
    { recRx := none
      recWriter := false
      recording := { Recording.start (fun _ => false) [] with run := false, writer := .ended }
      gtk := .mainLoop
      stopIdles := []
      taps := fun _ => none
      current := 0
      owner := fun _ => none
      written := []
      ended := [] }
  step s
    | .tap t rx stream samples =>
      match s.taps t with
      | none => some (s.tap t rx stream samples)
      | some _ => none
    | .enqueue t => (s.taps t).map (s.enqueue t)
    | .toggle rx wanted opened thread => s.call (s.recorderToggle rx wanted opened thread)
    | .stopForReceiver rx => s.call (s.recorderStopForReceiver rx)
    | .stopIdle =>
      match s.stopIdles with
      | [] => none
      | n :: idles => s.call ({ s with stopIdles := idles }.recorderStop n)
    | .joined =>
      match s.gtk, s.recording.writer with
      | .joining, .ended => some s.afterJoin
      | _, _ => none
    | .take => s.recording.take.map fun r => { s with recording := r }
    | .write d => s.write d
    | .finish reached => (s.recording.finish reached).map fun r => { s with recording := r }

variable {ρ τ}

namespace State

omit [DecidableEq ρ] [DecidableEq τ]

/-- The block was tapped from the receiver of the recording `n`, while that was running. -/
def Own (s : State ρ τ) (n : ℕ) (b : Block (ρ × ℕ)) : Prop :=
  b.tag.2 = n ∧ s.owner n = some b.tag.1

/-- What may end the recording `n`. -/
def MayEnd (s : State ρ τ) (n : ℕ) : Cause ρ → Prop
  | .toggle => True
  | .receiverClosed rx => s.owner n = some rx
  | .diskError m => m = n

/-- **Isolation**: a recording holds its own blocks, and ends for reasons of its own. -/
def Isolated (s : State ρ τ) : Prop :=
  (∀ p ∈ s.written, s.Own p.1 p.2) ∧ ∀ p ∈ s.ended, s.MayEnd p.1 p.2

/-- A tap finds its recording still running when it comes to `rec_enqueue`, or none; and so does
`rec_stop_idle`. -/
def Clean (s : State ρ τ) : Label ρ τ → Prop
  | .enqueue t => s.recording.run = true → ∀ b ∈ s.taps t, b.tag.2 = s.current
  | .stopIdle => s.recRx.isSome ∨ s.recWriter = true → ∀ n ∈ s.stopIdles.head?, n = s.current
  | _ => True

/-- The block that is being written. -/
def inFlight (s : State ρ τ) : List (Block (ρ × ℕ)) :=
  match s.recording.writer with
  | .writing b => [b]
  | _ => []

structure Inv (s : State ρ τ) : Prop where
  taps : ∀ t, ∀ b ∈ s.taps t, b.tag.2 ≤ s.current ∧ s.Own b.tag.2 b
  queue : ∀ b ∈ s.inFlight ++ s.recording.queue.blocks, s.Own s.current b
  running : s.recWriter = s.recRx.isSome ∧ ∀ rx ∈ s.recRx, s.owner s.current = some rx
  idle : s.recWriter = false → s.gtk = .mainLoop →
    s.recording.queue.blocks = [] ∧ s.recording.writer = .ended ∧ s.recording.run = false
  joining : s.gtk = .joining → s.recWriter = false ∧ s.recording.run = false
  numbers : (∀ p ∈ s.written, p.1 ≤ s.current) ∧ ∀ p ∈ s.ended, p.1 ≤ s.current
  isolated : s.Isolated

variable {s t : State ρ τ}

theorem Inv.stopLocked (hs : s.Inv) {cause : Cause ρ}
    (hcause : s.MayEnd s.current cause) : (s.stopLocked cause).Inv := by
  have hended : ∀ p ∈ s.ended ++ [(s.current, cause)], p.1 ≤ s.current ∧ s.MayEnd p.1 p.2 := by
    intro p hp
    rcases List.mem_append.1 hp with hp | hp
    · exact ⟨hs.numbers.2 p hp, hs.isolated.2 p hp⟩
    · obtain rfl := List.mem_singleton.1 hp
      exact ⟨le_rfl, hcause⟩
  unfold State.stopLocked
  dsimp only
  split
  · next hwriter =>
    have hwriter : s.recWriter = false := Bool.eq_false_iff.2 hwriter
    exact
      { taps := hs.taps
        queue := hs.queue
        running := ⟨hwriter, nofun⟩
        idle := hs.idle
        joining := hs.joining
        numbers := ⟨hs.numbers.1, fun p hp => (hended p hp).1⟩
        isolated := ⟨hs.isolated.1, fun p hp => (hended p hp).2⟩ }
  · exact
      { taps := hs.taps
        queue := hs.queue
        running := ⟨rfl, nofun⟩
        idle := fun _ h => by cases h
        joining := fun _ => ⟨rfl, rfl⟩
        numbers := ⟨hs.numbers.1, fun p hp => (hended p hp).1⟩
        isolated := ⟨hs.isolated.1, fun p hp => (hended p hp).2⟩ }

/-- A recording is new: nothing that was tapped, written or ended before is about it. -/
theorem Own.start {n : ℕ} {b : Block (ρ × ℕ)} (h : s.Own n b) (hn : n ≤ s.current) (rx : ρ) :
    b.tag.2 = n ∧ Function.update s.owner (s.current + 1) (some rx) n = some b.tag.1 := by
  rw [Function.update_of_ne (by omega)]
  exact h

theorem Inv.recorderToggle (hs : s.Inv) (hloop : s.gtk = .mainLoop) (rx : ρ)
    (wanted opened : Stream → Bool) (thread : Bool) :
    (s.recorderToggle rx wanted opened thread).Inv := by
  unfold State.recorderToggle
  by_cases hrx : s.recRx.isSome = true
  · rw [if_pos hrx]
    exact hs.stopLocked trivial
  · have hwriter : s.recWriter = false := hs.running.1.trans (Bool.eq_false_iff.2 hrx)
    obtain ⟨hblocks, hended, -⟩ := hs.idle hwriter hloop
    rw [if_neg hrx]
    split
    · exact hs
    · split
      · exact hs
      · dsimp only
        rw [hblocks]
        split
        · -- the writer thread could not be started
          exact
            { taps := hs.taps
              queue := nofun
              running := hs.running
              idle := fun _ _ => ⟨rfl, rfl, rfl⟩
              joining := fun h => ⟨hwriter, rfl⟩
              numbers := hs.numbers
              isolated := hs.isolated }
        · refine
            { taps := fun t b hb => ?_
              queue := nofun
              running := ⟨rfl, fun _ h => ?_⟩
              idle := fun h => by cases h
              joining := fun h => absurd (hloop.symm.trans h) (by decide)
              numbers := ⟨fun p hp => (hs.numbers.1 p hp).trans (Nat.le_succ _),
                fun p hp => (hs.numbers.2 p hp).trans (Nat.le_succ _)⟩
              isolated := ⟨fun p hp => ?_, fun p hp => ?_⟩ }
          · obtain ⟨hle, hown⟩ := hs.taps t b hb
            exact ⟨hle.trans (Nat.le_succ _), hown.start hle rx⟩
          · obtain rfl := Option.some.inj h
            exact Function.update_self ..
          · exact (hs.isolated.1 p hp).start (hs.numbers.1 p hp) rx
          · have hle := hs.numbers.2 p hp
            have hmay := hs.isolated.2 p hp
            cases hcause : p.2 with
            | toggle => trivial
            | receiverClosed rx' =>
              rw [hcause] at hmay
              exact (Function.update_of_ne (by omega) _ _).trans hmay
            | diskError n =>
              rw [hcause] at hmay
              exact hmay

theorem Inv.recorderStopForReceiver [DecidableEq ρ] (hs : s.Inv) (rx : ρ) :
    (s.recorderStopForReceiver rx).Inv := by
  unfold State.recorderStopForReceiver
  split
  · next hrx => exact hs.stopLocked (hs.running.2 rx hrx)
  · exact hs

theorem Inv.recorderStop (hs : s.Inv) {n : ℕ}
    (hclean : s.recRx.isSome ∨ s.recWriter = true → n = s.current) : (s.recorderStop n).Inv := by
  unfold State.recorderStop
  split
  · next hrunning => exact hs.stopLocked (hclean hrunning)
  · exact hs

theorem Inv.afterJoin (hs : s.Inv) (hjoining : s.gtk = .joining)
    (hended : s.recording.writer = .ended) : s.afterJoin.Inv where
  taps := hs.taps
  queue b hb := by
    have hnone : s.afterJoin.inFlight = [] := by
      unfold inFlight
      rw [show s.afterJoin.recording.writer = .ended from hended]
    rw [hnone] at hb
    exact absurd hb List.not_mem_nil
  running := hs.running
  idle _ _ := ⟨rfl, hended, (hs.joining hjoining).2⟩
  joining h := by cases h
  numbers := hs.numbers
  isolated := hs.isolated

theorem mem_push {q : Queue (ρ × ℕ)} {b c : Block (ρ × ℕ)} (h : c ∈ (q.push b).blocks) :
    c ∈ q.blocks ∨ c = b := by
  unfold Queue.push at h
  split at h
  · exact .inl h
  · exact (List.mem_append.1 h).imp_right List.mem_singleton.1

theorem Inv.enqueue [DecidableEq τ] (hs : s.Inv) {k : τ} {b : Block (ρ × ℕ)}
    (hb : s.taps k = some b) (hclean : s.recording.run = true → b.tag.2 = s.current) :
    (s.enqueue k b).Inv := by
  have htaps : ∀ u, ∀ c ∈ Function.update s.taps k none u,
      c.tag.2 ≤ s.current ∧ s.Own c.tag.2 c := by
    intro u c hc
    rcases eq_or_ne u k with rfl | hne
    · rw [Function.update_self] at hc
      cases hc
    · rw [Function.update_of_ne hne] at hc
      exact hs.taps u c hc
  by_cases hrun : s.recording.run = true
  · have hown : s.Own s.current b := hclean hrun ▸ (hs.taps k b hb).2
    unfold State.enqueue
    rw [Recording.enqueue_of_run hrun]
    refine
      { taps := htaps
        queue := fun c hc => ?_
        running := hs.running
        idle := fun hwriter hloop => ?_
        joining := fun h => ?_
        numbers := hs.numbers
        isolated := hs.isolated }
    · rcases List.mem_append.1 hc with hc | hc
      · exact hs.queue c (List.mem_append_left _ hc)
      · rcases mem_push hc with hc | rfl
        · exact hs.queue c (List.mem_append_right _ hc)
        · exact hown
    · exact absurd hrun (Bool.eq_false_iff.1 (hs.idle hwriter hloop).2.2)
    · exact absurd hrun (Bool.eq_false_iff.1 (hs.joining h).2)
  · -- the block is freed
    have hfree : s.recording.enqueue b = s.recording := if_neg hrun
    unfold State.enqueue
    rw [hfree]
    exact { hs with taps := htaps }

theorem Inv.tap [DecidableEq ρ] [DecidableEq τ] (hs : s.Inv) (k : τ) (rx : ρ) (stream : Stream)
    (samples : List (ℚ × ℚ)) : (s.tap k rx stream samples).Inv := by
  unfold State.tap
  split
  · exact hs
  · next h =>
    have hrx : s.recRx = some rx := not_not.1 (not_or.1 h).1
    refine { hs with taps := fun u b hb => ?_ }
    dsimp only at hb
    rcases eq_or_ne u k with rfl | hne
    · rw [Function.update_self] at hb
      obtain rfl := Option.some.inj hb
      exact ⟨le_rfl, rfl, hs.running.2 rx hrx⟩
    · rw [Function.update_of_ne hne] at hb
      exact hs.taps u b hb

/-- The writer thread has a block that was queued, or none. -/
theorem Inv.take {r : Recording (ρ × ℕ)} (hs : s.Inv) (h : s.recording.take = some r) :
    { s with recording := r }.Inv := by
  have hinFlight : s.inFlight = [] ∧ s.recording.writer = .loop := by
    unfold inFlight
    unfold Recording.take at h
    split at h
    · next hloop => exact ⟨by rw [hloop], hloop⟩
    · cases h
  have hloop := hinFlight.2
  have hidle : ¬ (s.recWriter = false ∧ s.gtk = .mainLoop) := fun hidle => by
    have hended := (hs.idle hidle.1 hidle.2).2.1
    rw [hloop] at hended
    cases hended
  unfold Recording.take at h
  rw [hloop] at h
  dsimp only at h
  split at h
  · split at h
    · cases h
    · next hblocks hrun =>
      obtain rfl := Option.some.inj h
      exact
        { taps := hs.taps
          queue := fun b hb => by
            change b ∈ [] ++ s.recording.queue.blocks at hb
            rw [hblocks] at hb
            cases hb
          running := hs.running
          idle := fun hwriter hmain => absurd ⟨hwriter, hmain⟩ hidle
          joining := hs.joining
          numbers := hs.numbers
          isolated := hs.isolated }
  · next b blocks hblocks =>
    obtain rfl := Option.some.inj h
    exact
      { taps := hs.taps
        queue := fun c hc => by
          change c ∈ b :: blocks at hc
          exact hs.queue c (List.mem_append_right _ (hblocks ▸ hc))
        running := hs.running
        idle := fun hwriter hmain => absurd ⟨hwriter, hmain⟩ hidle
        joining := hs.joining
        numbers := hs.numbers
        isolated := hs.isolated }

theorem Inv.write {d : Disk} (hs : s.Inv) (h : s.write d = some t) : t.Inv := by
  unfold State.write at h
  cases hwriter : s.recording.writer with
  | writing b =>
    have hidle : ¬ (s.recWriter = false ∧ s.gtk = .mainLoop) := fun hidle => by
      have hended := (hs.idle hidle.1 hidle.2).2.1
      rw [hwriter] at hended
      cases hended
    have hown : s.Own s.current b := by
      refine hs.queue b (List.mem_append_left _ ?_)
      unfold inFlight
      rw [hwriter]
      exact List.mem_singleton_self b
    unfold Recording.write at h
    rw [hwriter] at h
    obtain rfl := Option.some.inj h
    refine
      { taps := hs.taps
        queue := fun c hc => hs.queue c (List.mem_append_right _ hc)
        running := hs.running
        idle := fun hw hmain => absurd ⟨hw, hmain⟩ hidle
        joining := hs.joining
        numbers := ⟨fun p hp => ?_, hs.numbers.2⟩
        isolated := ⟨fun p hp => ?_, hs.isolated.2⟩ }
    · rcases List.mem_append.1 hp with hp | hp
      · exact hs.numbers.1 p hp
      · obtain rfl := List.mem_singleton.1 hp
        exact le_rfl
    · rcases List.mem_append.1 hp with hp | hp
      · exact hs.isolated.1 p hp
      · obtain rfl := List.mem_singleton.1 hp
        exact hown
  | _ =>
    rw [hwriter] at h
    cases h

theorem Inv.finish {r : Recording (ρ × ℕ)} {reached : Stream → ℕ} (hs : s.Inv)
    (h : s.recording.finish reached = some r) : { s with recording := r }.Inv := by
  unfold Recording.finish at h
  split at h
  · next hclosing =>
    obtain rfl := Option.some.inj h
    exact
      { taps := hs.taps
        queue := fun c hc => hs.queue c (List.mem_append_right _ hc)
        running := hs.running
        idle := fun hwriter hmain => by
          have hended := (hs.idle hwriter hmain).2.1
          rw [hclosing] at hended
          cases hended
        joining := hs.joining
        numbers := hs.numbers
        isolated := hs.isolated }
  · cases h

theorem call_some {u : State ρ τ} (h : s.call u = some t) : s.gtk = .mainLoop ∧ u = t := by
  unfold State.call at h
  split at h
  · next hloop => exact ⟨hloop, Option.some.inj h⟩
  · cases h

/-- **One step** that is clean keeps the recordings apart. -/
theorem Inv.step [DecidableEq ρ] [DecidableEq τ] {l : Label ρ τ} (hs : s.Inv) (hl : s.Clean l)
    (h : (system ρ τ).step s l = some t) : t.Inv := by
  cases l with
  | tap k rx stream samples =>
    change (match s.taps k with | none => some _ | some _ => none) = some t at h
    split at h
    · exact Option.some.inj h ▸ hs.tap k rx stream samples
    · cases h
  | enqueue k =>
    obtain ⟨b, hb, rfl⟩ := Option.map_eq_some_iff.1 h
    exact hs.enqueue hb fun hrun => hl hrun b hb
  | toggle rx wanted opened thread =>
    obtain ⟨hloop, rfl⟩ := call_some h
    exact hs.recorderToggle hloop rx wanted opened thread
  | stopForReceiver rx =>
    obtain ⟨-, rfl⟩ := call_some h
    exact hs.recorderStopForReceiver rx
  | stopIdle =>
    change (match s.stopIdles with | [] => none | n :: idles => s.call _) = some t at h
    split at h
    · cases h
    · next n idles hidles =>
      obtain ⟨-, rfl⟩ := call_some h
      have hpopped : { s with stopIdles := idles }.Inv := { hs with }
      refine hpopped.recorderStop fun hrunning => hl hrunning n ?_
      rw [hidles]
      exact rfl
  | joined =>
    change (match s.gtk, s.recording.writer with
      | .joining, .ended => some s.afterJoin
      | _, _ => none) = some t at h
    split at h
    · next hjoining hended => exact Option.some.inj h ▸ hs.afterJoin hjoining hended
    · cases h
  | take =>
    obtain ⟨r, hr, rfl⟩ := Option.map_eq_some_iff.1 h
    exact hs.take hr
  | write d => exact hs.write h
  | finish reached =>
    obtain ⟨r, hr, rfl⟩ := Option.map_eq_some_iff.1 h
    exact hs.finish hr

theorem Inv.init [DecidableEq ρ] [DecidableEq τ] : (system ρ τ).init.Inv where
  taps _ _ h := by cases h
  queue _ h := by cases h
  running := ⟨rfl, nofun⟩
  idle _ _ := ⟨rfl, rfl, rfl⟩
  joining h := by cases h
  numbers := ⟨nofun, nofun⟩
  isolated := ⟨nofun, nofun⟩

end State

/-- **Recordings are isolated** in every run in which no tap and no stop of a failed write comes too
late, after another recording has been started. -/
theorem recordings_isolated {ls : List (Label ρ τ)} {s : State ρ τ}
    (hclean : (system ρ τ).Along State.Clean (system ρ τ).init ls)
    (h : (system ρ τ).exec (system ρ τ).init ls = some s) : s.Isolated :=
  ((system ρ τ).exec_induction_along (fun _ _ _ hs hl hstep => State.Inv.step hs hl hstep)
    ls _ _ State.Inv.init hclean h).isolated

/-! ## Runs of two receivers -/

instance : DecidableRel (State.Clean (ρ := ρ) (τ := τ)) := fun s l =>
  match l with
  | .enqueue t => inferInstanceAs (Decidable (_ → ∀ b ∈ s.taps t, _))
  | .stopIdle => inferInstanceAs (Decidable (_ → ∀ n ∈ s.stopIdles.head?, _))
  | .tap _ _ _ _ | .toggle _ _ _ _ | .stopForReceiver _ | .joined | .take | .write _
  | .finish _ => .isTrue trivial

/-- Both streams are recorded, and both files open. -/
def record (rx : ℕ) : Label ℕ ℕ := .toggle rx (fun _ => true) (fun _ => true) true

/-- The Record button, and the writer thread runs to its end. -/
def stopRecording : List (Label ℕ ℕ) := [record 0, .take, .finish fun _ => 44, .joined]

/-- The receiver 0 delivers a block, which is written. -/
def oneBlock : List (Label ℕ ℕ) :=
  record 0 :: .tap 0 0 .iq [(1 / 2, -1 / 2)] :: .enqueue 0 :: .take :: .write goodDisk ::
    stopRecording

theorem recordings_isolated_oneBlock : ∃ s,
    (system ℕ ℕ).exec (system ℕ ℕ).init oneBlock = some s ∧ s.written.length = 1 ∧ s.Isolated := by
  have hrun : ((system ℕ ℕ).exec (system ℕ ℕ).init oneBlock).any
      (fun s => decide (s.written.length = 1)) = true := by decide +kernel
  obtain ⟨s, hs, hwritten⟩ := (system ℕ ℕ).exists_exec hrun
  exact ⟨s, hs, hwritten, recordings_isolated (by decide +kernel) hs⟩

/-- Between the check of a tap of the receiver 0 and its `rec_enqueue` the recording is stopped, and
the receiver 1 recorded. -/
def lateTap : List (Label ℕ ℕ) :=
  record 0 :: .tap 0 0 .iq [(1 / 2, -1 / 2)] :: stopRecording ++
    [record 1, .enqueue 0, .take, .write goodDisk]

/-- A write fails, and before its `rec_stop_idle` is dispatched the recording is stopped by hand and
the receiver 1 recorded. -/
def lateStop : List (Label ℕ ℕ) :=
  record 0 :: .tap 0 0 .iq [(1 / 2, -1 / 2)] :: .enqueue 0 :: .take :: .write fullDisk ::
    stopRecording ++ [record 1, .stopIdle]

/-- The block of the receiver 0 is in the recording of the receiver 1, or the failure of the first
recording ends the second. -/
theorem not_recordings_isolated :
    (∃ s, (system ℕ ℕ).exec (system ℕ ℕ).init lateTap = some s ∧ ¬ s.Isolated) ∧
    ∃ s, (system ℕ ℕ).exec (system ℕ ℕ).init lateStop = some s ∧ ¬ s.Isolated := by
  constructor
  · have hrun : ((system ℕ ℕ).exec (system ℕ ℕ).init lateTap).any
        (fun s => decide (∃ p ∈ s.written, p.2.tag.2 ≠ p.1)) = true := by decide +kernel
    obtain ⟨s, hs, p, hp, hforeign⟩ := (system ℕ ℕ).exists_exec hrun
    exact ⟨s, hs, fun h => hforeign (h.1 p hp).1⟩
  · have hrun : ((system ℕ ℕ).exec (system ℕ ℕ).init lateStop).any
        (fun s => decide ((2, Cause.diskError 1) ∈ s.ended)) = true := by decide +kernel
    obtain ⟨s, hs, hended⟩ := (system ℕ ℕ).exists_exec hrun
    exact ⟨s, hs, fun h => absurd (show 1 = 2 from h.2 _ hended) (by decide)⟩

end MacHPSDR.Recorder.Isolation
