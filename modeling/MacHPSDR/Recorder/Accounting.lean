import MacHPSDR.Foundations.Transition
import MacHPSDR.Recorder.Writer
import Mathlib

/-!
# What a recording loses

Of one recording, every frame that was offered is counted as dropped, or comes into the segments in
the order in which it was queued, up to a write of its stream that fails, for which an alert and a
stop are queued. The sizes in the header of a closed segment are those of the whole frames that it
holds.
-/

namespace MacHPSDR.Recorder

variable {γ : Type*}

/-! ## Segments -/

/-- The header tells what the file holds, in 32 bits. -/
def Segment.Sound (g : Segment) : Prop :=
  g.dataSize = g.frames.length * 4 ∧ g.riffSize = 36 + g.dataSize ∧ g.riffSize < 2 ^ 32

/-- The bytes of a file that `close_wav` finds are whole frames after the header. -/
theorem closeWav_real {f : File} (dataBytes reached : ℕ) (hpart : f.part < 4)
    (hsize : f.frames.length * 4 < 2 ^ 32 - 36) : ∃ n ≤ f.frames.length,
      closeWav f dataBytes reached = ⟨36 + n * 4, n * 4, f.frames.take n⟩ ∧
        (44 + f.frames.length * 4 ≤ reached → n = f.frames.length) := by
  set fileEnd := min reached (44 + (f.frames.length * 4 + f.part)) with hend
  have hle : fileEnd ≤ 44 + (f.frames.length * 4 + f.part) := min_le_right _ _
  set n := (fileEnd - 44) / 4 with hn
  have hnle : n ≤ f.frames.length := by omega
  have hreal : (if fileEnd ≥ 44 then n * 4 % 2 ^ 32 else 0) = n * 4 := by
    split
    · exact Nat.mod_eq_of_lt (by omega)
    · omega
  have hkept (k : ℕ) : (if n * 4 ≠ k then n * 4 else k) = n * 4 := by
    split
    · rfl
    · next h => exact (not_not.1 h).symm
  refine ⟨n, hnle, ?_, fun hreached => ?_⟩
  · unfold closeWav
    dsimp only
    rw [← hend, ← hn, hreal, hkept, Nat.mod_eq_of_lt (by omega), Nat.mul_div_cancel n (by omega)]
  · have hwhole : fileEnd ≥ 44 + f.frames.length * 4 := le_min hreached (by omega)
    omega

theorem closeWav_sound {f : File} {dataBytes reached : ℕ} (hpart : f.part < 4)
    (hsize : f.frames.length * 4 < 2 ^ 32 - 36) : (closeWav f dataBytes reached).Sound := by
  obtain ⟨n, hn, hclose, -⟩ := closeWav_real dataBytes reached hpart hsize
  rw [hclose]
  refine ⟨?_, rfl, ?_⟩
  · rw [List.length_take, min_eq_left hn]
  · change 36 + n * 4 < 2 ^ 32
    omega

/-- A close that brings all whole frames to the disk keeps them. -/
theorem closeWav_frames {f : File} {dataBytes reached : ℕ} (hpart : f.part < 4)
    (hsize : f.frames.length * 4 < 2 ^ 32 - 36) (hreached : 44 + f.frames.length * 4 ≤ reached) :
    (closeWav f dataBytes reached).frames = f.frames := by
  obtain ⟨n, -, hclose, hall⟩ := closeWav_real dataBytes reached hpart hsize
  rw [hclose, hall hreached, List.take_length]

namespace Output

/-- What the segments hold, in order. -/
def data (o : Output) : List Frame :=
  o.closed.flatMap Segment.frames ++ o.file.elim [] File.frames

/-- The counter is the size of the file, which is far from overflowing, and what is closed is
sound. -/
structure Sound (o : Output) : Prop where
  file : ∀ f ∈ o.file, f.part = 0 ∧ o.bytes = f.frames.length * 4 ∧
    o.bytes < recSplitBytes + recQueueMaxBytes
  closed : ∀ g ∈ o.closed, g.Sound

theorem Sound.size {o : Output} (ho : o.Sound) {f : File} (hf : o.file = some f) :
    f.part < 4 ∧ f.frames.length * 4 < 2 ^ 32 - 36 := by
  obtain ⟨hpart, hbytes, hlt⟩ := ho.file f hf
  unfold recSplitBytes recQueueMaxBytes at hlt
  omega

theorem sound_snoc {o : Output} (ho : o.Sound) {g : Segment} (hg : g.Sound) :
    ∀ g' ∈ o.closed ++ [g], g'.Sound := by
  intro g' hg'
  rcases List.mem_append.1 hg' with hg' | hg'
  · exact ho.closed g' hg'
  · exact List.mem_singleton.1 hg' ▸ hg

theorem Sound.rollSegment {o : Output} (ho : o.Sound) {f : File} (hf : o.file = some f)
    (d : Disk) : (o.rollSegment f d).Sound where
  file g hg := by
    unfold Output.rollSegment at hg
    dsimp only at hg
    split at hg
    · obtain rfl := Option.some.inj hg
      exact ⟨rfl, rfl, show 0 < recSplitBytes + recQueueMaxBytes by decide⟩
    · cases hg
  closed := by
    obtain ⟨hpart, hsize⟩ := ho.size hf
    exact sound_snoc ho (closeWav_sound hpart hsize)

/-- The frames that land of a write that fails. -/
theorem fwrite_short {d : Disk} {b : Block γ} (h : min d.taken b.bytes / 2 ≠ b.frames * 2) :
    min d.taken b.bytes / 2 / 2 < b.pcm.length := by
  have hle : min d.taken b.bytes ≤ b.bytes := min_le_right _ _
  unfold Block.bytes Block.frames at *
  omega

theorem Sound.fwrite {o : Output} (ho : o.Sound) {f : File} (hf : o.file = some f)
    (hsplit : o.bytes < recSplitBytes) {b : Block γ} (hb : b.bytes ≤ recQueueMaxBytes) (d : Disk) :
    (o.fwrite f b d).1.Sound := by
  obtain ⟨hpart, hbytes, -⟩ := ho.file f hf
  have hlen : b.bytes = b.pcm.length * 4 := rfl
  unfold recSplitBytes at hsplit
  unfold recQueueMaxBytes at hb
  unfold Output.fwrite
  dsimp only
  split
  · next hshort =>
    have hgood := fwrite_short hshort
    refine ⟨nofun, sound_snoc ho (closeWav_sound (Nat.mod_lt _ (by omega)) ?_)⟩
    rw [List.length_append, List.length_take]
    omega
  · refine ⟨fun g hg => ?_, ho.closed⟩
    obtain rfl := Option.some.inj hg
    have hframes : (o.bytes + b.frames * 4) % 2 ^ 32 = (f.frames ++ b.pcm).length * 4 := by
      rw [List.length_append, Nat.mod_eq_of_lt]
      · unfold Block.frames
        omega
      · unfold Block.frames
        omega
    refine ⟨hpart, hframes, ?_⟩
    dsimp only
    rw [hframes, List.length_append]
    unfold recSplitBytes recQueueMaxBytes
    omega

/-- **One block** keeps the files sound, whatever the disk does. -/
theorem Sound.recWriteBlock {o : Output} (ho : o.Sound) {b : Block γ}
    (hb : b.bytes ≤ recQueueMaxBytes) (d : Disk) : (o.recWriteBlock b d).1.Sound := by
  unfold Output.recWriteBlock
  cases hf : o.file with
  | none => exact ho
  | some f =>
    dsimp only
    by_cases hsplit : o.bytes ≥ recSplitBytes
    · rw [if_pos hsplit]
      cases hroll : (o.rollSegment f d).file with
      | none => exact ho.rollSegment hf d
      | some g => exact (ho.rollSegment hf d).fwrite hroll (show 0 < recSplitBytes by decide) hb d
    · rw [if_neg hsplit, hf]
      exact ho.fwrite hf (not_le.1 hsplit) hb d

theorem Sound.finish {o : Output} (ho : o.Sound) (reached : ℕ) : (o.finish reached).Sound := by
  unfold Output.finish
  cases hf : o.file with
  | none => exact ho
  | some f =>
    obtain ⟨hpart, hsize⟩ := ho.size hf
    exact ⟨nofun, sound_snoc ho (closeWav_sound hpart hsize)⟩

/-- The disk opens the continuation, and keeps what is written when a file is closed. -/
structure Keeps (o : Output) (b : Block γ) (d : Disk) : Prop where
  opened : o.file.isSome → o.bytes ≥ recSplitBytes → d.opened = true ∧ 44 + o.bytes ≤ d.rolled
  failed : (o.recWriteBlock b d).2 = true → 44 + o.bytes + b.bytes ≤ d.failed

theorem data_eq {o : Output} {f : File} (hf : o.file = some f) :
    o.data = o.closed.flatMap Segment.frames ++ f.frames := by
  unfold data
  rw [hf]
  rfl

theorem data_rollSegment {o : Output} (ho : o.Sound) {f : File} (hf : o.file = some f) {d : Disk}
    (hkept : 44 + o.bytes ≤ d.rolled) : (o.rollSegment f d).data = o.data := by
  obtain ⟨hpart, hsize⟩ := ho.size hf
  obtain ⟨-, hbytes, -⟩ := ho.file f hf
  have hclosed : (closeWav f o.bytes d.rolled).frames = f.frames :=
    closeWav_frames hpart hsize (by omega)
  have hfile : (o.rollSegment f d).file.elim [] File.frames = [] := by
    unfold rollSegment
    dsimp only
    split <;> rfl
  rw [data_eq hf, data, hfile, List.append_nil]
  unfold rollSegment
  rw [List.flatMap_append, List.flatMap_singleton, hclosed]

/-- `fwrite` adds all of the block to the data, or its beginning and the stream is given up. -/
theorem data_fwrite {o : Output} (ho : o.Sound) {f : File} (hf : o.file = some f)
    (hsplit : o.bytes < recSplitBytes) {b : Block γ} (hb : b.bytes ≤ recQueueMaxBytes) {d : Disk}
    (hkept : (o.fwrite f b d).2 = true → 44 + o.bytes + b.bytes ≤ d.failed) :
    ∃ n ≤ b.pcm.length, (o.fwrite f b d).1.data = o.data ++ b.pcm.take n ∧
      (o.fwrite f b d).1.written = o.written + n ∧
      ((o.fwrite f b d).2 = false → n = b.pcm.length ∧ (o.fwrite f b d).1.file.isSome) := by
  obtain ⟨hpart, hbytes, -⟩ := ho.file f hf
  have hlen : b.bytes = b.pcm.length * 4 := rfl
  unfold recSplitBytes at hsplit
  unfold recQueueMaxBytes at hb
  unfold Output.fwrite at hkept ⊢
  dsimp only at hkept ⊢
  by_cases hshort : min d.taken b.bytes / 2 ≠ b.frames * 2
  · rw [if_pos hshort] at hkept ⊢
    have hgood := fwrite_short hshort
    set good := min d.taken b.bytes / 2 / 2 with hdef
    have hlength : (f.frames ++ b.pcm.take good).length = f.frames.length + good := by
      rw [List.length_append, List.length_take, min_eq_left hgood.le]
    have hfailed : 44 + o.bytes + b.bytes ≤ d.failed := hkept rfl
    refine ⟨good, hgood.le, ?_, rfl, fun h => by cases h⟩
    rw [data_eq hf, data]
    dsimp only
    rw [List.flatMap_append, List.flatMap_singleton, closeWav_frames]
    · exact (List.append_nil _).trans (List.append_assoc ..).symm
    · exact Nat.mod_lt _ (by omega)
    · rw [hlength]
      omega
    · rw [hlength]
      omega
  · rw [if_neg hshort]
    refine ⟨b.pcm.length, le_rfl, ?_, rfl, fun _ => ⟨rfl, rfl⟩⟩
    rw [data_eq hf, List.take_length, data, List.append_assoc]
    rfl

/-- **One block** of a stream that has a file comes to its segments, or the stream fails. -/
theorem data_recWriteBlock {o : Output} (ho : o.Sound) (hfile : o.file.isSome) {b : Block γ}
    (hb : b.bytes ≤ recQueueMaxBytes) {d : Disk} (hkeeps : o.Keeps b d) :
    ∃ n ≤ b.pcm.length, (o.recWriteBlock b d).1.data = o.data ++ b.pcm.take n ∧
      (o.recWriteBlock b d).1.written = o.written + n ∧
      ((o.recWriteBlock b d).2 = false →
        n = b.pcm.length ∧ (o.recWriteBlock b d).1.file.isSome) := by
  obtain ⟨f, hf⟩ := Option.isSome_iff_exists.1 hfile
  obtain ⟨hopened, hfailed⟩ := hkeeps
  unfold Output.recWriteBlock at hfailed ⊢
  rw [hf] at hfailed ⊢
  dsimp only at hfailed ⊢
  by_cases hsplit : o.bytes ≥ recSplitBytes
  · obtain ⟨hopen, hrolled⟩ := hopened hfile hsplit
    have hroll : (o.rollSegment f d).file = some ⟨[], 0⟩ := if_pos hopen
    rw [if_pos hsplit, hroll] at hfailed ⊢
    dsimp only at hfailed ⊢
    obtain ⟨n, hn, hdata, hwritten, hwhole⟩ := data_fwrite (ho.rollSegment hf d) hroll
      (show 0 < recSplitBytes by decide) hb fun h => le_trans (by
        change 44 + 0 + b.bytes ≤ 44 + o.bytes + b.bytes
        omega) (hfailed h)
    rw [data_rollSegment ho hf hrolled] at hdata
    exact ⟨n, hn, hdata, hwritten, hwhole⟩
  · rw [if_neg hsplit, hf] at hfailed ⊢
    exact data_fwrite ho hf (not_le.1 hsplit) hb hfailed

theorem data_finish {o : Output} (ho : o.Sound) {reached : ℕ}
    (hkept : o.file.isSome → 44 + o.bytes ≤ reached) : (o.finish reached).data = o.data := by
  unfold Output.finish
  cases hf : o.file with
  | none => rfl
  | some f =>
    obtain ⟨hpart, hsize⟩ := ho.size hf
    obtain ⟨-, hbytes, -⟩ := ho.file f hf
    have hreached := hkept (hf ▸ rfl)
    have hclosed : (closeWav f o.bytes reached).frames = f.frames :=
      closeWav_frames hpart hsize (by omega)
    rw [data_eq hf, data]
    dsimp only
    rw [List.flatMap_append, List.flatMap_singleton, hclosed]
    exact List.append_nil _

/-- A stream that fails is given up. -/
theorem file_of_failed {o : Output} {b : Block γ} {d : Disk} (h : (o.recWriteBlock b d).2 = true) :
    (o.recWriteBlock b d).1.file = none := by
  have hwrite (o : Output) (f : File) (h : (o.fwrite f b d).2 = true) :
      (o.fwrite f b d).1.file = none := by
    unfold Output.fwrite at h ⊢
    dsimp only at h ⊢
    split at h
    · next hshort => rw [if_pos hshort]
    · cases h
  unfold Output.recWriteBlock at h ⊢
  cases hf : o.file with
  | none =>
    rw [hf] at h
    cases h
  | some f =>
    rw [hf] at h
    dsimp only at h ⊢
    generalize (if o.bytes ≥ recSplitBytes then o.rollSegment f d else o) = o' at h ⊢
    cases hf' : o'.file with
    | none =>
      rw [hf'] at h
      cases h
    | some g =>
      rw [hf'] at h
      exact hwrite o' g h

theorem file_finish (o : Output) (reached : ℕ) : (o.finish reached).file = none := by
  unfold Output.finish
  split
  · next hf => exact hf
  · rfl

end Output

/-! ## A recording -/

/-- The block that is being written. -/
def Recording.inFlight (r : Recording γ) : List (Block γ) :=
  match r.writer with
  | .writing b => [b]
  | _ => []

/-- The frames of one stream. -/
def framesOf (k : Stream) (blocks : List (Block γ)) : List Frame :=
  (blocks.filter fun b => b.stream = k).flatMap Block.pcm

theorem framesOf_append (k : Stream) (bs cs : List (Block γ)) :
    framesOf k (bs ++ cs) = framesOf k bs ++ framesOf k cs := by
  unfold framesOf
  rw [List.filter_append, List.flatMap_append]

theorem framesOf_singleton (k : Stream) (b : Block γ) :
    framesOf k [b] = if b.stream = k then b.pcm else [] := by
  unfold framesOf
  split
  · next h => simp [h]
  · next h => simp [h]

namespace Accounting

structure State (γ : Type*) where
  recording : Recording γ
  /-- The blocks that were queued. -/
  accepted : List (Block γ)
  /-- The blocks that the queue had no room for. -/
  refused : List (Block γ)

inductive Label (γ : Type*)
  | offer (b : Block γ)
  | stop
  | take
  | write (d : Disk)
  | finish (reached : Stream → ℕ)

namespace State

/-- A block comes to `rec_enqueue`; it is offered to the recording while that runs. -/
def offer (s : State γ) (b : Block γ) : State γ :=
  if ¬ s.recording.run then s
  else if s.recording.queue.bytes + b.bytes > recQueueMaxBytes then
    { s with recording := s.recording.enqueue b, refused := s.refused ++ [b] }
  else { s with recording := s.recording.enqueue b, accepted := s.accepted ++ [b] }

end State

/-- A recording of the streams that are wanted, from its start to the end of its writer thread. -/
def system (γ : Type*) (wanted : Stream → Bool) : System (State γ) (Label γ) where
  init := ⟨Recording.start wanted [], [], []⟩
  step s
    | .offer b => some (s.offer b)
    | .stop => some { s with recording := { s.recording with run := false } }
    | .take => s.recording.take.map fun r => { s with recording := r }
    | .write d => (s.recording.write d).map fun r => { s with recording := r }
    | .finish reached => (s.recording.finish reached).map fun r => { s with recording := r }

namespace State

/-- The writer thread is at its end. -/
def AtEnd (s : State γ) : Prop := s.recording.writer = .closing ∨ s.recording.writer = .ended

structure Inv (s : State γ) : Prop where
  sound : ∀ k, (s.recording.output k).Sound
  small : ∀ b ∈ s.recording.inFlight ++ s.recording.queue.blocks, b.bytes ≤ recQueueMaxBytes
  dropped : ∀ k, s.recording.queue.dropped k = (framesOf k s.refused).length
  atEnd : s.AtEnd → s.recording.run = false ∧ s.recording.queue.blocks = []

/-- The disk opens every continuation, and keeps what is written when a file is closed. -/
def Keeps (s : State γ) : Label γ → Prop
  | .write d => ∀ b ∈ s.recording.inFlight, (s.recording.output b.stream).Keeps b d
  | .finish reached => ∀ k, (s.recording.output k).file.isSome →
      44 + (s.recording.output k).bytes ≤ reached k
  | _ => True

/-- The frames of the stream that were queued are in its segments, in order, and what is missing has
yet to be written, or comes after a write that failed. -/
structure Accounted (s : State γ) (k : Stream) : Prop where
  data : ∃ rest, framesOf k s.accepted = (s.recording.output k).data ++ rest ∧
    (s.recording.failed k = false →
      rest = framesOf k (s.recording.inFlight ++ s.recording.queue.blocks))
  written : (s.recording.output k).written = (s.recording.output k).data.length
  file : s.recording.failed k = false → s.recording.writer ≠ .ended →
    (s.recording.output k).file.isSome
  closed : s.recording.failed k = true ∨ s.recording.writer = .ended →
    (s.recording.output k).file = none

variable {s t : State γ}

theorem Inv.offer (hs : s.Inv) (b : Block γ) : (s.offer b).Inv := by
  unfold State.offer
  by_cases hrun : s.recording.run = true
  · have hatEnd : ¬ s.AtEnd := fun h => absurd hrun (Bool.eq_false_iff.1 (hs.atEnd h).1)
    rw [if_neg (not_not.2 hrun), Recording.enqueue_of_run hrun]
    unfold Queue.push
    split
    · exact
        { sound := hs.sound
          small := hs.small
          dropped := fun k => by
            dsimp only
            rw [framesOf_append, framesOf_singleton, List.length_append, ← hs.dropped k]
            rcases eq_or_ne b.stream k with rfl | hne
            · rw [Function.update_self, if_pos rfl]
              rfl
            · rw [Function.update_of_ne hne.symm, if_neg hne]
              rfl
          atEnd := fun h => absurd h hatEnd }
    · next hroom =>
      exact
        { sound := hs.sound
          small := fun c hc => by
            rw [← List.append_assoc] at hc
            rcases List.mem_append.1 hc with hc | hc
            · exact hs.small c hc
            · obtain rfl := List.mem_singleton.1 hc
              omega
          dropped := hs.dropped
          atEnd := fun h => absurd h hatEnd }
  · rw [if_pos hrun]
    exact hs

theorem take_cases {r r' : Recording γ} (h : r.take = some r') : r.writer = .loop ∧
    ((r.queue.blocks = [] ∧ r.run = false ∧ r' = { r with writer := .closing }) ∨
      ∃ b blocks, r.queue.blocks = b :: blocks ∧ r' = { r with
        queue := { r.queue with blocks := blocks, bytes := r.queue.bytes - b.bytes }
        writer := .writing b }) := by
  unfold Recording.take at h
  split at h
  · next hloop =>
    refine ⟨hloop, ?_⟩
    split at h
    · next hblocks =>
      split at h
      · cases h
      · next hrun => exact .inl ⟨hblocks, Bool.eq_false_iff.2 hrun, (Option.some.inj h).symm⟩
    · next b blocks hblocks => exact .inr ⟨b, blocks, hblocks, (Option.some.inj h).symm⟩
  · cases h

theorem write_cases {r r' : Recording γ} {d : Disk} (h : r.write d = some r') :
    ∃ b, r.writer = .writing b ∧ r' = { r with
      output := Function.update r.output b.stream ((r.output b.stream).recWriteBlock b d).1
      failed := if ((r.output b.stream).recWriteBlock b d).2 then
          Function.update r.failed b.stream true
        else r.failed
      writer := .loop } := by
  unfold Recording.write at h
  split at h
  · next b hb => exact ⟨b, hb, (Option.some.inj h).symm⟩
  · cases h

theorem finish_cases {r r' : Recording γ} {reached : Stream → ℕ} (h : r.finish reached = some r') :
    r.writer = .closing ∧
      r' = { r with output := fun k => (r.output k).finish (reached k), writer := .ended } := by
  unfold Recording.finish at h
  split at h
  · next hclosing => exact ⟨hclosing, (Option.some.inj h).symm⟩
  · cases h

theorem inFlight_of_loop {r : Recording γ} (h : r.writer = .loop) : r.inFlight = [] := by
  unfold Recording.inFlight
  rw [h]

theorem inFlight_of_writing {r : Recording γ} {b : Block γ} (h : r.writer = .writing b) :
    r.inFlight = [b] := by
  unfold Recording.inFlight
  rw [h]

/-- **One step** keeps the counters, the files and their headers. -/
theorem Inv.step {wanted : Stream → Bool} {l : Label γ} (hs : s.Inv)
    (h : (system γ wanted).step s l = some t) : t.Inv := by
  cases l with
  | offer b => exact Option.some.inj h ▸ hs.offer b
  | stop =>
    obtain rfl := Option.some.inj h
    exact ⟨hs.sound, hs.small, hs.dropped, fun h => ⟨rfl, (hs.atEnd h).2⟩⟩
  | take =>
    obtain ⟨r, hr, rfl⟩ := Option.map_eq_some_iff.1 h
    obtain ⟨-, ⟨hblocks, hrun, rfl⟩ | ⟨b, blocks, hblocks, rfl⟩⟩ := take_cases hr
    · exact ⟨hs.sound, fun c hc => hs.small c (List.mem_append_right _ hc), hs.dropped,
        fun _ => ⟨hrun, hblocks⟩⟩
    · refine ⟨hs.sound, fun c hc => hs.small c (List.mem_append_right _ ?_), hs.dropped, ?_⟩
      · rw [hblocks]
        exact hc
      · rintro (h | h) <;> cases h
  | write d =>
    obtain ⟨r, hr, rfl⟩ := Option.map_eq_some_iff.1 h
    obtain ⟨b, hb, rfl⟩ := write_cases hr
    have hsmall : b.bytes ≤ recQueueMaxBytes :=
      hs.small b (List.mem_append_left _ (inFlight_of_writing hb ▸ List.mem_singleton_self b))
    refine ⟨fun k => ?_, fun c hc => hs.small c (List.mem_append_right _ hc), hs.dropped, ?_⟩
    · dsimp only
      rcases eq_or_ne k b.stream with rfl | hne
      · rw [Function.update_self]
        exact (hs.sound b.stream).recWriteBlock hsmall d
      · rw [Function.update_of_ne hne]
        exact hs.sound k
    · rintro (h | h) <;> cases h
  | finish reached =>
    obtain ⟨r, hr, rfl⟩ := Option.map_eq_some_iff.1 h
    obtain ⟨hclosing, rfl⟩ := finish_cases hr
    exact ⟨fun k => (hs.sound k).finish _, fun c hc => hs.small c (List.mem_append_right _ hc),
      hs.dropped, fun _ => hs.atEnd (.inl hclosing)⟩

theorem Inv.init (wanted : Stream → Bool) : (system γ wanted).init.Inv where
  sound k := by
    refine ⟨fun f hf => ?_, nofun⟩
    change (if wanted k then some (⟨[], 0⟩ : File) else none) = some f at hf
    split at hf
    · obtain rfl := Option.some.inj hf
      exact ⟨rfl, rfl, show 0 < recSplitBytes + recQueueMaxBytes by decide⟩
    · cases hf
  small := nofun
  dropped _ := rfl
  atEnd h := by rcases h with h | h <;> cases h

theorem Accounted.offer {k : Stream} (hs : s.Accounted k) (b : Block γ) :
    (s.offer b).Accounted k := by
  unfold State.offer
  by_cases hrun : s.recording.run = true
  · rw [if_neg (not_not.2 hrun), Recording.enqueue_of_run hrun]
    unfold Queue.push
    split
    · exact ⟨hs.data, hs.written, hs.file, hs.closed⟩
    · obtain ⟨rest, hdata, hrest⟩ := hs.data
      refine ⟨⟨rest ++ framesOf k [b], ?_, fun hfailed => ?_⟩, hs.written, hs.file, hs.closed⟩
      · dsimp only
        rw [framesOf_append, hdata, List.append_assoc]
      · change rest ++ framesOf k [b] =
          framesOf k (s.recording.inFlight ++ (s.recording.queue.blocks ++ [b]))
        rw [← List.append_assoc, framesOf_append k _ [b], ← hrest hfailed]
  · rw [if_pos hrun]
    exact hs

theorem Accounted.take {k : Stream} {r : Recording γ} (hs : s.Accounted k)
    (h : s.recording.take = some r) : { s with recording := r }.Accounted k := by
  obtain ⟨rest, hdata, hrest⟩ := hs.data
  obtain ⟨hloop, hcases⟩ := take_cases h
  have hfile (hfailed : s.recording.failed k = false) : (s.recording.output k).file.isSome :=
    hs.file hfailed (by rw [hloop]; exact nofun)
  have hclosed (hfailed : s.recording.failed k = true) : (s.recording.output k).file = none :=
    hs.closed (.inl hfailed)
  rw [inFlight_of_loop hloop] at hrest
  obtain ⟨hblocks, -, rfl⟩ | ⟨b, blocks, hblocks, rfl⟩ := hcases
  · refine ⟨⟨rest, hdata, hrest⟩, hs.written, fun hfailed _ => hfile hfailed, ?_⟩
    rintro (hfailed | hended)
    · exact hclosed hfailed
    · cases hended
  · rw [hblocks] at hrest
    refine ⟨⟨rest, hdata, hrest⟩, hs.written, fun hfailed _ => hfile hfailed, ?_⟩
    rintro (hfailed | hended)
    · exact hclosed hfailed
    · cases hended

/-- `Accounted` in terms of what the writer thread has of the stream. -/
theorem Accounted.of_output {k : Stream} {o : Output} (ho : s.recording.output k = o)
    (hdata : ∃ rest, framesOf k s.accepted = o.data ++ rest ∧ (s.recording.failed k = false →
      rest = framesOf k (s.recording.inFlight ++ s.recording.queue.blocks)))
    (hwritten : o.written = o.data.length)
    (hfile : s.recording.failed k = false → s.recording.writer ≠ .ended → o.file.isSome)
    (hclosed : s.recording.failed k = true ∨ s.recording.writer = .ended → o.file = none) :
    s.Accounted k := by
  subst ho
  exact ⟨hdata, hwritten, hfile, hclosed⟩

/-- A block goes to the data of its stream, or the stream fails in the middle of it. -/
theorem Accounted.write {k : Stream} {r : Recording γ} {d : Disk} (hs : s.Accounted k)
    (hinv : s.Inv) (hkeeps : s.Keeps (.write d)) (h : s.recording.write d = some r) :
    { s with recording := r }.Accounted k := by
  obtain ⟨rest, hdata, hrest⟩ := hs.data
  obtain ⟨b, hb, rfl⟩ := write_cases h
  have hinFlight := inFlight_of_writing hb
  have hmem : b ∈ s.recording.inFlight := hinFlight ▸ List.mem_singleton_self b
  have hsmall : b.bytes ≤ recQueueMaxBytes := hinv.small b (List.mem_append_left _ hmem)
  have hloop : s.recording.writer ≠ .ended := by
    rw [hb]
    exact nofun
  rw [hinFlight, framesOf_append, framesOf_singleton] at hrest
  rcases eq_or_ne b.stream k with rfl | hne
  · rw [if_pos rfl] at hrest
    set o := s.recording.output b.stream with ho
    cases hfailed : s.recording.failed b.stream with
    | true =>
      -- the stream was given up before
      have hnone : o.file = none := hs.closed (.inl hfailed)
      have hskip : o.recWriteBlock b d = (o, false) := by
        unfold Output.recWriteBlock
        rw [hnone]
      have hfalse {p : Prop} (h : s.recording.failed b.stream = false) : p :=
        absurd hfailed (Bool.eq_false_iff.1 h)
      rw [hskip]
      exact Accounted.of_output (Function.update_self ..) ⟨rest, hdata, hfalse⟩ hs.written
        (fun h _ => hfalse h) fun _ => hnone
    | false =>
      obtain ⟨n, hn, hwrite, hwritten, hok⟩ := Output.data_recWriteBlock (hinv.sound b.stream)
        (hs.file hfailed hloop) hsmall (hkeeps b hmem)
      have hlength : (o.recWriteBlock b d).1.written = (o.recWriteBlock b d).1.data.length := by
        rw [hwritten, hwrite, List.length_append, List.length_take, min_eq_left hn, hs.written]
      have hsplit : framesOf b.stream s.accepted = (o.recWriteBlock b d).1.data ++
          (b.pcm.drop n ++ framesOf b.stream s.recording.queue.blocks) := by
        rw [hdata, hrest hfailed, hwrite, List.append_assoc, ← List.append_assoc (b.pcm.take n),
          List.take_append_drop]
      cases hflag : (o.recWriteBlock b d).2 with
      | true =>
        have htrue {p : Prop} (h : Function.update s.recording.failed b.stream true b.stream =
            false) : p := by
          rw [Function.update_self] at h
          cases h
        exact Accounted.of_output (Function.update_self ..) ⟨_, hsplit, htrue⟩ hlength
          (fun h _ => htrue h) fun _ => Output.file_of_failed hflag
      | false =>
        obtain ⟨rfl, hopen⟩ := hok hflag
        rw [List.drop_length, List.nil_append] at hsplit
        refine Accounted.of_output (Function.update_self ..) ⟨_, hsplit, fun _ => rfl⟩ hlength
          (fun _ _ => hopen) fun h => ?_
        rcases h with h | h
        · exact absurd h (Bool.eq_false_iff.1 hfailed)
        · cases h
  · -- the block is none of this stream
    rw [if_neg hne, List.nil_append] at hrest
    have hflag (failed : Bool) : (if failed then Function.update s.recording.failed b.stream true
        else s.recording.failed) k = s.recording.failed k := by
      cases failed
      · rfl
      · exact Function.update_of_ne hne.symm _ _
    refine Accounted.of_output (Function.update_of_ne hne.symm _ _)
      ⟨rest, hdata, fun h => hrest ((hflag _).symm.trans h)⟩ hs.written
      (fun h _ => hs.file ((hflag _).symm.trans h) hloop) fun h => ?_
    rcases h with h | h
    · exact hs.closed (.inl ((hflag _).symm.trans h))
    · cases h

theorem Accounted.finish {k : Stream} {r : Recording γ} {reached : Stream → ℕ}
    (hs : s.Accounted k) (hinv : s.Inv) (hkeeps : s.Keeps (.finish reached))
    (h : s.recording.finish reached = some r) : { s with recording := r }.Accounted k := by
  obtain ⟨rest, hdata, hrest⟩ := hs.data
  obtain ⟨hclosing, rfl⟩ := finish_cases h
  have hkept := Output.data_finish (hinv.sound k) (hkeeps k)
  have hinFlight : s.recording.inFlight = [] := by
    unfold Recording.inFlight
    rw [hclosing]
  rw [hinFlight] at hrest
  refine ⟨⟨rest, ?_, hrest⟩, ?_, fun _ h => absurd rfl h, fun _ => Output.file_finish _ _⟩
  · dsimp only
    rw [hkept]
    exact hdata
  · dsimp only
    rw [hkept, ← hs.written]
    unfold Output.finish
    split <;> rfl

theorem Accounted.step {wanted : Stream → Bool} {k : Stream} {l : Label γ} (hs : s.Accounted k)
    (hinv : s.Inv) (hkeeps : s.Keeps l) (h : (system γ wanted).step s l = some t) :
    t.Accounted k := by
  cases l with
  | offer b => exact Option.some.inj h ▸ hs.offer b
  | stop =>
    obtain rfl := Option.some.inj h
    exact ⟨hs.data, hs.written, hs.file, hs.closed⟩
  | take =>
    obtain ⟨r, hr, rfl⟩ := Option.map_eq_some_iff.1 h
    exact hs.take hr
  | write d =>
    obtain ⟨r, hr, rfl⟩ := Option.map_eq_some_iff.1 h
    exact hs.write hinv hkeeps hr
  | finish reached =>
    obtain ⟨r, hr, rfl⟩ := Option.map_eq_some_iff.1 h
    exact hs.finish hinv hkeeps hr

theorem Accounted.init {wanted : Stream → Bool} {k : Stream} (hk : wanted k = true) :
    (system γ wanted).init.Accounted k := by
  have hfile : ((system γ wanted).init.recording.output k).file = some ⟨[], 0⟩ := if_pos hk
  have hdata : ((system γ wanted).init.recording.output k).data = [] := by
    rw [Output.data_eq hfile]
    rfl
  refine ⟨⟨[], ?_, fun _ => rfl⟩, ?_, fun _ _ => ?_, fun h => ?_⟩
  · rw [hdata]
    rfl
  · rw [hdata]
    rfl
  · rw [hfile]
    rfl
  · rcases h with h | h <;> cases h

/-- At the end of the writer thread, a stream that has not failed has all that was queued. -/
theorem Accounted.all {k : Stream} (hs : s.Accounted k) (hinv : s.Inv)
    (hended : s.recording.writer = .ended) (hfailed : s.recording.failed k = false) :
    framesOf k s.accepted = (s.recording.output k).closed.flatMap Segment.frames := by
  obtain ⟨rest, hdata, hrest⟩ := hs.data
  have hinFlight : s.recording.inFlight = [] := by
    unfold Recording.inFlight
    rw [hended]
  rw [hinFlight, (hinv.atEnd (.inr hended)).2] at hrest
  rw [hdata, hrest hfailed, Output.data, hs.closed (.inr hended)]
  exact (List.append_nil _).trans (List.append_nil _)

end State

variable {wanted : Stream → Bool}

/-- **A recording loses nothing silently.** Whatever the disk does, what finds no room is counted,
and the header of a closed segment is right. While every continuation opens and every close keeps
what was written, the frames of a stream that is recorded are in its segments, in order; what was
queued and is not there is still to come, or comes after a write that failed; and at the end all of
it is there, or the stream has failed. -/
theorem recording_accounts {ls : List (Label γ)} {s : State γ}
    (h : (system γ wanted).exec (system γ wanted).init ls = some s) :
    (∀ k, s.recording.queue.dropped k = (framesOf k s.refused).length) ∧
    (∀ k, ∀ g ∈ (s.recording.output k).closed, g.Sound) ∧
    ((system γ wanted).Along State.Keeps (system γ wanted).init ls → ∀ k, wanted k = true →
      s.Accounted k ∧ (s.recording.writer = .ended → s.recording.failed k = false →
        framesOf k s.accepted = (s.recording.output k).closed.flatMap Segment.frames)) := by
  have hinv : s.Inv := (system γ wanted).exec_induction (fun _ _ _ hs hstep => hs.step hstep)
    (State.Inv.init wanted) h
  refine ⟨hinv.dropped, fun k => (hinv.sound k).closed, fun hkeeps k hk => ?_⟩
  have hboth := (system γ wanted).exec_induction_along (I := fun s => s.Inv ∧ s.Accounted k)
    (fun _ _ _ hs hl hstep => ⟨hs.1.step hstep, hs.2.step hs.1 hl hstep⟩) ls _ _
    ⟨State.Inv.init wanted, State.Accounted.init hk⟩ hkeeps h
  exact ⟨hboth.2, hboth.2.all hinv⟩

/-! ## A full disk -/

instance (o : Output) (b : Block γ) (d : Disk) : Decidable (o.Keeps b d) :=
  decidable_of_iff ((o.file.isSome → o.bytes ≥ recSplitBytes →
      d.opened = true ∧ 44 + o.bytes ≤ d.rolled) ∧
    ((o.recWriteBlock b d).2 = true → 44 + o.bytes + b.bytes ≤ d.failed))
    ⟨fun h => ⟨h.1, h.2⟩, fun h => ⟨h.opened, h.failed⟩⟩

instance : DecidableRel (State.Keeps (γ := γ)) := fun s l =>
  match l with
  | .write _ => inferInstanceAs (Decidable (∀ b ∈ s.recording.inFlight, _))
  | .finish reached =>
    let kept (k : Stream) : Prop := (s.recording.output k).file.isSome →
      44 + (s.recording.output k).bytes ≤ reached k
    have (k : Stream) : Decidable (kept k) := inferInstanceAs (Decidable (_ → _))
    decidable_of_iff (kept .iq ∧ kept .af)
      ⟨fun h k => match k with | .iq => h.1 | .af => h.2, fun h => ⟨h .iq, h .af⟩⟩
  | .offer _ | .stop | .take => .isTrue trivial

def block (x : ℤ) : Block Unit := ⟨.iq, [(x, x)], ()⟩

/-- Two blocks are queued, the disk takes both, and the recording is stopped. -/
def twoBlocks : List (Label Unit) :=
  [.offer (block 1), .offer (block 2), .take, .write goodDisk, .take, .write goodDisk, .stop, .take,
    .finish fun _ => 1000]

theorem recording_accounts_twoBlocks : ∃ s : State Unit,
    (system Unit fun _ => true).exec (system Unit fun _ => true).init twoBlocks = some s ∧
      framesOf .iq s.accepted = (s.recording.output .iq).closed.flatMap Segment.frames := by
  obtain ⟨-, -, haccounts⟩ := @recording_accounts Unit (fun _ => true) twoBlocks _ rfl
  exact ⟨_, rfl, (haccounts (by decide) .iq rfl).2 rfl rfl⟩

/-- What the two blocks held is neither written nor counted, though no write had failed before. -/
theorem not_recording_accounts : ¬ ∀ (ls ms : List (Label Unit)) (u s : State Unit),
    (system Unit fun _ => true).exec (system Unit fun _ => true).init ls = some u →
    u.recording.failed .iq = false → (system Unit fun _ => true).exec u ms = some s →
    s.recording.writer = .ended → (framesOf .iq (u.accepted ++ u.refused)).length ≤
      (s.recording.output .iq).written + s.recording.queue.dropped .iq := by
  intro h
  have hle := h [.offer (block 1), .offer (block 2)]
    [.take, .write fullDisk, .take, .write fullDisk, .stop, .take, .finish fun _ => 1000]
    _ _ rfl rfl rfl rfl
  exact absurd hle (by decide)

end Accounting

end MacHPSDR.Recorder
