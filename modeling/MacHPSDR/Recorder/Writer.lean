import Mathlib

/-!
# The recorder

The taps convert what the receiver delivers and hand it over as blocks, through a bounded queue. The
writer thread takes one block at a time and owns both files: it starts a new segment before the data
size of a WAV would overflow, gives a stream up whose write fails, and closes what is open when it
was stopped and the queue is empty. What the disk does is an argument of each write and close. A
block may carry a tag, which nothing here reads.
-/

namespace MacHPSDR.Recorder

inductive Stream
  | iq
  | af
  deriving DecidableEq

/-- Two `int16` samples. -/
abbrev Frame := ℤ × ℤ

/-- The conversion to `short` cuts off towards zero. -/
def clamp16 (x : ℚ) : ℤ :=
  let x := if x > 1 then 1 else x
  let x := if x < -1 then -1 else x
  (x * 32767).num.tdiv (x * 32767).den

structure Block (γ : Type*) where
  stream : Stream
  pcm : List Frame
  tag : γ

variable {γ : Type*}

/-- The block that `recorder_iq` and `recorder_audio` make of their samples. -/
def convert (stream : Stream) (samples : List (ℚ × ℚ)) (tag : γ) : Block γ :=
  ⟨stream, samples.map fun x => (clamp16 x.1, clamp16 x.2), tag⟩

def Block.frames (b : Block γ) : ℕ := b.pcm.length

def Block.bytes (b : Block γ) : ℕ := b.frames * 4

/-! ## The queue -/

def recQueueMaxBytes : ℕ := 32 * 1024 * 1024

structure Queue (γ : Type*) where
  blocks : List (Block γ)
  bytes : ℕ
  peak : ℕ
  /-- The frames that the queue had no room for. -/
  dropped : Stream → ℕ

namespace Queue

/-- `rec_enqueue`, once it has seen that the writer runs -/
def push (q : Queue γ) (b : Block γ) : Queue γ :=
  if q.bytes + b.bytes > recQueueMaxBytes then
    { q with dropped := Function.update q.dropped b.stream (q.dropped b.stream + b.frames) }
  else
    { q with
      blocks := q.blocks ++ [b]
      bytes := q.bytes + b.bytes
      peak := max q.peak (q.bytes + b.bytes) }

end Queue

/-! ## The files -/

/-- A file that is open: the whole frames that were written to it, and the bytes of one more. -/
structure File where
  frames : List Frame
  part : ℕ

/-- A file that is closed: the sizes in its header, and what it holds. -/
structure Segment where
  riffSize : ℕ
  dataSize : ℕ
  frames : List Frame

/-- Of the file, `reached` bytes have reached the disk when it is closed, or all there are. -/
def closeWav (f : File) (dataBytes reached : ℕ) : Segment :=
  let fileEnd := min reached (44 + (f.frames.length * 4 + f.part))
  let real := if fileEnd ≥ 44 then (fileEnd - 44) / 4 * 4 % 2 ^ 32 else 0
  let dataBytes := if real ≠ dataBytes then real else dataBytes
  ⟨(36 + dataBytes) % 2 ^ 32, dataBytes, f.frames.take (dataBytes / 4)⟩

def recSplitBytes : ℕ := 0xF0000000

/-- What the writer thread has of a stream. -/
structure Output where
  file : Option File
  bytes : ℕ
  seg : ℕ
  written : ℕ
  /-- The segments that are closed, in order. -/
  closed : List Segment

/-- What the disk does while a block is written. -/
structure Disk where
  /-- Of the old segment, when it is closed. -/
  rolled : ℕ
  /-- The continuation file could be opened. -/
  opened : Bool
  /-- How many bytes of the block `fwrite` takes, or all. -/
  taken : ℕ
  /-- Of the segment that is closed after a failure. -/
  failed : ℕ

/-- The disk takes what it is given. -/
def goodDisk : Disk := ⟨recSplitBytes * 2, true, recSplitBytes, recSplitBytes * 2⟩

/-- The disk is full. -/
def fullDisk : Disk := { goodDisk with taken := 0 }

namespace Output

def rollSegment (o : Output) (f : File) (d : Disk) : Output :=
  { o with
    closed := o.closed ++ [closeWav f o.bytes d.rolled]
    seg := o.seg + 1
    file := if d.opened then some ⟨[], 0⟩ else none
    bytes := 0 }

/-- The `fwrite` of `rec_write_block`, and whether it went wrong. -/
def fwrite (o : Output) (f : File) (b : Block γ) (d : Disk) : Output × Bool :=
  let taken := min d.taken b.bytes
  let done := taken / 2
  if done ≠ b.frames * 2 then
    let good := done / 2
    let bytes := (o.bytes + good * 4) % 2 ^ 32
    ({ o with
        bytes := bytes
        written := o.written + good
        closed := o.closed ++
          [closeWav ⟨f.frames ++ b.pcm.take good, taken % 4⟩ bytes d.failed]
        file := none },
      true)
  else
    ({ o with
        bytes := (o.bytes + b.frames * 4) % 2 ^ 32
        written := o.written + b.frames
        file := some ⟨f.frames ++ b.pcm, f.part⟩ },
      false)

/-- `rec_write_block`, and whether `rec_write_failed` is called -/
def recWriteBlock (o : Output) (b : Block γ) (d : Disk) : Output × Bool :=
  match o.file with
  | none => (o, false)
  | some f =>
    let o := if o.bytes ≥ recSplitBytes then o.rollSegment f d else o
    match o.file with
    | none => (o, false)
    | some f => o.fwrite f b d

/-- The file is closed at the end of the writer thread. -/
def finish (o : Output) (reached : ℕ) : Output :=
  match o.file with
  | none => o
  | some f => { o with closed := o.closed ++ [closeWav f o.bytes reached], file := none }

end Output

/-! ## The writer thread -/

/-- Where the writer thread is. -/
inductive Writer (γ : Type*)
  /-- At `rec_mutex`, for the next block. -/
  | loop
  | writing (b : Block γ)
  | closing
  /-- The thread has returned, or there is none. -/
  | ended

structure Recording (γ : Type*) where
  /-- `rec_writer_run` -/
  run : Bool
  queue : Queue γ
  writer : Writer γ
  output : Stream → Output
  /-- The streams for which `rec_write_failed` has queued its alert and its stop. -/
  failed : Stream → Bool

namespace Recording

/-- `rec_enqueue` -/
def enqueue (r : Recording γ) (b : Block γ) : Recording γ :=
  if r.run then { r with queue := r.queue.push b } else r

theorem enqueue_of_run {r : Recording γ} (h : r.run = true) (b : Block γ) :
    r.enqueue b = { r with queue := r.queue.push b } :=
  if_pos h

/-- The writer thread takes a block, sees that it is stopped, or waits. -/
def take (r : Recording γ) : Option (Recording γ) :=
  match r.writer with
  | .loop =>
    match r.queue.blocks with
    | [] => if r.run then none else some { r with writer := .closing }
    | b :: blocks =>
      some { r with
        queue := { r.queue with blocks := blocks, bytes := r.queue.bytes - b.bytes }
        writer := .writing b }
  | _ => none

/-- The writer thread writes the block that it took. -/
def write (r : Recording γ) (d : Disk) : Option (Recording γ) :=
  match r.writer with
  | .writing b =>
    let w := (r.output b.stream).recWriteBlock b d
    some { r with
      output := Function.update r.output b.stream w.1
      failed := if w.2 then Function.update r.failed b.stream true else r.failed
      writer := .loop }
  | _ => none

/-- The writer thread closes both files and returns. -/
def finish (r : Recording γ) (reached : Stream → ℕ) : Option (Recording γ) :=
  match r.writer with
  | .closing =>
    some { r with output := fun k => (r.output k).finish (reached k), writer := .ended }
  | _ => none

/-- What `recorder_toggle` sets up for the streams that are wanted; the queue is as it was left. -/
def start (wanted : Stream → Bool) (blocks : List (Block γ)) : Recording γ where
  run := true
  queue := ⟨blocks, 0, 0, fun _ => 0⟩
  writer := .loop
  output k := ⟨if wanted k then some ⟨[], 0⟩ else none, 0, 1, 0, []⟩
  failed _ := false

end Recording

end MacHPSDR.Recorder
