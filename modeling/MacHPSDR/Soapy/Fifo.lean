import MacHPSDR.Foundations.BoundedQueue
import MacHPSDR.Foundations.Ring

/-!
# The FIFO of raw samples

Between the thread that reads the device and the one that runs the DSP stands a ring of I/Q samples
for each antenna feed of a stream, with one reading position and one fill count for all of them.
Both sides copy in two pieces where a block reaches the end of the ring. As a whole it is a queue of
frames, a frame being the samples that the feeds have at one time (`fifo_refines`): a block is
stored whole or dropped whole, and the feeds never shift against each other.
-/

namespace MacHPSDR.Soapy

open BoundedQueue (Queue Request Reply)

/-- `MAX_RX_LANES` -/
def maxRxLanes : ℕ := 2

/-- The largest value of an `int`. -/
def intMax : ℕ := 2147483647

/-- What belongs to one ADC: `fifo_buf`, the floats of each feed, and the counts. -/
structure Fifo (α : Type*) where
  fifoBuf : ℕ → Option (ℕ → α)
  fifoLanes : ℕ
  fifoCap : ℕ
  fifoRd : ℕ
  fifoN : ℕ
  fifoDropped : ℕ

variable {α : Type*}

/-- How many feeds the stream is taken to have. -/
def laneCount (lanes : ℤ) : ℕ := (min (max lanes 1) maxRxLanes).toNat

/-- `fifo_alloc`, with what the memory holds that `g_new` gives. It does not come back when the
number of floats is too large for an `int`. -/
def fifoAlloc (memory : ℕ → ℕ → α) (samples : ℕ) (lanes : ℤ) : Option (Fifo α) :=
  if intMax < 2 * samples then none
  else
    some {
      fifoBuf := fun l => if l < laneCount lanes then some (memory l) else none
      fifoLanes := laneCount lanes
      fifoCap := samples
      fifoRd := 0
      fifoN := 0
      fifoDropped := 0 }

/-- The capacity that `soapy_create_receiver` asks for, with the stream's MTU and the length of a
read. -/
def fifoCapacity (mtu readBlock : ℤ) : ℤ :=
  let cap := 4 * if mtu > readBlock then mtu else readBlock
  let cap := if cap < 4 * readBlock then 4 * readBlock else cap
  if cap > 2 ^ 20 then 2 ^ 20 else cap

/-- `fifo_clear` -/
def fifoClear (f : Fifo α) : Fifo α := { f with fifoRd := 0, fifoN := 0 }

/-- `fifo_push`: the blocks of the feeds are interleaved I and Q, `n` samples each. -/
def fifoPush (f : Fifo α) (iq : ℕ → ℕ → α) (n : ℤ) : Fifo α :=
  if (f.fifoBuf 0).isNone ∨ n ≤ 0 then f
  else if (f.fifoCap : ℤ) - f.fifoN < n then { f with fifoDropped := f.fifoDropped + n.toNat }
  else
    let wr := (f.fifoRd + f.fifoN) % f.fifoCap
    let first := min (f.fifoCap - wr) n.toNat
    { f with
      fifoBuf := fun l =>
        if l < f.fifoLanes then
          (f.fifoBuf l).map fun buf =>
            let buf := Ring.blit buf (2 * wr) (iq l) 0 (2 * first)
            if first < n.toNat then
              Ring.blit buf 0 (iq l) (2 * first) (2 * (n.toNat - first))
            else buf
        else f.fifoBuf l
      fifoN := f.fifoN + n.toNat }

/-- `fifo_pop`: what it returns and what it copies to, unless it still waits for samples. -/
def fifoPop (f : Fifo α) (running : Bool) (out : ℕ → ℕ → α) (want : ℤ) :
    Option ((ℤ × (ℕ → ℕ → α)) × Fifo α) :=
  if running ∧ f.fifoN = 0 then none
  else
    let n := min (f.fifoN : ℤ) want
    if 0 < n then
      let first := min (f.fifoCap - f.fifoRd) n.toNat
      some ((n, fun l =>
          if l < f.fifoLanes then
            (f.fifoBuf l).elim (out l) fun buf =>
              let out := Ring.blit (out l) 0 buf (2 * f.fifoRd) (2 * first)
              if first < n.toNat then Ring.blit out (2 * first) buf 0 (2 * (n.toNat - first))
              else out
          else out l),
        { f with
          fifoRd := (f.fifoRd + n.toNat) % f.fifoCap
          fifoN := f.fifoN - n.toNat })
    else some ((n, out), f)

/-- What the two sides do with the FIFO. -/
inductive Call (α : Type*)
  | push (iq : ℕ → ℕ → α) (n : ℤ)
  | pop (running : Bool) (out : ℕ → ℕ → α) (want : ℤ)
  | clear

inductive Answer (α : Type*)
  | done
  | waiting
  | popped (n : ℤ) (out : ℕ → ℕ → α)

def call (f : Fifo α) : Call α → Answer α × Fifo α
  | .push iq n => (.done, fifoPush f iq n)
  | .pop running out want =>
    match fifoPop f running out want with
    | none => (.waiting, f)
    | some ((n, out), f) => (.popped n out, f)
  | .clear => (.done, fifoClear f)

/-! ## The queue of frames -/

/-- The sample of each feed. -/
abbrev Frame (α : Type*) := ℕ → Option (α × α)

/-- Sample `i` of interleaved I and Q. -/
def sample (buf : ℕ → α) (i : ℕ) : α × α := (buf (2 * i), buf (2 * i + 1))

/-- Frame `i` of a block. -/
def blockFrame (lanes : ℕ) (iq : ℕ → ℕ → α) (i : ℕ) : Frame α := fun l =>
  if l < lanes then some (sample (iq l) i) else none

/-- The frame at position `i` of the rings. -/
def Fifo.frame (f : Fifo α) (i : ℕ) : Frame α := fun l => (f.fifoBuf l).map fun buf => sample buf i

/-- The frames that wait, oldest first. -/
def Fifo.frames (f : Fifo α) : List (Frame α) := Ring.stretch f.frame f.fifoCap f.fifoRd f.fifoN

/-- What a call asks of the queue of frames. -/
def request (lanes : ℕ) : Call α → Request (Frame α)
  | .push iq n => .push ((List.range n.toNat).map (blockFrame lanes iq))
  | .pop _ _ want => .pop want.toNat
  | .clear => .clear

/-- The frames are laid out from the start of the buffers of the feeds; the rest of these stays. -/
def deliver (frames : List (Frame α)) (out : ℕ → ℕ → α) : ℕ → ℕ → α := fun l j =>
  match frames[j / 2]?.bind (· l) with
  | some (i, q) => if j % 2 = 0 then i else q
  | none => out l j

/-- What a call gives back when that is the reply of the queue. -/
def result : Call α → Reply (Frame α) → Answer α
  | .pop running out want, .popped available frames =>
    if running ∧ available = 0 then .waiting
    else .popped (min available want) (deliver frames out)
  | _, _ => .done

/-- The FIFO has `c` places for `lanes` feeds and holds the frames of the queue. -/
structure Holds (c lanes : ℕ) (f : Fifo α) (q : Queue (Frame α)) : Prop where
  cap : f.fifoCap = c
  feeds : f.fifoLanes = lanes
  buf : ∀ l, (f.fifoBuf l).isSome ↔ l < lanes
  rd : f.fifoRd < c
  room : f.fifoN ≤ c
  frames : q.values = f.frames
  dropped : q.dropped = f.fifoDropped

/-! ## Copies -/

theorem sample_blit (dst src : ℕ → α) (place start n i : ℕ) :
    sample (Ring.blit dst (2 * place) src (2 * start) (2 * n)) i =
      Ring.blit (sample dst) place (sample src) start n i := by
  simp only [sample, Ring.blit]
  by_cases h : place ≤ i ∧ i < place + n
  · rw [if_pos (by omega), if_pos (by omega), if_pos h]
    congr 2 <;> omega
  · rw [if_neg (by omega), if_neg (by omega), if_neg h]

/-- A copy of no floats need not be made. -/
theorem blit_of_lt (dst src : ℕ → α) (place start first n : ℕ) :
    (if first < n then Ring.blit dst place src start (2 * (n - first)) else dst) =
      Ring.blit dst place src start (2 * (n - first)) := by
  by_cases h : first < n
  · exact if_pos h
  · have hzero : n - first = 0 := by omega
    rw [if_neg h, hzero, Nat.mul_zero, Ring.blit_zero]

variable {c lanes : ℕ} {f : Fifo α} {q : Queue (Frame α)}

theorem Holds.length (h : Holds c lanes f q) : q.values.length = f.fifoN := by
  rw [h.frames, Fifo.frames, Ring.length_stretch]

/-- A block of frames is what the copies of the feeds make together. -/
theorem Holds.frame_blit (h : Holds c lanes f q) (iq : ℕ → ℕ → α) (wr first n : ℕ) {g : Fifo α}
    (hg : g.fifoBuf = fun l =>
      if l < f.fifoLanes then
        (f.fifoBuf l).map fun buf =>
          Ring.blit (Ring.blit buf (2 * wr) (iq l) (2 * 0) (2 * first)) (2 * 0) (iq l) (2 * first)
            (2 * n)
      else f.fifoBuf l) :
    g.frame = Ring.blit (Ring.blit f.frame wr (blockFrame lanes iq) 0 first) 0
      (blockFrame lanes iq) first n := by
  funext i l
  simp only [Ring.map_blit (fun frame : Frame α => frame l)]
  simp only [Fifo.frame, blockFrame, hg, h.feeds]
  by_cases hl : l < lanes
  · obtain ⟨buf, hbuf⟩ := Option.isSome_iff_exists.1 ((h.buf l).2 hl)
    simp only [if_pos hl, hbuf, Option.map_some, sample_blit, Ring.map_blit some]
  · have hnone : f.fifoBuf l = none := by
      rw [← Option.not_isSome_iff_eq_none, h.buf]
      exact hl
    simp [if_neg hl, hnone, Ring.blit]

/-! ## The calls -/

/-- `fifo_push` -/
theorem Holds.push (h : Holds c lanes f q) (hlanes : 0 < lanes) (iq : ℕ → ℕ → α) (n : ℤ) :
    Holds c lanes (fifoPush f iq n) (BoundedQueue.step c q (request lanes (.push iq n))).2 := by
  obtain rfl := h.cap
  have hsome : (f.fifoBuf 0).isNone = false := by
    rw [← Option.not_isSome, (h.buf 0).2 hlanes]
    rfl
  have hblock : ((List.range n.toNat).map (blockFrame lanes iq)).length = n.toNat := by simp
  have hroom := h.room
  rw [request, fifoPush, hsome]
  by_cases hn : n ≤ 0
  · have hzero : n.toNat = 0 := by omega
    rw [if_pos (.inr hn), hzero, BoundedQueue.step_push_of_le (by simpa [h.length] using h.room)]
    exact { h with frames := by simpa using h.frames }
  rw [if_neg (by simpa using hn)]
  by_cases hfit : (f.fifoCap : ℤ) - f.fifoN < n
  · rw [if_pos hfit, BoundedQueue.step_push_of_lt (by rw [hblock, h.length]; omega), hblock]
    exact { h with dropped := congrArg (· + n.toNat) h.dropped }
  · have hle : f.fifoN + n.toNat ≤ f.fifoCap := by omega
    rw [if_neg hfit, BoundedQueue.step_push_of_le (by rw [hblock, h.length]; exact hle)]
    simp only [blit_of_lt]
    refine ⟨rfl, h.feeds, fun l => ?_, h.rd, hle, ?_, h.dropped⟩
    · rw [← h.buf l]
      dsimp only
      split
      · exact Bool.eq_iff_iff.1 Option.isSome_map
      · rfl
    · rw [Fifo.frames, h.frame_blit iq _ _ _ rfl, h.frames, Fifo.frames]
      exact (Ring.stretch_store h.rd hle).symm

/-- What `fifo_pop` copies is a run of frames. -/
theorem Holds.deliver (h : Holds c lanes f q) (out : ℕ → ℕ → α) {n : ℕ} (hn : n ≤ c) :
    (fun l =>
      if l < f.fifoLanes then
        (f.fifoBuf l).elim (out l) fun buf =>
          Ring.blit (Ring.blit (out l) 0 buf (2 * f.fifoRd) (2 * min (c - f.fifoRd) n))
            (2 * min (c - f.fifoRd) n) buf 0 (2 * (n - min (c - f.fifoRd) n))
      else out l) =
      Soapy.deliver (Ring.stretch f.frame c f.fifoRd n) out := by
  have hrd := h.rd
  funext l j
  by_cases hj : j / 2 < n
  · have hget : (Ring.stretch f.frame c f.fifoRd n)[j / 2]? =
        some (f.frame ((f.fifoRd + j / 2) % c)) := by
      simp [Ring.stretch, hj]
    by_cases hl : l < f.fifoLanes
    · obtain ⟨buf, hbuf⟩ := Option.isSome_iff_exists.1 ((h.buf l).2 (h.feeds ▸ hl))
      rw [if_pos hl, hbuf, Soapy.deliver, hget, Ring.slot_eq hrd (by omega)]
      simp only [Option.elim_some, Option.bind_some, Fifo.frame, hbuf, Option.map_some, sample,
        Ring.blit]
      split_ifs <;> first | omega | (congr 1; omega)
    · have hnone : f.fifoBuf l = none := by
        rw [← Option.not_isSome_iff_eq_none, h.buf, ← h.feeds]
        exact hl
      rw [if_neg hl, Soapy.deliver, hget]
      simp [Fifo.frame, hnone]
  · have hget : (Ring.stretch f.frame c f.fifoRd n)[j / 2]? = none := by simpa using hj
    rw [Soapy.deliver, hget]
    split
    · cases f.fifoBuf l with
      | none => rfl
      | some buf =>
        simp only [Option.elim_some, Ring.blit]
        split_ifs <;> first | omega | rfl
    · rfl

/-- `fifo_pop` -/
theorem Holds.pop (h : Holds c lanes f q) (running : Bool) (out : ℕ → ℕ → α) (want : ℤ) :
    (call f (.pop running out want)).1 = result (.pop running out want)
        (BoundedQueue.step c q (request lanes (.pop running out want))).1 ∧
      Holds c lanes (call f (.pop running out want)).2
        (BoundedQueue.step c q (request lanes (.pop running out want))).2 := by
  obtain rfl := h.cap
  have hroom := h.room
  simp only [call, request, BoundedQueue.step, result, fifoPop, h.length]
  by_cases hwait : running ∧ f.fifoN = 0
  · rw [if_pos hwait, if_pos hwait]
    refine ⟨rfl, { h with frames := ?_ }⟩
    have hnil : q.values = [] := List.eq_nil_of_length_eq_zero (h.length.trans hwait.2)
    rw [← h.frames, hnil]
    exact List.drop_nil
  rw [if_neg hwait, if_neg hwait, h.frames, Fifo.frames, Ring.take_stretch, Ring.drop_stretch]
  have hcount : (min (f.fifoN : ℤ) want).toNat = min f.fifoN want.toNat := by omega
  by_cases hn : 0 < min (f.fifoN : ℤ) want
  · simp only [if_pos hn, blit_of_lt, hcount]
    rw [h.deliver out (by omega)]
    refine ⟨rfl, rfl, h.feeds, h.buf, Nat.mod_lt _ (by have := h.rd; omega), ?_, rfl, h.dropped⟩
    exact (Nat.sub_le _ _).trans hroom
  · have hzero : min f.fifoN want.toNat = 0 := by omega
    simp only [if_neg hn, hzero]
    refine ⟨rfl, { h with frames := ?_ }⟩
    rw [Nat.add_zero, Nat.mod_eq_of_lt h.rd]
    rfl

theorem Holds.clear (h : Holds c lanes f q) :
    Holds c lanes (fifoClear f) (BoundedQueue.step c q .clear).2 :=
  ⟨h.cap, h.feeds, h.buf, (Nat.zero_le _).trans_lt h.rd, Nat.zero_le _, rfl, h.dropped⟩

theorem Holds.call (h : Holds c lanes f q) (hlanes : 0 < lanes) (k : Call α) :
    (call f k).1 = result k (BoundedQueue.step c q (request lanes k)).1 ∧
      Holds c lanes (call f k).2 (BoundedQueue.step c q (request lanes k)).2 := by
  cases k with
  | push iq n => exact ⟨rfl, h.push hlanes iq n⟩
  | pop running out want => exact h.pop running out want
  | clear => exact ⟨rfl, h.clear⟩

/-! ## Runs -/

theorem laneCount_pos (lanes : ℤ) : 0 < laneCount lanes := by
  unfold laneCount maxRxLanes
  omega

theorem laneCount_eq {lanes : ℤ} (h : 1 ≤ lanes) (hmax : lanes ≤ maxRxLanes) :
    laneCount lanes = lanes := by
  unfold laneCount maxRxLanes at *
  omega

/-- For that capacity `fifo_alloc` comes back. -/
theorem fifoAlloc_fifoCapacity (memory : ℕ → ℕ → α) (mtu readBlock lanes : ℤ) :
    (fifoAlloc memory (fifoCapacity mtu readBlock).toNat lanes).isSome := by
  have hle : fifoCapacity mtu readBlock ≤ 2 ^ 20 := by
    unfold fifoCapacity
    dsimp only
    split <;> omega
  unfold fifoAlloc
  rw [if_neg (by unfold intMax; omega)]
  rfl

theorem holds_alloc {memory : ℕ → ℕ → α} {lanes : ℤ} (hc : 0 < c)
    (h : fifoAlloc memory c lanes = some f) :
    Holds c (laneCount lanes) f BoundedQueue.empty := by
  unfold fifoAlloc at h
  split at h
  · cases h
  · cases h
    refine ⟨rfl, rfl, fun l => ?_, hc, Nat.zero_le _, rfl, rfl⟩
    dsimp only
    split <;> simp_all

/-- The replies of a queue of at most `c` frames, empty at first, and what is in it then. -/
def queue (c lanes : ℕ) (calls : List (Call α)) : List (Reply (Frame α)) × Queue (Frame α) :=
  BoundedQueue.run c BoundedQueue.empty (calls.map (request lanes))

/-- **The FIFO is a queue of frames.** The calls give back what the queue replies, and it holds the
frames of the queue afterwards, at most `c` of them, each of them the samples of one place of one
block. Between two calls of `fifo_clear` the frames that were popped are the first of those that
were stored. -/
theorem fifo_refines (c : ℕ) (lanes : ℤ) (memory : ℕ → ℕ → α) (calls : List (Call α)) (hc : 1 ≤ c)
    (h : fifoAlloc memory c lanes = some f) :
    (Answers.run call f calls).1 =
        List.zipWith result calls (queue c (laneCount lanes) calls).1 ∧
      Holds c (laneCount lanes) (Answers.run call f calls).2
        (queue c (laneCount lanes) calls).2 ∧
      (queue c (laneCount lanes) calls).2.values.length ≤ c ∧
      (∀ frame ∈ (Answers.run call f calls).2.frames, ∃ iq n, .push iq n ∈ calls ∧
        ∃ i < n.toNat, frame = blockFrame (laneCount lanes) iq i) ∧
      (.clear ∉ calls → (List.zipWith BoundedQueue.stored (calls.map (request (laneCount lanes)))
          (queue c (laneCount lanes) calls).1).flatten =
        ((queue c (laneCount lanes) calls).1.map BoundedQueue.taken).flatten ++
          (Answers.run call f calls).2.frames) := by
  obtain ⟨g, hrun, hholds⟩ := Answers.exec_simulates (BoundedQueue.step c)
    (fun f k => some (call f k)) (R := Holds c (laneCount lanes))
    (f := request (laneCount lanes)) (g := result)
    (fun f q k hf => ⟨(call f k).2, by rw [← (hf.call (laneCount_pos lanes) k).1],
      (hf.call (laneCount_pos lanes) k).2⟩) (holds_alloc hc h) calls
  rw [Answers.exec_some, Option.some.injEq] at hrun
  rw [hrun]
  refine ⟨rfl, hholds, BoundedQueue.length_run_le (Nat.zero_le c) _, fun frame hframe => ?_,
    fun hclear => ?_⟩
  · rw [← hholds.frames] at hframe
    rcases BoundedQueue.mem_run hframe with hempty | ⟨block, hblock, hmem⟩
    · cases hempty
    · obtain ⟨k, hk, hkblock⟩ := List.mem_map.1 hblock
      cases k with
      | push iq n =>
        cases hkblock
        obtain ⟨i, hi, rfl⟩ := List.mem_map.1 hmem
        exact ⟨iq, n, hk, i, List.mem_range.1 hi, rfl⟩
      | pop running out want => cases hkblock
      | clear => cases hkblock
  · rw [← hholds.frames]
    refine BoundedQueue.conservation (q := BoundedQueue.empty) fun hmem => ?_
    obtain ⟨k, hk, hkclear⟩ := List.mem_map.1 hmem
    cases k with
    | push iq n => cases hkclear
    | pop running out want => cases hkclear
    | clear => exact hclear hk

theorem fifo_refines_four :
    ∃ f, fifoAlloc (fun _ _ => (0 : ℤ)) 4 2 = some f ∧
      (Answers.run call f [.push (fun l j => 100 * l + j) 3, .pop true (fun _ _ => 0) 2,
        .push (fun l j => 100 * l + j) 4]).2.frames.length ≤ 4 := by
  obtain ⟨f, hf⟩ := Option.isSome_iff_exists.1
    (rfl : (fifoAlloc (fun _ _ => (0 : ℤ)) 4 2).isSome = true)
  obtain ⟨-, hholds, hlength, -⟩ := fifo_refines 4 2 (fun _ _ => (0 : ℤ))
    [.push (fun l j => 100 * l + j) 3, .pop true (fun _ _ => 0) 2,
      .push (fun l j => 100 * l + j) 4] (by decide) hf
  rw [hholds.frames] at hlength
  exact ⟨f, hf, hlength⟩

end MacHPSDR.Soapy
