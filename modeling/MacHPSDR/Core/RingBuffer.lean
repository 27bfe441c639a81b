import MacHPSDR.Foundations.BoundedQueue
import MacHPSDR.Foundations.Ring

/-!
# The ring buffer of longs

`create_long_ringbuffer`, `queue_put` and `queue_get`. A ring for `n` values has `n + 1` places and
is a queue of at most `n` values, empty at first whatever it was filled with (`isQueue`). The number
of values is a `glong`, but the number of places is kept in a `guint`, so this is so only below
`2 ^ 32` places (`isQueue_iff`): with `2 ^ 32` values there is one place, and with one value less
there is none, and `queue_put` divides by zero.
-/

namespace MacHPSDR.Core

open BoundedQueue (Queue Request Reply)

/-- `RINGBUFFERL` -/
structure RingBufferL where
  queue : ℕ → ℤ
  queueIn : ℤ
  queueOut : ℤ
  queueSize : ℕ

/-- `create_long_ringbuffer` -/
def createLongRingbuffer (queueElements initVal : ℤ) : RingBufferL where
  queue := fun _ => initVal
  queueIn := 0
  queueOut := 0
  -- assigned to a `guint`
  queueSize := ((queueElements + 1) % 2 ^ 32).toNat

/-- `queue_put`: what it returns, unless it divides by zero. -/
def queuePut (rbuf : RingBufferL) (newValue : ℤ) : Option (ℤ × RingBufferL) :=
  if rbuf.queueSize = 0 then none
  else if rbuf.queueIn = (rbuf.queueOut - 1 + rbuf.queueSize).tmod rbuf.queueSize then
    some (-1, rbuf)
  else
    some (0, { rbuf with
      queue := Function.update rbuf.queue rbuf.queueIn.toNat newValue
      queueIn := (rbuf.queueIn + 1).tmod rbuf.queueSize })

/-- `queue_get`: what it returns and what it stores through its argument. -/
def queueGet (rbuf : RingBufferL) : Option ((ℤ × Option ℤ) × RingBufferL) :=
  if rbuf.queueIn = rbuf.queueOut then some ((-1, none), rbuf)
  else if rbuf.queueSize = 0 then none
  else
    some ((0, some (rbuf.queue rbuf.queueOut.toNat)), { rbuf with
      queueOut := (rbuf.queueOut + 1).tmod rbuf.queueSize })

inductive Call
  | put (newValue : ℤ)
  | get
  deriving DecidableEq

/-- What a call returns, and what a get stores through its argument. -/
def call (rbuf : RingBufferL) : Call → Option ((ℤ × Option ℤ) × RingBufferL)
  | .put newValue => (queuePut rbuf newValue).map fun r => ((r.1, none), r.2)
  | .get => queueGet rbuf

/-! ## The queue -/

/-- What a call asks of the queue. -/
def request : Call → Request ℤ
  | .put newValue => .push [newValue]
  | .get => .pop 1

/-- What a call returns when that is the reply of the queue. -/
def result : Call → Reply ℤ → ℤ × Option ℤ
  | .put _, .pushed true => (0, none)
  | .get, .popped _ (x :: _) => (0, some x)
  | _, _ => (-1, none)

/-- The value of a put that was accepted. -/
def accepted : Call → ℤ × Option ℤ → List ℤ
  | .put newValue, (0, _) => [newValue]
  | _, _ => []

/-- The value that was got. -/
def gotten (r : ℤ × Option ℤ) : List ℤ := r.2.toList

/-- The replies of a queue of at most `n` values, empty at first, and what is in it then. -/
def queue (n : ℕ) (calls : List Call) : List (Reply ℤ) × Queue ℤ :=
  BoundedQueue.run n BoundedQueue.empty (calls.map request)

/-- The ring is one for `n` values and holds the values of the queue. -/
def Holds (n : ℕ) (r : RingBufferL) (q : Queue ℤ) : Prop :=
  r.queueSize = n + 1 ∧ ∃ tail head, tail < n + 1 ∧ head < n + 1 ∧ r.queueOut = (tail : ℕ) ∧
    r.queueIn = (head : ℕ) ∧ q.values = Ring.contents r.queue (n + 1) tail head

/-- In such a state the calls are refused just when the queue is full or empty, and then nothing
changes. -/
structure Stands (n : ℕ) (r : RingBufferL) (stored : List ℤ) : Prop where
  room : stored.length ≤ n
  put_refused : ∀ v, call r (.put v) = some ((-1, none), r) ↔ stored.length = n
  get_refused : call r .get = some ((-1, none), r) ↔ stored = []

/-- **What a ring for `n` values is for.** Whatever it is filled with, the calls return what the
queue replies, and what has been got is what has been accepted, less what is still stored. -/
def IsQueue (n : ℕ) : Prop :=
  ∀ (initVal : ℤ) (calls : List Call), ∃ r,
    Answers.exec call (createLongRingbuffer n initVal) calls =
      some (List.zipWith result calls (queue n calls).1, r) ∧
    Stands n r (queue n calls).2.values ∧
    (List.zipWith accepted calls (List.zipWith result calls (queue n calls).1)).flatten =
      ((List.zipWith result calls (queue n calls).1).map gotten).flatten ++
        (queue n calls).2.values

variable {n : ℕ} {r : RingBufferL} {q : Queue ℤ}

theorem tmod_succ (i N : ℕ) : ((i : ℤ) + 1).tmod N = (Ring.next N i : ℕ) := by
  exact_mod_cast (Int.ofNat_tmod (i + 1) N).symm

theorem tmod_prev {i N : ℕ} (hN : 0 < N) :
    ((i : ℤ) - 1 + N).tmod N = ((i + N - 1) % N : ℕ) := by
  have hsum : ((i : ℤ) - 1 + N) = (i + N - 1 : ℕ) := by omega
  rw [hsum]
  exact (Int.ofNat_tmod _ _).symm

theorem holds_create (h : n + 1 < 2 ^ 32) (initVal : ℤ) :
    Holds n (createLongRingbuffer n initVal) BoundedQueue.empty := by
  refine ⟨?_, 0, 0, n.succ_pos, n.succ_pos, rfl, rfl, Ring.contents_self.symm⟩
  simp only [createLongRingbuffer]
  omega

/-- A put on a ring that holds a queue. -/
theorem Holds.put (h : Holds n r q) (v : ℤ) :
    ∃ r', call r (.put v) =
        some (result (.put v) (BoundedQueue.step n q (.push [v])).1, r') ∧
      Holds n r' (BoundedQueue.step n q (.push [v])).2 ∧ (q.values.length = n → r' = r) := by
  obtain ⟨slots, qin, qout, size⟩ := r
  obtain ⟨rfl, tail, head, htail, hhead, rfl, rfl, hvalues⟩ := h
  have hlength : q.values.length = Ring.count (n + 1) tail head := by
    rw [hvalues, Ring.length_contents]
  have hfull : (head : ℤ) = ((tail : ℤ) - 1 + (n + 1 : ℕ)).tmod (n + 1 : ℕ) ↔
      q.values.length = n := by
    rw [tmod_prev n.succ_pos, Nat.cast_inj, Ring.eq_prev_iff htail hhead,
      Ring.next_eq_tail_iff htail hhead, hlength]
    omega
  have hlt := Ring.count_lt htail hhead
  simp only [call, queuePut, if_neg n.succ_ne_zero, hfull]
  by_cases hn : q.values.length = n
  · rw [if_pos hn, BoundedQueue.step_push_of_lt (by simp [hn])]
    exact ⟨_, rfl, ⟨rfl, tail, head, htail, hhead, rfl, rfl, hvalues⟩, fun _ => rfl⟩
  · have hnext : Ring.next (n + 1) head ≠ tail := fun hnext =>
      hn (by rw [Ring.next_eq_tail_iff htail hhead] at hnext; omega)
    rw [if_neg hn, BoundedQueue.step_push_of_le (by simp; omega)]
    refine ⟨_, rfl, ⟨rfl, tail, Ring.next (n + 1) head, htail, Ring.next_lt hhead, rfl,
      tmod_succ head (n + 1), ?_⟩, fun h => absurd h hn⟩
    simp only [Int.toNat_natCast]
    rw [Ring.contents_push htail hhead hnext, hvalues]

/-- A get from it. -/
theorem Holds.get (h : Holds n r q) :
    ∃ r', call r .get = some (result .get (BoundedQueue.step n q (.pop 1)).1, r') ∧
      Holds n r' (BoundedQueue.step n q (.pop 1)).2 ∧ (q.values = [] → r' = r) := by
  obtain ⟨slots, qin, qout, size⟩ := r
  obtain ⟨rfl, tail, head, htail, hhead, rfl, rfl, hvalues⟩ := h
  simp only [call, queueGet, if_neg n.succ_ne_zero, Nat.cast_inj, Int.toNat_natCast]
  by_cases hempty : head = tail
  · subst hempty
    rw [Ring.contents_self] at hvalues
    rw [if_pos rfl]
    refine ⟨_, by simp [BoundedQueue.step, hvalues, result], ⟨rfl, head, head, htail, htail, rfl,
      rfl, ?_⟩, fun _ => rfl⟩
    simp [BoundedQueue.step, hvalues, Ring.contents_self]
  · rw [if_neg hempty]
    rw [Ring.contents_pop htail hhead (Ne.symm hempty)] at hvalues
    have hreply : result .get (BoundedQueue.step n q (.pop 1)).1 = (0, some (slots tail)) := by
      simp [BoundedQueue.step, hvalues, result]
    rw [hreply]
    refine ⟨_, rfl, ⟨rfl, Ring.next (n + 1) tail, head, Ring.next_lt htail, hhead,
      tmod_succ tail (n + 1), rfl, ?_⟩, fun hnil => ?_⟩
    · simp [BoundedQueue.step, hvalues]
    · rw [hvalues] at hnil
      exact absurd hnil (List.cons_ne_nil _ _)

theorem Holds.call (h : Holds n r q) (c : Call) :
    ∃ r', call r c = some (result c (BoundedQueue.step n q (request c)).1, r') ∧
      Holds n r' (BoundedQueue.step n q (request c)).2 := by
  cases c with
  | put v =>
    obtain ⟨r', hcall, hholds, -⟩ := h.put v
    exact ⟨r', hcall, hholds⟩
  | get =>
    obtain ⟨r', hcall, hholds, -⟩ := h.get
    exact ⟨r', hcall, hholds⟩

theorem Holds.stands (h : Holds n r q) (hroom : q.values.length ≤ n) : Stands n r q.values where
  room := hroom
  put_refused v := by
    obtain ⟨r', hcall, -, hsame⟩ := h.put v
    rw [hcall]
    constructor
    · intro heq
      by_contra hn
      rw [BoundedQueue.step_push_of_le (by simp; omega)] at heq
      simp [result] at heq
    · intro hn
      rw [hsame hn, BoundedQueue.step_push_of_lt (by simp [hn])]
      rfl
  get_refused := by
    obtain ⟨r', hcall, -, hsame⟩ := h.get
    rw [hcall]
    constructor
    · intro heq
      by_contra hne
      obtain ⟨x, xs, hx⟩ := List.exists_cons_of_ne_nil hne
      simp [BoundedQueue.step, hx, result] at heq
    · intro hnil
      rw [hsame hnil]
      simp [BoundedQueue.step, hnil, result]

/-! ## Runs -/

theorem accepted_result (q : Queue ℤ) (c : Call) :
    accepted c (result c (BoundedQueue.step n q (request c)).1) =
      BoundedQueue.stored (request c) (BoundedQueue.step n q (request c)).1 := by
  cases c with
  | put v =>
    by_cases hfit : q.values.length + [v].length ≤ n
    · rw [request, BoundedQueue.step_push_of_le hfit]
      rfl
    · rw [request, BoundedQueue.step_push_of_lt (not_le.1 hfit)]
      rfl
  | get => rfl

theorem gotten_result (q : Queue ℤ) (c : Call) :
    gotten (result c (BoundedQueue.step n q (request c)).1) =
      BoundedQueue.taken (BoundedQueue.step n q (request c)).1 := by
  cases c with
  | put v =>
    by_cases hfit : q.values.length + [v].length ≤ n
    · rw [request, BoundedQueue.step_push_of_le hfit]
      rfl
    · rw [request, BoundedQueue.step_push_of_lt (not_le.1 hfit)]
      rfl
  | get =>
    simp only [request, BoundedQueue.step, BoundedQueue.taken]
    cases q.values <;> rfl

/-- What is accepted and got in a run is what the queue stores and gives away. -/
theorem history (q : Queue ℤ) (calls : List Call) :
    List.zipWith accepted calls (List.zipWith result calls
        (BoundedQueue.run n q (calls.map request)).1) =
      List.zipWith BoundedQueue.stored (calls.map request)
        (BoundedQueue.run n q (calls.map request)).1 ∧
    (List.zipWith result calls (BoundedQueue.run n q (calls.map request)).1).map gotten =
      (BoundedQueue.run n q (calls.map request)).1.map BoundedQueue.taken := by
  induction calls generalizing q with
  | nil => exact ⟨rfl, rfl⟩
  | cons c cs ih =>
    obtain ⟨haccepted, hgotten⟩ := ih (BoundedQueue.step n q (request c)).2
    simp only [BoundedQueue.run, List.map_cons, Answers.run_cons, List.zipWith_cons_cons]
      at haccepted hgotten ⊢
    rw [haccepted, hgotten, accepted_result, gotten_result]
    exact ⟨rfl, rfl⟩

theorem clear_notMem (calls : List Call) : Request.clear ∉ calls.map request := by
  rw [List.mem_map]
  rintro ⟨c, -, hc⟩
  cases c <;> cases hc

/-- **Below `2 ^ 32` places the ring is the queue.** -/
theorem isQueue (h : n + 1 < 2 ^ 32) : IsQueue n := by
  intro initVal calls
  obtain ⟨r, hrun, hholds⟩ := Answers.exec_simulates (BoundedQueue.step n) call (R := Holds n)
    (f := request) (g := result) (fun _ _ c hr => hr.call c) (holds_create h initVal) calls
  obtain ⟨haccepted, hgotten⟩ := history (n := n) BoundedQueue.empty calls
  refine ⟨r, hrun, hholds.stands (BoundedQueue.length_run_le (Nat.zero_le n) _), ?_⟩
  rw [queue, haccepted, hgotten, ← BoundedQueue.conservation (clear_notMem calls)]
  rfl

/-- As many puts as there is room for are accepted. -/
theorem length_queue_puts {k : ℕ} (h : k ≤ n) :
    (queue n (List.replicate k (.put 0))).2.values.length = k := by
  suffices hgen : ∀ q : Queue ℤ, q.values.length + k ≤ n →
      (BoundedQueue.run n q ((List.replicate k (Call.put 0)).map request)).2.values.length =
        q.values.length + k by
    exact (hgen BoundedQueue.empty (by simpa [BoundedQueue.empty] using h)).trans (Nat.zero_add k)
  clear h
  induction k with
  | zero => exact fun _ _ => rfl
  | succ k ih =>
    intro q hq
    rw [List.replicate_succ, List.map_cons, BoundedQueue.run, Answers.run_cons, request,
      BoundedQueue.step_push_of_le (by simp; omega)]
    refine (ih _ (by simp; omega)).trans ?_
    simp only [List.length_append, List.length_singleton]
    omega

/-- With as many places as `2 ^ 32` or more the ring has fewer than it is asked for. -/
theorem not_isQueue (h : 2 ^ 32 ≤ n + 1) : ¬ IsQueue n := by
  intro hqueue
  obtain ⟨m, hm⟩ : ∃ m, (((n : ℤ) + 1) % 2 ^ 32).toNat = m := ⟨_, rfl⟩
  cases m with
  | zero =>
    -- no place at all
    have hzero : (createLongRingbuffer n 0).queueSize = 0 := hm
    obtain ⟨r, hrun, -⟩ := hqueue 0 [.put 0]
    rw [Answers.exec_cons_none] at hrun
    · cases hrun
    · rw [call, queuePut, if_pos hzero]
      rfl
  | succ k =>
    have hk : k < n := by omega
    -- the ring is the one for `k` values, and that one is full after so many puts
    have hsame : createLongRingbuffer n 0 = createLongRingbuffer k 0 := by
      simp only [createLongRingbuffer, hm, RingBufferL.mk.injEq, true_and]
      omega
    obtain ⟨r, hrun, hstands, -⟩ := hqueue 0 (List.replicate k (.put 0))
    obtain ⟨r', hrun', hstands', -⟩ := isQueue (n := k) (by omega) 0 (List.replicate k (.put 0))
    obtain ⟨-, rfl⟩ := Prod.mk.inj (Option.some.inj (hrun.symm.trans (hsame ▸ hrun')))
    have hfull := (hstands'.put_refused 0).2 (length_queue_puts le_rfl)
    rw [hstands.put_refused, length_queue_puts hk.le] at hfull
    exact absurd hfull hk.ne

/-- **The ring is a queue of `n` values just below `2 ^ 32` places.** -/
theorem isQueue_iff (n : ℕ) : IsQueue n ↔ n + 1 < 2 ^ 32 :=
  ⟨fun h => not_le.1 fun hle => not_isQueue hle h, isQueue⟩

/-- A ring for `2 ^ 32` values refuses the first one. -/
theorem first_put_refused :
    Answers.exec call (createLongRingbuffer (2 ^ 32 : ℕ) 0) [.put 7] =
        some ([(-1, none)], createLongRingbuffer (2 ^ 32 : ℕ) 0) ∧
      ¬ IsQueue (2 ^ 32) :=
  ⟨rfl, not_isQueue (by decide)⟩

end MacHPSDR.Core
