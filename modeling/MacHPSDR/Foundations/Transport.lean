import Mathlib

/-!
# Byte streams that arrive in pieces

A connection hands over its bytes in pieces of any size: one read for `n` bytes gives between one
and `n` of them, or nothing once the stream has ended. `Transport` is any connection of this kind,
with the bytes still to come (`content`) as the only thing that is known about its state.
`recvAll` reads until it has all of `n` bytes; what it returns depends on the bytes and not on how
they were cut (`recvAll_eq_none`, `recvAll_append`, `recvAll_some`).

`Sink` is the other end: one write takes between one byte and all of those it is given, or is
interrupted before it takes any, or fails. `sendAll` writes until everything is taken; when it
returns `true` exactly the given bytes have been written (`sendAll_written`), and on a connection
that does not fail it does return `true` (`sendAll_of_reliable`).
-/

namespace MacHPSDR

/-- A connection that delivers a byte stream in pieces. -/
structure Transport (σ : Type*) where
  /-- The bytes that are still to come before the stream ends or fails. -/
  content : σ → List UInt8
  /-- Read at most `n` bytes; `none` at the end of the stream. -/
  read : σ → ℕ → Option (List UInt8 × σ)
  read_eq_none : ∀ s n, 0 < n → (read s n = none ↔ content s = [])
  read_some : ∀ s n bs s', 0 < n → read s n = some (bs, s') →
    bs ≠ [] ∧ bs.length ≤ n ∧ content s = bs ++ content s'

namespace Transport

variable {σ : Type*} (T : Transport σ)

/-- Read until `n` bytes are there; every read gives one at least, so `fuel = n` is enough. -/
def recvLoop : ℕ → σ → ℕ → Option (List UInt8 × σ)
  | _, s, 0 => some ([], s)
  | 0, _, _ + 1 => none
  | fuel + 1, s, n + 1 => do
    let (bs, s) ← T.read s (n + 1)
    let (rest, s) ← recvLoop fuel s (n + 1 - bs.length)
    return (bs ++ rest, s)

/-- Read exactly `n` bytes, or `none` when the stream ends before. -/
def recvAll (s : σ) (n : ℕ) : Option (List UInt8 × σ) := T.recvLoop n s n

/-- What the loop returns are the next `n` bytes of the stream, or none if there are fewer. -/
theorem recvLoop_spec (fuel : ℕ) (s : σ) (n : ℕ) (h : n ≤ fuel) :
    (T.recvLoop fuel s n = none ∧ (T.content s).length < n) ∨
      ∃ bs s', T.recvLoop fuel s n = some (bs, s') ∧ bs.length = n ∧
        T.content s = bs ++ T.content s' := by
  induction fuel generalizing s n with
  | zero =>
    obtain rfl : n = 0 := by omega
    exact Or.inr ⟨[], s, rfl, rfl, rfl⟩
  | succ fuel ih =>
    cases n with
    | zero => exact Or.inr ⟨[], s, rfl, rfl, rfl⟩
    | succ n =>
      cases hr : T.read s (n + 1) with
      | none =>
        have hend := (T.read_eq_none s (n + 1) (by omega)).1 hr
        exact Or.inl ⟨by simp [recvLoop, hr], by simp [hend]⟩
      | some r =>
        obtain ⟨bs, s₁⟩ := r
        obtain ⟨hne, hle, hcont⟩ := T.read_some s (n + 1) bs s₁ (by omega) hr
        have hpos := List.length_pos_iff.2 hne
        rcases ih s₁ (n + 1 - bs.length) (by omega) with ⟨hnone, hlt⟩ | ⟨rest, s₂, hsome, hlen, hc⟩
        · refine Or.inl ⟨by simp [recvLoop, hr, hnone], ?_⟩
          rw [hcont, List.length_append]
          omega
        · refine Or.inr ⟨bs ++ rest, s₂, by simp [recvLoop, hr, hsome], ?_, ?_⟩
          · rw [List.length_append]
            omega
          · rw [hcont, hc, List.append_assoc]

theorem recvAll_some {s s' : σ} {n : ℕ} {bs : List UInt8} (h : T.recvAll s n = some (bs, s')) :
    bs.length = n ∧ T.content s = bs ++ T.content s' := by
  rcases T.recvLoop_spec n s n (Nat.le_refl _) with ⟨hnone, _⟩ | ⟨bs', s'', hsome, hlen, hc⟩
  · simp [recvAll, hnone] at h
  · simp only [recvAll, hsome, Option.some.injEq, Prod.mk.injEq] at h
    obtain ⟨rfl, rfl⟩ := h
    exact ⟨hlen, hc⟩

/-- The bytes are there, so `recvAll` returns them. -/
theorem recvAll_append {s : σ} {bs rest : List UInt8} (h : T.content s = bs ++ rest) :
    ∃ s', T.recvAll s bs.length = some (bs, s') ∧ T.content s' = rest := by
  rcases T.recvLoop_spec bs.length s bs.length (Nat.le_refl _) with
    ⟨_, hlt⟩ | ⟨bs', s', hsome, hlen, hc⟩
  · rw [h, List.length_append] at hlt
    omega
  · obtain ⟨rfl, rfl⟩ := List.append_inj (hc.symm.trans h) hlen
    exact ⟨s', hsome, rfl⟩

theorem recvAll_eq_none {s : σ} {n : ℕ} (h : (T.content s).length < n) : T.recvAll s n = none := by
  rcases T.recvLoop_spec n s n (Nat.le_refl _) with ⟨hnone, _⟩ | ⟨bs, s', _, hlen, hc⟩
  · exact hnone
  · rw [hc, List.length_append] at h
    omega

end Transport

/-- A byte string together with the sizes of the pieces it arrives in. -/
structure Pieces where
  bytes : List UInt8
  sizes : List ℕ

/-- The next piece: at least one byte, at most what is asked for. -/
def Pieces.take (s : Pieces) (n : ℕ) : ℕ := max 1 (min n (s.sizes.headD n))

/-- A connection that delivers its bytes in the given pieces. -/
def piecewise : Transport Pieces where
  content := Pieces.bytes
  read s n :=
    if s.bytes = [] then none
    else some (s.bytes.take (s.take n), ⟨s.bytes.drop (s.take n), s.sizes.tail⟩)
  read_eq_none s n _ := by split <;> simp_all
  read_some s n bs s' hn h := by
    split at h
    · cases h
    · rename_i hne
      obtain ⟨rfl, rfl⟩ : s.bytes.take (s.take n) = bs ∧
          (⟨s.bytes.drop (s.take n), s.sizes.tail⟩ : Pieces) = s' := by simpa using h
      refine ⟨?_, ?_, (List.take_append_drop ..).symm⟩
      · simp [Pieces.take, hne]
      · rw [List.length_take, Pieces.take]
        omega

/-! ## Writing -/

/-- What one write does. -/
inductive WriteOutcome (τ : Type*)
  | accepted (n : ℕ) (s : τ)
  /-- A signal came before any byte was taken. -/
  | interrupted (s : τ)
  | failed (s : τ)

/-- A connection that takes a byte string in pieces. -/
structure Sink (τ : Type*) where
  /-- The bytes that have been taken. -/
  written : τ → List UInt8
  /-- A bound on the interruptions still to come. -/
  signals : τ → ℕ
  write : τ → List UInt8 → WriteOutcome τ
  accepted : ∀ s bs n s', bs ≠ [] → write s bs = .accepted n s' →
    0 < n ∧ n ≤ bs.length ∧ written s' = written s ++ bs.take n ∧ signals s' ≤ signals s
  interrupted : ∀ s bs s', bs ≠ [] → write s bs = .interrupted s' →
    written s' = written s ∧ signals s' < signals s

namespace Sink

variable {τ : Type*} (K : Sink τ)

/-- No write fails. -/
def Reliable : Prop := ∀ s bs s', K.write s bs ≠ .failed s'

/-- Write until everything is taken; `fuel` bounds the number of writes. -/
def sendLoop : ℕ → τ → List UInt8 → Bool × τ
  | _, s, [] => (true, s)
  | 0, s, _ :: _ => (false, s)
  | fuel + 1, s, b :: bs =>
    match K.write s (b :: bs) with
    | .accepted n s => sendLoop fuel s ((b :: bs).drop n)
    | .interrupted s => sendLoop fuel s (b :: bs)
    | .failed s => (false, s)

/-- Write all of `bs`. Every write takes a byte or is one of the interruptions. -/
def sendAll (s : τ) (bs : List UInt8) : Bool × τ := K.sendLoop (bs.length + K.signals s) s bs

variable {K}

theorem sendLoop_written {fuel : ℕ} {s s' : τ} {bs : List UInt8}
    (h : K.sendLoop fuel s bs = (true, s')) : K.written s' = K.written s ++ bs := by
  induction fuel generalizing s bs with
  | zero =>
    cases bs with
    | nil =>
      obtain rfl : s = s' := by simpa [sendLoop] using h
      rw [List.append_nil]
    | cons b bs => simp [sendLoop] at h
  | succ fuel ih =>
    cases bs with
    | nil =>
      obtain rfl : s = s' := by simpa [sendLoop] using h
      rw [List.append_nil]
    | cons b bs =>
      rw [sendLoop] at h
      split at h
      · rename_i n s₁ hw
        obtain ⟨-, -, hwritten, -⟩ := K.accepted s (b :: bs) n s₁ (List.cons_ne_nil _ _) hw
        rw [ih h, hwritten, List.append_assoc, List.take_append_drop]
      · rename_i s₁ hw
        obtain ⟨hwritten, -⟩ := K.interrupted s (b :: bs) s₁ (List.cons_ne_nil _ _) hw
        rw [ih h, hwritten]
      · simp at h

theorem sendLoop_of_reliable (hK : K.Reliable) {fuel : ℕ} {s : τ} {bs : List UInt8}
    (h : bs.length + K.signals s ≤ fuel) : ∃ s', K.sendLoop fuel s bs = (true, s') := by
  induction fuel generalizing s bs with
  | zero =>
    obtain rfl : bs = [] := List.eq_nil_of_length_eq_zero (by omega)
    exact ⟨s, rfl⟩
  | succ fuel ih =>
    cases bs with
    | nil => exact ⟨s, rfl⟩
    | cons b bs =>
      rw [sendLoop]
      split
      · rename_i n s₁ hw
        obtain ⟨hpos, -, -, hsignals⟩ := K.accepted s (b :: bs) n s₁ (List.cons_ne_nil _ _) hw
        apply ih
        rw [List.length_drop]
        rw [List.length_cons] at h ⊢
        omega
      · rename_i s₁ hw
        obtain ⟨-, hsignals⟩ := K.interrupted s (b :: bs) s₁ (List.cons_ne_nil _ _) hw
        apply ih
        omega
      · rename_i s₁ hw
        exact absurd hw (hK s (b :: bs) s₁)

theorem sendAll_written {s s' : τ} {bs : List UInt8} (h : K.sendAll s bs = (true, s')) :
    K.written s' = K.written s ++ bs := sendLoop_written h

theorem sendAll_of_reliable (hK : K.Reliable) (s : τ) (bs : List UInt8) :
    ∃ s', K.sendAll s bs = (true, s') := sendLoop_of_reliable hK (Nat.le_refl _)

end Sink

/-- What has been written, the sizes of the pieces that are taken, and a number of interruptions,
one before each piece as long as they last. -/
structure Outlet where
  bytes : List UInt8
  sizes : List ℕ
  signals : ℕ
  /-- The last write was interrupted. -/
  resumed : Bool
  deriving DecidableEq

/-- A connection that takes its bytes in the given pieces, after the given interruptions. -/
def piecemeal : Sink Outlet where
  written := Outlet.bytes
  signals := Outlet.signals
  write s bs :=
    if s.signals > 0 ∧ s.resumed = false then
      .interrupted { s with signals := s.signals - 1, resumed := true }
    else
      let n := max 1 (min bs.length (s.sizes.headD bs.length))
      .accepted n { s with bytes := s.bytes ++ bs.take n, sizes := s.sizes.tail, resumed := false }
  accepted s bs n s' hne h := by
    have hpos := List.length_pos_iff.2 hne
    split at h
    · simp at h
    · obtain ⟨rfl, rfl⟩ := WriteOutcome.accepted.inj h
      refine ⟨?_, ?_, rfl, Nat.le_refl _⟩
      · omega
      · omega
  interrupted s bs s' _ h := by
    split at h
    · rename_i hsig
      obtain rfl := WriteOutcome.interrupted.inj h
      refine ⟨rfl, ?_⟩
      simp only
      omega
    · simp at h

theorem piecemeal_reliable : piecemeal.Reliable := by
  intro s bs s' h
  simp only [piecemeal] at h
  split at h
  · simp at h
  · simp at h

end MacHPSDR
