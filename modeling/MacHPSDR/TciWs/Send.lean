import MacHPSDR.TciWs.Recv

/-!
# Sending WebSocket messages

`tci_ws_io_send_blocking` writes one unmasked frame with FIN set, its length in the shortest of the
three forms. What is written is the encoding of a `Frame` (`writeHeader_eq`), so a sequence of
messages that has been sent is received as the same sequence (`send_recv`), however the bytes are
cut on their way in and out.

Opcode 0 is the exception. A frame that continues a message is ignored by a receiver that has none
under way, so a message sent with it is lost (`send_recv_continuation`).
-/

namespace MacHPSDR.TciWs

/-- `tci_ws_write_header`. -/
def writeHeader (opcode len : ℕ) : List UInt8 :=
  let h0 : UInt8 := 0x80 ||| UInt8.ofNat (opcode &&& 0x0f)
  if len < 126 then [h0, UInt8.ofNat len]
  else if len < 65536 then
    [h0, 126, UInt8.ofNat ((len >>> 8) &&& 0xff), UInt8.ofNat (len &&& 0xff)]
  else
    [h0, 127] ++ (List.range 8).map fun i => UInt8.ofNat ((len >>> (56 - 8 * i)) &&& 0xff)

section Send

variable {τ : Type*} (K : Sink τ)

/-- `tci_ws_io_send_blocking`. -/
def sendBlocking (s : τ) (opcode : ℕ) (payload : List UInt8) : Bool × τ :=
  match K.sendAll s (writeHeader opcode payload.length) with
  | (false, s) => (false, s)
  | (true, s) => if payload.length ≠ 0 then K.sendAll s payload else (true, s)

/-- Messages sent one after the other; `none` as soon as a call returns `FALSE`. -/
def sendMany : τ → List (ℕ × List UInt8) → Option τ
  | s, [] => some s
  | s, m :: ms =>
    match sendBlocking K s m.1 m.2 with
    | (false, _) => none
    | (true, s) => sendMany s ms

end Send

/-- `k` messages received one after the other; `none` as soon as a call returns `-1`. -/
def recvEach {σ : Type*} (T : Transport σ) : ℕ → σ → Option (List (ℕ × List UInt8) × σ)
  | 0, s => some ([], s)
  | k + 1, s => do
    let (m, s) ← recv T s
    let (ms, s) ← recvEach T k s
    return (m :: ms, s)

/-! ## The frame that is written -/

/-- The shortest form of a length. -/
def LengthForm.shortest (len : ℕ) : LengthForm :=
  if len < 126 then .short else if len < 65536 then .medium else .long

theorem LengthForm.lt_bound_shortest {len : ℕ} (h : len ≤ maxMsg) :
    len < (LengthForm.shortest len).bound := by
  unfold shortest
  split
  · assumption
  · split
    · assumption
    · simp only [bound, maxMsg] at h ⊢
      omega

/-- The frame of a message. -/
def messageFrame (opcode : ℕ) (payload : List UInt8) (h : payload.length ≤ maxMsg) : Frame where
  flags := 0x80 ||| UInt8.ofNat (opcode &&& 0x0f)
  form := .shortest payload.length
  mask := none
  payload := payload
  len_lt := LengthForm.lt_bound_shortest h

theorem and_byte (b : UInt8) : b &&& 0xff = b := by
  have hmod : b.toNat &&& 0xff = b.toNat % 2 ^ 8 := Nat.and_two_pow_sub_one_eq_mod b.toNat 8
  have hlt := b.toNat_lt
  apply UInt8.toNat.inj
  rw [UInt8.toNat_and, show (0xff : UInt8).toNat = 0xff from rfl, hmod]
  omega

theorem lengthByte_false (code : UInt8) : lengthByte false code = code := by
  simp [lengthByte]

theorem writeHeader_eq {opcode : ℕ} {payload : List UInt8} (h : payload.length ≤ maxMsg) :
    writeHeader opcode payload.length = (messageFrame opcode payload h).header.encode := by
  simp only [writeHeader, messageFrame, Frame.header, Header.encode, Option.isSome_none,
    lengthByte_false, LengthForm.shortest]
  split
  · rfl
  · split
    · simp [LengthForm.code, LengthForm.extra, Bytes.beBytes, and_byte,
        Nat.shiftRight_eq_div_pow]
    · simp [LengthForm.code, LengthForm.extra, Bytes.beBytes, and_byte,
        Nat.shiftRight_eq_div_pow, List.range_succ, Nat.div_div_eq_div_mul]

theorem fin_messageFrame {opcode : ℕ} {payload : List UInt8} (h : payload.length ≤ maxMsg)
    (hop : opcode < 16) : (messageFrame opcode payload h).fin = true ∧
      (messageFrame opcode payload h).opcode = opcode := by
  simp only [Frame.fin, Frame.opcode, messageFrame]
  revert opcode
  decide

theorem encode_messageFrame {opcode : ℕ} {payload : List UInt8} (h : payload.length ≤ maxMsg) :
    (messageFrame opcode payload h).encode = writeHeader opcode payload.length ++ payload := by
  rw [writeHeader_eq h]
  rfl

section Written

variable {τ : Type*} {K : Sink τ}

theorem sendBlocking_written {s s' : τ} {opcode : ℕ} {payload : List UInt8}
    (h : sendBlocking K s opcode payload = (true, s')) :
    K.written s' = K.written s ++ (writeHeader opcode payload.length ++ payload) := by
  unfold sendBlocking at h
  split at h
  · simp at h
  · rename_i s₁ hhead
    rw [← List.append_assoc, ← Sink.sendAll_written hhead]
    split at h
    · exact Sink.sendAll_written h
    · rename_i hempty
      obtain rfl : s₁ = s' := by simpa using h
      rw [List.eq_nil_of_length_eq_zero (not_not.1 hempty), List.append_nil]

theorem sendBlocking_of_reliable (hK : K.Reliable) (s : τ) (opcode : ℕ) (payload : List UInt8) :
    ∃ s', sendBlocking K s opcode payload = (true, s') := by
  obtain ⟨s₁, hhead⟩ := Sink.sendAll_of_reliable hK s (writeHeader opcode payload.length)
  simp only [sendBlocking, hhead]
  split
  · exact Sink.sendAll_of_reliable hK s₁ payload
  · exact ⟨s₁, rfl⟩

/-- The bytes of a sequence of messages. -/
def wire (ms : List (ℕ × List UInt8)) : List UInt8 :=
  ms.flatMap fun m => writeHeader m.1 m.2.length ++ m.2

theorem sendMany_written {s s' : τ} {ms : List (ℕ × List UInt8)} (h : sendMany K s ms = some s') :
    K.written s' = K.written s ++ wire ms := by
  induction ms generalizing s with
  | nil =>
    obtain rfl := Option.some.inj h
    exact (List.append_nil _).symm
  | cons m ms ih =>
    rw [sendMany] at h
    split at h
    · cases h
    · rename_i s₁ hm
      rw [ih h, sendBlocking_written hm, List.append_assoc]
      rfl

theorem sendMany_of_reliable (hK : K.Reliable) (s : τ) (ms : List (ℕ × List UInt8)) :
    ∃ s', sendMany K s ms = some s' := by
  induction ms generalizing s with
  | nil => exact ⟨s, rfl⟩
  | cons m ms ih =>
    obtain ⟨s₁, hm⟩ := sendBlocking_of_reliable hK s m.1 m.2
    simp only [sendMany, hm]
    exact ih s₁

end Written

/-! ## What is received -/

section Received

variable {σ : Type*} {T : Transport σ}

/-- A whole message in one frame is returned, and the stream stands behind it. -/
theorem recv_single {f : Frame} {s : σ} {rest : List UInt8} (hfin : f.fin = true)
    (hop : f.opcode ≠ 0) (hlen : f.payload.length ≤ maxMsg) (hs : T.content s = f.encode ++ rest) :
    ∃ s', recv T s = some ((f.opcode, f.payload), s') ∧ T.content s' = rest := by
  have hfit : ([] : List UInt8).length + f.payload.length ≤ maxMsg := by simpa using hlen
  obtain ⟨s', hf, hs'⟩ := recvFrame_encode hs hfit
  have hfin' : finBit f.flags = true := hfin
  have hop' : opcodeOf f.flags ≠ 0 := hop
  refine ⟨s', ?_, hs'⟩
  simp only [recv, recvLoop, hf, Option.bind_eq_bind, Option.bind_some]
  by_cases hctl : opcodeOf f.flags ≥ 8
  · rw [if_pos hctl]
    rfl
  · rw [if_neg hctl, if_neg hop', if_pos hfin']
    rfl

theorem recvEach_wire {ms : List (ℕ × List UInt8)}
    (hms : ∀ m ∈ ms, 0 < m.1 ∧ m.1 < 16 ∧ m.2.length ≤ maxMsg) {s : σ} {rest : List UInt8}
    (hs : T.content s = wire ms ++ rest) :
    ∃ s', recvEach T ms.length s = some (ms, s') ∧ T.content s' = rest := by
  induction ms generalizing s with
  | nil => exact ⟨s, rfl, hs⟩
  | cons m ms ih =>
    obtain ⟨⟨hpos, hlt, hlen⟩, hms⟩ := List.forall_mem_cons.1 hms
    obtain ⟨hfin, hop⟩ := fin_messageFrame hlen hlt
    have hcons : wire (m :: ms) = (messageFrame m.1 m.2 hlen).encode ++ wire ms := by
      rw [encode_messageFrame]
      rfl
    rw [hcons, List.append_assoc] at hs
    obtain ⟨s₁, h₁, hs₁⟩ := recv_single hfin (by omega) hlen hs
    obtain ⟨s₂, h₂, hs₂⟩ := ih hms hs₁
    refine ⟨s₂, ?_, hs₂⟩
    rw [hop] at h₁
    simp only [List.length_cons, recvEach, h₁, h₂, Option.bind_eq_bind, Option.bind_some]
    rfl

end Received

/-- **What is sent is received.** On a connection that does not fail every message is sent; and
whatever has been sent is received as the same messages, from a stream that brings the bytes in
pieces of any size, and the stream stands behind them. -/
theorem send_recv {τ σ : Type*} (K : Sink τ) (T : Transport σ) (ms : List (ℕ × List UInt8))
    (hms : ∀ m ∈ ms, 0 < m.1 ∧ m.1 < 16 ∧ m.2.length ≤ maxMsg) :
    (K.Reliable → ∀ s, ∃ s', sendMany K s ms = some s') ∧
    ∀ s s', sendMany K s ms = some s' → ∃ bytes, K.written s' = K.written s ++ bytes ∧
      ∀ t rest, T.content t = bytes ++ rest →
        ∃ t', recvEach T ms.length t = some (ms, t') ∧ T.content t' = rest :=
  ⟨fun hK s => sendMany_of_reliable hK s ms, fun _ _ h =>
    ⟨wire ms, sendMany_written h, fun _ _ ht => recvEach_wire hms ht⟩⟩

/-- A text message and a pong. -/
def textAndPong : List (ℕ × List UInt8) := [(1, [0x76, 0x66, 0x6f, 0x3b]), (10, [])]

/-- Two messages, written in pieces of 1, 3 and 1 bytes with an interruption, and read in others. -/
theorem send_recv_textAndPong :
    ∃ s', sendMany piecemeal ⟨[], [1, 3, 1], 1, false⟩ textAndPong = some s' ∧
      ∃ t', recvEach piecewise 2 ⟨s'.bytes, [2, 1]⟩ = some (textAndPong, t') ∧ t'.bytes = [] := by
  have h := send_recv piecemeal piecewise textAndPong (by decide)
  obtain ⟨s', hs'⟩ := h.1 piecemeal_reliable ⟨[], [1, 3, 1], 1, false⟩
  obtain ⟨bytes, hbytes, hrecv⟩ := h.2 _ s' hs'
  refine ⟨s', hs', ?_⟩
  exact hrecv ⟨s'.bytes, [2, 1]⟩ [] (by rw [List.append_nil]; exact hbytes)

/-- A message sent with opcode 0 is not received. -/
theorem send_recv_continuation :
    ∃ s', sendMany piecemeal ⟨[], [], 0, false⟩ [(0, [0x76])] = some s' ∧
      s'.bytes = [0x80, 1, 0x76] ∧ recvEach piecewise 1 ⟨s'.bytes, []⟩ = none :=
  ⟨⟨[0x80, 1, 0x76], [], 0, false⟩, by decide, rfl, by decide⟩

end MacHPSDR.TciWs
