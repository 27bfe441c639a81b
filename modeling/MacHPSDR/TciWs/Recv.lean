import MacHPSDR.Foundations.Transport
import MacHPSDR.TciWs.Frame

/-!
# Receiving WebSocket messages

`tci_ws_io_recv` reads frames from the connection until it has a complete message or a control
frame. `none` is its return value `-1`. The reading of one frame is split off as `recvFrame`; what
it does is said once, for a stream that starts with an encoded frame (`recvFrame_encode`), with an
over-long frame (`recvFrame_over`) or with a part of a frame (`recvFrame_truncated`), and for what
it has read when it succeeds (`recvFrame_some`).
-/

namespace MacHPSDR.TciWs

variable {σ : Type*} (T : Transport σ)

/-- The header of a frame: its first byte, its MASK bit and its length. -/
def recvHeader (s : σ) : Option ((UInt8 × Bool × ℕ) × σ) := do
  let (h, s) ← T.recvAll s 2
  let h0 := h.getD 0 0
  let h1 := h.getD 1 0
  let len := lenBits h1
  if len = 126 then
    let (e, s) ← T.recvAll s 2
    return ((h0, maskBit h1, Bytes.beNat e), s)
  else if len = 127 then
    let (e, s) ← T.recvAll s 8
    return ((h0, maskBit h1, Bytes.beNat e), s)
  else return ((h0, maskBit h1, len), s)

/-- The masking key, all zeros for a frame that has none. -/
def recvMask (masked : Bool) (s : σ) : Option (List UInt8 × σ) :=
  if masked then T.recvAll s 4 else some ([0, 0, 0, 0], s)

/-- One frame, with `accLen` bytes of the message already there: its first byte and its unmasked
payload. -/
def recvFrame (accLen : ℕ) (s : σ) : Option ((UInt8 × List UInt8) × σ) := do
  let ((h0, masked, len), s) ← recvHeader T s
  if len > maxMsg ∨ accLen + len > maxMsg then none
  else
    let (mask, s) ← recvMask T masked s
    let (buf, s) ← T.recvAll s len
    return ((h0, if masked then applyMask mask buf else buf), s)

/-- The loop of `tci_ws_io_recv`: `acc` is the payload so far and `accOp` the opcode of the message
being assembled. -/
def recvLoop : ℕ → List UInt8 → Option ℕ → σ → Option ((ℕ × List UInt8) × σ)
  | 0, _, _, _ => none
  | fuel + 1, acc, accOp, s => do
    let ((h0, buf), s) ← recvFrame T acc.length s
    if opcodeOf h0 ≥ 8 then return ((opcodeOf h0, buf), s)
    else if opcodeOf h0 = 0 then
      match accOp with
      | none => recvLoop fuel acc none s
      | some op =>
        if finBit h0 then return ((op, acc ++ buf), s) else recvLoop fuel (acc ++ buf) (some op) s
    else
      if finBit h0 then return ((opcodeOf h0, buf), s)
      else recvLoop fuel buf (some (opcodeOf h0)) s

/-- `tci_ws_io_recv`. Every round reads two bytes at least, so the fuel is never used up
(`recvLoop_fuel`). -/
def recv (s : σ) : Option ((ℕ × List UInt8) × σ) := recvLoop T ((T.content s).length + 1) [] none s

/-- The messages of at most `k` calls of `tci_ws_io_recv`, one after the other; the connection is
given up at the first `-1`. -/
def recvMany : ℕ → σ → List (ℕ × List UInt8)
  | 0, _ => []
  | k + 1, s =>
    match recv T s with
    | none => []
    | some (m, s) => m :: recvMany k s

/-! ## Headers -/

variable {T}

theorem recvHeader_encode {h : Header} {s : σ} {rest : List UInt8}
    (hs : T.content s = h.encode ++ rest) :
    ∃ s', recvHeader T s = some ((h.flags, h.masked, h.len), s') ∧ T.content s' = rest := by
  obtain ⟨flags, masked, form, len, hlen⟩ := h
  simp only [Header.encode, List.append_assoc] at hs
  obtain ⟨s₁, h₁, hs₁⟩ := T.recvAll_append hs
  simp only [List.length_cons, List.length_nil] at h₁
  cases form with
  | short =>
    have hcode : UInt8.ofNat len < 128 := by
      have : len < 126 := hlen
      rw [UInt8.lt_iff_toNat_lt]
      simp
      omega
    have hval : (UInt8.ofNat len).toNat = len := by
      have : len < 126 := hlen
      simp
      omega
    obtain ⟨hmask, hbits⟩ := lengthByte_bits masked _ hcode
    have h126 : len ≠ 126 := Nat.ne_of_lt hlen
    have h127 : len ≠ 127 := fun h => by simp [h, LengthForm.bound] at hlen
    refine ⟨s₁, ?_, hs₁⟩
    simp [recvHeader, h₁, LengthForm.code, hmask, hbits, hval, h126, h127]
  | medium =>
    obtain ⟨hmask, hbits⟩ := lengthByte_bits masked 126 (by decide)
    obtain ⟨s₂, h₂, hs₂⟩ := T.recvAll_append hs₁
    simp only [LengthForm.extra, Bytes.length_beBytes] at h₂
    have hval : Bytes.beNat (Bytes.beBytes 2 len) = len := Bytes.beNat_beBytes hlen
    refine ⟨s₂, ?_, hs₂⟩
    simp [recvHeader, h₁, h₂, LengthForm.code, hmask, hbits, hval]
  | long =>
    obtain ⟨hmask, hbits⟩ := lengthByte_bits masked 127 (by decide)
    obtain ⟨s₂, h₂, hs₂⟩ := T.recvAll_append hs₁
    simp only [LengthForm.extra, Bytes.length_beBytes] at h₂
    have hval : Bytes.beNat (Bytes.beBytes 8 len) = len := Bytes.beNat_beBytes hlen
    refine ⟨s₂, ?_, hs₂⟩
    simp [recvHeader, h₁, h₂, LengthForm.code, hmask, hbits, hval]

/-- The two bytes of a list of length two. -/
theorem eq_pair {l : List UInt8} (h : l.length = 2) : l = [l.getD 0 0, l.getD 1 0] := by
  match l, h with
  | [a, b], _ => rfl

theorem recvHeader_some {s s' : σ} {h0 : UInt8} {masked : Bool} {len : ℕ}
    (h : recvHeader T s = some ((h0, masked, len), s')) :
    ∃ hd : Header, hd.flags = h0 ∧ hd.masked = masked ∧ hd.len = len ∧
      T.content s = hd.encode ++ T.content s' := by
  simp only [recvHeader, Option.bind_eq_bind, Option.bind_eq_some_iff, Prod.exists] at h
  obtain ⟨hb, s₁, h₁, h⟩ := h
  obtain ⟨hlen, hc₁⟩ := T.recvAll_some h₁
  obtain ⟨hbyte, hlt⟩ := lengthByte_eq (hb.getD 1 0)
  rw [eq_pair hlen] at hc₁
  split at h
  · rename_i h126
    simp only [Option.bind_eq_some_iff, Prod.exists] at h
    obtain ⟨e, s₂, h₂, h⟩ := h
    obtain ⟨he, hc₂⟩ := T.recvAll_some h₂
    obtain ⟨⟨rfl, rfl, rfl⟩, rfl⟩ := by
      simpa only [Option.pure_def, Option.some.injEq, Prod.mk.injEq] using h
    have hfit : Bytes.beNat e < LengthForm.bound .medium := by
      simpa [he, LengthForm.bound] using Bytes.beNat_lt e
    refine ⟨⟨_, _, .medium, _, hfit⟩, rfl, rfl, rfl, ?_⟩
    rw [hc₁, hc₂]
    simp only [Header.encode, LengthForm.code, LengthForm.extra]
    rw [← he, Bytes.beBytes_beNat, List.append_assoc]
    rw [h126] at hbyte
    exact congrArg (fun b => [hb.getD 0 0, b] ++ (e ++ T.content s₂)) hbyte.symm
  · rename_i h126
    split at h
    · rename_i h127
      simp only [Option.bind_eq_some_iff, Prod.exists] at h
      obtain ⟨e, s₂, h₂, h⟩ := h
      obtain ⟨he, hc₂⟩ := T.recvAll_some h₂
      obtain ⟨⟨rfl, rfl, rfl⟩, rfl⟩ := by
        simpa only [Option.pure_def, Option.some.injEq, Prod.mk.injEq] using h
      have hfit : Bytes.beNat e < LengthForm.bound .long := by
        simpa [he, LengthForm.bound] using Bytes.beNat_lt e
      refine ⟨⟨_, _, .long, _, hfit⟩, rfl, rfl, rfl, ?_⟩
      rw [hc₁, hc₂]
      simp only [Header.encode, LengthForm.code, LengthForm.extra]
      rw [← he, Bytes.beBytes_beNat, List.append_assoc]
      rw [h127] at hbyte
      exact congrArg (fun b => [hb.getD 0 0, b] ++ (e ++ T.content s₂)) hbyte.symm
    · rename_i h127
      obtain ⟨⟨rfl, rfl, rfl⟩, rfl⟩ := by
        simpa only [Option.pure_def, Option.some.injEq, Prod.mk.injEq] using h
      have hfit : lenBits (hb.getD 1 0) < LengthForm.bound .short := by
        simp only [LengthForm.bound]
        omega
      refine ⟨⟨_, _, .short, _, hfit⟩, rfl, rfl, rfl, ?_⟩
      rw [hc₁]
      exact congrArg (fun b => [hb.getD 0 0, b] ++ T.content s₁) hbyte.symm

/-- A stream that ends inside a header. -/
theorem recvHeader_truncated {h : Header} {s : σ} (hpre : T.content s <+: h.encode)
    (hlt : (T.content s).length < h.encode.length) : recvHeader T s = none := by
  by_cases hshort : (T.content s).length < 2
  · simp [recvHeader, T.recvAll_eq_none hshort]
  · obtain ⟨flags, masked, form, len, hlen⟩ := h
    have htake := List.prefix_iff_eq_take.1 hpre
    have hsplit : T.content s = [flags, lengthByte masked (form.code len)] ++
        (form.extra len).take ((T.content s).length - 2) := by
      conv_lhs => rw [htake, Header.encode, List.take_append]
      rw [List.take_of_length_le (by simp; omega)]
      rfl
    obtain ⟨s₁, h₁, hs₁⟩ := T.recvAll_append hsplit
    simp only [List.length_cons, List.length_nil] at h₁
    have hextra : (T.content s₁).length < (form.extra len).length := by
      rw [hs₁, List.length_take]
      simp only [Header.encode, List.length_append, List.length_cons, List.length_nil] at hlt
      omega
    cases form with
    | short => simp [LengthForm.extra] at hextra
    | medium =>
      obtain ⟨_, hbits⟩ := lengthByte_bits masked 126 (by decide)
      simp only [LengthForm.extra, Bytes.length_beBytes] at hextra
      simp [recvHeader, h₁, LengthForm.code, hbits, T.recvAll_eq_none hextra]
    | long =>
      obtain ⟨_, hbits⟩ := lengthByte_bits masked 127 (by decide)
      simp only [LengthForm.extra, Bytes.length_beBytes] at hextra
      simp [recvHeader, h₁, LengthForm.code, hbits, T.recvAll_eq_none hextra]

/-! ## Frames -/

theorem Frame.length_body (f : Frame) : f.body.length = f.payload.length := by
  cases h : f.mask <;> simp [Frame.body, h]

theorem Frame.two_le_length_encode (f : Frame) : 2 ≤ f.encode.length := by
  simp [Frame.encode, Header.encode]

/-- The stream starts with a frame that fits, so the frame is read. -/
theorem recvFrame_encode {f : Frame} {accLen : ℕ} {s : σ} {rest : List UInt8}
    (hs : T.content s = f.encode ++ rest) (hfit : accLen + f.payload.length ≤ maxMsg) :
    ∃ s', recvFrame T accLen s = some ((f.flags, f.payload), s') ∧ T.content s' = rest := by
  simp only [Frame.encode, List.append_assoc] at hs
  obtain ⟨s₁, h₁, hs₁⟩ := recvHeader_encode hs
  have hlim : ¬ (f.payload.length > maxMsg ∨ accLen + f.payload.length > maxMsg) := by omega
  simp only [recvFrame, h₁, Frame.header, Option.bind_eq_bind, Option.bind_some, hlim, if_false]
  obtain ⟨s₂, h₂, hs₂⟩ := T.recvAll_append hs₁
  obtain ⟨s₃, h₃, hs₃⟩ := T.recvAll_append hs₂
  rw [f.length_body] at h₃
  refine ⟨s₃, ?_, hs₃⟩
  cases hm : f.mask with
  | none =>
    simp only [Frame.key, hm, Option.elim_none, List.length_nil] at h₂
    obtain rfl : s₁ = s₂ := by simpa [Transport.recvAll, Transport.recvLoop] using h₂
    simp [recvMask, h₃, Frame.body, hm]
  | some key =>
    simp only [Frame.key, hm, Option.elim_some, key.property] at h₂
    simp [recvMask, h₂, h₃, Frame.body, hm]

/-- The frame that has been read, and that it fitted. -/
theorem recvFrame_some {accLen : ℕ} {s s' : σ} {h0 : UInt8} {buf : List UInt8}
    (h : recvFrame T accLen s = some ((h0, buf), s')) :
    ∃ f : Frame, f.flags = h0 ∧ f.payload = buf ∧ T.content s = f.encode ++ T.content s' ∧
      accLen + buf.length ≤ maxMsg := by
  simp only [recvFrame, Option.bind_eq_bind, Option.bind_eq_some_iff, Prod.exists] at h
  obtain ⟨h0', masked, len, s₁, h₁, h⟩ := h
  obtain ⟨⟨flags, masked, form, len, hlen⟩, rfl, rfl, rfl, hc₁⟩ := recvHeader_some h₁
  split at h
  · cases h
  · rename_i hlim
    dsimp only at hlim
    simp only [Option.bind_eq_some_iff, Prod.exists, Option.pure_def, Option.some.injEq,
      Prod.mk.injEq] at h
    obtain ⟨key, s₂, h₂, body, s₃, h₃, ⟨rfl, rfl⟩, rfl⟩ := h
    obtain ⟨rfl, hc₃⟩ := T.recvAll_some h₃
    cases masked with
    | false =>
      obtain ⟨-, rfl⟩ : [0, 0, 0, 0] = key ∧ s₁ = s₂ := by simpa [recvMask] using h₂
      refine ⟨⟨flags, form, none, body, hlen⟩, rfl, rfl, ?_, ?_⟩
      · rw [hc₁, hc₃]
        simp [Frame.encode, Frame.header, Frame.key, Frame.body]
      · simp only [Bool.false_eq_true, if_false]
        omega
    | true =>
      simp only [recvMask, if_true] at h₂ ⊢
      obtain ⟨hkey, hc₂⟩ := T.recvAll_some h₂
      refine ⟨⟨flags, form, some ⟨key, hkey⟩, applyMask key body, by simpa using hlen⟩,
        rfl, rfl, ?_, ?_⟩
      · rw [hc₁, hc₂, hc₃]
        simp [Frame.encode, Frame.header, Frame.key, Frame.body]
      · rw [length_applyMask]
        omega

/-- A header that announces more than there is room for is refused, whatever follows it. -/
theorem recvFrame_over {h : Header} {accLen : ℕ} {s : σ} {rest : List UInt8}
    (hs : T.content s = h.encode ++ rest) (hover : accLen + h.len > maxMsg) :
    recvFrame T accLen s = none := by
  obtain ⟨s₁, h₁, _⟩ := recvHeader_encode hs
  have hlim : h.len > maxMsg ∨ accLen + h.len > maxMsg := Or.inr hover
  simp [recvFrame, h₁, hlim]

/-- A stream that ends inside a frame gives no frame. -/
theorem recvFrame_truncated {f : Frame} {accLen : ℕ} {s : σ} (hpre : T.content s <+: f.encode)
    (hlt : (T.content s).length < f.encode.length) : recvFrame T accLen s = none := by
  by_cases hhead : (T.content s).length < f.header.encode.length
  · have hpre' : T.content s <+: f.header.encode :=
      List.prefix_of_prefix_length_le hpre (List.prefix_append ..) (by omega)
    simp [recvFrame, recvHeader_truncated hpre' hhead]
  · have hhead' : f.header.encode <+: T.content s :=
      List.prefix_of_prefix_length_le (List.prefix_append ..) hpre (by omega)
    obtain ⟨tail, htail⟩ := hhead'
    obtain ⟨s₁, h₁, hs₁⟩ := recvHeader_encode htail.symm
    have hlen : tail.length < f.key.length + f.payload.length := by
      have := congrArg List.length htail
      simp only [Frame.encode, List.length_append, f.length_body] at hlt this
      omega
    simp only [recvFrame, h₁, Frame.header, Option.bind_eq_bind, Option.bind_some]
    split
    · rfl
    · cases hm : f.mask with
      | none =>
        have hshort : (T.content s₁).length < f.payload.length := by
          simpa [hs₁, Frame.key, hm] using hlen
        simp [recvMask, T.recvAll_eq_none hshort]
      | some key =>
        simp only [Frame.key, hm, Option.elim_some, key.property] at hlen
        simp only [recvMask, Option.isSome_some, if_true]
        cases h₂ : T.recvAll s₁ 4 with
        | none => rfl
        | some r =>
          obtain ⟨e, s₂⟩ := r
          obtain ⟨he, hc₂⟩ := T.recvAll_some h₂
          have hshort : (T.content s₂).length < f.payload.length := by
            have := congrArg List.length hc₂
            rw [hs₁, List.length_append] at this
            omega
          simp [T.recvAll_eq_none hshort]

/-- What is left after a frame is shorter. -/
theorem recvFrame_length {accLen : ℕ} {s s' : σ} {r : UInt8 × List UInt8}
    (h : recvFrame T accLen s = some (r, s')) : (T.content s').length < (T.content s).length := by
  obtain ⟨f, _, _, hc, _⟩ := recvFrame_some h
  have := f.two_le_length_encode
  rw [hc, List.length_append]
  omega

/-- Fuel beyond the length of the stream changes nothing: the loop stops by itself. -/
theorem recvLoop_fuel {fuel fuel' : ℕ} {acc : List UInt8} {accOp : Option ℕ} {s : σ}
    (h : (T.content s).length < fuel) (h' : (T.content s).length < fuel') :
    recvLoop T fuel acc accOp s = recvLoop T fuel' acc accOp s := by
  induction fuel generalizing fuel' acc accOp s with
  | zero => omega
  | succ fuel ih =>
    cases fuel' with
    | zero => omega
    | succ fuel' =>
      simp only [recvLoop]
      cases hf : recvFrame T acc.length s with
      | none => rfl
      | some r =>
        obtain ⟨⟨h0, buf⟩, s₁⟩ := r
        have hlen := recvFrame_length hf
        have hrec : ∀ acc accOp, recvLoop T fuel acc accOp s₁ = recvLoop T fuel' acc accOp s₁ :=
          fun acc accOp => ih (by omega) (by omega)
        simp only [Option.bind_eq_bind, Option.bind_some, hrec]

end MacHPSDR.TciWs
