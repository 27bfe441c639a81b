import MacHPSDR.TciWs.Recv

/-!
# Message reassembly

What the messages returned by `tci_ws_io_recv` are, in terms of the frames of the stream. A run is
a data frame followed by continuation frames up to the first FIN (`IsRun`). A call that returns a
data message has read some frames that are no part of it and then exactly one run, and the message
is the concatenation of the payloads of that run (`Delivers`). A stream that breaks off, and a run
that grows beyond the limit, make the call fail. The main result is `recv_reassembles`.
-/

namespace MacHPSDR.TciWs

/-- The last frame has FIN set and no other has. -/
def ClosedByFin (fs : List Frame) : Prop :=
  ∃ n, fs.map Frame.fin = List.replicate n false ++ [true]

/-- A complete message: a data frame that starts it, continuation frames, FIN on the last one. -/
structure IsRun (first : Frame) (conts : List Frame) : Prop where
  opcode_pos : 0 < first.opcode
  opcode_lt : first.opcode < 8
  conts_opcode : ∀ f ∈ conts, f.opcode = 0
  closed : ClosedByFin (first :: conts)

/-- The beginning of a message: a data frame that starts it and continuation frames, none of which
ends it. -/
structure IsOpenRun (first : Frame) (conts : List Frame) : Prop where
  opcode_pos : 0 < first.opcode
  opcode_lt : first.opcode < 8
  conts_opcode : ∀ f ∈ conts, f.opcode = 0
  unfinished : ∀ f ∈ first :: conts, f.fin = false

/-- The message that one call returns after it has read the given frames. -/
inductive Delivers : List Frame → ℕ × List UInt8 → Prop
  /-- A control frame is returned at once. -/
  | control {pre : List Frame} {f : Frame} (hpre : ∀ g ∈ pre, g.opcode < 8)
      (hf : 8 ≤ f.opcode) : Delivers (pre ++ [f]) (f.opcode, f.payload)
  /-- A data message is one run, reported with the opcode of its first frame. -/
  | message {pre : List Frame} {first : Frame} {conts : List Frame}
      (hpre : ∀ g ∈ pre, g.opcode < 8) (hrun : IsRun first conts)
      (hlen : (payloads (first :: conts)).length ≤ maxMsg) :
      Delivers (pre ++ first :: conts) (first.opcode, payloads (first :: conts))

/-- Frames that contain neither a control frame nor a complete message. -/
def Quiet (fs : List Frame) : Prop :=
  (∀ f ∈ fs, f.opcode < 8) ∧ ∀ first conts, IsRun first conts → ¬ (first :: conts) <:+: fs

theorem closedByFin_singleton {f : Frame} (h : f.fin = true) : ClosedByFin [f] :=
  ⟨0, by simp [h]⟩

theorem ClosedByFin.cons {f : Frame} {fs : List Frame} (h : f.fin = false)
    (hc : ClosedByFin fs) : ClosedByFin (f :: fs) := by
  obtain ⟨n, hn⟩ := hc
  exact ⟨n + 1, by simp [h, hn, List.replicate_succ]⟩

variable {σ : Type*} {T : Transport σ}

/-! ## What is returned -/

/-- A frame that is no part of the message. -/
theorem Delivers.cons {f : Frame} {fs : List Frame} {m : ℕ × List UInt8} (hf : f.opcode < 8)
    (h : Delivers fs m) : Delivers (f :: fs) m := by
  cases h with
  | control hpre hctl =>
    exact Delivers.control (List.forall_mem_cons.2 ⟨hf, hpre⟩) hctl
  | message hpre hrun hlen =>
    exact Delivers.message (List.forall_mem_cons.2 ⟨hf, hpre⟩) hrun hlen

/-- The rest of a message that has been started: continuation frames up to FIN. -/
structure Finishes (conts : List Frame) (op : ℕ) (acc : List UInt8) (m : ℕ × List UInt8) :
    Prop where
  conts_opcode : ∀ f ∈ conts, f.opcode = 0
  closed : ClosedByFin conts
  message : m = (op, acc ++ payloads conts)
  length_le : m.2.length ≤ maxMsg

/-- The frames that the loop has read when it returns a message: they finish the message that was
being assembled, or they deliver one of their own. -/
theorem recvLoop_some {fuel : ℕ} {acc : List UInt8} {accOp : Option ℕ} {s s' : σ}
    {m : ℕ × List UInt8} (h : recvLoop T fuel acc accOp s = some (m, s')) :
    ∃ fs, T.content s = encodeAll fs ++ T.content s' ∧
      (Delivers fs m ∨ ∃ op, accOp = some op ∧ Finishes fs op acc m) := by
  induction fuel generalizing acc accOp s with
  | zero => cases h
  | succ fuel ih =>
    simp only [recvLoop, Option.bind_eq_bind, Option.bind_eq_some_iff, Prod.exists] at h
    obtain ⟨h0, buf, s₁, hf, h⟩ := h
    obtain ⟨f, rfl, rfl, hc, hfit⟩ := recvFrame_some hf
    -- The frame that has been read goes in front of those read later.
    have hpush : ∀ fs, T.content s₁ = encodeAll fs ++ T.content s' →
        T.content s = encodeAll (f :: fs) ++ T.content s' := by
      intro fs hfs
      rw [hc, hfs, encodeAll_cons, List.append_assoc]
    split at h
    · rename_i hctl
      obtain ⟨rfl, rfl⟩ : _ = m ∧ s₁ = s' := by simpa using h
      exact ⟨[f], hpush [] rfl, Or.inl (@Delivers.control [] f (by simp) hctl)⟩
    · rename_i hdata
      have hlt : f.opcode < 8 := Nat.lt_of_not_le hdata
      split at h
      · rename_i hcont
        cases accOp with
        | none =>
          obtain ⟨fs, hfs, hd | ⟨op, hop, _⟩⟩ := ih h
          · exact ⟨f :: fs, hpush fs hfs, Or.inl (hd.cons hlt)⟩
          · cases hop
        | some op =>
          simp only at h
          split at h
          · rename_i hfin
            obtain ⟨rfl, rfl⟩ : _ = m ∧ s₁ = s' := by simpa using h
            refine ⟨[f], hpush [] rfl, Or.inr ⟨op, rfl, ?_, closedByFin_singleton hfin, ?_, ?_⟩⟩
            · exact List.forall_mem_singleton.2 hcont
            · simp
            · simpa using hfit
          · rename_i hfin
            obtain ⟨fs, hfs, hd | ⟨op', hop, hfs'⟩⟩ := ih h
            · exact ⟨f :: fs, hpush fs hfs, Or.inl (hd.cons hlt)⟩
            · obtain rfl := Option.some.inj hop
              refine ⟨f :: fs, hpush fs hfs, Or.inr ⟨op, rfl, ?_, ?_, ?_, hfs'.length_le⟩⟩
              · exact List.forall_mem_cons.2 ⟨hcont, hfs'.conts_opcode⟩
              · exact hfs'.closed.cons (Bool.eq_false_iff.2 hfin)
              · rw [hfs'.message, payloads_cons, List.append_assoc]
      · rename_i hstart
        have hpos : 0 < f.opcode := Nat.pos_of_ne_zero hstart
        split at h
        · rename_i hfin
          obtain ⟨rfl, rfl⟩ : _ = m ∧ s₁ = s' := by simpa using h
          have hrun : IsRun f [] := ⟨hpos, hlt, by simp, closedByFin_singleton hfin⟩
          have hd := @Delivers.message [] f [] (by simp) hrun (by simp; omega)
          rw [payloads_cons, payloads_nil, List.append_nil] at hd
          exact ⟨[f], hpush [] rfl, Or.inl hd⟩
        · rename_i hfin
          obtain ⟨fs, hfs, hd | ⟨op, hop, hfs'⟩⟩ := ih h
          · exact ⟨f :: fs, hpush fs hfs, Or.inl (hd.cons hlt)⟩
          · obtain rfl := Option.some.inj hop
            have hrun : IsRun f fs :=
              ⟨hpos, hlt, hfs'.conts_opcode, hfs'.closed.cons (Bool.eq_false_iff.2 hfin)⟩
            have hm : m = (f.opcode, payloads (f :: fs)) := hfs'.message
            have hlen := hfs'.length_le
            rw [hm] at hlen ⊢
            exact ⟨f :: fs, hpush fs hfs, Or.inl (@Delivers.message [] f fs (by simp) hrun hlen)⟩

theorem recv_some {s s' : σ} {m : ℕ × List UInt8} (h : recv T s = some (m, s')) :
    ∃ fs, T.content s = encodeAll fs ++ T.content s' ∧ Delivers fs m := by
  obtain ⟨fs, hfs, hd | ⟨op, hop, _⟩⟩ := recvLoop_some h
  · exact ⟨fs, hfs, hd⟩
  · cases hop

/-- The calls on one connection share out the frames of the stream among their messages. -/
theorem recvMany_delivers (k : ℕ) (s : σ) : ∃ segs rest,
    T.content s = encodeAll segs.flatten ++ rest ∧
      List.Forall₂ Delivers segs (recvMany T k s) := by
  induction k generalizing s with
  | zero => exact ⟨[], T.content s, rfl, List.Forall₂.nil⟩
  | succ k ih =>
    simp only [recvMany]
    split
    · exact ⟨[], T.content s, rfl, List.Forall₂.nil⟩
    · rename_i m s' h
      obtain ⟨fs, hfs, hd⟩ := recv_some h
      obtain ⟨segs, rest, hsegs, hds⟩ := ih s'
      refine ⟨fs :: segs, rest, ?_, List.Forall₂.cons hd hds⟩
      rw [hfs, hsegs, List.flatten_cons, encodeAll_append, List.append_assoc]

/-! ## What makes a call fail -/

/-- No call returns while it reads these frames, if a message is being assembled (`o`) or not when
the first of them arrives. -/
def Undelivered : Bool → List Frame → Prop
  | _, [] => True
  | o, f :: fs =>
    f.opcode < 8 ∧
      if f.opcode = 0 then
        if o then f.fin = false ∧ Undelivered true fs else Undelivered false fs
      else f.fin = false ∧ Undelivered true fs

/-- Quiet frames deliver nothing, after the beginning of a message either if they do not finish
it. -/
theorem Quiet.undelivered {fs : List Frame} (h : Quiet fs) (o : Bool)
    (ho : o = true → ∀ conts, (∀ f ∈ conts, f.opcode = 0) → ClosedByFin conts → ¬ conts <+: fs) :
    Undelivered o fs := by
  induction fs generalizing o with
  | nil => trivial
  | cons f fs ih =>
    obtain ⟨hdata, hrun⟩ := h
    have hlt := hdata f (List.mem_cons_self ..)
    have hquiet : Quiet fs :=
      ⟨fun g hg => hdata g (List.mem_cons_of_mem _ hg),
        fun first conts hr hin => hrun first conts hr (hin.trans (List.suffix_cons ..).isInfix)⟩
    refine ⟨hlt, ?_⟩
    split
    · rename_i hcont
      cases o with
      | false => exact ih hquiet false (by simp)
      | true =>
        have hfin : f.fin = false := by
          rw [Bool.eq_false_iff]
          intro hfin
          exact ho rfl [f] (List.forall_mem_singleton.2 hcont) (closedByFin_singleton hfin)
            ⟨fs, rfl⟩
        refine ⟨hfin, ih hquiet true fun _ conts hop hcl hpre => ?_⟩
        exact ho rfl (f :: conts) (List.forall_mem_cons.2 ⟨hcont, hop⟩) (hcl.cons hfin)
          (List.cons_prefix_cons.2 ⟨rfl, hpre⟩)
    · rename_i hstart
      have hpos : 0 < f.opcode := Nat.pos_of_ne_zero hstart
      have hfin : f.fin = false := by
        rw [Bool.eq_false_iff]
        intro hfin
        exact hrun f [] ⟨hpos, hlt, by simp, closedByFin_singleton hfin⟩ ⟨[], fs, rfl⟩
      refine ⟨hfin, ih hquiet true fun _ conts hop hcl hpre => ?_⟩
      exact hrun f conts ⟨hpos, hlt, hop, hcl.cons hfin⟩
        (List.cons_prefix_cons.2 ⟨rfl, hpre⟩).isInfix

/-- The message being assembled after one more frame. -/
def absorb (p : List UInt8 × Option ℕ) (f : Frame) : List UInt8 × Option ℕ :=
  if f.opcode = 0 then
    match p.2 with
    | none => (p.1, none)
    | some op => (p.1 ++ f.payload, some op)
  else (f.payload, some f.opcode)

/-- The loop reads undelivered frames and goes on with what it has assembled, unless it fails. -/
theorem recvLoop_undelivered (p : List UInt8 × Option ℕ) {fs : List Frame} {fuel : ℕ} {s : σ}
    {rest : List UInt8} (h : Undelivered p.2.isSome fs) (hs : T.content s = encodeAll fs ++ rest) :
    recvLoop T fuel p.1 p.2 s = none ∨ ∃ fuel' s', T.content s' = rest ∧
      recvLoop T fuel p.1 p.2 s =
        recvLoop T fuel' (fs.foldl absorb p).1 (fs.foldl absorb p).2 s' := by
  induction fs generalizing fuel p s with
  | nil => exact Or.inr ⟨fuel, s, hs, rfl⟩
  | cons f fs ih =>
    cases fuel with
    | zero => exact Or.inl rfl
    | succ fuel =>
      by_cases hfit : p.1.length + f.payload.length ≤ maxMsg
      · rw [encodeAll_cons, List.append_assoc] at hs
        obtain ⟨s₁, h₁, hs₁⟩ := recvFrame_encode hs hfit
        obtain ⟨hlt, h⟩ := h
        have hctl : ¬ opcodeOf f.flags ≥ 8 := Nat.not_le.2 hlt
        suffices hone : recvLoop T (fuel + 1) p.1 p.2 s =
            recvLoop T fuel (absorb p f).1 (absorb p f).2 s₁ ∧
              Undelivered (absorb p f).2.isSome fs by
          rw [hone.1, List.foldl_cons]
          exact ih _ hone.2 hs₁
        obtain ⟨acc, accOp⟩ := p
        simp only [recvLoop, h₁, Option.bind_eq_bind, Option.bind_some, hctl, if_false]
        by_cases hop : f.opcode = 0
        · have hop' : opcodeOf f.flags = 0 := hop
          simp only [hop, if_true] at h
          cases accOp with
          | none => simpa [hop', absorb, hop] using h
          | some op =>
            obtain ⟨hfin, h⟩ : f.fin = false ∧ Undelivered true fs := by simpa using h
            have hfin' : finBit f.flags = false := hfin
            simpa [hop', hfin', absorb, hop] using h
        · have hop' : opcodeOf f.flags ≠ 0 := hop
          simp only [hop, if_false] at h
          obtain ⟨hfin, h⟩ := h
          have hfin' : finBit f.flags = false := hfin
          simp only [hop', hfin', absorb, hop, if_false, Bool.false_eq_true]
          exact ⟨rfl, h⟩
      · left
        rw [encodeAll_cons, Frame.encode, List.append_assoc, List.append_assoc] at hs
        have hover : p.1.length + f.header.len > maxMsg := Nat.lt_of_not_le hfit
        simp [recvLoop, recvFrame_over hs hover]

theorem foldl_absorb_conts {conts : List Frame} (h : ∀ f ∈ conts, f.opcode = 0)
    (acc : List UInt8) (op : ℕ) :
    conts.foldl absorb (acc, some op) = (acc ++ payloads conts, some op) := by
  induction conts generalizing acc with
  | nil => simp
  | cons f conts ih =>
    obtain ⟨hf, h⟩ := List.forall_mem_cons.1 h
    rw [List.foldl_cons, absorb, if_pos hf, ih h, payloads_cons, List.append_assoc]

/-- After the beginning of a message, exactly its payloads have been assembled. -/
theorem IsOpenRun.foldl_absorb {first : Frame} {conts : List Frame} (h : IsOpenRun first conts)
    (pre : List Frame) (p : List UInt8 × Option ℕ) :
    (pre ++ first :: conts).foldl absorb p = (payloads (first :: conts), some first.opcode) := by
  have hne : first.opcode ≠ 0 := Nat.ne_of_gt h.opcode_pos
  rw [List.foldl_append, List.foldl_cons]
  simp only [absorb, hne, if_false]
  rw [foldl_absorb_conts h.conts_opcode, payloads_cons]

/-- A stream that ends inside a frame, or between two, before a message is complete. -/
theorem recv_truncated {fs : List Frame} {f : Frame} {s : σ} {part : List UInt8}
    (hq : Quiet fs) (hpre : part <+: f.encode) (hlt : part.length < f.encode.length)
    (hs : T.content s = encodeAll fs ++ part) : recv T s = none := by
  have hund := hq.undelivered false (by simp)
  rcases recvLoop_undelivered ([], none) hund hs with h | ⟨fuel, s', hs', h⟩
  · exact h
  · rw [recv, h]
    cases fuel with
    | zero => rfl
    | succ fuel => simp [recvLoop, recvFrame_truncated (hs' ▸ hpre) (hs' ▸ hlt)]

/-- A single frame that announces more than the limit. -/
theorem recv_over_frame {fs : List Frame} {h : Header} {s : σ} {rest : List UInt8}
    (hq : Quiet fs) (hover : maxMsg < h.len)
    (hs : T.content s = encodeAll fs ++ (h.encode ++ rest)) : recv T s = none := by
  have hund := hq.undelivered false (by simp)
  rcases recvLoop_undelivered ([], none) hund hs with hn | ⟨fuel, s', hs', heq⟩
  · exact hn
  · rw [recv, heq]
    cases fuel with
    | zero => rfl
    | succ fuel =>
      simp [recvLoop, recvFrame_over hs' (Nat.lt_of_lt_of_le hover (Nat.le_add_left ..))]

/-- A message that would grow beyond the limit with the next frame. -/
theorem recv_over {pre : List Frame} {first : Frame} {conts : List Frame} {h : Header} {s : σ}
    {rest : List UInt8} (hq : Quiet (pre ++ first :: conts)) (hopen : IsOpenRun first conts)
    (hover : maxMsg < (payloads (first :: conts)).length + h.len)
    (hs : T.content s = encodeAll (pre ++ first :: conts) ++ (h.encode ++ rest)) :
    recv T s = none := by
  have hund := hq.undelivered false (by simp)
  rcases recvLoop_undelivered ([], none) hund hs with hn | ⟨fuel, s', hs', heq⟩
  · exact hn
  · rw [recv, heq, hopen.foldl_absorb]
    cases fuel with
    | zero => rfl
    | succ fuel =>
      simp only [recvLoop, recvFrame_over hs' hover]
      rfl

/-- **Messages are reassembled whole or not at all.** The messages of the calls on a connection are
control frames and complete runs of frames of its stream, in order, and no frame is used twice.
A call fails on a frame or a message beyond the limit and on a stream that ends before a message is
complete. -/
theorem recv_reassembles (T : Transport σ) :
    (∀ k s, ∃ segs rest, T.content s = encodeAll segs.flatten ++ rest ∧
      List.Forall₂ Delivers segs (recvMany T k s)) ∧
    (∀ fs (h : Header) s rest, Quiet fs → maxMsg < h.len →
      T.content s = encodeAll fs ++ (h.encode ++ rest) → recv T s = none) ∧
    (∀ pre first conts (h : Header) s rest, Quiet (pre ++ first :: conts) →
      IsOpenRun first conts → maxMsg < (payloads (first :: conts)).length + h.len →
      T.content s = encodeAll (pre ++ first :: conts) ++ (h.encode ++ rest) → recv T s = none) ∧
    ∀ fs (f : Frame) s part, Quiet fs → part <+: f.encode → part.length < f.encode.length →
      T.content s = encodeAll fs ++ part → recv T s = none :=
  ⟨recvMany_delivers, fun _ _ _ _ => recv_over_frame, fun _ _ _ _ _ _ => recv_over,
    fun _ _ _ _ => recv_truncated⟩

/-- A text message in two masked fragments. -/
def splitText : List Frame :=
  [⟨0x01, .short, some ⟨[1, 2, 3, 4], rfl⟩, [0x76, 0x66], by decide⟩,
   ⟨0x80, .medium, some ⟨[5, 6, 7, 8], rfl⟩, [0x6f, 0x3b], by decide⟩]

/-- The fragments are put together again, in whatever pieces they arrive; without its last byte the
message is not delivered at all. -/
theorem recv_reassembles_split :
    recvMany piecewise 2 ⟨encodeAll splitText, [1, 3, 1]⟩ = [(1, [0x76, 0x66, 0x6f, 0x3b])] ∧
    (∃ segs rest, encodeAll splitText = encodeAll segs.flatten ++ rest ∧
      List.Forall₂ Delivers segs (recvMany piecewise 2 ⟨encodeAll splitText, [1, 3, 1]⟩)) ∧
    recv piecewise ⟨(encodeAll splitText.tail).dropLast, []⟩ = none := by
  refine ⟨by decide, (recv_reassembles piecewise).1 2 ⟨encodeAll splitText, [1, 3, 1]⟩, ?_⟩
  refine (recv_reassembles piecewise).2.2.2 [] splitText[1] _ _ ⟨by simp, ?_⟩
    (List.dropLast_prefix _) (by decide) rfl
  intro first conts _ h
  simp at h

end MacHPSDR.TciWs
