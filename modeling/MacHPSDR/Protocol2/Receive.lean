import MacHPSDR.Radio.TransmitMode
import Mathlib

/-!
# What a protocol 2 datagram is read for

`protocol2_thread` receives into a block of memory that has never been written, and hands it to a
handler that its source port chooses. The I/Q and wideband handlers are bounded by the length that
was received, except for the sequence number; the other handlers read what they read whatever has
come. `needs` is the length from which on a handler reads only received bytes.
-/

namespace MacHPSDR.Protocol2

open Radio (Mode)

/-- The memory from the receive buffer on. -/
abbrev Memory := ℕ → UInt8

/-! ## Words -/

section Words

variable (buffer : Memory) (b : ℕ)

def word16 : ℕ := (buffer b).toNat * 256 + (buffer (b + 1)).toNat

def word32 : BitVec 32 :=
  (buffer b).toBitVec ++ (buffer (b + 1)).toBitVec ++ (buffer (b + 2)).toBitVec ++
    (buffer (b + 3)).toBitVec

/-- A signed sample of 16 bits. -/
def sample16 : ℤ := (buffer b).toInt8.toInt * 256 + (buffer (b + 1)).toNat

/-- `p2_sample24`, before it is scaled. -/
def p2Sample24 : ℤ := (buffer b).toInt8.toInt * 65536 + (word16 buffer (b + 1) : ℕ)

end Words

/-! ## The radio -/

def commandResponceToHostPort : ℕ := 1024
def highPriorityToHostPort : ℕ := 1025
def micLineToHostPort : ℕ := 1026
def wideBandToHostPort : ℕ := 1027
def rxIqToHostPort0 : ℕ := 1035
def rxIqToHostPort7 : ℕ := 1042

/-- `MIC_SAMPLES` -/
def micSamples : ℕ := 64

/-- A diversity mixer; receivers are named by numbers. -/
structure DivPair where
  rxVisual : ℕ
  rxHidden : Option ℕ

/-- What the handlers read and write. -/
structure P2Radio where
  supportedReceivers : ℕ
  receiver : ℕ → Option ℕ
  /-- The mixer of a receiver. -/
  divmixer : ℕ → Option DivPair
  wideband : Bool
  /-- It is built for PureSignal. -/
  puresignalP2 : Bool
  puresignal : Bool
  /-- The mode of the transmitter's receiver. -/
  txRxMode : Option Mode
  ptt : Bool
  mox : Bool
  vox : Bool
  tune : Bool
  dot : Bool
  dash : Bool
  localPtt : Bool
  pllLocked : Bool
  adcOverload : Bool
  exciterPower : ℕ
  alexForwardPower : ℕ
  alexReversePower : ℕ
  supplyVolts : ℕ
  responseSequence : ℤ
  response : ℕ
  /-- The sequence number that a receiver expects. -/
  iqSequence : ℕ → BitVec 32

/-- What a handler passes on. -/
inductive Passed
  | iq (rx : ℕ) (left right : ℤ)
  | ps (iTx qTx iRx qRx : ℤ)
  | wideband (sample : ℤ)
  | mic (sample : ℤ)
  | extPttChanged

namespace P2Radio

variable (s : P2Radio)

/-- `isTransmitting` -/
def isTransmitting : Bool := s.ptt || s.mox || s.vox || s.tune

/-! ## The handlers -/

variable (bytes : ℕ) (buffer : Memory)

/-- `p2_iq_samples` -/
def p2IqSamples : ℕ :=
  let n := word16 buffer 14
  let fits := (bytes - 16) / 6
  if bytes < 16 + 6 then 0
  else if n > fits then fits
  else n

/-- The sequence number that is expected after the one in the header. -/
def noteSequence (rx : ℕ) : P2Radio :=
  { s with iqSequence := Function.update s.iqSequence rx (word32 buffer 0 + 1) }

/-- `process_iq_data` -/
def processIqData (rx : ℕ) : P2Radio × List Passed :=
  (s.noteSequence buffer rx, (List.range (p2IqSamples bytes buffer)).map fun i =>
    .iq rx (p2Sample24 buffer (16 + 6 * i)) (p2Sample24 buffer (16 + 6 * i + 3)))

/-- `process_div_iq_data` -/
def processDivIqData (rxv rxh : ℕ) : P2Radio × List Passed :=
  (s.noteSequence buffer rxv, (List.range (p2IqSamples bytes buffer / 2)).flatMap fun i =>
    let b := 16 + 12 * i
    [.iq rxv (p2Sample24 buffer b) (p2Sample24 buffer (b + 3)),
      .iq rxh (p2Sample24 buffer (b + 6)) (p2Sample24 buffer (b + 9))])

/-- `process_ps_iq_data` -/
def processPsIqData : List Passed :=
  if p2IqSamples bytes buffer % 2 = 1 then []
  else (List.range (p2IqSamples bytes buffer / 2)).map fun i =>
    let b := 16 + 12 * i
    .ps (p2Sample24 buffer (b + 6)) (p2Sample24 buffer (b + 9)) (p2Sample24 buffer b)
      (p2Sample24 buffer (b + 3))

/-- `process_wideband_data`, from the byte `b` on. -/
def processWidebandData (b : ℕ) : List Passed :=
  if b + 1 < bytes then .wideband (sample16 buffer b) :: processWidebandData (b + 2) else []
termination_by bytes - b

/-- `process_command_response` -/
def processCommandResponse : P2Radio :=
  { s with
    responseSequence := (word32 buffer 0).toInt
    response := (buffer 4).toNat }

/-- `process_high_priority` -/
def processHighPriority : P2Radio × List Passed :=
  let previousPtt := s.ptt
  let s := { s with
    ptt := (buffer 4).toNat.testBit 0
    dot := (buffer 4).toNat.testBit 1
    dash := (buffer 4).toNat.testBit 2
    pllLocked := (buffer 4).toNat.testBit 3
    adcOverload := (buffer 5).toNat.testBit 0
    exciterPower := word16 buffer 6
    alexForwardPower := word16 buffer 14
    alexReversePower := word16 buffer 22
    supplyVolts := word16 buffer 49 }
  let txMode := s.txRxMode.getD .usb
  let s := { s with
    localPtt := if txMode.isCw then s.ptt || s.dot || s.dash else s.ptt }
  (s, if previousPtt ≠ s.localPtt then [.extPttChanged] else [])

/-- `process_mic_data` -/
def processMicData : List Passed :=
  (List.range micSamples).map fun i => .mic (sample16 buffer (4 + 2 * i))

/-- The receive loop of `protocol2_thread`, for a datagram of `bytes` bytes. -/
def dispatch (sourceport : ℕ) : P2Radio × List Passed :=
  if rxIqToHostPort0 ≤ sourceport ∧ sourceport ≤ rxIqToHostPort7 then
    let ddc := sourceport - rxIqToHostPort0
    if s.puresignalP2 ∧ ddc = 0 ∧ s.isTransmitting ∧ s.puresignal then
      (s, processPsIqData bytes buffer)
    else if s.supportedReceivers ≤ ddc then (s, [])
    else
      match s.receiver ddc with
      | none => (s, [])
      | some rx =>
        match s.divmixer rx with
        | some ⟨rxv, some rxh⟩ =>
          if rxv = rx then s.processDivIqData bytes buffer rxv rxh
          else s.processIqData bytes buffer rx
        | _ => s.processIqData bytes buffer rx
  else if sourceport = wideBandToHostPort then
    (s, if s.wideband then processWidebandData bytes buffer 4 else [])
  else if sourceport = commandResponceToHostPort then (s.processCommandResponse buffer, [])
  else if sourceport = highPriorityToHostPort then s.processHighPriority buffer
  else if sourceport = micLineToHostPort then (s, processMicData buffer)
  else (s, [])

/-- The length from which on the handler of a port reads only received bytes. -/
def needs (sourceport : ℕ) : ℕ :=
  if rxIqToHostPort0 ≤ sourceport ∧ sourceport ≤ rxIqToHostPort7 then
    let ddc := sourceport - rxIqToHostPort0
    if s.puresignalP2 ∧ ddc = 0 ∧ s.isTransmitting ∧ s.puresignal then 0
    else if s.supportedReceivers ≤ ddc ∨ s.receiver ddc = none then 0
    else 4
  else if sourceport = commandResponceToHostPort then 5
  else if sourceport = highPriorityToHostPort then 51
  else if sourceport = micLineToHostPort then 4 + 2 * micSamples
  else 0

/-- Only received bytes count, and a high-priority datagram that is too short keys nothing. -/
structure ReadsReceived (sourceport : ℕ) : Prop where
  received : DependsOn (fun buffer => s.dispatch bytes buffer sourceport) (Set.Iio bytes)
  keys : sourceport = highPriorityToHostPort → bytes < 51 → ∀ buffer,
    (s.dispatch bytes buffer sourceport).1.ptt = s.ptt ∧
      (s.dispatch bytes buffer sourceport).1.dot = s.dot ∧
      (s.dispatch bytes buffer sourceport).1.dash = s.dash

end P2Radio

/-! ## Two memories that agree on what was received -/

section Agree

variable {k bytes : ℕ} {x y : Memory}

/-- Two memories that agree below `k`. -/
def Agree (k : ℕ) (x y : Memory) : Prop := ∀ i < k, x i = y i

theorem Agree.mono {j : ℕ} (h : Agree k x y) (hjk : j ≤ k) : Agree j x y :=
  fun i hi => h i (lt_of_lt_of_le hi hjk)

theorem Agree.word16 (h : Agree k x y) {b : ℕ} (hb : b + 2 ≤ k) : word16 x b = word16 y b := by
  unfold Protocol2.word16
  rw [h b (by omega), h (b + 1) (by omega)]

theorem Agree.word32 (h : Agree k x y) {b : ℕ} (hb : b + 4 ≤ k) : word32 x b = word32 y b := by
  unfold Protocol2.word32
  rw [h b (by omega), h (b + 1) (by omega), h (b + 2) (by omega), h (b + 3) (by omega)]

theorem Agree.sample16 (h : Agree k x y) {b : ℕ} (hb : b + 2 ≤ k) :
    sample16 x b = sample16 y b := by
  unfold Protocol2.sample16
  rw [h b (by omega), h (b + 1) (by omega)]

theorem Agree.p2Sample24 (h : Agree k x y) {b : ℕ} (hb : b + 3 ≤ k) :
    p2Sample24 x b = p2Sample24 y b := by
  unfold Protocol2.p2Sample24
  rw [h b (by omega), h.word16 (b := b + 1) hb]

open P2Radio

theorem Agree.p2IqSamples (h : Agree bytes x y) : p2IqSamples bytes x = p2IqSamples bytes y := by
  unfold P2Radio.p2IqSamples
  dsimp only
  split
  · rfl
  · rw [h.word16 (b := 14) (by omega)]

/-- The samples that are taken have arrived. -/
theorem p2IqSamples_le (bytes : ℕ) (buffer : Memory) :
    p2IqSamples bytes buffer = 0 ∨ 16 + 6 * p2IqSamples bytes buffer ≤ bytes := by
  unfold P2Radio.p2IqSamples
  dsimp only
  split_ifs <;> omega

variable {s : P2Radio}

theorem Agree.noteSequence (h : Agree bytes x y) (h4 : 4 ≤ bytes) (rx : ℕ) :
    s.noteSequence x rx = s.noteSequence y rx := by
  unfold P2Radio.noteSequence
  rw [h.word32 (b := 0) h4]

theorem Agree.processIqData (h : Agree bytes x y) (h4 : 4 ≤ bytes) (rx : ℕ) :
    s.processIqData bytes x rx = s.processIqData bytes y rx := by
  have hle := p2IqSamples_le bytes y
  unfold P2Radio.processIqData
  rw [h.noteSequence h4, h.p2IqSamples]
  congr 1
  refine List.map_congr_left fun i hi => ?_
  rw [List.mem_range] at hi
  rw [h.p2Sample24 (by omega), h.p2Sample24 (by omega)]

/-- The samples of a pair of streams. -/
theorem Agree.pairs (h : Agree bytes x y) {i : ℕ} (hi : i < P2Radio.p2IqSamples bytes y / 2) :
    Agree (16 + 12 * i + 12) x y := by
  have hle := p2IqSamples_le bytes y
  exact h.mono (by omega)

theorem Agree.processDivIqData (h : Agree bytes x y) (h4 : 4 ≤ bytes) (rxv rxh : ℕ) :
    s.processDivIqData bytes x rxv rxh = s.processDivIqData bytes y rxv rxh := by
  unfold P2Radio.processDivIqData
  rw [h.noteSequence h4, h.p2IqSamples]
  congr 1
  refine List.flatMap_congr fun i hi => ?_
  have hpair := h.pairs (List.mem_range.mp hi)
  dsimp only
  rw [hpair.p2Sample24 (by omega), hpair.p2Sample24 (by omega), hpair.p2Sample24 (by omega),
    hpair.p2Sample24 (by omega)]

theorem Agree.processPsIqData (h : Agree bytes x y) :
    processPsIqData bytes x = processPsIqData bytes y := by
  unfold P2Radio.processPsIqData
  rw [h.p2IqSamples]
  refine if_congr Iff.rfl rfl (List.map_congr_left fun i hi => ?_)
  have hpair := h.pairs (List.mem_range.mp hi)
  dsimp only
  rw [hpair.p2Sample24 (by omega), hpair.p2Sample24 (by omega), hpair.p2Sample24 (by omega),
    hpair.p2Sample24 (by omega)]

theorem Agree.processWidebandData (h : Agree bytes x y) (b : ℕ) :
    processWidebandData bytes x b = processWidebandData bytes y b := by
  induction b using processWidebandData.induct bytes with
  | case1 b hlt ih =>
    rw [P2Radio.processWidebandData, P2Radio.processWidebandData.eq_def bytes y, if_pos hlt,
      if_pos hlt, ih, h.sample16 hlt]
  | case2 b hge =>
    rw [P2Radio.processWidebandData, P2Radio.processWidebandData.eq_def bytes y, if_neg hge,
      if_neg hge]

theorem Agree.processMicData (h : Agree bytes x y) (hlen : 4 + 2 * micSamples ≤ bytes) :
    processMicData x = processMicData y := by
  unfold P2Radio.processMicData
  refine List.map_congr_left fun i hi => ?_
  rw [List.mem_range] at hi
  rw [h.sample16 (by omega)]

theorem Agree.processCommandResponse (h : Agree bytes x y) (h5 : 5 ≤ bytes) :
    s.processCommandResponse x = s.processCommandResponse y := by
  unfold P2Radio.processCommandResponse
  rw [h.word32 (b := 0) (by omega), h 4 (by omega)]

theorem Agree.processHighPriority (h : Agree bytes x y) (h51 : 51 ≤ bytes) :
    s.processHighPriority x = s.processHighPriority y := by
  unfold P2Radio.processHighPriority
  rw [h 4 (by omega), h 5 (by omega), h.word16 (b := 6) (by omega), h.word16 (b := 14) (by omega),
    h.word16 (b := 22) (by omega), h.word16 (b := 49) (by omega)]

end Agree

namespace P2Radio

variable {s : P2Radio} {bytes : ℕ} {x y : Memory}

/-! ## The dispatcher -/

theorem Agree.dispatch (h : Agree bytes x y) {port : ℕ} (hneeds : s.needs port ≤ bytes) :
    s.dispatch bytes x port = s.dispatch bytes y port := by
  unfold needs at hneeds
  unfold P2Radio.dispatch
  by_cases hiq : rxIqToHostPort0 ≤ port ∧ port ≤ rxIqToHostPort7
  · simp only [if_pos hiq] at hneeds ⊢
    split_ifs with hps hsupported
    · rw [h.processPsIqData]
    · rfl
    · cases hrx : s.receiver (port - rxIqToHostPort0) with
      | none => rfl
      | some rx =>
        rw [if_neg hps, if_neg (by simp [hsupported, hrx])] at hneeds
        dsimp only
        rcases s.divmixer rx with - | ⟨rxv, - | rxh⟩
        · exact h.processIqData hneeds rx
        · exact h.processIqData hneeds rx
        · dsimp only
          rw [h.processDivIqData hneeds, h.processIqData hneeds]
  · simp only [if_neg hiq] at hneeds ⊢
    by_cases hwide : port = wideBandToHostPort
    · rw [if_pos hwide, if_pos hwide, h.processWidebandData]
    simp only [if_neg hwide]
    split_ifs at hneeds ⊢
    · rw [h.processCommandResponse hneeds]
    · rw [h.processHighPriority hneeds]
    · rw [h.processMicData hneeds]
    · rfl

/-! ## What a short datagram lets through -/

/-- Memory that holds nothing but one bit, in the byte before `k`. -/
def oneBit (k : ℕ) : Memory := Function.update (fun _ => 0) (k - 1) 1

theorem agree_oneBit {k : ℕ} (hk : bytes < k) : Agree bytes (fun _ => 0) (oneBit k) := by
  intro i hi
  have hne : i ≠ k - 1 := by omega
  unfold oneBit
  rw [Function.update_of_ne hne]

theorem dispatch_command (buffer : Memory) :
    s.dispatch bytes buffer commandResponceToHostPort = (s.processCommandResponse buffer, []) := rfl

theorem dispatch_highPriority (buffer : Memory) :
    s.dispatch bytes buffer highPriorityToHostPort = s.processHighPriority buffer := rfl

theorem dispatch_mic (buffer : Memory) :
    s.dispatch bytes buffer micLineToHostPort = (s, processMicData buffer) := rfl

/-- The last sample of a microphone datagram. -/
theorem processMicData_last (buffer : Memory) :
    (processMicData buffer)[63]? = some (.mic (sample16 buffer 130)) := by
  unfold processMicData micSamples
  rw [List.getElem?_map, List.getElem?_range (by omega)]
  rfl

/-- A receiver that gets samples takes the sequence number of the header. -/
theorem dispatch_iqSequence {port rx : ℕ}
    (hiq : rxIqToHostPort0 ≤ port ∧ port ≤ rxIqToHostPort7)
    (hps : ¬ (s.puresignalP2 ∧ port - rxIqToHostPort0 = 0 ∧ s.isTransmitting ∧ s.puresignal))
    (hsupported : ¬ s.supportedReceivers ≤ port - rxIqToHostPort0)
    (hrx : s.receiver (port - rxIqToHostPort0) = some rx) (buffer : Memory) :
    (s.dispatch bytes buffer port).1.iqSequence rx = word32 buffer 0 + 1 := by
  have hnoted : (s.noteSequence buffer rx).iqSequence rx = word32 buffer 0 + 1 :=
    Function.update_self ..
  have hiqData : (s.processIqData bytes buffer rx).1.iqSequence rx = word32 buffer 0 + 1 := hnoted
  unfold P2Radio.dispatch
  simp only [if_pos hiq, if_neg hps, if_neg hsupported, hrx]
  rcases s.divmixer rx with - | ⟨rxv, - | rxh⟩
  · exact hiqData
  · exact hiqData
  · dsimp only
    split_ifs with hv
    · rw [hv]
      exact hnoted
    · exact hiqData

/-- A handler that reads more than has come is led by what it reads. -/
theorem dispatch_oneBit_ne {port : ℕ} (h : bytes < s.needs port) :
    s.dispatch bytes (fun _ => 0) port ≠ s.dispatch bytes (oneBit (s.needs port)) port := by
  intro heq
  unfold needs at h heq
  by_cases hiq : rxIqToHostPort0 ≤ port ∧ port ≤ rxIqToHostPort7
  · simp only [if_pos hiq] at h heq
    by_cases hps : s.puresignalP2 ∧ port - rxIqToHostPort0 = 0 ∧ s.isTransmitting ∧ s.puresignal
    · rw [if_pos hps] at h
      omega
    rw [if_neg hps] at h heq
    by_cases hnone : s.supportedReceivers ≤ port - rxIqToHostPort0 ∨
        s.receiver (port - rxIqToHostPort0) = none
    · rw [if_pos hnone] at h
      omega
    rw [if_neg hnone] at heq
    push Not at hnone
    obtain ⟨rx, hrx⟩ := Option.ne_none_iff_exists'.mp hnone.2
    have hsequence (buffer : Memory) :
        (s.dispatch bytes buffer port).1.iqSequence rx = word32 buffer 0 + 1 :=
      dispatch_iqSequence hiq hps (not_le.mpr hnone.1) hrx buffer
    have hsame := congrArg (fun r => r.1.iqSequence rx) heq
    simp only [hsequence] at hsame
    exact absurd hsame (by decide)
  simp only [if_neg hiq] at h heq
  by_cases hcommand : port = commandResponceToHostPort
  · subst hcommand
    have hresponse := congrArg (fun r => r.1.response) heq
    simp only [if_true, dispatch_command] at hresponse
    exact absurd (show (0 : ℕ) = 1 from hresponse) (by decide)
  by_cases hpriority : port = highPriorityToHostPort
  · subst hpriority
    have hvolts := congrArg (fun r => r.1.supplyVolts) heq
    simp only [if_neg hcommand, if_true, dispatch_highPriority] at hvolts
    exact absurd (show (0 : ℕ) = 1 from hvolts) (by decide)
  by_cases hmic : port = micLineToHostPort
  · subst hmic
    have hlast := congrArg (fun r => r.2[63]?) heq
    simp only [if_neg hcommand, if_neg hpriority, if_true, dispatch_mic, processMicData_last,
      Option.some.injEq, Passed.mic.injEq] at hlast
    exact absurd hlast (by decide)
  rw [if_neg hcommand, if_neg hpriority, if_neg hmic] at h
  exact absurd h (Nat.not_lt_zero bytes)

theorem needs_highPriority : s.needs highPriorityToHostPort = 51 := rfl

/-- **Only what arrived is read** exactly from the length on that the port's handler needs. -/
theorem readsReceived_iff (s : P2Radio) (port bytes : ℕ) :
    s.ReadsReceived bytes port ↔ s.needs port ≤ bytes := by
  constructor
  · intro h
    by_contra hlt
    push Not at hlt
    exact dispatch_oneBit_ne hlt (h.received fun i hi => agree_oneBit hlt i hi)
  · intro hneeds
    refine ⟨fun x y hxy => Agree.dispatch hxy hneeds, fun hport hshort => ?_⟩
    subst hport
    rw [needs_highPriority] at hneeds
    omega

end P2Radio

/-! ## Runs -/

structure Datagram where
  sourceport : ℕ
  bytes : ℕ
  buffer : Memory

/-- Two datagrams of the same length from the same port, with the same bytes. -/
def Datagram.Same (d e : Datagram) : Prop :=
  d.sourceport = e.sourceport ∧ d.bytes = e.bytes ∧ Agree d.bytes d.buffer e.buffer

namespace P2Radio

/-- One datagram after the other. -/
def receive : P2Radio → List Datagram → P2Radio × List Passed
  | s, [] => (s, [])
  | s, d :: ds =>
    let (t, passed) := s.dispatch d.bytes d.buffer d.sourceport
    let (u, more) := t.receive ds
    (u, passed ++ more)

/-- Each datagram is as long as its handler needs it. -/
def Complete : P2Radio → List Datagram → Prop
  | _, [] => True
  | s, d :: ds => s.needs d.sourceport ≤ d.bytes ∧
      Complete (s.dispatch d.bytes d.buffer d.sourceport).1 ds

/-- What lies behind the datagrams does not count in a run of complete ones. -/
theorem receive_eq {ds es : List Datagram} (h : List.Forall₂ Datagram.Same ds es) (s : P2Radio)
    (hs : s.Complete ds) : s.receive ds = s.receive es := by
  induction h generalizing s with
  | nil => rfl
  | cons hsame _ ih =>
    obtain ⟨hport, hbytes, hagree⟩ := hsame
    obtain ⟨hneeds, hrest⟩ := hs
    unfold receive
    rw [← hport, ← hbytes, Agree.dispatch hagree hneeds]
    rw [Agree.dispatch hagree hneeds] at hrest
    dsimp only
    rw [ih _ hrest]

/-- A radio that has heard nothing. -/
def quiet : P2Radio where
  supportedReceivers := 8
  receiver _ := none
  divmixer _ := none
  wideband := false
  puresignalP2 := false
  puresignal := false
  txRxMode := none
  ptt := false
  mox := false
  vox := false
  tune := false
  dot := false
  dash := false
  localPtt := false
  pllLocked := false
  adcOverload := false
  exciterPower := 0
  alexForwardPower := 0
  alexReversePower := 0
  supplyVolts := 0
  responseSequence := 0
  response := 0
  iqSequence _ := 0

/-- A high-priority datagram of four bytes is taken for a key, or not, by the byte behind it. -/
theorem not_readsReceived :
    (quiet.dispatch 4 (fun _ => 1) highPriorityToHostPort).1.ptt = true ∧
      (quiet.dispatch 4 (fun i => if i < 4 then 1 else 0) highPriorityToHostPort).1.ptt = false ∧
      ¬ quiet.ReadsReceived 4 highPriorityToHostPort := by
  have hkeyed : (quiet.dispatch 4 (fun _ => 1) highPriorityToHostPort).1.ptt = true := by decide
  refine ⟨hkeyed, by decide, fun h => ?_⟩
  have hstays := (h.keys rfl (by decide) fun _ => 1).1
  rw [hkeyed] at hstays
  exact absurd hstays (by decide)

end P2Radio

end MacHPSDR.Protocol2
