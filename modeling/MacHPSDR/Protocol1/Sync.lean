import MacHPSDR.Protocol1.Ozy
import Mathlib

/-!
# Frame sync

The parser should take its control bytes from behind three sync bytes in a row, and come back to
the search for the next three after every frame. It does (`framed_of_clean`) as long as

* no other byte comes between the sync bytes: `SYNC_1` and `SYNC_2` keep their progress on it, and
* the receiver whose pair is completed is one of the `radio->receivers`: the end of a group is found
  by an equality, which is missed for ever when the number of receivers falls below `nreceiver`.
-/

namespace MacHPSDR.Protocol1

/-! ## Runs of the parser -/

structure Stream where
  ozy : Ozy
  /-- History: the bytes that were fed. -/
  fed : List UInt8
  /-- History: the runs of `process_control_bytes`, each with the number of bytes fed by then. -/
  ran : List (ℕ × (Fin 5 → UInt8))

/-- What can happen to the parser. -/
inductive OzyEvent
  /-- A byte comes while the radio is as given. -/
  | byte (r : OzyRadio) (b : UInt8)
  /-- `metis_start_stop` -/
  | startStop

/-- The control bytes among the output. -/
def Output.control? : Output → Option (Fin 5 → UInt8)
  | .control c => some c
  | _ => none

namespace Stream

def step (s : Stream) : OzyEvent → Option Stream
  | .byte r b =>
    let (o, out) := s.ozy.processOzyByte r b
    some ⟨o, s.fed ++ [b],
      s.ran ++ (out.filterMap Output.control?).map fun c => (s.fed.length + 1, c)⟩
  | .startStop => some { s with ozy := { s.ozy with state := .sync0 } }

/-- The five control bytes of every run of `process_control_bytes`, and those that were taken since,
come right behind three sync bytes. -/
structure Framed (s : Stream) : Prop where
  taken : ∀ i, s.ozy.state = .control i →
    [sync, sync, sync] ++ (List.ofFn s.ozy.controlIn).take i <:+ s.fed
  ran : ∀ p ∈ s.ran, [sync, sync, sync] ++ List.ofFn p.2 <:+ s.fed.take p.1

/-- The parser searches for sync bytes. -/
def Hunting (s : Stream) : Prop :=
  s.ozy.state = .sync0 ∨ s.ozy.state = .sync1 ∨ s.ozy.state = .sync2

/-- No other byte comes between the sync bytes, and the completed pair is one of a receiver. -/
def Clean (s : Stream) : OzyEvent → Prop
  | .byte r b => (s.ozy.state = .sync1 ∨ s.ozy.state = .sync2 → b = sync) ∧
      (s.ozy.state = .rightSampleLow → s.ozy.nreceiver < r.receivers)
  | .startStop => True

end Stream

/-- The parser of the program, fed with bytes. -/
def stream : System Stream OzyEvent where
  init := ⟨.start, [], []⟩
  step := Stream.step

/-! ## What the last bytes were -/

namespace Ozy

/-- The bytes that the state stands for. -/
def seen (o : Ozy) : List UInt8 :=
  match o.state with
  | .sync1 => [sync]
  | .sync2 => [sync, sync]
  | .control i => [sync, sync, sync] ++ (List.ofFn o.controlIn).take i
  | _ => []

theorem take_update (c : Fin 5 → UInt8) (i : Fin 5) (b : UInt8) :
    (List.ofFn (Function.update c i b)).take (i + 1) = (List.ofFn c).take i ++ [b] := by
  fin_cases i <;> simp [List.ofFn_succ, Function.update]

theorem deliver_frame (r : OzyRadio) (o : Ozy) :
    (o.deliver r).1.nreceiver = o.nreceiver ∧ (o.deliver r).1.nsamples = o.nsamples ∧
      (o.deliver r).1.iqSamples = o.iqSamples ∧
      (o.deliver r).2.filterMap Output.control? = [] := by
  unfold deliver
  dsimp only
  split
  · split <;> exact ⟨rfl, rfl, rfl, rfl⟩
  · split <;> exact ⟨rfl, rfl, rfl, rfl⟩

theorem deliverMic_frame (r : OzyRadio) (o : Ozy) :
    (o.deliverMic r).1.nreceiver = o.nreceiver ∧ (o.deliverMic r).1.nsamples = o.nsamples ∧
      (o.deliverMic r).1.iqSamples = o.iqSamples ∧
      (o.deliverMic r).2.filterMap Output.control? = [] := by
  unfold deliverMic
  split
  · exact ⟨rfl, rfl, rfl, rfl⟩
  · split <;> exact ⟨rfl, rfl, rfl, rfl⟩

/-- One byte more, and what the state stands for is still what the last bytes were. -/
theorem seen_processOzyByte (r : OzyRadio) (o : Ozy) (b : UInt8)
    (hb : o.state = .sync1 ∨ o.state = .sync2 → b = sync) :
    (o.processOzyByte r b).1.seen <:+ o.seen ++ [b] ∧
      ∀ c ∈ (o.processOzyByte r b).2.filterMap Output.control?,
        [sync, sync, sync] ++ List.ofFn c = o.seen ++ [b] := by
  unfold processOzyByte
  split
  case h_1 hs =>
    split <;> simp_all [seen]
  case h_2 hs =>
    obtain rfl := hb (.inl hs)
    simp [seen, hs]
  case h_3 hs =>
    obtain rfl := hb (.inr hs)
    simp [seen, hs]
  case h_4 i hs =>
    have htake := take_update o.controlIn i b
    split
    case isTrue h4 =>
      subst h4
      have hfull : (List.ofFn (Function.update o.controlIn 4 b)).take (4 + 1) =
          List.ofFn (Function.update o.controlIn 4 b) := List.take_of_length_le (by simp)
      refine ⟨by simp [seen], fun c hc => ?_⟩
      obtain rfl : c = Function.update o.controlIn 4 b := by simpa [Output.control?] using hc
      rw [seen, hs, List.append_assoc, ← htake]
      exact congrArg _ hfull.symm
    case isFalse h4 =>
      have hi : ((i + 1 : Fin 5) : ℕ) = i + 1 := by
        fin_cases i <;> first | rfl | exact absurd rfl h4
      refine ⟨?_, by simp⟩
      simp only [seen, hs, hi, htake, List.append_assoc]
      exact List.suffix_rfl
  case h_10 hs =>
    refine ⟨?_, ?_⟩
    · dsimp only
      split <;> simp [seen]
    · simp [({ o with rightSample := sampleLow o.rightSample b } : Ozy).deliver_frame r]
  case h_12 hs =>
    obtain ⟨-, -, -, hout⟩ := ({ o with
      micSample := o.micSample ||| (b.toBitVec.setWidth 16 &&& 0xFF) } : Ozy).deliverMic_frame r
    have hnone (c : Fin 5 → UInt8) (hc : c ∈ List.filterMap Output.control? _) :
        [sync, sync, sync] ++ List.ofFn c = o.seen ++ [b] :=
      absurd (hout ▸ hc) List.not_mem_nil
    dsimp only
    split <;> exact ⟨by simp [seen], hnone⟩
  all_goals exact ⟨by simp [seen], by simp⟩

/-! ## The way back to the search -/

/-- The counters are within their bounds. -/
def Bounded (o : Ozy) : Prop :=
  match o.state with
  | .sync0 | .sync1 | .sync2 | .control _ => True
  | .micSampleHi | .micSampleLow => o.nsamples < o.iqSamples ∧ o.iqSamples ≤ 252
  | _ => o.nsamples < o.iqSamples ∧ o.iqSamples ≤ 252 ∧ o.nreceiver < maxReceivers

/-- The most bytes that a frame can still take. -/
def rank (o : Ozy) : ℕ :=
  let later := (o.iqSamples - o.nsamples - 1) * 50
  let pairs := (maxReceivers - o.nreceiver) * 6
  match o.state with
  | .sync0 | .sync1 | .sync2 => 0
  | .control i => 5 - i + 252 * 50
  | .leftSampleHi => later + pairs + 2
  | .leftSampleMid => later + pairs + 1
  | .leftSampleLow => later + pairs
  | .rightSampleHi => later + pairs - 1
  | .rightSampleMid => later + pairs - 2
  | .rightSampleLow => later + pairs - 3
  | .micSampleHi => later + 2
  | .micSampleLow => later + 1

/-- **One byte of a frame** brings the parser nearer to the search. -/
theorem rank_processOzyByte (r : OzyRadio) (o : Ozy) (b : UInt8) (ho : o.Bounded)
    (hsync : o.state ≠ .sync0 ∧ o.state ≠ .sync1 ∧ o.state ≠ .sync2)
    (hr : o.state = .rightSampleLow → o.nreceiver < r.receivers) :
    (o.processOzyByte r b).1.Bounded ∧ (o.processOzyByte r b).1.rank < o.rank := by
  have hmax : maxReceivers = 8 := rfl
  obtain ⟨h0, h1, h2⟩ := hsync
  unfold processOzyByte
  split
  case h_1 hs => exact absurd hs h0
  case h_2 hs => exact absurd hs h1
  case h_3 hs => exact absurd hs h2
  case h_4 i hs =>
    obtain ⟨hpos, hle⟩ := r.groups_bounds
    split
    case isTrue h4 =>
      subst h4
      refine ⟨⟨hpos, hle, show 0 < maxReceivers by decide⟩, ?_⟩
      simp only [rank, hs, hmax]
      omega
    case isFalse h4 =>
      have hi : ((i + 1 : Fin 5) : ℕ) = i + 1 := by
        fin_cases i <;> first | rfl | exact absurd rfl h4
      refine ⟨trivial, ?_⟩
      simp only [rank, hs, hi]
      have := i.isLt
      omega
  case h_10 hs =>
    have hr := hr hs
    have hle : r.receivers ≤ 8 := r.receivers_le
    simp only [Bounded, hs] at ho
    obtain ⟨hn, hiq, hnr⟩ := ho
    obtain ⟨hnr', hn', hiq', -⟩ :=
      ({ o with rightSample := sampleLow o.rightSample b } : Ozy).deliver_frame r
    generalize Ozy.deliver r { o with rightSample := sampleLow o.rightSample b } = d
      at hnr' hn' hiq' ⊢
    dsimp only at hnr' hn' hiq' ⊢
    simp only [hnr']
    split
    · refine ⟨by simpa only [Bounded, hn', hiq'] using ⟨hn, hiq⟩, ?_⟩
      simp only [rank, hs, hn', hiq', hmax] at hnr ⊢
      omega
    · refine ⟨by simpa only [Bounded, hn', hiq', hmax] using ⟨hn, hiq, by omega⟩, ?_⟩
      simp only [rank, hs, hn', hiq', hmax] at hnr ⊢
      omega
  case h_12 hs =>
    simp only [Bounded, hs] at ho
    obtain ⟨hn, hiq⟩ := ho
    obtain ⟨-, hn', hiq', -⟩ := ({ o with
      micSample := o.micSample ||| (b.toBitVec.setWidth 16 &&& 0xFF) } : Ozy).deliverMic_frame r
    generalize Ozy.deliverMic r { o with
      micSample := o.micSample ||| (b.toBitVec.setWidth 16 &&& 0xFF) } = d at hn' hiq' ⊢
    dsimp only at hn' hiq' ⊢
    simp only [hn', hiq']
    split
    · refine ⟨trivial, ?_⟩
      simp only [rank, hs]
      omega
    · refine ⟨by simpa only [Bounded, hiq'] using ⟨by omega, hiq, by decide⟩, ?_⟩
      simp only [rank, hs, hmax]
      omega
  all_goals
    rename_i hs
    simp only [Bounded, hs] at ho
    refine ⟨by simpa only [Bounded] using ho, ?_⟩
    simp only [rank, hs, hmax]
    omega

theorem rank_pos (o : Ozy) (ho : o.Bounded)
    (hsync : o.state ≠ .sync0 ∧ o.state ≠ .sync1 ∧ o.state ≠ .sync2) : 0 < o.rank := by
  have hmax : maxReceivers = 8 := rfl
  obtain ⟨h0, h1, h2⟩ := hsync
  unfold rank
  split
  case h_1 hs => exact absurd hs h0
  case h_2 hs => exact absurd hs h1
  case h_3 hs => exact absurd hs h2
  all_goals
    rename_i hs
    simp only [Bounded, hs, hmax] at ho ⊢
    omega

/-- The search keeps the counters as they are. -/
theorem bounded_hunting (r : OzyRadio) (o : Ozy) (b : UInt8)
    (ho : o.state = .sync0 ∨ o.state = .sync1 ∨ o.state = .sync2) :
    (o.processOzyByte r b).1.Bounded := by
  unfold processOzyByte
  obtain hs | hs | hs := ho <;> rw [hs] <;> dsimp only <;> split <;> simp [Bounded, hs]

end Ozy

namespace Stream

instance (s : Stream) : Decidable s.Hunting := inferInstanceAs (Decidable (_ ∨ _ ∨ _))

/-- What the last bytes were, and the counters. -/
structure Inv (s : Stream) : Prop where
  seen : s.ozy.seen <:+ s.fed
  ran : ∀ p ∈ s.ran, p.1 ≤ s.fed.length ∧ [sync, sync, sync] ++ List.ofFn p.2 <:+ s.fed.take p.1
  bounded : s.ozy.Bounded

theorem Inv.framed {s : Stream} (h : s.Inv) : s.Framed where
  taken i hi := by
    have hseen := h.seen
    simpa only [Ozy.seen, hi] using hseen
  ran p hp := (h.ran p hp).2

theorem inv_init : stream.init.Inv :=
  ⟨List.suffix_rfl, fun _ hp => absurd hp List.not_mem_nil, trivial⟩

theorem not_hunting {s : Stream} (h : ¬ s.Hunting) :
    s.ozy.state ≠ .sync0 ∧ s.ozy.state ≠ .sync1 ∧ s.ozy.state ≠ .sync2 := by
  unfold Hunting at h
  tauto

/-- **One byte**, or a new start. -/
theorem Inv.step {s t : Stream} {a : OzyEvent} (hs : s.Inv) (ha : s.Clean a)
    (h : stream.step s a = some t) : t.Inv ∧ (¬ s.Hunting → t.ozy.rank < s.ozy.rank) := by
  change s.step a = some t at h
  cases a with
  | startStop =>
    obtain rfl := Option.some.inj h
    exact ⟨⟨List.nil_suffix, hs.ran, trivial⟩, fun hh => s.ozy.rank_pos hs.bounded (not_hunting hh)⟩
  | byte r b =>
    obtain rfl := Option.some.inj h
    obtain ⟨hsync, hpair⟩ := ha
    obtain ⟨hseen, hout⟩ := s.ozy.seen_processOzyByte r b hsync
    have hfed : s.ozy.seen ++ [b] <:+ s.fed ++ [b] := by
      obtain ⟨before, hbefore⟩ := hs.seen
      exact ⟨before, by rw [← hbefore, List.append_assoc]⟩
    have hrank := fun hh => s.ozy.rank_processOzyByte r b hs.bounded (not_hunting hh) hpair
    refine ⟨⟨hseen.trans hfed, ?_, ?_⟩, fun hh => (hrank hh).2⟩
    · intro p hp
      obtain hp | hp := List.mem_append.1 hp
      · obtain ⟨hle, hsuffix⟩ := hs.ran p hp
        dsimp only
        rw [List.take_append_of_le_length hle, List.length_append]
        exact ⟨hle.trans (Nat.le_add_right ..), hsuffix⟩
      · obtain ⟨c, hc, rfl⟩ := List.mem_map.1 hp
        refine ⟨by simp, ?_⟩
        rw [hout c hc, List.take_of_length_le (by simp)]
        exact hfed
    · by_cases hh : s.Hunting
      · exact s.ozy.bounded_hunting r b hh
      · exact (hrank hh).1

end Stream

/-- The most bytes that a frame can take. -/
def frameBound : ℕ := 5 + 252 * 50

theorem Ozy.rank_le (o : Ozy) (ho : o.Bounded) : o.rank ≤ frameBound := by
  have hmax : maxReceivers = 8 := rfl
  unfold rank frameBound
  split
  all_goals
    rename_i hs
    simp only [Bounded, hs, hmax] at ho ⊢
    omega

/-- **Frame sync**: in a clean run the control bytes are the five behind three sync bytes, and from
every state that it reaches the parser is back at the search within the length of a frame. -/
theorem framed_of_clean (as : List OzyEvent) (s : Stream)
    (hrun : stream.exec stream.init as = some s)
    (hclean : stream.Along Stream.Clean stream.init as) :
    s.Framed ∧ ∀ bs u, stream.Along Stream.Clean s bs → stream.exec s bs = some u →
      frameBound ≤ bs.length →
        ∃ k ≤ frameBound, ∃ t, stream.exec s (bs.take k) = some t ∧ t.Hunting := by
  have hs : s.Inv := stream.exec_induction_along (I := Stream.Inv)
    (fun s a t hs ha h => (hs.step ha h).1) as _ s Stream.inv_init hclean hrun
  refine ⟨hs.framed, fun bs u hbs hu hlen => ?_⟩
  have hle := s.ozy.rank_le hs.bounded
  have hpos (s : Stream) (hs : s.Inv) (hh : ¬ s.Hunting) : 0 < s.ozy.rank :=
    s.ozy.rank_pos hs.bounded (Stream.not_hunting hh)
  have hstep (s : Stream) (a : OzyEvent) (t : Stream) (hs : s.Inv) (hh : ¬ s.Hunting)
      (ha : s.Clean a) (h : stream.step s a = some t) : t.Inv ∧ t.ozy.rank < s.ozy.rank :=
    ⟨(hs.step ha h).1, (hs.step ha h).2 hh⟩
  obtain ⟨k, hk, t, ht, hh⟩ :=
    stream.exists_take_of_rank hpos hstep bs s u hs hbs hu (hle.trans hlen)
  exact ⟨k, hk.trans hle, t, ht, hh⟩

/-! ## Where it fails -/

/-- One and two receivers. -/
def oneReceiver : OzyRadio := radioWith 1 (by decide)

def twoReceivers : OzyRadio := radioWith 2 two_le_maxReceivers

instance : DecidableRel Stream.Clean := fun s a =>
  match a with
  | .byte r b => inferInstanceAs (Decidable ((_ → b = sync) ∧ (_ → s.ozy.nreceiver < r.receivers)))
  | .startStop => .isTrue trivial

/-- Sync bytes and control bytes. -/
def header : List OzyEvent :=
  [sync, sync, sync, 1, 0, 0, 0, 0].map (.byte twoReceivers)

theorem framed_of_clean_header : ∃ s, stream.exec stream.init header = some s ∧ s.Framed :=
  ⟨_, rfl, (framed_of_clean header _ rfl (by decide)).1⟩

/-- The end of the group has been missed. -/
def Ozy.Missed (r : OzyRadio) (o : Ozy) : Prop :=
  r.receivers ≤ o.nreceiver ∧ (o.state = .leftSampleHi ∨ o.state = .leftSampleMid ∨
    o.state = .leftSampleLow ∨ o.state = .rightSampleHi ∨ o.state = .rightSampleMid ∨
    o.state = .rightSampleLow)

theorem Ozy.Missed.step {r : OzyRadio} {o : Ozy} (h : o.Missed r) (b : UInt8) :
    (o.processOzyByte r b).1.Missed r := by
  obtain ⟨hle, hs | hs | hs | hs | hs | hs⟩ := h
  case inr.inr.inr.inr.inr =>
    obtain ⟨hn, -⟩ := ({ o with rightSample := sampleLow o.rightSample b } : Ozy).deliver_frame r
    have hne : o.nreceiver + 1 ≠ r.receivers := by omega
    unfold Ozy.processOzyByte
    rw [hs] at hn ⊢
    dsimp only at hn ⊢
    rw [hn, if_neg hne]
    exact ⟨show r.receivers ≤ o.nreceiver + 1 by omega, .inl rfl⟩
  all_goals
    unfold Ozy.processOzyByte
    rw [hs]
    exact ⟨hle, by simp⟩

/-- A parser that missed the end of a group goes on with pairs, whatever bytes come. -/
theorem not_hunting_of_missed (r : OzyRadio) (bytes : List UInt8) (s : Stream)
    (h : s.ozy.Missed r) :
    ∃ t, stream.exec s (bytes.map (.byte r)) = some t ∧ ¬ t.Hunting := by
  induction bytes generalizing s with
  | nil =>
    refine ⟨s, rfl, ?_⟩
    obtain ⟨-, hs | hs | hs | hs | hs | hs⟩ := h <;> simp [Stream.Hunting, hs]
  | cons b bytes ih => exact ih _ (h.step b)

/-- Two bytes between the sync bytes. -/
def disturbed : List OzyEvent :=
  [sync, 0, sync, 0, sync, 1, 0, 0, 0, 0].map (.byte twoReceivers)

/-- The second receiver is closed while its pair comes. -/
def closedInGroup : List OzyEvent :=
  header ++ [0, 0, 0, 0, 0, 0].map (.byte twoReceivers) ++
    [0, 0, 0, 0, 0, 0].map (.byte oneReceiver)

/-- Control bytes are taken that are not behind three sync bytes, and a parser whose group lost a
receiver does not come back to the search, however many bytes follow. -/
theorem not_framed :
    (∃ s, stream.exec stream.init disturbed = some s ∧ ¬ s.Framed) ∧
      ∃ s, stream.exec stream.init closedInGroup = some s ∧
        ∀ bytes : List UInt8,
          ∃ t, stream.exec s (bytes.map (.byte oneReceiver)) = some t ∧ ¬ t.Hunting := by
  constructor
  · obtain ⟨s, hs, hran⟩ : ∃ s, stream.exec stream.init disturbed = some s ∧
        ¬ ∀ p ∈ s.ran, [sync, sync, sync] ++ List.ofFn p.2 <:+ s.fed.take p.1 :=
      stream.exists_exec (by decide)
    exact ⟨s, hs, fun h => hran h.ran⟩
  · refine ⟨_, rfl, fun bytes => not_hunting_of_missed oneReceiver bytes _ ⟨?_, .inl rfl⟩⟩
    exact show 1 ≤ 2 by decide

end MacHPSDR.Protocol1
