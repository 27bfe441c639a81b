import MacHPSDR.Protocol1.Ozy
import Mathlib

/-!
# The samples of a protocol 1 stream

A well-formed frame is three sync bytes, five control bytes, as many groups as fit, and zeros up to
512 bytes. The parser that starts one in the search for sync bytes ends it there, and has given to
the live receiver `k` the pair `k` of every group and to the transmitter every
`mic_sample_divisor`-th microphone sample (`demux`). Two things are kept back by design: while the
radio transmits with PureSignal, the two feedback pairs are PureSignal's, and while the local
microphone is on the samples of the radio's microphone are not taken.
-/

namespace MacHPSDR.Protocol1

/-! ## Well-formed frames -/

/-- What of the radio can change between any two bytes. -/
structure Flags where
  transmitting : Bool
  puresignal : Bool
  localMicrophone : Bool

/-- The byte of a sample at a bit. -/
def byteAt {w : ℕ} (x : BitVec w) (bit : ℕ) : UInt8 := ⟨x.extractLsb' bit 8⟩

/-- An I/Q pair, with the flags while its bytes come. -/
structure Pair where
  left : BitVec 24
  right : BitVec 24
  flags : Fin 6 → Flags

/-- One pair for each receiver, and a microphone sample. -/
structure Group (receivers : ℕ) where
  pairs : List Pair
  length_pairs : pairs.length = receivers
  mic : BitVec 16
  flags : Fin 2 → Flags

structure Frame (r : OzyRadio) where
  controlIn : Fin 5 → UInt8
  flags : Fin 8 → Flags
  groups : List (Group r.receivers)
  length_groups : groups.length = r.groups
  /-- The flags while the zeros come. -/
  padding : List Flags
  length_padding : padding.length = 512 - 8 - r.groups * (r.receivers * 6 + 2)

/-- The bytes as they are fed. -/
def Pair.fed (p : Pair) : List (Flags × UInt8) :=
  (List.ofFn p.flags).zip [byteAt p.left 16, byteAt p.left 8, byteAt p.left 0,
    byteAt p.right 16, byteAt p.right 8, byteAt p.right 0]

def Group.fed {n : ℕ} (g : Group n) : List (Flags × UInt8) :=
  g.pairs.flatMap Pair.fed ++ (List.ofFn g.flags).zip [byteAt g.mic 8, byteAt g.mic 0]

namespace Frame

variable {r : OzyRadio} (f : Frame r)

def header : List (Flags × UInt8) :=
  (List.ofFn f.flags).zip ([sync, sync, sync] ++ List.ofFn f.controlIn)

def fed : List (Flags × UInt8) :=
  f.header ++ f.groups.flatMap Group.fed ++ f.padding.map fun x => (x, 0)

end Frame

/-! ## What should be delivered -/

namespace OzyRadio

variable (r : OzyRadio)

/-- The radio at a time. -/
def during (x : Flags) : OzyRadio := { r with
  transmitting := x.transmitting
  puresignal := x.puresignal
  localMicrophone := x.localMicrophone }

/-- The live receivers. -/
def liveSlots : List (Fin maxReceivers) := r.slots.filter r.receiver

end OzyRadio

/-- A frame is 512 bytes long. -/
theorem Frame.length_fed {r : OzyRadio} (f : Frame r) : f.fed.length = 512 := by
  have hpair (p : Pair) : p.fed.length = 6 := by simp [Pair.fed]
  have hgroup (g : Group r.receivers) : g.fed.length = r.receivers * 6 + 2 := by
    simp [Group.fed, hpair, g.length_pairs]
  have hfit : r.groups * (r.receivers * 6 + 2) ≤ 512 - 8 := Nat.div_mul_le_self ..
  have hheader : f.header.length = 8 := by simp [Frame.header]
  simp only [Frame.fed, List.length_append, hheader, List.length_flatMap, hgroup,
    List.map_const', List.sum_replicate, List.length_map, f.length_groups, f.length_padding,
    smul_eq_mul]
  omega

/-- The parser over bytes, each with the flags of its time. -/
def feed (r : OzyRadio) : Ozy → List (Flags × UInt8) → Ozy × List Output
  | s, [] => (s, [])
  | s, (x, b) :: rest =>
    let (t, out) := s.processOzyByte (r.during x) b
    let (u, outs) := feed r t rest
    (u, out ++ outs)

/-- What goes to a slot. -/
def Output.iqTo? (j : Fin maxReceivers) : Output → Option (ℤ × ℤ)
  | .iq i left right => if i = j then some (left, right) else none
  | _ => none

/-- What goes to the transmitter. -/
def Output.mic? : Output → Option ℤ
  | .mic x => some x
  | _ => none

/-- A pair for the receiver `k`, unless it is PureSignal's. -/
def Pair.sample (r : OzyRadio) (k : ℕ) (p : Pair) : Option (ℤ × ℤ) :=
  if (r.during (p.flags (Fin.last 5))).FeedsPs k then none else some (p.left.toInt, p.right.toInt)

namespace Group

variable {n : ℕ} (g : Group n)

/-- What the group has for the receiver `k`. -/
def pairFor (r : OzyRadio) (k : ℕ) : Option (ℤ × ℤ) := g.pairs[k]?.bind (Pair.sample r k)

/-- The microphone sample of the group, unless the local microphone is on. -/
def spoken : Option ℤ :=
  if (g.flags (Fin.last 1)).localMicrophone then none else some g.mic.toInt

end Group

/-- Every `d`-th sample, where `m` samples have come before. -/
def everyNth (d m : ℕ) (xs : List ℤ) : List ℤ :=
  (xs.zipIdx (m + 1)).filterMap fun p => if d ∣ p.2 then some p.1 else none

/-! ## Samples from their bytes -/

/-- The sign of a sample is extended by the multiplication. -/
theorem sample_assembled (x : BitVec 24) :
    sampleLow (sampleMid (sampleHi (byteAt x 16)) (byteAt x 8)) (byteAt x 0) =
      x.signExtend 32 := by
  have hmul (y : BitVec 32) : y * (65536 : BitVec 32) = y <<< 16 := by
    rw [BitVec.shiftLeft_eq_mul_twoPow]
    rfl
  unfold sampleLow sampleMid sampleHi byteAt
  rw [hmul]
  apply BitVec.eq_of_getLsbD_eq
  intro i hi
  simp only [BitVec.getLsbD_or, BitVec.getLsbD_and, BitVec.getLsbD_shiftLeft,
    BitVec.getLsbD_setWidth, BitVec.getLsbD_signExtend, BitVec.getLsbD_extractLsb']
  interval_cases i <;> simp [BitVec.msb, BitVec.getMsbD]

theorem mic_assembled (x : BitVec 16) :
    (byteAt x 8).toBitVec.setWidth 16 <<< 8 ||| ((byteAt x 0).toBitVec.setWidth 16 &&& 0xFF) =
      x := by
  unfold byteAt
  apply BitVec.eq_of_getLsbD_eq
  intro i hi
  interval_cases i <;> simp

theorem toInt_signExtend (x : BitVec 24) : (x.signExtend 32).toInt = x.toInt :=
  BitVec.toInt_signExtend_of_le (by decide)

/-! ## The search for a receiver -/

namespace OzyRadio

variable (r : OzyRadio)

theorem findReceiverLoop_eq (n i : ℕ) (l : List (Fin maxReceivers)) (h : i ≤ n) :
    r.findReceiverLoop n i l = (l.filter r.receiver)[n - i]? := by
  induction l generalizing i with
  | nil => rfl
  | cons j js ih =>
    unfold findReceiverLoop
    by_cases hj : r.receiver j
    · rw [List.filter_cons_of_pos hj, if_pos hj]
      by_cases hi : i = n
      · rw [if_pos hi, hi, Nat.sub_self]
        rfl
      · have hsub : n - i = n - (i + 1) + 1 := by omega
        rw [if_neg hi, ih (i + 1) (by omega), hsub]
        rfl
    · rw [List.filter_cons_of_neg hj, if_neg hj]
      exact ih i h

/-- The search finds the live receiver of a number, gaps passed over. -/
theorem findReceiver_eq (n : ℕ) : r.findReceiver n = r.liveSlots[n]? :=
  r.findReceiverLoop_eq n 0 r.slots (Nat.zero_le n)

theorem liveSlots_nodup : r.liveSlots.Nodup :=
  ((List.nodup_finRange maxReceivers).filter _).filter _

theorem liveSlots_inj {j : Fin maxReceivers} {m n : ℕ} (hm : r.liveSlots[m]? = some j)
    (hn : r.liveSlots[n]? = some j) : m = n := by
  obtain ⟨hlt, hj⟩ := List.getElem?_eq_some_iff.1 hm
  exact (List.getElem?_inj hlt r.liveSlots_nodup).1 (hm.trans hn.symm)

end OzyRadio

/-! ## What a run hands on -/

theorem feed_append (r : OzyRadio) (s : Ozy) (xs ys : List (Flags × UInt8)) :
    feed r s (xs ++ ys) =
      ((feed r (feed r s xs).1 ys).1, (feed r s xs).2 ++ (feed r (feed r s xs).1 ys).2) := by
  induction xs generalizing s with
  | nil => rfl
  | cons x xs ih => simp [feed, ih]

/-- `deliver` writes the feedback samples alone. -/
theorem Ozy.deliver_eq (r : OzyRadio) (s : Ozy) :
    ∃ a b, (s.deliver r).1 = { s with fbkLeft := a, fbkRight := b } := by
  unfold deliver
  dsimp only
  split
  · split <;> exact ⟨_, _, rfl⟩
  · split <;> exact ⟨_, _, rfl⟩

/-- The completed pair goes to the live receiver of its number, unless it is PureSignal's. -/
theorem Ozy.deliver_out (r : OzyRadio) (s : Ozy) :
    (s.deliver r).2.filterMap Output.mic? = [] ∧ ∀ j,
      (s.deliver r).2.filterMap (Output.iqTo? j) =
        if ¬ r.FeedsPs s.nreceiver ∧ r.liveSlots[s.nreceiver]? = some j then
          [(s.leftSample.toInt, s.rightSample.toInt)] else [] := by
  unfold deliver
  dsimp only
  rw [r.findReceiver_eq]
  by_cases hps : r.FeedsPs s.nreceiver
  · have hnone (j : Fin maxReceivers) :
        ¬ (¬ r.FeedsPs s.nreceiver ∧ r.liveSlots[s.nreceiver]? = some j) := fun h => h.1 hps
    simp only [if_pos hps, if_neg (hnone _)]
    split <;> exact ⟨rfl, fun _ => rfl⟩
  · rw [if_neg hps]
    split
    case h_1 i hi =>
      refine ⟨rfl, fun j => ?_⟩
      by_cases hij : i = j <;> simp [hps, hi, hij, Output.iqTo?]
    case h_2 hi => exact ⟨rfl, fun j => by simp [hi]⟩

/-- The counter of the microphone samples, and those that are passed on. -/
def thin (d : ℕ) : ℕ → List ℤ → ℕ × List ℤ
  | m, [] => (m, [])
  | m, x :: xs =>
    if m + 1 ≥ d then
      let (n, ys) := thin d 0 xs
      (n, x :: ys)
    else thin d (m + 1) xs

theorem thin_cons (d m : ℕ) (x : ℤ) (xs : List ℤ) :
    thin d m (x :: xs) =
      if m + 1 ≥ d then ((thin d 0 xs).1, x :: (thin d 0 xs).2) else thin d (m + 1) xs := rfl

theorem thin_append (d m : ℕ) (xs ys : List ℤ) :
    thin d m (xs ++ ys) =
      ((thin d (thin d m xs).1 ys).1, (thin d m xs).2 ++ (thin d (thin d m xs).1 ys).2) := by
  induction xs generalizing m with
  | nil => rfl
  | cons x xs ih =>
    rw [List.cons_append, thin_cons, thin_cons]
    split <;> simp [ih]

/-- A run from one state to another hands on the samples of the groups. -/
structure Hands (r : OzyRadio) (s t : Ozy) (out : List Output)
    (gs : List (Group r.receivers)) : Prop where
  live : ∀ k j, r.liveSlots[k]? = some j →
    out.filterMap (Output.iqTo? j) = gs.filterMap fun g => g.pairFor r k
  dead : ∀ j, j ∉ r.liveSlots → out.filterMap (Output.iqTo? j) = []
  mic : (t.micSamples, out.filterMap Output.mic?) =
    thin r.micSampleDivisor s.micSamples (gs.filterMap Group.spoken)

theorem Hands.append {r : OzyRadio} {s t u : Ozy} {out out' : List Output}
    {gs gs' : List (Group r.receivers)} (h : Hands r s t out gs) (h' : Hands r t u out' gs') :
    Hands r s u (out ++ out') (gs ++ gs') where
  live k j hj := by rw [List.filterMap_append, List.filterMap_append, h.live k j hj, h'.live k j hj]
  dead j hj := by rw [List.filterMap_append, h.dead j hj, h'.dead j hj, List.append_nil]
  mic := by
    rw [List.filterMap_append, List.filterMap_append, thin_append, ← h.mic, ← h'.mic]

/-! ## Pairs, groups and frames -/

/-- The state in which a pair is delivered. -/
def Ozy.withPair (s : Ozy) (p : Pair) : Ozy := { s with
  state := .rightSampleLow
  leftSample := p.left.signExtend 32
  rightSample := p.right.signExtend 32 }

theorem Pair.fed_eq (p : Pair) :
    p.fed = [(p.flags 0, byteAt p.left 16), (p.flags 1, byteAt p.left 8),
      (p.flags 2, byteAt p.left 0), (p.flags 3, byteAt p.right 16), (p.flags 4, byteAt p.right 8),
      (p.flags (Fin.last 5), byteAt p.right 0)] := by
  simp [Pair.fed, List.ofFn_succ, Fin.last]

theorem feed_pair_eq (r : OzyRadio) (s : Ozy) (hs : s.state = .leftSampleHi) (p : Pair) :
    feed r s p.fed =
      let (t, out) := (s.withPair p).deliver (r.during (p.flags (Fin.last 5)))
      ({ t with
          nreceiver := t.nreceiver + 1
          state := if t.nreceiver + 1 = r.receivers then .micSampleHi else .leftSampleHi },
        out) := by
  unfold Ozy.withPair
  rw [← sample_assembled p.left, ← sample_assembled p.right]
  cases s
  subst hs
  rw [p.fed_eq]
  simp only [feed, Ozy.processOzyByte, List.nil_append, List.append_nil]
  rfl

/-- Six bytes: a pair is complete. -/
theorem feed_pair (r : OzyRadio) (s : Ozy) (hs : s.state = .leftSampleHi) (p : Pair) :
    ∃ t out, feed r s p.fed = (t, out) ∧
      (t.state = if s.nreceiver + 1 = r.receivers then .micSampleHi else .leftSampleHi) ∧
      t.nreceiver = s.nreceiver + 1 ∧ t.nsamples = s.nsamples ∧ t.iqSamples = s.iqSamples ∧
      t.micSamples = s.micSamples ∧ out.filterMap Output.mic? = [] ∧
      ∀ j, out.filterMap (Output.iqTo? j) =
        if r.liveSlots[s.nreceiver]? = some j then (p.sample r s.nreceiver).toList else [] := by
  have hlive : (r.during (p.flags (Fin.last 5))).liveSlots = r.liveSlots := rfl
  obtain ⟨a, b, hab⟩ := (s.withPair p).deliver_eq (r.during (p.flags (Fin.last 5)))
  obtain ⟨hmic, hiq⟩ := (s.withPair p).deliver_out (r.during (p.flags (Fin.last 5)))
  have hfeed := feed_pair_eq r s hs p
  generalize Ozy.deliver _ (s.withPair p) = d at hab hmic hiq hfeed
  obtain ⟨t, out⟩ := d
  dsimp only at hab hmic hiq hfeed
  subst hab
  refine ⟨_, out, hfeed, rfl, rfl, rfl, rfl, rfl, hmic, fun j => (hiq j).trans ?_⟩
  unfold Ozy.withPair Pair.sample
  rw [toInt_signExtend, toInt_signExtend, hlive]
  by_cases hps : (r.during (p.flags (Fin.last 5))).FeedsPs s.nreceiver <;>
    simp only [hps, not_true_eq_false, not_false_eq_true, false_and, true_and, if_false, if_true,
      Option.toList_none, Option.toList_some, ite_self]

/-- What pairs from the number `n` on have for the receiver `k`. -/
def heard (r : OzyRadio) (k n : ℕ) (ps : List Pair) : List (ℤ × ℤ) :=
  if n ≤ k then (ps[k - n]?.bind (Pair.sample r k)).toList else []

theorem heard_cons (r : OzyRadio) (k n : ℕ) (p : Pair) (ps : List Pair) :
    heard r k n (p :: ps) =
      (if n = k then (p.sample r k).toList else []) ++ heard r k (n + 1) ps := by
  unfold heard
  obtain hlt | rfl | hgt := lt_trichotomy n k
  · have hsub : k - n = k - (n + 1) + 1 := by omega
    rw [if_pos hlt.le, if_neg hlt.ne, if_pos (show n + 1 ≤ k from hlt), hsub]
    rfl
  · rw [if_pos le_rfl, if_pos rfl, if_neg (Nat.not_succ_le_self n), Nat.sub_self, List.append_nil]
    rfl
  · rw [if_neg hgt.not_ge, if_neg hgt.ne', if_neg (show ¬ n + 1 ≤ k by omega)]
    rfl

/-- A run over pairs: what it keeps, and what it hands on. -/
structure OverPairs (r : OzyRadio) (s t : Ozy) (out : List Output) (ps : List Pair) : Prop where
  nsamples : t.nsamples = s.nsamples
  iqSamples : t.iqSamples = s.iqSamples
  micSamples : t.micSamples = s.micSamples
  mic : out.filterMap Output.mic? = []
  live : ∀ k j, r.liveSlots[k]? = some j →
    out.filterMap (Output.iqTo? j) = heard r k s.nreceiver ps
  dead : ∀ j, j ∉ r.liveSlots → out.filterMap (Output.iqTo? j) = []

/-- **The pairs of a group.** The induction is on the pairs that are still to come, one for each
receiver from `nreceiver` on. -/
theorem feed_pairs (r : OzyRadio) (ps : List Pair) (s : Ozy) (hs : s.state = .leftSampleHi)
    (hn : s.nreceiver + ps.length = r.receivers) :
    OverPairs r s (feed r s (ps.flatMap Pair.fed)).1 (feed r s (ps.flatMap Pair.fed)).2 ps ∧
      (ps ≠ [] → (feed r s (ps.flatMap Pair.fed)).1.state = .micSampleHi) := by
  induction ps generalizing s with
  | nil =>
    have hnone (k : ℕ) : heard r k s.nreceiver [] = [] := by simp [heard]
    exact ⟨⟨rfl, rfl, rfl, rfl, fun k _ _ => (hnone k).symm, fun _ _ => rfl⟩,
      fun h => absurd rfl h⟩
  | cons p ps ih =>
    obtain ⟨t, out, hfeed, hst, hnr, hns, his, hms, hmic, hiq⟩ := feed_pair r s hs p
    rw [List.flatMap_cons, feed_append, hfeed]
    rw [List.length_cons] at hn
    have hlive (k : ℕ) (j : Fin maxReceivers) (hj : r.liveSlots[k]? = some j) :
        out.filterMap (Output.iqTo? j) = if s.nreceiver = k then (p.sample r k).toList else [] := by
      rw [hiq j]
      by_cases hk : s.nreceiver = k
      · subst hk
        rw [if_pos hj, if_pos rfl]
      · rw [if_neg hk, if_neg fun hj' => hk (r.liveSlots_inj hj' hj)]
    have hdead (j : Fin maxReceivers) (hj : j ∉ r.liveSlots) :
        out.filterMap (Output.iqTo? j) = [] := by
      rw [hiq j, if_neg fun hj' => hj (List.mem_of_getElem? hj')]
    by_cases hps : ps = []
    · subst hps
      have hlast : s.nreceiver + 1 = r.receivers := hn
      have hnone (k : ℕ) : heard r k (s.nreceiver + 1) [] = [] := by simp [heard]
      refine ⟨⟨hns, his, hms, ?_, fun k j hj => ?_, fun j hj => ?_⟩,
        fun _ => hst.trans (if_pos hlast)⟩
      · rw [List.filterMap_append, hmic]
        rfl
      · rw [List.filterMap_append, hlive k j hj, heard_cons, hnone]
        rfl
      · rw [List.filterMap_append, hdead j hj]
        rfl
    · have hmore : s.nreceiver + 1 ≠ r.receivers := by
        have := List.length_pos_of_ne_nil hps
        omega
      obtain ⟨hover, hstate⟩ := ih t (hst.trans (if_neg hmore)) (by omega)
      refine ⟨⟨hover.nsamples.trans hns, hover.iqSamples.trans his, hover.micSamples.trans hms,
        ?_, fun k j hj => ?_, fun j hj => ?_⟩, fun _ => hstate hps⟩
      · rw [List.filterMap_append, hmic, hover.mic]
        rfl
      · rw [List.filterMap_append, hlive k j hj, heard_cons, hover.live k j hj, hnr]
      · rw [List.filterMap_append, hdead j hj, hover.dead j hj]
        rfl

/-- The microphone sample of a group is complete. -/
theorem feed_mic (r : OzyRadio) (s : Ozy) (hs : s.state = .micSampleHi) {n : ℕ} (g : Group n) :
    ∃ t out, feed r s ((List.ofFn g.flags).zip [byteAt g.mic 8, byteAt g.mic 0]) = (t, out) ∧
      t.nsamples = s.nsamples + 1 ∧ t.iqSamples = s.iqSamples ∧
      (t.state = if s.nsamples + 1 = s.iqSamples then .sync0 else .leftSampleHi) ∧
      (s.nsamples + 1 ≠ s.iqSamples → t.nreceiver = 0) ∧
      (∀ j, out.filterMap (Output.iqTo? j) = []) ∧
      (t.micSamples, out.filterMap Output.mic?) =
        thin r.micSampleDivisor s.micSamples g.spoken.toList := by
  have hfed : (List.ofFn g.flags).zip [byteAt g.mic 8, byteAt g.mic 0] =
      [(g.flags 0, byteAt g.mic 8), (g.flags (Fin.last 1), byteAt g.mic 0)] := by
    simp [List.ofFn_succ, Fin.last]
  have hmic := mic_assembled g.mic
  rw [hfed]
  cases s
  subst hs
  simp only [feed, Ozy.processOzyByte, List.nil_append, List.append_nil, hmic]
  unfold Ozy.deliverMic Group.spoken OzyRadio.during
  dsimp only
  by_cases hlocal : (g.flags (Fin.last 1)).localMicrophone
  · rw [if_pos hlocal, if_pos hlocal]
    dsimp only
    split <;> simp [*, thin]
  · rw [if_neg hlocal, if_neg hlocal, Option.toList_some, thin_cons]
    split <;> dsimp only <;> split <;> simp [*, thin, Output.iqTo?, Output.mic?]

theorem Hands.nil (r : OzyRadio) (s : Ozy) : Hands r s s [] [] :=
  ⟨fun _ _ _ => rfl, fun _ _ => rfl, rfl⟩

/-- One group. -/
theorem feed_group (r : OzyRadio) (hr : 0 < r.receivers) (s : Ozy) (hs : s.state = .leftSampleHi)
    (hn : s.nreceiver = 0) (g : Group r.receivers) :
    ∃ t out, feed r s g.fed = (t, out) ∧ t.nsamples = s.nsamples + 1 ∧
      t.iqSamples = s.iqSamples ∧
      (t.state = if s.nsamples + 1 = s.iqSamples then .sync0 else .leftSampleHi) ∧
      (s.nsamples + 1 ≠ s.iqSamples → t.nreceiver = 0) ∧ Hands r s t out [g] := by
  have hne : g.pairs ≠ [] := List.ne_nil_of_length_pos (hr.trans_eq g.length_pairs.symm)
  obtain ⟨hover, hstate⟩ := feed_pairs r g.pairs s hs (by rw [hn, g.length_pairs, Nat.zero_add])
  obtain ⟨u, out, hfeed, hns, his, hst, hnr, hiq, hmic⟩ := feed_mic r _ (hstate hne) g
  unfold Group.fed
  rw [feed_append, hfeed]
  rw [hover.nsamples, hover.iqSamples] at hst hnr
  rw [hover.nsamples] at hns
  rw [hover.micSamples] at hmic
  refine ⟨_, _, rfl, hns, his.trans hover.iqSamples, hst, hnr, fun k j hj => ?_, fun j hj => ?_, ?_⟩
  · rw [List.filterMap_append, hover.live k j hj, hiq j, hn, List.append_nil]
    unfold heard
    rw [if_pos (Nat.zero_le k), Nat.sub_zero, List.filterMap_cons]
    cases h : g.pairFor r k <;> simp [← h, Group.pairFor]
  · rw [List.filterMap_append, hover.dead j hj, hiq j]
    rfl
  · rw [List.filterMap_append, hover.mic, List.nil_append, hmic, List.filterMap_cons]
    cases g.spoken <;> rfl

/-- **The groups of a frame.** The induction is on those that are still to come. -/
theorem feed_groups (r : OzyRadio) (hr : 0 < r.receivers) (gs : List (Group r.receivers))
    (s : Ozy) (hs : s.state = .leftSampleHi) (hn : s.nreceiver = 0)
    (hlen : s.nsamples + gs.length = s.iqSamples) :
    ∃ t out, feed r s (gs.flatMap Group.fed) = (t, out) ∧ (gs ≠ [] → t.state = .sync0) ∧
      Hands r s t out gs := by
  induction gs generalizing s with
  | nil => exact ⟨s, [], rfl, fun h => absurd rfl h, Hands.nil r s⟩
  | cons g gs ih =>
    obtain ⟨t, out, hfeed, hns, his, hst, hnr, hhands⟩ := feed_group r hr s hs hn g
    rw [List.flatMap_cons, feed_append, hfeed]
    rw [List.length_cons] at hlen
    by_cases hgs : gs = []
    · subst hgs
      have hlast : s.nsamples + 1 = s.iqSamples := hlen
      exact ⟨t, out ++ [], rfl, fun _ => hst.trans (if_pos hlast), hhands.append (Hands.nil r t)⟩
    · have hmore : s.nsamples + 1 ≠ s.iqSamples := by
        have := List.length_pos_of_ne_nil hgs
        omega
      obtain ⟨u, out', hfeed', hst', hhands'⟩ :=
        ih t (hst.trans (if_neg hmore)) (hnr hmore) (by omega)
      rw [hfeed']
      exact ⟨u, out ++ out', rfl, fun _ => hst' hgs, hhands.append hhands'⟩

/-- The header of a frame. -/
theorem feed_header {r : OzyRadio} (f : Frame r) (s : Ozy) (hs : s.state = .sync0) :
    feed r s f.header =
      ({ s with
          state := .leftSampleHi
          controlIn := f.controlIn
          nreceiver := 0
          nsamples := 0
          iqSamples := r.groups }, [.control f.controlIn]) := by
  have hheader : f.header = [(f.flags 0, sync), (f.flags 1, sync), (f.flags 2, sync),
      (f.flags 3, f.controlIn 0), (f.flags 4, f.controlIn 1), (f.flags 5, f.controlIn 2),
      (f.flags 6, f.controlIn 3), (f.flags 7, f.controlIn 4)] := by
    simp [Frame.header, List.ofFn_succ]
  have hcontrol (c : Fin 5 → UInt8) : Function.update (Function.update (Function.update
      (Function.update (Function.update c 0 (f.controlIn 0)) 1 (f.controlIn 1)) 2 (f.controlIn 2))
      3 (f.controlIn 3)) 4 (f.controlIn 4) = f.controlIn := by
    funext i
    fin_cases i <;> rfl
  rw [hheader, ← hcontrol s.controlIn]
  cases s
  subst hs
  rfl

/-- Zeros do not stop the search. -/
theorem feed_padding (r : OzyRadio) (s : Ozy) (hs : s.state = .sync0) (xs : List Flags) :
    feed r s (xs.map fun x => (x, 0)) = (s, []) := by
  induction xs with
  | nil => rfl
  | cons x xs ih =>
    have hzero : s.processOzyByte (r.during x) 0 = (s, []) := by
      unfold Ozy.processOzyByte
      rw [hs]
      rfl
    rw [List.map_cons, feed, hzero]
    dsimp only
    rw [ih]
    rfl

/-- **One frame.** -/
theorem feed_frame {r : OzyRadio} (hr : 0 < r.receivers) (f : Frame r) (s : Ozy)
    (hs : s.state = .sync0) :
    ∃ t out, feed r s f.fed = (t, out) ∧ t.state = .sync0 ∧ Hands r s t out f.groups := by
  have hne : f.groups ≠ [] :=
    List.ne_nil_of_length_pos (r.groups_bounds.1.trans_eq f.length_groups.symm)
  have hlen : 0 + f.groups.length = r.groups := by rw [Nat.zero_add, f.length_groups]
  obtain ⟨t, out, hfeed, hst, hhands⟩ := feed_groups r hr f.groups
    { s with
      state := .leftSampleHi
      controlIn := f.controlIn
      nreceiver := 0
      nsamples := 0
      iqSamples := r.groups } rfl rfl hlen
  unfold Frame.fed
  rw [feed_append, feed_append, feed_header f s hs, hfeed]
  dsimp only
  rw [feed_padding r t (hst hne)]
  rw [List.append_nil]
  exact ⟨t, _, rfl, hst hne, hhands.live, hhands.dead, hhands.mic⟩

/-- **A sequence of frames.** -/
theorem feed_frames {r : OzyRadio} (hr : 0 < r.receivers) (fs : List (Frame r)) (s : Ozy)
    (hs : s.state = .sync0) :
    ∃ t out, feed r s (fs.flatMap Frame.fed) = (t, out) ∧ t.state = .sync0 ∧
      Hands r s t out (fs.flatMap Frame.groups) := by
  induction fs generalizing s with
  | nil => exact ⟨s, [], rfl, hs, Hands.nil r s⟩
  | cons f fs ih =>
    obtain ⟨t, out, hfeed, hst, hhands⟩ := feed_frame hr f s hs
    obtain ⟨u, out', hfeed', hst', hhands'⟩ := ih t hst
    rw [List.flatMap_cons, List.flatMap_cons, feed_append, hfeed]
    dsimp only
    rw [hfeed']
    exact ⟨u, out ++ out', rfl, hst', hhands.append hhands'⟩

/-! ## The microphone samples that are passed on -/

theorem everyNth_cons (d m : ℕ) (x : ℤ) (xs : List ℤ) :
    everyNth d m (x :: xs) = if d ∣ m + 1 then x :: everyNth d (m + 1) xs
      else everyNth d (m + 1) xs := by
  unfold everyNth
  rw [List.zipIdx_cons, List.filterMap_cons]
  by_cases h : d ∣ m + 1 <;> simp [h]

/-- The counter of the code is the number of the sample modulo the divisor. -/
theorem thin_eq_everyNth (d : ℕ) (hd : 0 < d) (xs : List ℤ) (n : ℕ) :
    (thin d (n % d) xs).2 = everyNth d n xs := by
  induction xs generalizing n with
  | nil => rfl
  | cons x xs ih =>
    have hlt := Nat.mod_lt n hd
    have hn : n + 1 = d * (n / d) + (n % d + 1) := by rw [← Nat.add_assoc, Nat.div_add_mod]
    have hdvd : d ∣ n + 1 ↔ d ∣ n % d + 1 := by
      rw [hn, Nat.dvd_add_right (Nat.dvd_mul_right ..)]
    have hmod : (n + 1) % d = (n % d + 1) % d := by rw [hn, Nat.mul_add_mod]
    rw [thin_cons, everyNth_cons, ← ih (n + 1), hmod]
    by_cases h : n % d + 1 ≥ d
    · have heq : n % d + 1 = d := by omega
      rw [if_pos h, if_pos (hdvd.2 heq.symm.dvd), heq, Nat.mod_self]
    · have hnot : ¬ d ∣ n + 1 := fun hd => h (Nat.le_of_dvd (Nat.succ_pos _) (hdvd.1 hd))
      rw [if_neg h, if_neg hnot, Nat.mod_eq_of_lt (Nat.lt_of_not_le h)]

/-- A divisor of zero counts as one, and a counter that has passed the divisor passes at once. -/
theorem thin_clamp (d m : ℕ) (xs : List ℤ) :
    (thin d m xs).2 = (thin (max d 1) (min m (max d 1 - 1)) xs).2 := by
  have hsame (k : ℕ) (xs : List ℤ) : thin d k xs = thin (max d 1) k xs := by
    induction xs generalizing k with
    | nil => rfl
    | cons x xs ih =>
      have hiff : k + 1 ≥ d ↔ k + 1 ≥ max d 1 := by omega
      simp only [thin_cons, hiff, ih]
  rw [hsame]
  cases xs with
  | nil => rfl
  | cons x xs =>
    have hiff : m + 1 ≥ max d 1 ↔ min m (max d 1 - 1) + 1 ≥ max d 1 := by omega
    rw [thin_cons, thin_cons]
    by_cases h : m + 1 ≥ max d 1
    · rw [if_pos h, if_pos (hiff.1 h)]
    · have hmin : min m (max d 1 - 1) = m := by omega
      rw [if_neg h, if_neg (mt hiff.2 h), hmin]

/-! ## The stream -/

/-- **Demultiplexing**: from the search for sync bytes on, frames are delivered as their samples,
and the search begins again. -/
theorem demux (r : OzyRadio) (hr : 0 < r.receivers) (s : Ozy) (hs : s.state = .sync0)
    (fs : List (Frame r)) :
    (feed r s (fs.flatMap Frame.fed)).1.state = .sync0 ∧
      (∀ k j, r.liveSlots[k]? = some j →
        (feed r s (fs.flatMap Frame.fed)).2.filterMap (Output.iqTo? j) =
          (fs.flatMap Frame.groups).filterMap fun g => g.pairFor r k) ∧
      (∀ j, j ∉ r.liveSlots →
        (feed r s (fs.flatMap Frame.fed)).2.filterMap (Output.iqTo? j) = []) ∧
      (feed r s (fs.flatMap Frame.fed)).2.filterMap Output.mic? =
        everyNth (max r.micSampleDivisor 1) (min s.micSamples (max r.micSampleDivisor 1 - 1))
          ((fs.flatMap Frame.groups).filterMap Group.spoken) := by
  obtain ⟨t, out, hfeed, hst, hlive, hdead, hmic⟩ := feed_frames hr fs s hs
  rw [hfeed]
  refine ⟨hst, hlive, hdead, ?_⟩
  have hd : 0 < max r.micSampleDivisor 1 := by omega
  have hlt : min s.micSamples (max r.micSampleDivisor 1 - 1) < max r.micSampleDivisor 1 := by omega
  rw [← thin_eq_everyNth _ hd, Nat.mod_eq_of_lt hlt, ← thin_clamp]
  exact (Prod.ext_iff.1 hmic).2

/-! ## A stream of equal samples -/

/-- A frame whose pairs and microphone samples are all the same. -/
def constantFrame (r : OzyRadio) (left right : BitVec 24) (mic : BitVec 16) (x : Flags) :
    Frame r where
  controlIn := fun _ => 0
  flags := fun _ => x
  groups := List.replicate r.groups
    { pairs := List.replicate r.receivers ⟨left, right, fun _ => x⟩
      length_pairs := List.length_replicate
      mic := mic
      flags := fun _ => x }
  length_groups := List.length_replicate
  padding := List.replicate (512 - 8 - r.groups * (r.receivers * 6 + 2)) x
  length_padding := List.length_replicate

/-- Two receivers, one of them in the last slot, and a radio that takes every fourth microphone
sample. -/
def spacedReceivers : OzyRadio :=
  { radioWith 2 two_le_maxReceivers with
    receiver := fun j => j.val = 1 ∨ j.val = 7
    micSampleDivisor := 4 }

theorem demux_spacedReceivers :
    let f := constantFrame spacedReceivers 1 (-1) 5 ⟨false, false, false⟩
    (feed spacedReceivers .start ([f].flatMap Frame.fed)).2.filterMap
      (Output.iqTo? (Fin.last 7)) = List.replicate 36 (1, -1) :=
  ((demux spacedReceivers Nat.two_pos .start rfl _).2.1 1 (Fin.last 7) (by decide)).trans
    (by decide)

/-- While the radio transmits with PureSignal, the receivers of its two pairs get nothing. -/
theorem not_demux :
    ¬ ∀ (r : OzyRadio) (s : Ozy) (f : Frame r), 0 < r.receivers → s.state = .sync0 →
      ∀ (k : ℕ) (j : Fin maxReceivers), r.liveSlots[k]? = some j →
        (feed r s f.fed).2.filterMap (Output.iqTo? j) = f.groups.filterMap fun g =>
          g.pairs[k]?.map fun p : Pair => (p.left.toInt, p.right.toInt) := by
  intro h
  have hclaim := h spacedReceivers .start
    (constantFrame spacedReceivers 1 (-1) 5 ⟨true, true, false⟩) Nat.two_pos rfl 1 (Fin.last 7)
    (by decide)
  obtain ⟨t, out, hfeed, -, hhands⟩ := feed_frame (r := spacedReceivers) Nat.two_pos
    (constantFrame spacedReceivers 1 (-1) 5 ⟨true, true, false⟩) .start rfl
  rw [hfeed, hhands.live 1 (Fin.last 7) (by decide)] at hclaim
  exact absurd hclaim (by decide)

end MacHPSDR.Protocol1
