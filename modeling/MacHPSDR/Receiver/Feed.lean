import Mathlib

/-!
# The feed of a receiver's DSP channel

A wide span is mixed and decimated before it reaches WDSP. `receiver_build_feed` chooses the
decimation and with it the input of the channel, and the feed holds what the decimator has given
until a block for the channel is complete. All the divisions that this needs are exact for the spans
that are admitted (`spanSound_iff`); one of them is decimated to a rate that is too low for WFM.
-/

namespace MacHPSDR.Receiver

/-! ## The geometry of a span -/

def rxBlockWide : ℕ := 5120
def rxBlockUltrawide : ℕ := 5 * rxBlockWide
def rxUltrawideSpan : ℕ := 1920000
def rxMinAudioBlock : ℕ := 128
def rxFeedMaxRate : ℕ := 384000
def rxFeedMinRate : ℕ := 192000
def rxUltrawideDecim : ℕ := 25

/-- `rx_iq_block`, the `buffer_size` of a device with wide buffers -/
def rxIqBlock (sampleRate : ℕ) : ℕ :=
  if sampleRate > rxUltrawideSpan then rxBlockUltrawide else rxBlockWide

/-- `rx_span_is_exact` -/
def rxSpanIsExact (sampleRate : ℕ) : Bool :=
  if sampleRate < 48000 ∨ sampleRate % 48000 ≠ 0 then false
  else
    let ratio := sampleRate / 48000
    let block := rxIqBlock sampleRate
    block % ratio = 0 ∧ block / ratio ≥ rxMinAudioBlock

/-- `rx_dsp_block` -/
def rxDspBlock (sampleRate : ℕ) : ℕ :=
  if sampleRate > rxUltrawideSpan then rxBlockWide / 5 else rxBlockWide

/-- The search of `rx_feed_decim` from `d` on, for at most `fuel` decimations. -/
def searchDecim (sampleRate block : ℕ) : ℕ → ℕ → ℕ
  | 0, _ => 1
  | fuel + 1, d =>
    if sampleRate / d < rxFeedMinRate then 1
    else
      let out := sampleRate / d
      if sampleRate % d ≠ 0 ∨ block % d ≠ 0 ∨ out > rxFeedMaxRate ∨ out % 48000 ≠ 0 then
        searchDecim sampleRate block fuel (d + 1)
      else d

/-- `rx_feed_decim` -/
def rxFeedDecim (sampleRate block : ℕ) : ℕ :=
  if sampleRate ≤ rxFeedMaxRate ∨ block = 0 then 1
  else if sampleRate > rxUltrawideSpan then
    if sampleRate % (48000 * rxUltrawideDecim) = 0 ∧ block % rxUltrawideDecim = 0 then
      rxUltrawideDecim
    else 1
  -- no decimation above `sampleRate / rxFeedMinRate` passes the test of the loop
  else searchDecim sampleRate block (sampleRate / rxFeedMinRate) 2

/-- What `receiver_build_feed` decides. -/
structure Geometry where
  sampleRate : ℕ
  bufferSize : ℕ
  decim : ℕ
  dspInRate : ℕ
  dspInBlock : ℕ
  dspSize : ℕ

/-- `receiver_build_feed`, for a device with wide buffers; a feed that is wanted is created.
`feedOff` is what the environment says. -/
def receiverBuildFeed (feedOff : Bool) (sampleRate bufferSize : ℕ) : Geometry :=
  let decim := if feedOff then 1 else rxFeedDecim sampleRate bufferSize
  if decim > 1 then
    { sampleRate, bufferSize, decim
      dspInRate := sampleRate / decim
      dspInBlock := bufferSize / decim
      dspSize := bufferSize / decim }
  else
    { sampleRate, bufferSize, decim
      dspInRate := sampleRate
      dspInBlock := bufferSize
      dspSize := rxDspBlock sampleRate }

namespace Geometry

variable (g : Geometry)

/-- `rx_wfm_dsp_rate` -/
def rxWfmDspRate : ℕ :=
  if g.decim > 1 then g.dspInRate
  else if g.bufferSize = 0 ∨ g.dspSize = 0 then g.sampleRate
  else g.sampleRate * g.dspSize / g.bufferSize

/-- `output_samples` -/
def outputSamples : ℕ := g.bufferSize / (g.sampleRate / 48000)

/-- `dsp_insize` of the WDSP channel: what a DSP pass consumes -/
def dspInsize (dspRate : ℕ) : ℕ :=
  if g.dspInRate ≥ dspRate then g.dspSize * (g.dspInRate / dspRate)
  else g.dspSize / (dspRate / g.dspInRate)

/-- `out_size` of the WDSP channel, at 48 kHz: what an exchange yields -/
def outSize : ℕ :=
  if g.dspInRate ≥ 48000 then g.dspInBlock / (g.dspInRate / 48000)
  else g.dspInBlock * (48000 / g.dspInRate)

end Geometry

/-! ## The accumulator -/

/-- `RXFEED`: of `acc`, the samples before `accRd` have been taken. -/
structure RxFeed (β : Type*) where
  acc : List β
  accRd : ℕ
  accCap : ℕ
  inBlock : ℕ
  inBlock_pos : 0 < inBlock

namespace RxFeed

variable {β : Type*}

/-- `rx_feed_create` -/
def create (inBlock : ℕ) (h : 0 < inBlock) : RxFeed β where
  acc := []
  accRd := 0
  accCap := 4 * inBlock
  inBlock := inBlock
  inBlock_pos := h

variable (f : RxFeed β)

/-- `rx_feed_push`, when the mixer and the decimator make `out` of the block; how many samples are
dropped. -/
def push (out : List β) : RxFeed β × ℕ :=
  let acc := f.acc.drop f.accRd
  let room := f.accCap - acc.length
  ({ f with acc := acc ++ out.take room, accRd := 0 }, out.length - room)

/-- `rx_feed_take` -/
def take : Option (List β × RxFeed β) :=
  if f.acc.length - f.accRd < f.inBlock then none
  else some ((f.acc.drop f.accRd).take f.inBlock, { f with accRd := f.accRd + f.inBlock })

theorem take_eq_none (h : f.acc.length - f.accRd < f.inBlock) : f.take = none := if_pos h

theorem take_eq_some (h : ¬ f.acc.length - f.accRd < f.inBlock) :
    f.take = some ((f.acc.drop f.accRd).take f.inBlock,
      { f with accRd := f.accRd + f.inBlock }) := if_neg h

theorem take_lt {g : RxFeed β} {block : List β} (h : f.take = some (block, g)) :
    g.acc.length - g.accRd < f.acc.length - f.accRd := by
  have hpos := f.inBlock_pos
  by_cases hless : f.acc.length - f.accRd < f.inBlock
  · rw [f.take_eq_none hless] at h
    exact absurd h (by simp)
  · rw [f.take_eq_some hless, Option.some.injEq, Prod.mk.injEq] at h
    obtain ⟨-, rfl⟩ := h
    dsimp only
    omega

/-- The loop of `rx_channel_exchange`. -/
def drain (f : RxFeed β) : List (List β) × RxFeed β :=
  match _h : f.take with
  | none => ([], f)
  | some (block, g) =>
    let (blocks, e) := drain g
    (block :: blocks, e)
termination_by f.acc.length - f.accRd
decreasing_by exact f.take_lt _h

/-- What has not been taken. -/
def held : List β := f.acc.drop f.accRd

end RxFeed

/-- What has come of a receiver's samples: the feed, the blocks that the channel was given, and how
many samples were dropped. -/
structure FeedRun (β : Type*) where
  feed : RxFeed β
  blocks : List (List β)
  dropped : ℕ

/-- One call of `rx_feed_push`: the samples that go in, and what the decimator makes of them. -/
structure Push (β : Type*) where
  n : ℕ
  out : List β

namespace FeedRun

variable {β : Type*}

/-- `rx_channel_exchange` -/
def exchange (r : FeedRun β) (p : Push β) : FeedRun β :=
  let (f, dropped) := r.feed.push p.out
  let (blocks, f) := f.drain
  ⟨f, r.blocks ++ blocks, r.dropped + dropped⟩

/-- A new feed, and everything that is pushed. -/
def run (inBlock : ℕ) (h : 0 < inBlock) (ps : List (Push β)) : FeedRun β :=
  ps.foldl exchange ⟨.create inBlock h, [], 0⟩

end FeedRun

/-- The output of a decimator by `decim` stays within one sample of nominal. -/
def Nominal {β : Type*} (decim : ℕ) (ps : List (Push β)) : Prop :=
  ∀ qs, qs <+: ps →
    |(decim * (qs.map fun p => p.out.length).sum : ℤ) - (qs.map Push.n).sum| ≤ decim

/-- Nothing is lost, and the blocks are consecutive pieces of the decimator's output. -/
structure Rechunked {β : Type*} (inBlock : ℕ) (ps : List (Push β)) (r : FeedRun β) : Prop where
  dropped : r.dropped = 0
  order : r.blocks.flatten ++ r.feed.held = (ps.map Push.out).flatten
  length : ∀ block ∈ r.blocks, block.length = inBlock
  held : r.feed.held.length < inBlock

/-- A span whose every quotient is exact, and whose feed keeps all samples. -/
structure SpanSound (β : Type*) (g : Geometry) : Prop where
  rate : 48000 ∣ g.dspInRate
  window : 1 < g.decim → rxFeedMinRate ≤ g.dspInRate ∧ g.dspInRate ≤ rxFeedMaxRate
  block : g.decim * g.dspInBlock = g.bufferSize
  audio : g.outSize = g.outputSamples
  wfm : g.dspInsize g.rxWfmDspRate = g.dspInBlock
  feed : 1 < g.decim → ∃ h : 0 < g.dspInBlock, ∀ ps : List (Push β),
    (∀ p ∈ ps, p.n ≤ g.bufferSize) → Nominal g.decim ps →
      Rechunked g.dspInBlock ps (FeedRun.run g.dspInBlock h ps)

/-! ## The accumulator keeps everything -/

namespace RxFeed

variable {β : Type*} {f : RxFeed β}

/-- What a drain leaves. -/
structure Drained (f : RxFeed β) (blocks : List (List β)) (g : RxFeed β) : Prop where
  order : blocks.flatten ++ g.held = f.held
  length : ∀ block ∈ blocks, block.length = f.inBlock
  held : g.held.length < f.inBlock
  accCap : g.accCap = f.accCap
  inBlock : g.inBlock = f.inBlock

theorem drain_eq_of_none (h : f.take = none) : f.drain = ([], f) := by
  unfold drain
  split
  · rfl
  · rename_i hsome
    rw [h] at hsome
    exact absurd hsome (by simp)

theorem drain_eq_of_some {g : RxFeed β} {block : List β} (h : f.take = some (block, g)) :
    f.drain = (block :: g.drain.1, g.drain.2) := by
  rw [drain]
  split
  · rename_i hnone
    rw [h] at hnone
    exact absurd hnone (by simp)
  · rename_i block' g' hsome
    rw [h, Option.some.injEq, Prod.mk.injEq] at hsome
    obtain ⟨rfl, rfl⟩ := hsome
    rfl

theorem length_held (f : RxFeed β) : f.held.length = f.acc.length - f.accRd := List.length_drop

theorem drain_spec (f : RxFeed β) : Drained f f.drain.1 f.drain.2 := by
  by_cases hless : f.acc.length - f.accRd < f.inBlock
  · rw [drain_eq_of_none (f.take_eq_none hless)]
    refine ⟨rfl, fun block hblock => absurd hblock List.not_mem_nil, ?_, rfl, rfl⟩
    rwa [length_held]
  · have htake := f.take_eq_some hless
    have hlt := f.take_lt htake
    rw [drain_eq_of_some htake]
    have ih := drain_spec { f with accRd := f.accRd + f.inBlock }
    refine ⟨?_, ?_, ih.held, ih.accCap, ih.inBlock⟩
    · have hrest : held { f with accRd := f.accRd + f.inBlock } =
          (f.acc.drop f.accRd).drop f.inBlock := by
        unfold held
        rw [List.drop_drop]
      rw [List.flatten_cons, List.append_assoc, ih.order, hrest, List.take_append_drop]
      rfl
    · intro block hblock
      rcases List.mem_cons.mp hblock with rfl | hmem
      · rw [List.length_take, List.length_drop]
        omega
      · exact ih.length block hmem
termination_by f.acc.length - f.accRd

/-- A push that fits. -/
theorem push_spec {out : List β} (h : f.held.length + out.length ≤ f.accCap) :
    (f.push out).2 = 0 ∧ (f.push out).1.held = f.held ++ out ∧
      (f.push out).1.accCap = f.accCap ∧ (f.push out).1.inBlock = f.inBlock := by
  have hroom : out.length ≤ f.accCap - (f.acc.drop f.accRd).length := by
    change f.held.length + out.length ≤ f.accCap at h
    unfold held at h
    omega
  refine ⟨Nat.sub_eq_zero_of_le hroom, ?_, rfl, rfl⟩
  unfold held push
  dsimp only
  rw [List.take_of_length_le hroom, List.drop_zero]

end RxFeed

section Run

variable {β : Type*} {decim inBlock : ℕ} {ps : List (Push β)}

theorem Nominal.of_append {p : Push β} (h : Nominal decim (ps ++ [p])) : Nominal decim ps :=
  fun qs hqs => h qs (hqs.trans (List.prefix_append ps [p]))

/-- One push gives at most two samples more than its share. -/
theorem Nominal.length_out_le (hdecim : 0 < decim) {p : Push β} (h : Nominal decim (ps ++ [p]))
    (hn : p.n ≤ decim * inBlock) : p.out.length ≤ inBlock + 2 := by
  have hbefore := abs_le.mp (h ps (List.prefix_append ps [p]))
  have hafter := abs_le.mp (h (ps ++ [p]) (List.prefix_refl _))
  simp only [List.map_append, List.map_cons, List.map_nil, List.sum_append, List.sum_singleton,
    Nat.cast_add] at hafter
  have hn' : (p.n : ℤ) ≤ decim * inBlock := by exact_mod_cast hn
  have hscaled : (decim : ℤ) * p.out.length ≤ decim * (inBlock + 2) := by
    linarith [hbefore.1, hafter.2]
  have hpos : (0 : ℤ) < decim := by exact_mod_cast hdecim
  exact_mod_cast le_of_mul_le_mul_left hscaled hpos

/-- What a feed is like after any number of pushes. -/
structure FeedRun.Kept (inBlock : ℕ) (ps : List (Push β)) (r : FeedRun β) : Prop
    extends Rechunked inBlock ps r where
  accCap : r.feed.accCap = 4 * inBlock
  inBlock : r.feed.inBlock = inBlock

theorem FeedRun.Kept.exchange {r : FeedRun β} (hr : r.Kept inBlock ps) {p : Push β}
    (hout : p.out.length ≤ inBlock + 2) : (r.exchange p).Kept inBlock (ps ++ [p]) := by
  have hpos : 0 < inBlock := hr.inBlock ▸ r.feed.inBlock_pos
  have hfits : r.feed.held.length + p.out.length ≤ r.feed.accCap := by
    have := hr.held
    rw [hr.accCap]
    omega
  obtain ⟨hdropped, hheld, hcap, hblock⟩ := RxFeed.push_spec hfits
  have hdrained := (r.feed.push p.out).1.drain_spec
  have hsame : (r.feed.push p.out).1.inBlock = inBlock := hblock.trans hr.inBlock
  refine ⟨⟨?_, ?_, ?_, ?_⟩, ?_, ?_⟩
  · change r.dropped + (r.feed.push p.out).2 = 0
    rw [hr.dropped, hdropped]
  · change (r.blocks ++ (r.feed.push p.out).1.drain.1).flatten ++
      (r.feed.push p.out).1.drain.2.held = _
    rw [List.flatten_append, List.append_assoc, hdrained.order, hheld, ← List.append_assoc,
      hr.order, List.map_append, List.flatten_append]
    simp
  · intro block hmem
    rcases List.mem_append.mp hmem with hold | hnew
    · exact hr.length block hold
    · exact (hdrained.length block hnew).trans hsame
  · exact hsame ▸ hdrained.held
  · exact hdrained.accCap.trans (hcap.trans hr.accCap)
  · exact hdrained.inBlock.trans hsame

/-- **The feed keeps everything**, in order, however the decimator jitters within a sample. -/
theorem FeedRun.run_kept (hdecim : 0 < decim) (hpos : 0 < inBlock)
    (hn : ∀ p ∈ ps, p.n ≤ decim * inBlock) (h : Nominal decim ps) :
    (FeedRun.run inBlock hpos ps).Kept inBlock ps := by
  induction ps using List.reverseRecOn with
  | nil =>
    exact ⟨⟨rfl, rfl, fun block hmem => absurd hmem List.not_mem_nil, hpos⟩, rfl, rfl⟩
  | append_singleton ps p ih =>
    have hkept := ih (fun q hq => hn q (List.mem_append_left _ hq)) h.of_append
    have hout := h.length_out_le hdecim (hn p (List.mem_append_right _ List.mem_cons_self))
    have hrun : FeedRun.run inBlock hpos (ps ++ [p]) =
        (FeedRun.run inBlock hpos ps).exchange p := by
      unfold FeedRun.run
      rw [List.foldl_append, List.foldl_cons, List.foldl_nil]
    rw [hrun]
    exact hkept.exchange hout

end Run

/-! ## The spans -/

theorem searchDecim_succ (sampleRate block fuel d : ℕ) :
    searchDecim sampleRate block (fuel + 1) d =
      if sampleRate / d < rxFeedMinRate then 1
      else if sampleRate % d ≠ 0 ∨ block % d ≠ 0 ∨ sampleRate / d > rxFeedMaxRate ∨
          sampleRate / d % 48000 ≠ 0 then
        searchDecim sampleRate block fuel (d + 1)
      else d := rfl

/-- The search stops before its fuel does. -/
theorem searchDecim_fuel (sampleRate block : ℕ) {fuel d : ℕ} (hd : 0 < d)
    (h : sampleRate / rxFeedMinRate < d + fuel) :
    searchDecim sampleRate block (fuel + 1) d = searchDecim sampleRate block fuel d := by
  induction fuel generalizing d with
  | zero =>
    have hless : sampleRate / d < rxFeedMinRate := by
      rw [Nat.add_zero, Nat.div_lt_iff_lt_mul (by decide)] at h
      rwa [Nat.div_lt_iff_lt_mul hd, Nat.mul_comm]
    rw [searchDecim_succ, if_pos hless]
    rfl
  | succ fuel ih =>
    rw [searchDecim_succ sampleRate block (fuel + 1) d, searchDecim_succ sampleRate block fuel d,
      ih (d := d + 1) (by omega) (by omega)]

/-- The spans that are admitted, in units of 48 kHz. -/
def exactRatios : List ℕ := [1, 2, 4, 5, 8, 10, 16, 20, 32, 40, 50, 64, 80, 100, 128, 160, 200]

set_option maxRecDepth 4000 in
theorem mem_exactRatios : ∀ ratio < 201, rxSpanIsExact (48000 * ratio) = true →
    ratio ∈ exactRatios := by decide

theorem exactRatios_spec {sampleRate : ℕ} (h : rxSpanIsExact sampleRate = true) :
    ∃ ratio ∈ exactRatios, sampleRate = 48000 * ratio := by
  have hratio : sampleRate = 48000 * (sampleRate / 48000) ∧ sampleRate / 48000 < 201 := by
    unfold rxSpanIsExact at h
    split at h
    · exact absurd h (by decide)
    · rename_i hmultiple
      push Not at hmultiple
      simp only [decide_eq_true_eq] at h
      have hblock : rxIqBlock sampleRate ≤ 25600 := by
        unfold rxIqBlock
        split <;> decide
      have hpos : 0 < sampleRate / 48000 := by omega
      have hmin := (Nat.le_div_iff_mul_le hpos).mp h.2
      unfold rxMinAudioBlock at hmin
      omega
  refine ⟨sampleRate / 48000, mem_exactRatios _ hratio.2 ?_, hratio.1⟩
  rw [← hratio.1]
  exact h

/-- What is left once the feed is known to keep everything. -/
structure Geometry.Exact (g : Geometry) : Prop where
  decim : 0 < g.decim
  inBlock : 0 < g.dspInBlock
  rate : g.dspInRate % 48000 = 0
  block : g.decim * g.dspInBlock = g.bufferSize
  audio : g.outSize = g.outputSamples
  wfm : g.dspInsize g.rxWfmDspRate = g.dspInBlock

instance (g : Geometry) : Decidable g.Exact :=
  decidable_of_iff (0 < g.decim ∧ 0 < g.dspInBlock ∧ g.dspInRate % 48000 = 0 ∧
      g.decim * g.dspInBlock = g.bufferSize ∧ g.outSize = g.outputSamples ∧
      g.dspInsize g.rxWfmDspRate = g.dspInBlock)
    ⟨fun ⟨h₁, h₂, h₃, h₄, h₅, h₆⟩ => ⟨h₁, h₂, h₃, h₄, h₅, h₆⟩,
      fun ⟨h₁, h₂, h₃, h₄, h₅, h₆⟩ => ⟨h₁, h₂, h₃, h₄, h₅, h₆⟩⟩

theorem Geometry.Exact.window_decides {β : Type*} {g : Geometry} (h : g.Exact) :
    SpanSound β g ↔ (1 < g.decim → rxFeedMinRate ≤ g.dspInRate ∧ g.dspInRate ≤ rxFeedMaxRate) := by
  refine ⟨fun hsound => hsound.window, fun hwindow => ?_⟩
  refine ⟨Nat.dvd_of_mod_eq_zero h.rate, hwindow, h.block, h.audio, h.wfm, fun _ => ?_⟩
  refine ⟨h.inBlock, fun ps hn hnominal => ?_⟩
  rw [← h.block] at hn
  exact (FeedRun.run_kept h.decim h.inBlock hn hnominal).toRechunked

/-- The geometry of a span. -/
def spanGeometry (feedOff : Bool) (sampleRate : ℕ) : Geometry :=
  receiverBuildFeed feedOff sampleRate (rxIqBlock sampleRate)

theorem exact_spanGeometry : ∀ ratio ∈ exactRatios, ∀ feedOff,
    (spanGeometry feedOff (48000 * ratio)).Exact := by decide

theorem window_spanGeometry : ∀ ratio ∈ exactRatios, ∀ feedOff,
    (1 < (spanGeometry feedOff (48000 * ratio)).decim →
      rxFeedMinRate ≤ (spanGeometry feedOff (48000 * ratio)).dspInRate ∧
        (spanGeometry feedOff (48000 * ratio)).dspInRate ≤ rxFeedMaxRate) ↔
      (feedOff = true ∨ 48000 * ratio ≠ 2400000) := by decide

/-- **The span and its feed.** For every span that is admitted, all of it is exact and no sample is
lost, except for the one whose channel would run at 96 kHz. -/
theorem spanSound_iff (β : Type*) (feedOff : Bool) (sampleRate : ℕ)
    (h : rxSpanIsExact sampleRate = true) :
    SpanSound β (spanGeometry feedOff sampleRate) ↔ feedOff = true ∨ sampleRate ≠ 2400000 := by
  obtain ⟨ratio, hmem, rfl⟩ := exactRatios_spec h
  rw [(exact_spanGeometry ratio hmem feedOff).window_decides]
  exact window_spanGeometry ratio hmem feedOff

theorem spanSound_iff_widest : SpanSound ℤ (spanGeometry false 9600000) :=
  (spanSound_iff ℤ false 9600000 (by decide)).mpr (.inr (by decide))

/-- A span of 2400000 is admitted, and decimated to 96 kHz. -/
theorem not_spanSound : rxSpanIsExact 2400000 = true ∧
    1 < (spanGeometry false 2400000).decim ∧ (spanGeometry false 2400000).dspInRate = 96000 ∧
    ¬ SpanSound ℤ (spanGeometry false 2400000) :=
  ⟨by decide, by decide, by decide, fun h => absurd (h.window (by decide)) (by decide)⟩

end MacHPSDR.Receiver
