import MacHPSDR.Foundations.Recent
import MacHPSDR.Foundations.Transition
import Mathlib

/-!
# The windows of the FT8 decoder

`ft8_decoder_add_audio` takes every fourth frame of the audio into a ring and, at the end of a
block, hands the last slot length of samples to the worker if the last window was handed a hop ago.
As the blocks end where they will, two windows are up to a hop and a quarter of a block apart. A
transmission that begins between two windows lies in the earlier one from there on, and if it begins
no more than the band into the window it is in it as a whole (`window_coverage`).
-/

namespace MacHPSDR.Ft8.Decoder

/-! ## `ft8_decoder_add_audio` -/

/-- `FT8_RATE` -/
def ft8Rate : ℕ := 12000

/-- `FT8_DECIM` -/
def ft8Decim : ℕ := 4

/-- `RING_CAP` -/
def ringCap : ℕ := ft8Rate * (15 + 1)

/-- `slot_samples` -/
def slotSamples (proto : Bool) : ℕ := if proto then ft8Rate * 15 / 2 else ft8Rate * 15

/-- `decode_hop` -/
def decodeHop (proto : Bool) : ℕ := if proto then ft8Rate * 3 / 4 else ft8Rate * 2

/-- A window that has been handed over: `ring_w` at that time, and the samples. -/
structure Window (α : Type*) where
  written : ℕ
  samples : List α

/-- The variables of the decoder. `heard` are the frames so far, and `handed` the windows. -/
structure State (α : Type*) where
  decCount : ℕ
  ring : ℕ → α
  ringW : ℕ
  lastDecodeW : ℕ
  workReady : Bool
  workBuf : List α
  heard : List (α × α)
  handed : List (Window α)

section

variable {α : Type*} (proto : Bool) (s : State α)

/-- One frame. -/
def addFrame (x : α × α) : State α :=
  if ft8Decim ≤ s.decCount + 1 then
    { s with
      decCount := 0
      ring := Function.update s.ring (s.ringW % ringCap) x.1
      ringW := s.ringW + 1
      heard := s.heard ++ [x] }
  else { s with decCount := s.decCount + 1, heard := s.heard ++ [x] }

/-- A window is due. -/
def Due : Prop := slotSamples proto ≤ s.ringW ∧ decodeHop proto ≤ s.ringW - s.lastDecodeW

instance : Decidable (Due proto s) := inferInstanceAs (Decidable (_ ∧ _))

/-- The samples of the window that ends now. -/
def window : List α := (List.range (slotSamples proto)).map fun i =>
  s.ring ((s.ringW - slotSamples proto + i) % ringCap)

/-- The hand-over, which does nothing while the worker is busy. -/
def handOver : State α :=
  if s.workReady then s
  else { s with
    workBuf := window proto s
    workReady := true
    lastDecodeW := s.ringW
    handed := s.handed ++ [⟨s.ringW, window proto s⟩] }

/-- `ft8_decoder_add_audio` -/
def addAudio (samples : List (α × α)) : State α :=
  let s := samples.foldl addFrame s
  if Due proto s then handOver proto s else s

/-- What `ft8_decoder_set_enabled` starts with, on any ring. -/
def fresh (ring : ℕ → α) : State α := ⟨0, ring, 0, 0, false, [], [], []⟩

end

inductive Label (α : Type*)
  | audio (samples : List (α × α))
  | decoded

/-- The decoder with its worker. -/
def system {α : Type*} (proto : Bool) (ring : ℕ → α) : System (State α) (Label α) where
  init := fresh ring
  step s
    | .audio samples => some (addAudio proto s samples)
    | .decoded => if s.workReady then some { s with workReady := false } else none

/-! ## What is asked of the windows -/

/-- The samples of a transmission: 79 symbols of 160 ms, or 105 of 48 ms. -/
def waveform (proto : Bool) : ℕ := if proto then 105 * (ft8Rate * 48 / 1000)
  else 79 * (ft8Rate * 160 / 1000)

/-- How far into a window a transmission may begin: 0.89 s, or 2.36 s. -/
def usableBand (proto : Bool) : ℕ := if proto then ft8Rate * 89 / 100 else ft8Rate * 236 / 100

section

variable {α : Type*}

/-- Every fourth frame, its left channel. -/
def decimated : List (α × α) → List α
  | _ :: _ :: _ :: x :: rest => x.1 :: decimated rest
  | _ => []

/-- The first sample of a window. -/
def Window.start (proto : Bool) (w : Window α) : ℕ := w.written - slotSamples proto

/-- The last slot length of the samples that there were when the window was handed over. -/
def Window.Whole (proto : Bool) (heard : List (α × α)) (w : Window α) : Prop :=
  slotSamples proto ≤ w.written ∧ w.written ≤ (decimated heard).length ∧
    w.samples = ((decimated heard).take w.written).drop (w.start proto)

/-- The transmission from sample `t` on lies in the window and begins early enough. -/
structure Window.Holds (proto : Bool) (t : ℕ) (w : Window α) : Prop where
  start_le : w.start proto ≤ t
  le_band : t ≤ w.start proto + usableBand proto
  whole : t + waveform proto ≤ w.start proto + slotSamples proto

/-- A block has `B` frames at most, and the worker is through when a window is due. -/
def Meets (proto : Bool) (B : ℕ) (s : State α) : Label α → Prop
  | .audio samples => samples.length ≤ B ∧
      (Due proto (samples.foldl addFrame s) → s.workReady = false)
  | .decoded => True

end

/-! ## Decimation -/

section

variable {α : Type*}

theorem length_decimated (xs : List (α × α)) : (decimated xs).length = xs.length / 4 := by
  induction xs using decimated.induct with
  | case1 a b c x rest ih =>
    rw [decimated, List.length_cons, ih]
    simp only [List.length_cons]
    omega
  | case2 xs h =>
    match xs, h with
    | [], _ | [_], _ | [_, _], _ | [_, _, _], _ => simp [decimated]
    | a :: b :: c :: x :: rest, h => exact absurd rfl (h a b c x rest)

theorem decimated_append_singleton (xs : List (α × α)) (x : α × α) : decimated (xs ++ [x]) =
    if xs.length % 4 = 3 then decimated xs ++ [x.1] else decimated xs := by
  induction xs using decimated.induct with
  | case1 a b c y rest ih =>
    have hlength : (a :: b :: c :: y :: rest).length % 4 = rest.length % 4 := by
      simp only [List.length_cons]
      omega
    simp only [List.cons_append, decimated, ih, hlength]
    split <;> rfl
  | case2 xs h =>
    match xs, h with
    | [], _ | [_], _ | [_, _], _ | [_, _, _], _ => rfl
    | a :: b :: c :: y :: rest, h => exact absurd rfl (h a b c y rest)

end

/-! ## The invariant -/

section

variable {α : Type*} {proto : Bool} {s : State α}

/-- The samples that have been written are those of the frames so far, and the ring has the last of
them. -/
structure Sampled (s : State α) : Prop where
  decCount : s.decCount = s.heard.length % 4
  ringW : s.ringW = (decimated s.heard).length
  ring : Recent ringCap s.ring (decimated s.heard)

theorem Sampled.addFrame (h : Sampled s) (x : α × α) : Sampled (addFrame s x) := by
  obtain ⟨hcount, hringW, hring⟩ := h
  unfold Decoder.addFrame
  have hlt := Nat.mod_lt s.heard.length (show 0 < 4 by decide)
  have hsucc : (s.heard ++ [x]).length = s.heard.length + 1 := by simp
  have hdecim : ft8Decim = 4 := rfl
  split
  · have hthird : s.heard.length % 4 = 3 := by omega
    have happend : decimated (s.heard ++ [x]) = decimated s.heard ++ [x.1] := by
      rw [decimated_append_singleton, if_pos hthird]
    constructor
    · dsimp only
      omega
    · dsimp only
      rw [happend, hringW, List.length_append, List.length_singleton]
    · dsimp only
      rw [happend, hringW]
      exact hring.push x.1
  · have hthird : s.heard.length % 4 ≠ 3 := by omega
    have happend : decimated (s.heard ++ [x]) = decimated s.heard := by
      rw [decimated_append_singleton, if_neg hthird]
    refine ⟨?_, ?_, ?_⟩
    · dsimp only
      omega
    · exact hringW.trans (congrArg List.length happend.symm)
    · exact happend.symm ▸ hring

@[simp] theorem addFrame_heard (s : State α) (x : α × α) :
    (addFrame s x).heard = s.heard ++ [x] := by
  unfold addFrame
  split <;> rfl

/-- A frame concerns the ring alone. -/
theorem addFrame_rest (s : State α) (x : α × α) : (addFrame s x).lastDecodeW = s.lastDecodeW ∧
    (addFrame s x).workReady = s.workReady ∧ (addFrame s x).workBuf = s.workBuf ∧
      (addFrame s x).handed = s.handed := by
  unfold addFrame
  split <;> exact ⟨rfl, rfl, rfl, rfl⟩

/-- The frames of a block, before the window is looked at. -/
structure Filled (s t : State α) (samples : List (α × α)) : Prop where
  sampled : Sampled t
  heard : t.heard = s.heard ++ samples
  lastDecodeW : t.lastDecodeW = s.lastDecodeW
  workReady : t.workReady = s.workReady
  workBuf : t.workBuf = s.workBuf
  handed : t.handed = s.handed

theorem Sampled.filled (h : Sampled s) (samples : List (α × α)) :
    Filled s (samples.foldl Decoder.addFrame s) samples := by
  induction samples generalizing s with
  | nil => exact ⟨h, (List.append_nil _).symm, rfl, rfl, rfl, rfl⟩
  | cons x xs ih =>
    obtain ⟨hsampled, hheard, hlast, hready, hbuf, hhanded⟩ := ih (h.addFrame x)
    obtain ⟨hlast', hready', hbuf', hhanded'⟩ := addFrame_rest s x
    refine ⟨hsampled, ?_, hlast.trans hlast', hready.trans hready', hbuf.trans hbuf',
      hhanded.trans hhanded'⟩
    rw [List.foldl_cons, hheard, addFrame_heard, List.append_assoc, List.singleton_append]

/-- A block gives a quarter of its frames as samples, or one more. -/
theorem Filled.ringW_le {t : State α} {samples : List (α × α)} (h : Filled s t samples)
    (hs : Sampled s) {B : ℕ} (hB : samples.length ≤ B) :
    s.ringW ≤ t.ringW ∧ t.ringW ≤ s.ringW + B / 4 + 1 := by
  rw [h.sampled.ringW, hs.ringW, length_decimated, length_decimated, h.heard, List.length_append]
  omega

/-- **The window is the end of the samples.** -/
theorem Sampled.window (h : Sampled s) (hfull : slotSamples proto ≤ s.ringW) :
    window proto s = (decimated s.heard).drop (s.ringW - slotSamples proto) := by
  have hcap : slotSamples proto ≤ ringCap := by cases proto <;> decide
  unfold Decoder.window
  rw [h.ringW] at hfull ⊢
  exact h.ring.read hcap hfull

theorem decimated_prefix (xs ys : List (α × α)) : decimated xs <+: decimated (xs ++ ys) := by
  induction ys generalizing xs with
  | nil => rw [List.append_nil]
  | cons y ys ih =>
    have hnext := ih (xs ++ [y])
    rw [List.append_assoc, List.singleton_append] at hnext
    refine List.IsPrefix.trans ?_ hnext
    rw [decimated_append_singleton]
    split
    · exact List.prefix_append ..
    · exact List.prefix_rfl

/-- What comes later does not concern a window. -/
theorem Window.Whole.append {heard : List (α × α)} {w : Window α} (h : w.Whole proto heard)
    (later : List (α × α)) : w.Whole proto (heard ++ later) := by
  obtain ⟨hfull, hwritten, hsamples⟩ := h
  obtain ⟨rest, hrest⟩ := decimated_prefix heard later
  refine ⟨hfull, ?_, ?_⟩
  · rw [← hrest, List.length_append]
    omega
  · rw [hsamples, ← hrest, List.take_append_of_le_length hwritten]

/-- What is held between two blocks of at most `B` frames. -/
structure Inv (proto : Bool) (B : ℕ) (s : State α) : Prop where
  sampled : Sampled s
  idle : ¬ Due proto s
  whole : ∀ w ∈ s.handed, w.Whole proto s.heard
  last : s.handed = [] ∧ s.lastDecodeW = 0 ∨ ∃ w ∈ s.handed, w.written = s.lastDecodeW
  buffer : s.workReady = true → ∃ w, s.handed.getLast? = some w ∧ s.workBuf = w.samples
  covered : ∀ e, slotSamples proto + B / 4 ≤ e → e ≤ s.ringW →
    ∃ w ∈ s.handed, w.written ≤ e ∧ e ≤ w.written + (decodeHop proto + B / 4)

theorem inv_fresh (proto : Bool) (B : ℕ) (ring : ℕ → α) : Inv proto B (fresh ring) where
  sampled := ⟨rfl, rfl, Recent.nil ringCap ring⟩
  idle h := by
    have hpos : 0 < slotSamples proto := by cases proto <;> decide
    exact absurd h.1 (by dsimp only [fresh]; omega)
  whole := nofun
  last := .inl ⟨rfl, rfl⟩
  buffer := nofun
  covered e hlow hhigh := by
    have hpos : 0 < slotSamples proto := by cases proto <;> decide
    exact absurd (hlow.trans hhigh) (by dsimp only [fresh]; omega)

/-- Up to a sample that no window ends at, what is written has a window that ends no earlier than a
hop before. -/
theorem Inv.recent {B : ℕ} (h : Inv proto B s) (hfull : slotSamples proto ≤ s.ringW) :
    ∃ w ∈ s.handed, w.written = s.lastDecodeW ∧ s.ringW < w.written + decodeHop proto := by
  have hidle := h.idle
  unfold Due at hidle
  have hhop : decodeHop proto < slotSamples proto := by cases proto <;> decide
  rcases h.last with ⟨-, hzero⟩ | ⟨w, hw, hlast⟩
  · rw [hzero] at hidle
    omega
  · exact ⟨w, hw, hlast, by omega⟩

/-- A block after which no window is due. -/
theorem Inv.fill {B : ℕ} (h : Inv proto B s) {samples : List (α × α)} (hB : samples.length ≤ B)
    {t : State α} (ht : Filled s t samples) (hidle : ¬ Due proto t) : Inv proto B t := by
  obtain ⟨hle, hle'⟩ := ht.ringW_le h.sampled hB
  refine ⟨ht.sampled, hidle, ?_, ?_, ?_, fun e hlow hhigh => ?_⟩
  · rw [ht.handed, ht.heard]
    exact fun w hw => (h.whole w hw).append samples
  · rw [ht.handed, ht.lastDecodeW]
    exact h.last
  · rw [ht.handed, ht.workReady, ht.workBuf]
    exact h.buffer
  · rw [ht.handed]
    by_cases hold : e ≤ s.ringW
    · exact h.covered e hlow hold
    · have hhop : decodeHop proto < slotSamples proto := by cases proto <;> decide
      have hnot := hidle
      unfold Due at hnot
      rw [ht.lastDecodeW] at hnot
      rcases h.last with ⟨-, hzero⟩ | ⟨w, hw, hlast⟩
      · omega
      · exact ⟨w, hw, by
          have hbound := (h.whole w hw).2.1
          rw [← h.sampled.ringW] at hbound
          omega, by omega⟩

/-- A block after which a window is handed over. -/
theorem Inv.hand {B : ℕ} (h : Inv proto B s) {samples : List (α × α)} (hB : samples.length ≤ B)
    {t : State α} (ht : Filled s t samples) (hdue : Due proto t) (hfree : t.workReady = false) :
    Inv proto B (handOver proto t) := by
  obtain ⟨hle, hle'⟩ := ht.ringW_le h.sampled hB
  have hfull := hdue.1
  unfold handOver
  rw [if_neg (by rw [hfree]; exact Bool.false_ne_true)]
  refine ⟨⟨ht.sampled.decCount, ht.sampled.ringW, ht.sampled.ring⟩, fun hagain => ?_,
    fun w hw => ?_, .inr ⟨_, List.mem_concat_self, rfl⟩,
    fun _ => ⟨_, List.getLast?_concat, rfl⟩, fun e hlow hhigh => ?_⟩
  · have hhop : 0 < decodeHop proto := by cases proto <;> decide
    have hgap := hagain.2
    dsimp only at hgap
    omega
  · rcases List.mem_append.1 hw with hw | hw
    · rw [ht.handed] at hw
      dsimp only
      rw [ht.heard]
      exact (h.whole w hw).append samples
    · obtain rfl := List.mem_singleton.1 hw
      refine ⟨hfull, ht.sampled.ringW.le, ?_⟩
      dsimp only [Window.start]
      rw [ht.sampled.window hfull, ht.sampled.ringW, List.take_length]
  · dsimp only at hhigh ⊢
    have hold {w : Window α} (hw : w ∈ s.handed) :
        w ∈ t.handed ++ [⟨t.ringW, window proto t⟩] := by
      rw [ht.handed]
      exact List.mem_append_left _ hw
    by_cases hnew : e = t.ringW
    · exact ⟨_, List.mem_concat_self, by dsimp only; omega, by dsimp only; omega⟩
    by_cases hbefore : e ≤ s.ringW
    · obtain ⟨w, hw, hcover⟩ := h.covered e hlow hbefore
      exact ⟨w, hold hw, hcover⟩
    · obtain ⟨w, hw, -, hrecent⟩ := h.recent (by omega)
      have hbound := (h.whole w hw).2.1
      rw [← h.sampled.ringW] at hbound
      exact ⟨w, hold hw, by omega, by omega⟩

theorem Inv.step {B : ℕ} {ring : ℕ → α} {a : Label α} {t : State α} (h : Inv proto B s)
    (hmeets : Meets proto B s a) (hstep : (system proto ring).step s a = some t) :
    Inv proto B t := by
  cases a with
  | audio samples =>
    obtain rfl := Option.some.inj hstep
    obtain ⟨hB, hfree⟩ := hmeets
    have hfilled := h.sampled.filled samples
    unfold addAudio
    dsimp only
    split
    · rename_i hdue
      exact h.hand hB hfilled hdue (hfilled.workReady.trans (hfree hdue))
    · rename_i hidle
      exact h.fill hB hfilled hidle
  | decoded =>
    obtain ⟨-, hstep⟩ := Option.ite_none_right_eq_some.1 hstep
    obtain rfl := Option.some.inj hstep
    exact ⟨⟨h.sampled.decCount, h.sampled.ringW, h.sampled.ring⟩, h.idle, h.whole, h.last, nofun,
      h.covered⟩

/-- **The windows cover the audio.** Where the band is no smaller than the hop and a quarter of a
block, and the worker keeps up, each window has the last slot length of the samples, which stays in
the worker's buffer until it is through, and every transmission that begins after the first slot
length lies in a window, and begins in its band, when its slot has been written. -/
theorem window_coverage (proto : Bool) (ring : ℕ → α) {B : ℕ}
    (hband : decodeHop proto + B / 4 ≤ usableBand proto) (as : List (Label α)) (s : State α)
    (hmeets : (system proto ring).Along (Meets proto B) (system proto ring).init as)
    (hrun : (system proto ring).exec (system proto ring).init as = some s) :
    (∀ t, slotSamples proto ≤ t → t + slotSamples proto ≤ s.ringW →
      ∃ w ∈ s.handed, w.Holds proto t) ∧
      s.ringW = (decimated s.heard).length ∧ (∀ w ∈ s.handed, w.Whole proto s.heard) ∧
        (s.workReady = true → ∃ w, s.handed.getLast? = some w ∧ s.workBuf = w.samples) := by
  have hinv : Inv proto B s := (system proto ring).exec_induction_along
    (fun _ _ _ hinv hmeets hstep => hinv.step hmeets hstep) as _ s (inv_fresh proto B ring)
    hmeets hrun
  refine ⟨fun t hfirst hwritten => ?_, hinv.sampled.ringW, hinv.whole, hinv.buffer⟩
  have hfits : usableBand proto + waveform proto ≤ slotSamples proto := by
    cases proto <;> decide
  obtain ⟨w, hw, hle, hgap⟩ := hinv.covered (t + slotSamples proto) (by omega) hwritten
  have hfull := (hinv.whole w hw).1
  refine ⟨w, hw, ?_, ?_, ?_⟩ <;> unfold Window.start <;> omega

theorem handOver_heard (s : State α) : (handOver proto s).heard = s.heard := by
  unfold handOver
  split <;> rfl

/-- With a worker that is through at once any blocks of at most `B` frames make a run. -/
theorem exists_run {B : ℕ} (ring : ℕ → α) : ∀ (blocks : List (List (α × α))) (s : State α),
    Inv proto B s → s.workReady = false → (∀ b ∈ blocks, b.length ≤ B) →
      ∃ as t, (system proto ring).Along (Meets proto B) s as ∧
        (system proto ring).exec s as = some t ∧ t.heard = s.heard ++ blocks.flatten
  | [], s, _, _, _ => ⟨[], s, trivial, rfl, (List.append_nil _).symm⟩
  | b :: bs, s, h, hfree, hB => by
    have hmeets : Meets proto B s (.audio b) := ⟨hB b (List.mem_cons_self ..), fun _ => hfree⟩
    have hstep : (system proto ring).step s (.audio b) = some (addAudio proto s b) := rfl
    have hinv := h.step hmeets hstep
    have hheard : (addAudio proto s b).heard = s.heard ++ b := by
      unfold addAudio
      dsimp only
      split
      · rw [handOver_heard, (h.sampled.filled b).heard]
      · exact (h.sampled.filled b).heard
    have hbs : ∀ c ∈ bs, c.length ≤ B := fun c hc => hB c (List.mem_cons_of_mem b hc)
    cases hready : (addAudio proto s b).workReady with
    | false =>
      obtain ⟨as, t, halong, hexec, ht⟩ := exists_run ring bs _ hinv hready hbs
      refine ⟨.audio b :: as, t, ((system proto ring).along_cons hstep).2 ⟨hmeets, halong⟩,
        (System.exec_cons _).2 ⟨_, hstep, hexec⟩, ?_⟩
      rw [ht, hheard, List.flatten_cons, List.append_assoc]
    | true =>
      have hdone : (system proto ring).step (addAudio proto s b) .decoded =
          some { addAudio proto s b with workReady := false } := if_pos hready
      have hthrough : Meets proto B (addAudio proto s b) .decoded := trivial
      obtain ⟨as, t, halong, hexec, ht⟩ :=
        exists_run ring bs _ (hinv.step hthrough hdone) rfl hbs
      refine ⟨.audio b :: .decoded :: as, t, ((system proto ring).along_cons hstep).2
        ⟨hmeets, ((system proto ring).along_cons hdone).2 ⟨hthrough, halong⟩⟩,
        (System.exec_cons _).2 ⟨_, hstep, (System.exec_cons _).2 ⟨_, hdone, hexec⟩⟩, ?_⟩
      rw [ht, hheard, List.flatten_cons, List.append_assoc]

/-- Fifteen seconds of FT4 in blocks of an eighth of a second, and a transmission that begins with
the second slot. -/
theorem window_coverage_secondSlot : ∃ (as : List (Label ℕ)) (s : State ℕ),
    (system true fun _ => 0).exec (fresh fun _ => 0) as = some s ∧ s.ringW = 180000 ∧
      ∃ w ∈ s.handed, w.Holds true 90000 := by
  obtain ⟨as, s, halong, hexec, hheard⟩ := exists_run (fun _ => 0)
    (List.replicate 120 (List.replicate 6000 (0, 0))) (fresh fun _ => 0)
    (inv_fresh true 6000 fun _ => 0) rfl fun b hb => by
      rw [List.eq_of_mem_replicate hb, List.length_replicate]
  obtain ⟨hcover, hringW, -⟩ := window_coverage true (fun _ => 0) (by decide) as s halong hexec
  have hwritten : s.ringW = 180000 := by
    rw [hringW, length_decimated, hheard, List.length_append, List.length_flatten,
      List.map_replicate, List.sum_replicate_nat, List.length_replicate]
    rfl
  exact ⟨as, s, hexec, hwritten, hcover 90000 (by decide) (by rw [hwritten]; decide)⟩

end

end MacHPSDR.Ft8.Decoder
