import MacHPSDR.Foundations.Transition
import MacHPSDR.Hl2.Divider
import Mathlib

/-!
# The clock of a transverter

`frequency_changed` tells the Hermes-Lite 2 with every change whether a converter is in use, and
`HL2clock2Status` programs the second clock of the radio when that changes. It goes by one flag: a
local oscillator that changes while the flag is set is not programmed, the flag is set as well when
`HL2cl2Enable` has refused the frequency, and a queue without room for the ten writes takes some of
them. In a run without these three the clock is what the last call asked for (`clock_right`).

The writes go into the queue one by one, while the protocol thread takes words from it and other
parts of the program put theirs into it.
-/

namespace MacHPSDR.Hl2

/-- The writes of `HL2cl2Disable`. -/
def cl2Disable : List ℕ := [versa5Word 0x31 0x80, versa5Word 0x63 0x00]

/-- The parts of `HERMESLITE2` that concern the clock. `pending` are the writes that the call has
yet to put into the queue, `queued` those that the queue has taken, and `last` are the arguments of
the last call. -/
structure Clock where
  cl2Enabled : Bool
  clock2Freq : ℤ
  oneShotQueue : RingBuffer
  pending : List ℕ
  queued : List ℕ
  last : Option (Bool × ℤ)

inductive Label
  | call (xvtrOn : Bool) (clockFreq : ℤ)
  | write
  | get
  | put (w : ℕ)
  deriving DecidableEq

namespace Clock

/-- `HL2clock2Status` -/
def clock2Status (integerMode : Bool) (s : Clock) (xvtrOn : Bool) (clockFreq : ℤ) : Clock :=
  if xvtrOn ∧ s.cl2Enabled = false then
    { s with
      clock2Freq := clockFreq
      pending := cl2Enable integerMode clockFreq
      cl2Enabled := true
      last := some (xvtrOn, clockFreq) }
  else if xvtrOn = false ∧ s.cl2Enabled then
    { s with
      pending := cl2Disable
      cl2Enabled := false
      last := some (xvtrOn, clockFreq) }
  else { s with last := some (xvtrOn, clockFreq) }

/-- The next write of a call, which the queue takes if it has room. -/
def writeNext (s : Clock) : Option Clock :=
  match s.pending with
  | [] => none
  | w :: ws =>
    let r := s.oneShotQueue.put w
    some { s with
      oneShotQueue := r.2
      pending := ws
      queued := if r.1 then s.queued ++ [w] else s.queued }

/-- A clock as `create_hl2` leaves it, with any queue. -/
def start (q : RingBuffer) : Clock := ⟨false, 1, q, [], [], none⟩

end Clock

open Clock

/-- The clock in use. A call begins when the one before is through. -/
def system (integerMode : Bool) (q : RingBuffer) : System Clock Label where
  init := start q
  step s
    | .call xvtrOn clockFreq =>
      if s.pending = [] then some (s.clock2Status integerMode xvtrOn clockFreq) else none
    | .write => s.writeNext
    | .get => s.oneShotQueue.get.map fun r => { s with oneShotQueue := r.2 }
    | .put w => some { s with oneShotQueue := (s.oneShotQueue.put w).2 }

/-! ## What is asked of the clock -/

/-- The output is switched on. -/
def OutputOn (words : List ℕ) : Prop := written words 0x63 = 1

instance (words : List ℕ) : Decidable (OutputOn words) := inferInstanceAs (Decidable (_ = _))

/-- Nothing but whole programmings and whole disables. -/
def Whole (integerMode : Bool) (words : List ℕ) : Prop :=
  ∃ blocks : List (List ℕ), words = blocks.flatten ∧ ∀ b ∈ blocks, b = cl2Disable ∨
    ∃ freq, Accepts integerMode freq ∧ b = programming (dividerWord integerMode freq)

/-- What the calls have asked for is what the queue has got. -/
structure Right (integerMode : Bool) (s : Clock) : Prop where
  on : ∀ freq, s.last = some (true, freq) → Accepts integerMode freq →
    programming (dividerWord integerMode freq) <:+ s.queued ∧ OutputOn s.queued
  off : ∀ freq, s.last = some (false, freq) → ¬ OutputOn s.queued
  recorded : s.cl2Enabled = true → Accepts integerMode s.clock2Freq
  whole : Whole integerMode s.queued

/-- The step asks for nothing that the flag keeps from being done, and the queue has room. -/
def Meets (integerMode : Bool) (s : Clock) : Label → Prop
  | .call true freq =>
    if s.cl2Enabled then Accepts integerMode freq →
      Alike (dividerWord integerMode freq) (dividerWord integerMode s.clock2Freq)
    else Accepts integerMode freq
  | .write => ¬ s.oneShotQueue.Full
  | _ => True

/-! ## The last writes -/

theorem registerOf_append (front words : List ℕ) (command : ℕ) :
    registerOf (front ++ words) command =
      (registerOf words command).or (registerOf front command) := by
  unfold registerOf
  rw [List.reverse_append, List.find?_append]
  cases List.find? _ words.reverse <;> rfl

theorem outputOn_append_programming (front : List ℕ) (div : ℕ) :
    OutputOn (front ++ programming div) := by
  have hlast : registerOf (programming div) 0x63 = some 1 := by
    have hinit : programming div = (programming div).take 9 ++ [versa5Word 0x63 0x01] := rfl
    have hown : registerOf [versa5Word 0x63 0x01] 0x63 = some 1 := by decide
    rw [hinit, registerOf_append, hown]
    rfl
  unfold OutputOn written
  rw [registerOf_append, hlast]
  rfl

theorem not_outputOn_append_cl2Disable (front : List ℕ) : ¬ OutputOn (front ++ cl2Disable) := by
  have hlast : registerOf cl2Disable 0x63 = some 0 := by decide
  unfold OutputOn written
  rw [registerOf_append, hlast]
  exact Nat.zero_ne_one

theorem Whole.append {integerMode : Bool} {words b : List ℕ} (h : Whole integerMode words)
    (hb : b = cl2Disable ∨
      ∃ freq, Accepts integerMode freq ∧ b = programming (dividerWord integerMode freq)) :
    Whole integerMode (words ++ b) := by
  obtain ⟨blocks, rfl, hblocks⟩ := h
  refine ⟨blocks ++ [b], by simp, fun c hc => ?_⟩
  rcases List.mem_append.1 hc with hc | hc
  · exact hblocks c hc
  · obtain rfl := List.mem_singleton.1 hc
    exact hb

/-! ## The invariant -/

/-- The writes of the calls so far, of which the last ones may not be in the queue yet. -/
def Clock.asked (s : Clock) : List ℕ := s.queued ++ s.pending

structure Inv (integerMode : Bool) (s : Clock) : Prop where
  whole : Whole integerMode s.asked
  enabled : s.cl2Enabled = true → Accepts integerMode s.clock2Freq ∧
    programming (dividerWord integerMode s.clock2Freq) <:+ s.asked
  disabled : s.cl2Enabled = false → ¬ OutputOn s.asked
  on : ∀ freq, s.last = some (true, freq) → Accepts integerMode freq → s.cl2Enabled = true ∧
    Alike (dividerWord integerMode freq) (dividerWord integerMode s.clock2Freq)
  off : ∀ freq, s.last = some (false, freq) → s.cl2Enabled = false

variable {integerMode : Bool} {s t : Clock}

theorem inv_start (q : RingBuffer) : Inv integerMode (start q) where
  whole := ⟨[], rfl, nofun⟩
  enabled := nofun
  disabled _ := show ¬ OutputOn [] by decide
  on := nofun
  off := nofun

/-- A call, where the one before is through. -/
theorem Inv.call (h : Inv integerMode s) (hpending : s.pending = []) {xvtrOn : Bool} {freq : ℤ}
    (hmeets : Meets integerMode s (.call xvtrOn freq)) :
    Inv integerMode (s.clock2Status integerMode xvtrOn freq) := by
  have hasked : s.asked = s.queued := by rw [asked, hpending, List.append_nil]
  obtain ⟨hwhole, henabled, hdisabled, hon, hoff⟩ := h
  rw [hasked] at hwhole henabled hdisabled
  unfold clock2Status
  cases xvtrOn with
  | true =>
    cases hflag : s.cl2Enabled with
    | false =>
      have haccepts : Accepts integerMode freq := by
        simpa only [Meets, hflag, Bool.false_eq_true, if_false] using hmeets
      rw [if_pos ⟨rfl, rfl⟩, cl2Enable_of_accepts haccepts]
      exact {
        whole := hwhole.append (.inr ⟨freq, haccepts, rfl⟩)
        enabled := fun _ => ⟨haccepts, List.suffix_append ..⟩
        disabled := nofun
        on := fun freq' hlast _ => by
          obtain rfl := (Prod.mk.inj (Option.some.inj hlast)).2
          exact ⟨rfl, rfl, rfl⟩
        off := nofun }
    | true =>
      have halike := hmeets
      simp only [Meets, hflag, if_true] at halike
      rw [if_neg (by simp), if_neg (by simp)]
      exact {
        whole := by rwa [asked, hpending, List.append_nil]
        enabled := fun _ => by
          rw [asked, hpending, List.append_nil]
          exact henabled hflag
        disabled := nofun
        on := fun freq' hlast haccepts => by
          obtain rfl := (Prod.mk.inj (Option.some.inj hlast)).2
          exact ⟨rfl, halike haccepts⟩
        off := nofun }
  | false =>
    rw [if_neg (by simp)]
    cases hflag : s.cl2Enabled with
    | true =>
      rw [if_pos ⟨rfl, rfl⟩]
      exact {
        whole := hwhole.append (.inl rfl)
        enabled := nofun
        disabled := fun _ => not_outputOn_append_cl2Disable s.queued
        on := nofun
        off := fun _ _ => rfl }
    | false =>
      rw [if_neg (by simp)]
      exact {
        whole := by rwa [asked, hpending, List.append_nil]
        enabled := nofun
        disabled := fun _ => by
          rw [asked, hpending, List.append_nil]
          exact hdisabled hflag
        on := nofun
        off := fun _ _ => rfl }

/-- A write that the queue has room for. -/
theorem Inv.write (h : Inv integerMode s) (hroom : ¬ s.oneShotQueue.Full)
    (hstep : s.writeNext = some t) : Inv integerMode t := by
  unfold writeNext at hstep
  split at hstep
  · cases hstep
  · rename_i w ws hpending
    obtain ⟨htaken, -⟩ := s.oneShotQueue.waiting_put hroom w
    obtain rfl := Option.some.inj hstep
    have hasked : (s.queued ++ [w]) ++ ws = s.asked := by
      rw [asked, hpending, List.append_assoc, List.singleton_append]
    obtain ⟨hwhole, henabled, hdisabled, hon, hoff⟩ := h
    rw [← hasked] at hwhole henabled hdisabled
    rw [htaken, if_pos rfl]
    exact ⟨hwhole, henabled, hdisabled, hon, hoff⟩

theorem Inv.step {q : RingBuffer} {a : Label} (h : Inv integerMode s)
    (hmeets : Meets integerMode s a) (hstep : (system integerMode q).step s a = some t) :
    Inv integerMode t := by
  cases a with
  | call xvtrOn freq =>
    obtain ⟨hpending, hstep⟩ := Option.ite_none_right_eq_some.1 hstep
    obtain rfl := Option.some.inj hstep
    exact h.call hpending hmeets
  | write => exact h.write hmeets hstep
  | get =>
    obtain ⟨r, -, rfl⟩ := Option.map_eq_some_iff.1 hstep
    exact ⟨h.whole, h.enabled, h.disabled, h.on, h.off⟩
  | put w =>
    obtain rfl := Option.some.inj hstep
    exact ⟨h.whole, h.enabled, h.disabled, h.on, h.off⟩

/-- When a call is through, the queue has what was asked for. -/
theorem Inv.right (h : Inv integerMode s) (hpending : s.pending = []) : Right integerMode s := by
  have hasked : s.asked = s.queued := by rw [asked, hpending, List.append_nil]
  obtain ⟨hwhole, henabled, hdisabled, hon, hoff⟩ := h
  rw [hasked] at hwhole henabled hdisabled
  refine ⟨fun freq hlast haccepts => ?_, fun freq hlast => hdisabled (hoff freq hlast),
    fun hflag => (henabled hflag).1, hwhole⟩
  obtain ⟨hflag, halike⟩ := hon freq hlast haccepts
  obtain ⟨hown, hsuffix⟩ := henabled hflag
  have hsame := (programming_inj (dividerWord_lt hown) (dividerWord_lt haccepts)).2 halike
  rw [hsame]
  obtain ⟨front, hfront⟩ := hsuffix
  exact ⟨⟨front, hfront⟩, hfront ▸ outputOn_append_programming front _⟩

instance (s : Clock) : DecidablePred (Meets integerMode s)
  | .call true freq => inferInstanceAs (Decidable (if s.cl2Enabled then Accepts integerMode freq →
      Alike (dividerWord integerMode freq) (dividerWord integerMode s.clock2Freq)
    else Accepts integerMode freq))
  | .write => inferInstanceAs (Decidable (¬ s.oneShotQueue.Full))
  | .call false _ | .get | .put _ => inferInstanceAs (Decidable True)

/-- **The clock**: while the flag keeps no call from being done and the queue has room, it is what
the last call has asked for whenever a call is through. -/
theorem clock_right (integerMode : Bool) (q : RingBuffer) (as : List Label) (s : Clock)
    (hmeets : (system integerMode q).Along (Meets integerMode) (system integerMode q).init as)
    (hrun : (system integerMode q).exec (system integerMode q).init as = some s)
    (hthrough : s.pending = []) : Right integerMode s :=
  ((system integerMode q).exec_induction_along
    (fun _ _ _ hinv hmeets hstep => hinv.step hmeets hstep) as _ s (inv_start q) hmeets
    hrun).right hthrough

/-- An empty queue. -/
def emptyQueue : RingBuffer := .create hl2I2cQueueSize 0

/-- The converter from 2 m to 10 m is switched on, the queue has taken the ten writes. -/
def convert : List Label := .call true 116000000 :: List.replicate 10 .write

theorem clock_right_convert :
    ∃ s, (system false emptyQueue).exec (start emptyQueue) convert = some s ∧
      s.last = some (true, 116000000) ∧ Right false s := by
  have hend : ∃ s, (system false emptyQueue).exec (start emptyQueue) convert = some s ∧
      s.last = some (true, 116000000) ∧ s.pending = [] :=
    (system false emptyQueue).exists_exec (by decide +kernel)
  obtain ⟨s, hrun, hlast, hthrough⟩ := hend
  exact ⟨s, hrun, hlast, clock_right false emptyQueue convert s (by decide +kernel) hrun hthrough⟩

/-- Whole programmings and disables are an even number of writes. -/
theorem Whole.two_dvd_length {words : List ℕ} (h : Whole integerMode words) :
    2 ∣ words.length := by
  obtain ⟨blocks, rfl, hblocks⟩ := h
  rw [List.length_flatten]
  refine List.dvd_sum fun n hn => ?_
  obtain ⟨b, hb, rfl⟩ := List.mem_map.1 hn
  rcases hblocks b hb with rfl | ⟨freq, -, rfl⟩
  · exact ⟨1, rfl⟩
  · exact ⟨5, rfl⟩

/-- The converter's oscillator changes to the one for 70 cm, which is not programmed. A first
oscillator of 1 Hz is refused and recorded as programmed. A queue with ten words in it takes five
writes of the ten. -/
theorem not_clock_right :
    (∃ s, (system false emptyQueue).exec (start emptyQueue)
        (convert ++ [.call true 404000000]) = some s ∧ s.pending = [] ∧ ¬ Right false s) ∧
      (∃ s, (system false emptyQueue).exec (start emptyQueue) [.call true 1] = some s ∧
        s.pending = [] ∧ ¬ Right false s) ∧
      ∃ s, (system false emptyQueue).exec (start emptyQueue)
        (List.replicate 10 (.put 0) ++ convert) = some s ∧ s.pending = [] ∧ ¬ Right false s := by
  refine ⟨?_, ?_, ?_⟩
  · have hend : ∃ s, (system false emptyQueue).exec (start emptyQueue)
        (convert ++ [.call true 404000000]) = some s ∧ s.pending = [] ∧
          s.last = some (true, 404000000) ∧
            ¬ programming (dividerWord false 404000000) <:+ s.queued :=
      (system false emptyQueue).exists_exec (by decide +kernel)
    obtain ⟨s, hrun, hthrough, hlast, hnot⟩ := hend
    exact ⟨s, hrun, hthrough, fun h => hnot (h.on _ hlast (by decide +kernel)).1⟩
  · have hend : ∃ s, (system false emptyQueue).exec (start emptyQueue) [.call true 1] = some s ∧
        s.pending = [] ∧ s.cl2Enabled = true ∧ ¬ Accepts false s.clock2Freq :=
      (system false emptyQueue).exists_exec (by decide +kernel)
    obtain ⟨s, hrun, hthrough, hflag, hnot⟩ := hend
    exact ⟨s, hrun, hthrough, fun h => hnot (h.recorded hflag)⟩
  · have hend : ∃ s, (system false emptyQueue).exec (start emptyQueue)
        (List.replicate 10 (.put 0) ++ convert) = some s ∧ s.pending = [] ∧
          s.queued.length = 5 :=
      (system false emptyQueue).exists_exec (by decide +kernel)
    obtain ⟨s, hrun, hthrough, hlength⟩ := hend
    refine ⟨s, hrun, hthrough, fun h => ?_⟩
    have heven := h.whole.two_dvd_length
    rw [hlength] at heven
    exact absurd heven (by decide)

end MacHPSDR.Hl2
