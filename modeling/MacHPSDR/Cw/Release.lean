import MacHPSDR.Cw.Keyer

/-!
# The keyer lets go of the key

Once both contacts are open, the key is only down while an element sounds, and a tick past the end
of the element lifts it; no single hold keys longer than the stuck-paddle guard plus one element.
`Inv` carries this through every press, release, mode change, toggle and tick (`inv_step`).

A straight key breaks it. The contact that was pressed in straight mode is passed on to the
transmitter only while the mode and the reversal are as they were, so a release after a change of
either leaves the key down with both contacts open (`release_after_mode_change`); and in straight
mode there is no guard. In the iambic modes the guard counts from the last event, not from the
last change, so events that repeat the state of a contact hold it off. `released_of_clean` is the
statement for every run that avoids these (`clean`).
-/

namespace MacHPSDR.Cw

variable (r : Settings)

namespace Keyer

/-- Both contacts are open. -/
def BothUp (k : Keyer) : Prop := ∀ p, k.contact p = false

/-- Exactly one contact is closed. -/
def singleHold (k : Keyer) : Bool := k.contact .dot != k.contact .dash

/-- The stuck-paddle guard plus one element after the last change of a contact. -/
def holdEnd (k : Keyer) : ℚ := k.changed + cwKeyerStuckS + markS r .dah

/-- How many past-end ticks the machine is away from idle when no paddle is held. -/
def phase (k : Keyer) : ℕ :=
  match k.state with
  | .idle => 0
  | .space => if k.latch k.opposite then 3 else 1
  | .mark => if k.latch k.opposite then 4 else 2

end Keyer

/-- What the operator may rely on. -/
structure ReleaseSafe (k : Keyer) : Prop where
  /-- With both contacts open the last key call was not a key-down, unless an element sounds. -/
  released : k.BothUp → k.encoder.lastCall = true → k.state = .mark
  /-- A tick at or past the end of the sounding element lifts the key. -/
  markEnds : k.state = .mark → k.elemEndS ≤ k.now → (k.keyerTick r).encoder.lastCall = false
  /-- The ticks come while an element is in flight. -/
  ticking : k.state ≠ .idle → k.tickId = true
  /-- With both contacts open every past-end tick brings the machine closer to idle. -/
  settles : k.BothUp → k.state ≠ .idle → k.elemEndS ≤ k.now → (k.keyerTick r).phase < k.phase
  /-- When the last key call was not a key-down the key is up. -/
  keyUp : k.encoder.lastCall = false → k.encoder.keyOn = false
  /-- The timer of `tx_tick` runs while the encoder has MOX up, and once the key has been up for
  the hang time it drops that MOX. -/
  moxDropped : k.encoder.weKeyed = true → k.encoder.tickId = true ∧
    (k.encoder.keyOn = false → k.nowMs - k.encoder.lastKeyMs > hangMs r →
      (k.encoder.txTick r k.nowMs).mox = false ∧ (k.encoder.txTick r k.nowMs).weKeyed = false)
  /-- A key that is down outside an element has not been held too long. -/
  keyHeld : k.encoder.lastCall = true → k.state ≠ .mark → k.now ≤ k.holdEnd r
  /-- The element that sounds during a single hold does not end too late. -/
  markHeld : k.singleHold = true → k.state = .mark → k.elemEndS ≤ k.holdEnd r

/-- The steps that keep the key under control. -/
def clean (k : Keyer) : Label → Bool
  /- A release that leaves both contacts open finds the key up or an element sounding, or it is
  that of the straight key. -/
  | .paddle which false =>
    decide (k.contact which.other = false → k.encoder.lastCall = true →
      k.state = .mark ∨ k.mode = .straight ∧ which = k.keyPaddle)
  /- A repeated press of the straight key does not come after the guard time. -/
  | .paddle which true =>
    decide (k.mode = .straight → which = k.keyPaddle → k.contact which = true →
      k.now ≤ k.holdEnd r)
  /- The straight key is not held past the guard time. -/
  | .elapse s =>
    decide (k.encoder.lastCall = true → k.state ≠ .mark → k.now + s ≤ k.holdEnd r)
  /- No repeated event has held off the guard when an element can start, and an element that is
  only latched does not end past the guard time. -/
  | .keyerTick =>
    decide (k.singleHold = true → k.mode ≠ .straight → k.state ≠ .mark → k.paddleHeld = true →
      k.now - k.changed > cwKeyerStuckS → k.now - k.lastChangeS > cwKeyerStuckS) &&
    decide (k.singleHold = true → k.mode = .modeB → k.state = .space → k.elemEndS ≤ k.now →
      (k.stuckGuard k.now).paddleHeld = false → k.latch k.opposite = true →
      k.elemEndS + markS r k.opposite ≤ k.holdEnd r)
  | _ => true

/-- What holds of the keyer in every run of clean steps. -/
structure Inv (k : Keyer) : Prop where
  phys : ∀ p, k.phys p = true → k.contact p = true
  ticking : k.state ≠ .idle → k.tickId = true
  encoder : k.encoder.Ok
  past : k.changed ≤ k.now
  markNow : k.state = .mark → k.elemEndS ≤ k.now + markS r .dah
  released : k.BothUp → k.encoder.lastCall = true → k.state = .mark
  keyHeld : k.encoder.lastCall = true → k.state ≠ .mark → k.now ≤ k.holdEnd r
  markHeld : k.singleHold = true → k.state = .mark → k.elemEndS ≤ k.holdEnd r

variable {r} {k : Keyer}

theorem inv_init (mode : KeyerMode) (reversed mox : Bool) :
    Inv r (system r mode reversed mox).init :=
  ⟨nofun, fun h => absurd rfl h, ⟨nofun, nofun, nofun⟩, le_rfl, nofun, nofun, nofun, nofun⟩

/-! ## Presses and releases -/

namespace Inv

/-- A press or release: the contact and its flag change, and perhaps the key. -/
theorem of_event {k' : Keyer} {which : Paddle} {pressed : Bool} (h : Inv r k)
    (hphys : k'.phys = Function.update k.phys which pressed)
    (hcontact : k'.contact = Function.update k.contact which pressed)
    (hchanged : k'.changed = if k.contact which = pressed then k.changed else k.now)
    (hstate : k'.state = k.state) (hend : k'.elemEndS = k.elemEndS) (hnow : k'.now = k.now)
    (hticking : k.tickId = true → k'.tickId = true) (hencoder : k'.encoder.Ok)
    (hreleased : k'.BothUp → k'.encoder.lastCall = true → k.state = .mark)
    (hheld : k'.encoder.lastCall = true → k.state ≠ .mark → k.now ≤ k'.holdEnd r) : Inv r k' where
  phys p hp := by
    rw [hphys] at hp
    rw [hcontact]
    by_cases hwhich : p = which
    · subst hwhich
      simpa using hp
    · rw [Function.update_of_ne hwhich] at hp ⊢
      exact h.phys p hp
  ticking hne := hticking (h.ticking (hstate ▸ hne))
  encoder := hencoder
  past := by
    rw [hchanged, hnow]
    split
    · exact h.past
    · exact le_rfl
  markNow hmark := by
    rw [hend, hnow]
    exact h.markNow (hstate ▸ hmark)
  released hup hcall := hstate ▸ hreleased hup hcall
  keyHeld hcall hne := hnow ▸ hheld hcall (hstate ▸ hne)
  markHeld hsingle hmark := by
    rw [hstate] at hmark
    rw [hend, Keyer.holdEnd, hchanged]
    split
    · rename_i hsame
      rw [← hsame, Function.update_eq_self] at hcontact
      rw [Keyer.singleHold, hcontact] at hsingle
      exact h.markHeld hsingle hmark
    · have hlate := h.markNow hmark
      have hguard : (0 : ℚ) ≤ cwKeyerStuckS := by norm_num [cwKeyerStuckS]
      linarith

theorem holdEnd_le {k' : Keyer} {which : Paddle} {pressed : Bool} (h : Inv r k)
    (hchanged : k'.changed = if k.contact which = pressed then k.changed else k.now) :
    k.holdEnd r ≤ k'.holdEnd r := by
  have hle : k.changed ≤ k'.changed := by
    rw [hchanged]
    split
    · exact le_rfl
    · exact h.past
  unfold Keyer.holdEnd
  linarith

theorem paddle {which : Paddle} {pressed : Bool} (h : Inv r k)
    (hclean : clean r k (.paddle which pressed) = true) :
    Inv r ((k.touch which pressed).cwKeyerPaddle r which pressed) := by
  have hopen : ∀ k' : Keyer, k'.contact = Function.update k.contact which pressed → k'.BothUp →
      pressed = false ∧ k.contact which.other = false := by
    intro k' hcontact hup
    have hself := hup which
    have hother := hup which.other
    rw [hcontact] at hself hother
    rw [Function.update_of_ne (by cases which <;> nofun)] at hother
    exact ⟨by simpa using hself, hother⟩
  unfold Keyer.cwKeyerPaddle
  simp only
  split
  · rename_i hmode
    split
    · rename_i hkey
      -- the straight key: its contact is passed on
      have hcall : ∀ k' : Keyer, k'.contact = Function.update k.contact which pressed →
          k'.BothUp → pressed = true → k.state = .mark := by
        intro k' hcontact hup hdown
        exact absurd (hdown.symm.trans (hopen k' hcontact hup).1) nofun
      refine h.of_event rfl rfl rfl rfl rfl rfl id (h.encoder.cwTxKey r _ pressed)
        (fun hup hdown => hcall _ rfl hup ?_) fun hdown hne => ?_
      · simpa [Keyer.key] using hdown
      · have hpressed : pressed = true := by simpa [Keyer.key] using hdown
        subst hpressed
        have hguard : (0 : ℚ) ≤ cwKeyerStuckS := by norm_num [cwKeyerStuckS]
        have hdah := markS_pos r .dah
        by_cases hheld : k.contact which = true
        · have hnow := of_decide_eq_true hclean hmode hkey hheld
          simpa [Keyer.holdEnd, Keyer.key, Keyer.touch, hheld] using hnow
        · simp only [Keyer.holdEnd, Keyer.key, Keyer.touch, if_neg hheld]
          linarith
    · rename_i hkey
      refine h.of_event rfl rfl rfl rfl rfl rfl id h.encoder (fun hup hdown => ?_)
        fun hdown hne => (h.keyHeld hdown hne).trans (h.holdEnd_le rfl)
      obtain ⟨rfl, hother⟩ := hopen _ rfl hup
      exact (of_decide_eq_true hclean hother hdown).resolve_right fun hstraight =>
        hkey hstraight.2
  · rename_i hmode
    have hheld : ∀ k' : Keyer,
        k'.changed = (if k.contact which = pressed then k.changed else k.now) →
        k.encoder.lastCall = true → k.state ≠ .mark → k.now ≤ k'.holdEnd r :=
      fun k' hchanged hdown hne => (h.keyHeld hdown hne).trans (h.holdEnd_le hchanged)
    cases pressed with
    | true =>
      refine h.of_event rfl rfl rfl rfl rfl rfl (fun _ => rfl) h.encoder (fun hup hdown => ?_)
        (hheld _ rfl)
      exact absurd (hopen _ rfl hup).1 nofun
    | false =>
      refine h.of_event rfl rfl rfl rfl rfl rfl (fun _ => rfl) h.encoder (fun hup hdown => ?_)
        (hheld _ rfl)
      exact (of_decide_eq_true hclean (hopen _ rfl hup).2 hdown).resolve_right fun hstraight =>
        hmode hstraight.1

/-! ## Ticks of the keyer -/

/-- The timer may stop once the machine is idle. -/
theorem setTick (h : Inv r k) (hidle : k.state = .idle) (b : Bool) :
    Inv r { k with tickId := b } :=
  ⟨h.phys, fun hne => absurd hidle hne, h.encoder, h.past, h.markNow, h.released, h.keyHeld,
    h.markHeld⟩

/-- The end of an element: the key goes up, or was not down. -/
theorem key_up (h : Inv r k) {s : KeyerState} {elem : Option Elem} {endS : ℚ}
    (hs : s ≠ .mark) (hticking : k.tickId = true) :
    Inv r { k.key r false with state := s, currentElem := elem, elemEndS := endS } where
  phys := h.phys
  ticking _ := hticking
  encoder := h.encoder.cwTxKey r _ false
  past := h.past
  markNow hmark := absurd hmark hs
  released _ hdown := by simp [Keyer.key] at hdown
  keyHeld hdown := by simp [Keyer.key] at hdown
  markHeld _ hmark := absurd hmark hs

theorem dropElement (h : Inv r k) (hticking : k.tickId = true) : Inv r (k.dropElement r) := by
  unfold Keyer.dropElement
  split
  · exact h
  · simp only
    split
    · exact h.key_up nofun hticking
    · rename_i hmark
      exact ⟨h.phys, fun _ => hticking, h.encoder, h.past, nofun,
        fun hup hdown => absurd (h.released hup hdown) hmark, fun hdown _ => h.keyHeld hdown hmark,
        fun _ => nofun⟩

theorem sampleLatch (h : Inv r k) : Inv r k.sampleLatch :=
  ⟨h.phys, h.ticking, h.encoder, h.past, h.markNow, h.released, h.keyHeld, h.markHeld⟩

theorem stuckGuard (h : Inv r k) (nowS : ℚ) : Inv r (k.stuckGuard nowS) := by
  unfold Keyer.stuckGuard
  split
  · exact ⟨fun _ => nofun, h.ticking, h.encoder, h.past, h.markNow, h.released, h.keyHeld,
      h.markHeld⟩
  · exact h

/-- An element starts, not later than now; in a single hold it ends in time. -/
theorem startMark (h : Inv r k) {elem : Elem} {startS : ℚ} (hticking : k.tickId = true)
    (hnow : startS ≤ k.now)
    (hend : k.singleHold = true → startS + markS r elem ≤ k.holdEnd r) :
    Inv r (k.startMark r elem startS) where
  phys := h.phys
  ticking _ := hticking
  encoder := h.encoder.cwTxKey r _ true
  past := h.past
  markNow _ := by
    have hdah := markS_le_dah r elem
    change startS + markS r elem ≤ k.now + markS r .dah
    linarith
  released _ _ := rfl
  keyHeld _ hne := absurd rfl hne
  markHeld hsingle _ := hend hsingle

end Inv

theorem paddleHeld_of_down {elem : Elem} (h : k.down elem = true) : k.paddleHeld = true := by
  have hphys : ∃ p, k.phys p = true := by
    cases elem with
    | dit => exact ⟨_, h⟩
    | dah => exact ⟨_, h⟩
  obtain ⟨p, hp⟩ := hphys
  unfold Keyer.paddleHeld
  cases p with
  | dot => rw [hp, Bool.true_or]
  | dash => rw [hp, Bool.or_true]

/-- A paddle that the guard leaves held has not been held too long. -/
theorem now_le_of_paddleHeld (hclean : clean r k .keyerTick = true) (hsingle : k.singleHold = true)
    (hmode : k.mode ≠ .straight) (hmark : k.state ≠ .mark)
    (hheld : (k.stuckGuard k.now).paddleHeld = true) : k.now ≤ k.changed + cwKeyerStuckS := by
  obtain ⟨hguard, -⟩ := Bool.and_eq_true_iff.1 hclean
  by_contra hlate
  have hkeep : k.paddleHeld = true ∧ ¬ k.now - k.lastChangeS > cwKeyerStuckS := by
    unfold Keyer.stuckGuard at hheld
    split at hheld
    · exact absurd hheld nofun
    · rename_i hfire
      refine ⟨hheld, fun hgt => hfire ?_⟩
      rw [hheld, Bool.true_and]
      exact decide_eq_true hgt
  refine hkeep.2 (of_decide_eq_true hguard hsingle hmode hmark hkeep.1 ?_)
  linarith

theorem down_of_not_paddleHeld (hheld : k.paddleHeld = false) (elem : Elem) :
    k.down elem = false := by
  by_contra hdown
  rw [Bool.not_eq_false] at hdown
  exact absurd ((paddleHeld_of_down hdown).symm.trans hheld) nofun

/-- With no paddle held nothing is latched. -/
theorem latch_sampleLatch (hheld : k.paddleHeld = false) (elem : Elem) :
    k.sampleLatch.latch elem = k.latch elem := by
  simp [Keyer.sampleLatch, down_of_not_paddleHeld hheld]

theorem latch_startMark (hheld : k.paddleHeld = false) (next : Elem) (startS : ℚ) (elem : Elem) :
    (k.startMark r next startS).latch elem = false := by
  have hheld' : Keyer.paddleHeld (Keyer.key r true { k with
      currentElem := some next, latch := fun _ => false, elemEndS := startS + markS r next,
      state := .mark }) = false := hheld
  exact latch_sampleLatch hheld' elem

/-- With no paddle held only the latch of mode B leads to a further element. -/
theorem decideNext_of_not_paddleHeld (hheld : k.paddleHeld = false) {elem : Elem}
    (h : k.decideNext = some elem) :
    k.latch k.opposite = true ∧ k.mode = .modeB ∧ elem = k.opposite := by
  unfold Keyer.decideNext at h
  simp only [down_of_not_paddleHeld hheld, Bool.or_false, Bool.false_and, Bool.false_eq_true,
    if_false] at h
  split at h
  · rename_i hlatch
    obtain ⟨hlatch, hmode⟩ := Bool.and_eq_true_iff.1 hlatch
    exact ⟨hlatch, of_decide_eq_true hmode, (Option.some.inj h).symm⟩
  · exact absurd h nofun

namespace Inv

/-- The element machine, once the guard has run. -/
theorem advanceElement (h : Inv r k) (hticking : k.tickId = true)
    (hheld : k.singleHold = true → k.state ≠ .mark → k.paddleHeld = true →
      k.now ≤ k.changed + cwKeyerStuckS)
    (hlatched : k.singleHold = true → k.mode = .modeB → k.state = .space → k.elemEndS ≤ k.now →
      k.paddleHeld = false → k.latch k.opposite = true →
      k.elemEndS + markS r k.opposite ≤ k.holdEnd r) :
    Inv r (k.advanceElement r k.now) := by
  have hlong : ∀ e, k.now ≤ k.changed + cwKeyerStuckS → k.now + markS r e ≤ k.holdEnd r := by
    intro e hnow
    have hdah := markS_le_dah r e
    unfold Keyer.holdEnd
    linarith
  unfold Keyer.advanceElement
  split
  · rename_i hstate
    split
    · rename_i hdown
      refine h.startMark hticking le_rfl fun hsingle => hlong _ ?_
      refine hheld hsingle (by rw [hstate]; nofun) ?_
      rcases Bool.or_eq_true_iff.1 hdown with hdown | hdown
      · exact paddleHeld_of_down hdown
      · exact paddleHeld_of_down hdown
    · exact h
  · simp only
    split
    · exact h.sampleLatch.key_up nofun hticking
    · exact h.sampleLatch
  · rename_i hstate
    have hmark : k.state ≠ .mark := by
      rw [hstate]
      nofun
    simp only
    split
    · rename_i hend
      have hend : k.elemEndS ≤ k.now := hend
      split
      · exact ⟨h.phys, fun hne => absurd rfl hne, h.encoder, h.past, nofun,
          fun hup hdown => absurd (h.released hup hdown) hmark,
          fun hdown _ => h.keyHeld hdown hmark, fun _ => nofun⟩
      · rename_i next hnext
        refine h.sampleLatch.startMark hticking hend fun hsingle => ?_
        cases hpaddle : k.paddleHeld with
        | true =>
          have hnow := hlong next (hheld hsingle hmark hpaddle)
          exact (by simpa using hend : k.elemEndS + markS r next ≤ k.now + markS r next).trans hnow
        | false =>
          obtain ⟨hlatch, hmodeB, rfl⟩ :=
            @decideNext_of_not_paddleHeld k.sampleLatch hpaddle _ hnext
          rw [latch_sampleLatch hpaddle] at hlatch
          exact hlatched hsingle hmodeB hstate hend hpaddle hlatch
    · exact h.sampleLatch

end Inv

/-- The guard changes nothing but the paddle flags. -/
theorem stuckGuard_eq (k : Keyer) (nowS : ℚ) :
    ∃ phys, k.stuckGuard nowS = { k with phys := phys } := by
  unfold Keyer.stuckGuard
  split
  · exact ⟨_, rfl⟩
  · exact ⟨k.phys, rfl⟩

theorem Inv.keyerTick (h : Inv r k) (hclean : clean r k .keyerTick = true)
    (hticking : k.tickId = true) : Inv r (k.keyerTick r) := by
  have hadvance : Inv r (k.cwKeyerAdvance r k.now) := by
    unfold Keyer.cwKeyerAdvance
    split
    · exact h.dropElement hticking
    · rename_i hmode
      have hheld := fun hsingle => now_le_of_paddleHeld hclean hsingle hmode
      have hlatched := of_decide_eq_true (Bool.and_eq_true_iff.1 hclean).2
      have hg := h.stuckGuard k.now
      obtain ⟨phys, hphys⟩ := stuckGuard_eq k k.now
      rw [hphys] at hheld hlatched hg ⊢
      exact hg.advanceElement hticking hheld hlatched
  unfold Keyer.keyerTick
  simp only
  split
  · rename_i hidle
    exact hadvance.setTick (of_decide_eq_true (Bool.and_eq_true_iff.1 hidle).1) false
  · exact hadvance

/-! ## Every step -/

theorem inv_step (k : Keyer) (l : Label) (k' : Keyer) (h : Inv r k) (hclean : clean r k l = true)
    (hs : step r k l = some k') : Inv r k' := by
  cases l with
  | paddle which pressed =>
    obtain rfl := Option.some.inj hs
    exact h.paddle hclean
  | setMode | toggleReversed =>
    obtain rfl := Option.some.inj hs
    exact ⟨h.phys, h.ticking, h.encoder, h.past, h.markNow, h.released, h.keyHeld, h.markHeld⟩
  | keyerTick =>
    simp only [step, Option.ite_none_right_eq_some, Option.some.injEq] at hs
    obtain ⟨hticking, rfl⟩ := hs
    exact h.keyerTick hclean hticking
  | txTick =>
    simp only [step, Option.ite_none_right_eq_some, Option.some.injEq] at hs
    obtain ⟨-, rfl⟩ := hs
    refine ⟨h.phys, h.ticking, h.encoder.txTick r _, h.past, h.markNow, fun hup hdown => ?_,
      fun hdown hne => ?_, h.markHeld⟩
    · exact h.released hup (by simpa using hdown)
    · exact h.keyHeld (by simpa using hdown) hne
  | elapse s =>
    simp only [step, Option.ite_none_right_eq_some, Option.some.injEq] at hs
    obtain ⟨hs, rfl⟩ := hs
    have hlater : k.now ≤ k.now + s := by linarith
    refine ⟨h.phys, h.ticking, h.encoder, h.past.trans hlater, fun hmark => ?_, h.released,
      fun hdown hne => of_decide_eq_true hclean hdown hne, h.markHeld⟩
    have hnow := h.markNow hmark
    change k.elemEndS ≤ k.now + s + markS r .dah
    linarith

/-! ## What the operator may rely on -/

/-- A tick past the end of the sounding element lifts the key, whatever the mode. -/
theorem lastCall_keyerTick (hstate : k.state = .mark) (hend : k.elemEndS ≤ k.now) :
    (k.keyerTick r).encoder.lastCall = false := by
  have hadvance : (k.cwKeyerAdvance r k.now).encoder.lastCall = false := by
    unfold Keyer.cwKeyerAdvance
    split
    · simp [Keyer.dropElement, hstate, Keyer.key]
    · obtain ⟨phys, hphys⟩ := stuckGuard_eq k k.now
      rw [hphys]
      simp [Keyer.advanceElement, hstate, Keyer.sampleLatch, hend, Keyer.beginSpace, Keyer.key]
  unfold Keyer.keyerTick
  simp only
  split
  · exact hadvance
  · exact hadvance

theorem phase_keyerTick (k : Keyer) :
    (k.keyerTick r).phase = (k.cwKeyerAdvance r k.now).phase := by
  unfold Keyer.keyerTick
  simp only
  split
  · rfl
  · rfl

theorem phase_pos (hstate : k.state ≠ .idle) : 0 < k.phase := by
  unfold Keyer.phase
  split
  · rename_i hidle
    exact absurd hidle hstate
  · split <;> omega
  · split <;> omega

theorem phase_cwKeyerAdvance (hheld : k.paddleHeld = false) (hstate : k.state ≠ .idle)
    (hend : k.elemEndS ≤ k.now) : (k.cwKeyerAdvance r k.now).phase < k.phase := by
  unfold Keyer.cwKeyerAdvance
  split
  · have hidle : (k.dropElement r).phase = 0 := by
      simp [Keyer.dropElement, hstate, Keyer.phase]
    rw [hidle]
    exact phase_pos hstate
  · have hguard : k.stuckGuard k.now = k := by simp [Keyer.stuckGuard, hheld]
    have hend' : k.now ≥ k.sampleLatch.elemEndS := hend
    rw [hguard]
    unfold Keyer.advanceElement
    split
    · rename_i hidle
      exact absurd hidle hstate
    · rename_i hmark
      simp only [if_pos hend']
      have hspace : (k.sampleLatch.beginSpace r k.sampleLatch.elemEndS).phase =
          if k.latch k.opposite then 3 else 1 := by
        rw [← latch_sampleLatch hheld]
        rfl
      have hphase : k.phase = if k.latch k.opposite then 4 else 2 := by
        rw [Keyer.phase, hmark]
      rw [hspace, hphase]
      split <;> omega
    · rename_i hspace
      simp only [if_pos hend']
      split
      · exact phase_pos hstate
      · rename_i next hnext
        obtain ⟨hlatch, -, -⟩ := @decideNext_of_not_paddleHeld k.sampleLatch hheld _ hnext
        rw [latch_sampleLatch hheld] at hlatch
        have hmark : (k.sampleLatch.startMark r next k.sampleLatch.elemEndS).phase = 2 := by
          have hclear : (k.sampleLatch.startMark r next k.sampleLatch.elemEndS).latch =
              fun _ => false := by
            funext e
            exact @latch_startMark r k.sampleLatch hheld next _ e
          rw [Keyer.phase, hclear]
          rfl
        have hphase : k.phase = 3 := by
          rw [Keyer.phase, hspace]
          exact if_pos hlatch
        omega

/-- With both contacts open no paddle flag is up. -/
theorem Inv.not_paddleHeld (h : Inv r k) (hup : k.BothUp) : k.paddleHeld = false := by
  have hphys : ∀ p, k.phys p = false := by
    intro p
    by_contra hp
    rw [Bool.not_eq_false] at hp
    exact absurd ((h.phys p hp).symm.trans (hup p)) nofun
  simp [Keyer.paddleHeld, hphys]

theorem Inv.releaseSafe (h : Inv r k) : ReleaseSafe r k where
  released := h.released
  markEnds := lastCall_keyerTick
  ticking := h.ticking
  settles hup hstate hend := by
    rw [phase_keyerTick]
    exact phase_cwKeyerAdvance (h.not_paddleHeld hup) hstate hend
  keyUp hlast := by
    by_contra hon
    rw [Bool.not_eq_false] at hon
    exact absurd ((h.encoder.lastCall hon).symm.trans hlast) nofun
  moxDropped hkeyed :=
    ⟨(h.encoder.session hkeyed).2.2, fun hup hhang => h.encoder.txTick_drops hkeyed hup hhang⟩
  keyHeld := h.keyHeld
  markHeld := h.markHeld

/-- **The keyer lets go of the key**, in every state of every run of clean steps. -/
theorem released_of_clean {mode : KeyerMode} {reversed mox : Bool} {ls : List Label} {k : Keyer}
    (hrun : (system r mode reversed mox).exec (system r mode reversed mox).init ls = some k)
    (hclean : (system r mode reversed mox).Along (fun k l => clean r k l = true)
      (system r mode reversed mox).init ls) :
    ReleaseSafe r k :=
  ((system r mode reversed mox).exec_induction_along inv_step ls _ k
    (inv_init mode reversed mox) hclean hrun).releaseSafe

/-- 20 words a minute in CW, on a radio that can transmit. -/
def atTwentyWpm : Settings := ⟨20, 50, 250, true, true⟩

/-- A dit and a half: the dot paddle is let go during the second dit, and the keyer and the
encoder run on until the MOX is dropped. -/
def twoDits : List Label :=
  [.paddle .dot true, .keyerTick, .elapse (1 / 16), .keyerTick, .elapse (1 / 16), .keyerTick,
   .paddle .dot false, .elapse (1 / 16), .keyerTick, .elapse (1 / 16), .keyerTick, .elapse (1 / 2),
   .txTick]

theorem released_twoDits : ∃ k,
    (system atTwentyWpm .modeB false false).exec (system atTwentyWpm .modeB false false).init
      twoDits = some k ∧
      k.state = .idle ∧ k.encoder.mox = false ∧ ReleaseSafe atTwentyWpm k := by
  have hrun : ∃ k, (system atTwentyWpm .modeB false false).exec
      (system atTwentyWpm .modeB false false).init twoDits = some k ∧
        k.state = .idle ∧ k.encoder.mox = false :=
    (system atTwentyWpm .modeB false false).exists_exec (by decide +kernel)
  obtain ⟨k, hk, hstate, hmox⟩ := hrun
  exact ⟨k, hk, hstate, hmox, released_of_clean hk (by decide +kernel)⟩

/-- The dot contact is pressed as a straight key, the mode is changed to A, the contact is let go,
and the keyer ticks. -/
def releaseInModeA : List Label :=
  [.paddle .dot true, .elapse 1, .setMode .modeA, .elapse 1, .paddle .dot false,
   .elapse (1 / 100), .keyerTick, .elapse 60]

/-- A straight key that is let go after a change of mode leaves the transmitter keyed: both
contacts are open, the machine is idle with its timer stopped, and the key is down. -/
theorem release_after_mode_change : ∃ k,
    (system atTwentyWpm .straight false false).exec
      (system atTwentyWpm .straight false false).init releaseInModeA = some k ∧
      k.contact .dot = false ∧ k.contact .dash = false ∧ k.state = .idle ∧ k.tickId = false ∧
      k.encoder.keyOn = true ∧ ¬ ReleaseSafe atTwentyWpm k := by
  have hrun : ∃ k, (system atTwentyWpm .straight false false).exec
      (system atTwentyWpm .straight false false).init releaseInModeA = some k ∧
        k.contact .dot = false ∧ k.contact .dash = false ∧ k.state = .idle ∧
        k.tickId = false ∧ k.encoder.keyOn = true ∧ k.encoder.lastCall = true :=
    (system atTwentyWpm .straight false false).exists_exec (by decide +kernel)
  obtain ⟨k, hk, hdot, hdash, hidle, htick, hon, hlast⟩ := hrun
  refine ⟨k, hk, hdot, hdash, hidle, htick, hon, fun hsafe => ?_⟩
  have hup : k.BothUp := by
    intro p
    cases p with
    | dot => exact hdot
    | dash => exact hdash
  exact absurd (hidle.symm.trans (hsafe.released hup hlast)) nofun

end MacHPSDR.Cw
