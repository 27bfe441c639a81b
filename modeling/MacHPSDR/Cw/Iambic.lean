import MacHPSDR.Cw.Release
import Mathlib

/-!
# What the iambic keyer sends

The keyer remembers that the paddle of the other kind has been down during an element, and decides
by that and by the paddles what comes after it (`nextElem`). A tick that comes late finds the end
of a mark or a space where it was, and the next one is counted from there.

In mode B a paddle that has been tapped during an element of the other kind is sent once after it.
In mode A it is sent if it is still down when the space after the element ends: one that has been
tapped is not.
-/

namespace MacHPSDR.Cw

/-- What the keyer sends: a mark from its start on, or the end of what it has sent. -/
inductive Sent
  | mark (elem : Elem) (startS : ℚ)
  | rest
  deriving DecidableEq

/-- The paddle of the other kind is down. -/
def Keyer.otherDown (k : Keyer) : Bool :=
  match k.currentElem with
  | some e => k.down e.other
  | none => false

/-- The choice after an element, of which is known whether the paddle of the other kind has been
down during it. -/
def nextElem (mode : KeyerMode) (squeezed : Bool) (down : Elem → Bool) (e : Elem) : Option Elem :=
  if squeezed && (mode = .modeB || down e.other) then some e.other
  else if down e then some e
  else none

/-- The keyer, what it has sent, and whether the paddle of the other kind has been down at some time
of the current element. -/
structure Watch where
  keyer : Keyer
  sent : List Sent
  squeezed : Bool

section

variable (r : Settings)

/-- What a step sends. -/
def sentBy (k k' : Keyer) : List Sent :=
  if k.state ≠ .mark ∧ k'.state = .mark then
    (k'.currentElem.map fun e => Sent.mark e (k'.elemEndS - markS r e)).toList
  else if k.state ≠ .idle ∧ k'.state = .idle then [.rest]
  else []

/-- The system, watched. -/
def watch (mode : KeyerMode) (reversed mox : Bool) : System Watch Label where
  init := ⟨(system r mode reversed mox).init, [], false⟩
  step w l := (step r w.keyer l).map fun k =>
    { keyer := k
      sent := w.sent ++ sentBy r w.keyer k
      squeezed := k.otherDown || w.squeezed && (sentBy r w.keyer k).isEmpty }

end

/-- The operator leaves the settings alone. -/
def Keying : Label → Prop
  | .setMode _ | .toggleReversed => False
  | _ => True

instance : DecidablePred Keying
  | .setMode _ | .toggleReversed => inferInstanceAs (Decidable False)
  | .paddle .. | .keyerTick | .txTick | .elapse _ => inferInstanceAs (Decidable True)

/-- The paddle of an element. -/
def Keyer.paddleOf (k : Keyer) : Elem → Paddle
  | .dit => k.keyPaddle
  | .dah => k.keyPaddle.other

/-! ## What a step can do -/

/-- A step of the keyer, with what it finds at the paddles at its end. -/
inductive Moves (r : Settings) (w w' : Watch) : Prop
  /-- Nothing is sent. -/
  | stay (hsent : w'.sent = w.sent) (helem : w'.keyer.currentElem = w.keyer.currentElem)
      (hsqueezed : w'.squeezed = (w'.keyer.otherDown || w.squeezed))
      (hstate : w'.keyer.state = w.keyer.state) (hend : w'.keyer.elemEndS = w.keyer.elemEndS)
  /-- A mark ends. -/
  | space (hsent : w'.sent = w.sent) (helem : w'.keyer.currentElem = w.keyer.currentElem)
      (hsqueezed : w'.squeezed = (w'.keyer.otherDown || w.squeezed))
      (hstate : w.keyer.state = .mark) (hstate' : w'.keyer.state = .space)
      (hend : w'.keyer.elemEndS = w.keyer.elemEndS + spaceS r)
  /-- A mark starts out of rest. -/
  | start (e : Elem) (hstate : w.keyer.state = .idle) (hstate' : w'.keyer.state = .mark)
      (helem : w'.keyer.currentElem = some e)
      (hsent : w'.sent = w.sent ++ [.mark e (w'.keyer.elemEndS - markS r e)])
      (hsqueezed : w'.squeezed = w'.keyer.otherDown) (hdown : w'.keyer.down e = true)
  /-- A mark follows an element. -/
  | next (e e' : Elem) (hstate : w.keyer.state = .space) (hstate' : w'.keyer.state = .mark)
      (helem : w.keyer.currentElem = some e) (helem' : w'.keyer.currentElem = some e')
      (hnext : nextElem w.keyer.mode w.squeezed w'.keyer.down e = some e')
      (hend : w'.keyer.elemEndS = w.keyer.elemEndS + markS r e')
      (hsent : w'.sent = w.sent ++ [.mark e' w.keyer.elemEndS])
      (hsqueezed : w'.squeezed = w'.keyer.otherDown)
      (hheld : ∀ x, w'.keyer.down x = true → w.keyer.down x = true)
  /-- Nothing follows an element. -/
  | rest (e : Elem) (hstate : w.keyer.state = .space) (hstate' : w'.keyer.state = .idle)
      (helem : w.keyer.currentElem = some e) (helem' : w'.keyer.currentElem = none)
      (hnext : nextElem w.keyer.mode w.squeezed w'.keyer.down e = none)
      (hsent : w'.sent = w.sent ++ [.rest])
      (hheld : ∀ x, w'.keyer.down x = true → w.keyer.down x = true)

/-- The latch is what has been seen of the paddles. -/
structure Linked (w : Watch) : Prop where
  elem : w.keyer.state = .idle ↔ w.keyer.currentElem = none
  latch : ∀ e, w.keyer.currentElem = some e → w.keyer.latch e.other = w.squeezed
  held : w.keyer.otherDown = true → w.squeezed = true
  ticking : w.keyer.state ≠ .idle → w.keyer.tickId = true

section

variable {r : Settings} {k : Keyer}

theorem latch_sampleLatch_other {e : Elem} (helem : k.currentElem = some e) :
    k.sampleLatch.latch e.other = (k.latch e.other || k.down e.other) := by
  unfold Keyer.sampleLatch
  dsimp only
  rw [helem]
  cases e <;> rfl

theorem latch_startMark_other (e : Elem) (startS : ℚ) :
    (k.startMark r e startS).latch e.other = k.down e.other := by
  cases e <;> cases k <;> rfl

/-- `decide_next`, of what has been latched. -/
theorem decideNext_eq {e : Elem} (helem : k.currentElem = some e)
    (hlatch : k.down e.other = true → k.latch e.other = true) :
    k.decideNext = nextElem k.mode (k.latch e.other) k.down e := by
  have hopposite : k.opposite = e.other := by
    unfold Keyer.opposite
    rw [helem]
    cases e <;> rfl
  have hother : e.other.other = e := by cases e <;> rfl
  unfold Keyer.decideNext nextElem
  rw [hopposite, hother, helem]
  simp only [Option.isSome_some, Bool.and_true]
  split
  · rfl
  · rename_i hno
    split
    · rfl
    · rename_i hsame
      have hdown : ¬ k.down e.other = true := fun hdown =>
        hno (by rw [hlatch hdown, hdown, Bool.or_true, Bool.and_true])
      cases e with
      | dit => exact (if_neg hsame).trans (if_neg hdown)
      | dah => exact (if_neg hdown).trans (if_neg hsame)

/-- The keyer with other paddle flags. -/
def Keyer.holding (k : Keyer) (phys : Paddle → Bool) : Keyer := { k with phys }

/-- The guard lets go of paddles. -/
theorem down_stuckGuard (nowS : ℚ) {e : Elem} (h : (k.stuckGuard nowS).down e = true) :
    k.down e = true := by
  unfold Keyer.stuckGuard at h
  split at h
  · cases e <;> cases h
  · exact h

/-- `keyer_tick` stops the timer at rest, and nothing else. -/
theorem keyerTick_eq (k : Keyer) : ∃ tickId,
    k.keyerTick r = { k.cwKeyerAdvance r k.now with tickId } ∧
    ((k.cwKeyerAdvance r k.now).state ≠ .idle → tickId = (k.cwKeyerAdvance r k.now).tickId) := by
  unfold Keyer.keyerTick
  dsimp only
  split
  · rename_i hidle
    have hstate := of_decide_eq_true (Bool.and_eq_true_iff.1 hidle).1
    exact ⟨false, rfl, fun hne => absurd hstate hne⟩
  · exact ⟨_, rfl, fun _ => rfl⟩

/-- A watched step. -/
def Watch.after (r : Settings) (w : Watch) (k : Keyer) : Watch :=
  { keyer := k
    sent := w.sent ++ sentBy r w.keyer k
    squeezed := k.otherDown || w.squeezed && (sentBy r w.keyer k).isEmpty }

/-- What a step makes of a watched keyer. -/
structure Done (r : Settings) (w w' : Watch) : Prop where
  linked : Linked w'
  moves : Moves r w w'
  mode : w'.keyer.mode = w.keyer.mode
  reversed : w'.keyer.reversed = w.keyer.reversed

section

variable {w : Watch}

theorem sentBy_of_eq {k' : Keyer} (h : k'.state = k.state) : sentBy r k k' = [] := by
  unfold sentBy
  rw [h]
  cases k.state <;> rfl

/-- The element goes on. -/
theorem Linked.stay (h : Linked w) {k : Keyer} (hstate : k.state = w.keyer.state)
    (helem : k.currentElem = w.keyer.currentElem) (hend : k.elemEndS = w.keyer.elemEndS)
    (hmode : k.mode = w.keyer.mode) (hreversed : k.reversed = w.keyer.reversed)
    (hlatch : ∀ e, k.currentElem = some e →
      k.latch e.other = (w.keyer.latch e.other || k.down e.other))
    (hticking : k.state ≠ .idle → k.tickId = true) : Done r w (w.after r k) := by
  have hsent : sentBy r w.keyer k = [] := sentBy_of_eq hstate
  have hsqueezed : (w.after r k).squeezed = (k.otherDown || w.squeezed) := by
    unfold Watch.after
    rw [hsent, List.isEmpty_nil, Bool.and_true]
  refine ⟨⟨?_, fun e he => ?_, fun hdown => ?_, hticking⟩, .stay ?_ helem hsqueezed hstate hend,
    hmode, hreversed⟩
  · show k.state = .idle ↔ k.currentElem = none
    rw [hstate, helem]
    exact h.elem
  · have hother : k.otherDown = k.down e.other := by
      unfold Keyer.otherDown
      rw [show k.currentElem = some e from he]
    rw [hsqueezed, hother]
    refine (hlatch e he).trans ?_
    rw [h.latch e (helem ▸ he), Bool.or_comm]
  · rw [hsqueezed, show k.otherDown = true from hdown, Bool.true_or]
  · show w.sent ++ sentBy r w.keyer k = w.sent
    rw [hsent, List.append_nil]

/-- Neither the paddles nor the machine move. -/
theorem Linked.still (h : Linked w) (encoder : Encoder) (now : ℚ) :
    Done r w (w.after r { w.keyer with encoder, now }) := by
  refine h.stay rfl rfl rfl rfl rfl (fun e he => ?_) h.ticking
  refine (Bool.or_eq_left_iff_imp.2 fun hdown => ?_).symm
  rw [h.latch e he]
  refine h.held ?_
  unfold Keyer.otherDown
  rw [show w.keyer.currentElem = some e from he]
  exact hdown

/-- A paddle moves. -/
theorem Linked.paddle (h : Linked w) (hmode : w.keyer.mode ≠ .straight) (which : Paddle)
    (pressed : Bool) :
    Done r w (w.after r ((w.keyer.touch which pressed).cwKeyerPaddle r which pressed)) := by
  unfold Keyer.cwKeyerPaddle
  dsimp only
  rw [if_neg (show (w.keyer.touch which pressed).mode ≠ .straight from hmode)]
  cases pressed with
  | true =>
    refine h.stay rfl rfl rfl rfl rfl (fun e he => ?_) fun _ => rfl
    exact latch_sampleLatch_other (k := { w.keyer.touch which true with
      phys := Function.update w.keyer.phys which true, lastChangeS := w.keyer.now }) he
  | false =>
    refine h.stay rfl rfl rfl rfl rfl (fun e he => ?_) fun _ => rfl
    have hdown : ∀ p, Function.update w.keyer.phys which false p = true →
        w.keyer.phys p = true := by
      intro p hp
      by_cases hwhich : p = which
      · rw [hwhich, Function.update_self] at hp
        cases hp
      · rwa [Function.update_of_ne hwhich] at hp
    have hlatched : w.keyer.down e.other = true → w.keyer.latch e.other = true := by
      intro hd
      rw [h.latch e he]
      refine h.held ?_
      unfold Keyer.otherDown
      rw [show w.keyer.currentElem = some e from he]
      exact hd
    refine (Bool.or_eq_left_iff_imp.2 fun hd => hlatched ?_).symm
    cases e with
    | dit => exact hdown _ hd
    | dah => exact hdown _ hd

/-- A mark starts. -/
theorem linked_startMark (phys : Paddle → Bool) (hstate : w.keyer.state ≠ .mark)
    (hticking : w.keyer.tickId = true) (e : Elem) (startS : ℚ) (latch : Elem → Bool) :
    let k := Keyer.startMark r e startS { w.keyer with phys, latch }
    Linked (w.after r k) ∧ (w.after r k).sent = w.sent ++ [.mark e startS] ∧
      (w.after r k).squeezed = k.otherDown := by
  intro k
  have hsent : sentBy r w.keyer k = [.mark e startS] := by
    unfold sentBy
    rw [if_pos ⟨hstate, rfl⟩]
    show [Sent.mark e (startS + markS r e - markS r e)] = _
    rw [add_sub_cancel_right]
  have hsqueezed : (w.after r k).squeezed = k.otherDown := by
    show (k.otherDown || w.squeezed && (sentBy r w.keyer k).isEmpty) = k.otherDown
    rw [hsent]
    simp
  refine ⟨⟨iff_of_false nofun nofun, fun e' he' => ?_, fun hdown => ?_, fun _ => hticking⟩,
    congrArg (w.sent ++ ·) hsent, hsqueezed⟩
  · obtain rfl := Option.some.inj he'
    rw [hsqueezed]
    exact latch_startMark_other (k := { w.keyer with phys, latch }) e startS
  · rw [hsqueezed]
    exact hdown

/-- A mark ends. -/
theorem Linked.beginSpace (h : Linked w) {phys : Paddle → Bool} (hstate : w.keyer.state = .mark)
    (hticking : w.keyer.tickId = true) :
    let k := Keyer.beginSpace r w.keyer.elemEndS (w.keyer.holding phys).sampleLatch
    Done r w (w.after r k) := by
  intro k
  have hsent : sentBy r w.keyer k = [] := by
    unfold sentBy
    rw [if_neg fun hboth => hboth.1 hstate]
    exact if_neg fun hboth => nomatch hboth.2
  have hsqueezed : (w.after r k).squeezed = (k.otherDown || w.squeezed) := by
    show (k.otherDown || w.squeezed && (sentBy r w.keyer k).isEmpty) = _
    rw [hsent, List.isEmpty_nil, Bool.and_true]
  have helem : w.keyer.currentElem ≠ none := fun hnone =>
    nomatch hstate.symm.trans (h.elem.2 hnone)
  refine ⟨⟨iff_of_false nofun helem, fun e he => ?_, fun hdown => ?_, fun _ => hticking⟩,
    .space ?_ rfl hsqueezed hstate rfl rfl, rfl, rfl⟩
  · have hother : k.otherDown = k.down e.other := by
      unfold Keyer.otherDown
      rw [show k.currentElem = some e from he]
    rw [hsqueezed, hother, Bool.or_comm, ← h.latch e he]
    exact latch_sampleLatch_other (k := w.keyer.holding phys) he
  · rw [hsqueezed, show k.otherDown = true from hdown, Bool.true_or]
  · show w.sent ++ sentBy r w.keyer k = w.sent
    rw [hsent, List.append_nil]

/-- The end of an element, of which the paddles are read a last time. -/
theorem Linked.decide (h : Linked w) {phys : Paddle → Bool} {e : Elem}
    (helem : w.keyer.currentElem = some e)
    (hphys : ∀ e, (w.keyer.holding phys).down e = true → w.keyer.down e = true) :
    (w.keyer.holding phys).sampleLatch.decideNext =
      nextElem w.keyer.mode w.squeezed (w.keyer.holding phys).down e := by
  have hseen : (w.keyer.holding phys).down e.other = true → w.squeezed = true := by
    intro hdown
    refine h.held ?_
    unfold Keyer.otherDown
    rw [helem]
    exact hphys _ hdown
  have hlatch : (w.keyer.holding phys).sampleLatch.latch e.other = w.squeezed := by
    rw [latch_sampleLatch_other (k := w.keyer.holding phys) helem]
    refine (congrArg (· || _) (h.latch e helem)).trans ?_
    exact Bool.or_eq_left_iff_imp.2 hseen
  rw [decideNext_eq (k := (w.keyer.holding phys).sampleLatch) helem fun hdown =>
    hlatch.trans (hseen hdown), hlatch]
  rfl

/-- Nothing follows an element. -/
theorem linked_rest {k : Keyer} (hstate : w.keyer.state = .space) (hidle : k.state = .idle)
    (helem : k.currentElem = none) :
    Linked (w.after r k) ∧ (w.after r k).sent = w.sent ++ [.rest] := by
  have hsent : sentBy r w.keyer k = [.rest] := by
    unfold sentBy
    rw [hstate, hidle]
    rfl
  have hother : k.otherDown = false := by
    unfold Keyer.otherDown
    rw [helem]
  refine ⟨⟨iff_of_true hidle helem, fun e he => ?_, fun hdown => ?_, fun hne => absurd hidle hne⟩,
    congrArg (w.sent ++ ·) hsent⟩
  · exact nomatch helem.symm.trans he
  · exact nomatch hother.symm.trans hdown

/-- The element machine, with the paddles that the guard leaves. -/
theorem Linked.advanceElement (h : Linked w) {phys : Paddle → Bool}
    (hphys : ∀ e, (w.keyer.holding phys).down e = true → w.keyer.down e = true)
    (hticking : w.keyer.tickId = true) :
    Done r w (w.after r (Keyer.advanceElement r w.keyer.now (w.keyer.holding phys))) := by
  unfold Keyer.advanceElement
  split
  · rename_i hstate
    have hidle : w.keyer.state = .idle := hstate
    have hmark : w.keyer.state ≠ .mark := fun hm => nomatch hidle.symm.trans hm
    split
    · rename_i hdown
      generalize he : (if (w.keyer.holding phys).down .dit = true then Elem.dit else .dah) = e
      have heldown : (w.keyer.holding phys).down e = true := by
        subst he
        split
        · assumption
        · rename_i hno
          exact (Bool.or_eq_true_iff.1 hdown).resolve_left hno
      obtain ⟨hlinked, hsent, hsqueezed⟩ :=
        linked_startMark (r := r) phys hmark hticking e w.keyer.now w.keyer.latch
      refine ⟨hlinked, .start e hidle rfl rfl (hsent.trans ?_) hsqueezed heldown, rfl, rfl⟩
      show _ = w.sent ++ [.mark e (w.keyer.now + markS r e - markS r e)]
      rw [add_sub_cancel_right]
    · refine h.stay rfl rfl rfl rfl rfl (fun e he => ?_) fun hne => absurd hidle hne
      exact nomatch (h.elem.1 hidle).symm.trans he
  · rename_i hstate
    dsimp only
    split
    · exact h.beginSpace hstate hticking
    · refine h.stay rfl rfl rfl rfl rfl (fun e he => ?_) fun _ => hticking
      exact latch_sampleLatch_other (k := w.keyer.holding phys) he
  · rename_i hstate
    have hspace : w.keyer.state = .space := hstate
    have hmark : w.keyer.state ≠ .mark := fun hm => nomatch hspace.symm.trans hm
    dsimp only
    split
    · obtain ⟨e, helem⟩ := Option.ne_none_iff_exists'.1 fun hnone =>
        (nomatch hspace.symm.trans (h.elem.2 hnone) : False)
      have hnext := h.decide helem hphys
      split
      · rename_i hnone
        obtain ⟨hlinked, hsent⟩ := linked_rest (r := r) (k :=
          { (w.keyer.holding phys).sampleLatch with
            latch := fun _ => false, state := .idle, currentElem := none }) hspace rfl rfl
        exact ⟨hlinked, .rest e hspace rfl helem rfl (hnext.symm.trans hnone) hsent hphys, rfl,
          rfl⟩
      · rename_i e' hsome
        obtain ⟨hlinked, hsent, hsqueezed⟩ := linked_startMark (r := r) phys hmark
          hticking e' w.keyer.elemEndS (w.keyer.holding phys).sampleLatch.latch
        exact ⟨hlinked, .next e e' hspace rfl helem rfl (hnext.symm.trans hsome) rfl hsent
          hsqueezed hphys, rfl, rfl⟩
    · refine h.stay rfl rfl rfl rfl rfl (fun e he => ?_) fun _ => hticking
      exact latch_sampleLatch_other (k := w.keyer.holding phys) he

/-- The timer is looked at by nothing but the steps to come. -/
theorem Done.setTick {k : Keyer} {tickId : Bool} (h : Done r w (w.after r k))
    (htick : k.state ≠ .idle → tickId = k.tickId) : Done r w (w.after r { k with tickId }) := by
  obtain ⟨⟨helem, hlatch, hheld, hticking⟩, hmoves, hmode, hreversed⟩ := h
  refine ⟨⟨helem, hlatch, hheld, fun hne => (htick hne).trans (hticking hne)⟩, ?_, hmode,
    hreversed⟩
  cases hmoves with
  | stay h1 h2 h3 h4 h5 => exact .stay h1 h2 h3 h4 h5
  | space h1 h2 h3 h4 h5 h6 => exact .space h1 h2 h3 h4 h5 h6
  | start e h1 h2 h3 h4 h5 h6 => exact .start e h1 h2 h3 h4 h5 h6
  | next e e' h1 h2 h3 h4 h5 h6 h7 h8 h9 => exact .next e e' h1 h2 h3 h4 h5 h6 h7 h8 h9
  | rest e h1 h2 h3 h4 h5 h6 h7 => exact .rest e h1 h2 h3 h4 h5 h6 h7

theorem Linked.keyerTick (h : Linked w) (hmode : w.keyer.mode ≠ .straight)
    (hticking : w.keyer.tickId = true) : Done r w (w.after r (w.keyer.keyerTick r)) := by
  obtain ⟨tickId, htick, hrest⟩ := keyerTick_eq (r := r) w.keyer
  rw [htick]
  refine Done.setTick ?_ hrest
  obtain ⟨phys, hphys⟩ := stuckGuard_eq w.keyer w.keyer.now
  have hdown : ∀ e, (w.keyer.holding phys).down e = true → w.keyer.down e = true := by
    intro e he
    refine down_stuckGuard w.keyer.now ?_
    rw [hphys]
    exact he
  unfold Keyer.cwKeyerAdvance
  rw [if_neg hmode, hphys]
  exact h.advanceElement hdown hticking

/-- **A step**, while the settings are left alone. -/
theorem Linked.step (h : Linked w) {mode : KeyerMode} {reversed mox : Bool}
    (hmode : w.keyer.mode ≠ .straight) {l : Label} (hl : Keying l) {w' : Watch}
    (hstep : (watch r mode reversed mox).step w l = some w') : Done r w w' := by
  obtain ⟨k, hk, rfl⟩ := Option.map_eq_some_iff.1 hstep
  cases l with
  | paddle which pressed =>
    obtain rfl := Option.some.inj hk
    exact h.paddle hmode which pressed
  | setMode | toggleReversed => exact hl.elim
  | keyerTick =>
    obtain ⟨hticking, hk⟩ := Option.ite_none_right_eq_some.1 hk
    obtain rfl := Option.some.inj hk
    exact h.keyerTick hmode hticking
  | txTick =>
    obtain ⟨-, hk⟩ := Option.ite_none_right_eq_some.1 hk
    obtain rfl := Option.some.inj hk
    exact h.still _ _
  | elapse s =>
    obtain ⟨-, hk⟩ := Option.ite_none_right_eq_some.1 hk
    obtain rfl := Option.some.inj hk
    exact h.still _ _

end

end

/-! ## What is asked of the keyer -/

/-- A mark begins a space after the end of the one before, unless the keyer has rested. -/
def Spaced (r : Settings) : Sent → Sent → Prop
  | .mark e t, .mark _ t' => t' = t + markS r e + spaceS r
  | _, _ => True

/-- The element of a mark. -/
def Sent.elem : Sent → Option Elem
  | .mark e _ => some e
  | .rest => none

/-- The other element after one, and some element after a rest. -/
def Follows : Option Elem → Option Elem → Prop
  | some e, e' => e' = some e.other
  | none, e' => e'.isSome = true

/-- Both paddles are down. -/
def Keyer.BothDown (k : Keyer) : Prop := ∀ e, k.down e = true

/-- The label is a press of the paddle. -/
def Presses (p : Paddle) : Label → Prop
  | .paddle which true => which = p
  | _ => False

/-- A tick that finds the end of the mark or the space reached. -/
def Due (w : Watch) : Label → Prop
  | .keyerTick => w.keyer.state ≠ .idle ∧ w.keyer.elemEndS ≤ w.keyer.now
  | _ => False

instance : DecidableRel Due
  | _, .keyerTick => inferInstanceAs (Decidable (_ ∧ _))
  | _, .paddle .. | _, .setMode _ | _, .toggleReversed | _, .txTick | _, .elapse _ =>
    inferInstanceAs (Decidable False)

/-- What holds from a state of a watched run on. -/
structure Iambic (r : Settings) (mode : KeyerMode) (reversed mox : Bool) (w : Watch) : Prop where
  spaced : w.sent.IsChain (Spaced r)
  /-- While both paddles are down, the elements alternate. -/
  alternates : ∀ ls w', (watch r mode reversed mox).exec w ls = some w' →
    (watch r mode reversed mox).Along (fun w l => Keying l ∧
      ∀ w', (watch r mode reversed mox).step w l = some w' → w'.keyer.BothDown) w ls →
      ∃ new, w'.sent = w.sent ++ new ∧
        (w.keyer.currentElem :: new.map Sent.elem).IsChain Follows
  /-- The paddle of the other kind is heeded if it is down when the element is over. -/
  heeds : ∀ e l w', w.keyer.currentElem = some e →
    (watch r mode reversed mox).step w l = some w' → Keying l → w'.sent ≠ w.sent →
      w'.keyer.down e.other = true → ∃ t, w'.sent = w.sent ++ [.mark e.other t]
  /-- A paddle of the other kind that has been down and is left alone is sent once in mode B, next
  and after two ticks at the latest, and is not sent in mode A. -/
  tapped : ∀ e, w.keyer.currentElem = some e → w.squeezed = true →
    w.keyer.down e.other = false → ∀ ls w', (watch r mode reversed mox).exec w ls = some w' →
      (watch r mode reversed mox).Along (fun w l => Keying l ∧
        ¬ Presses (w.keyer.paddleOf e.other) l) w ls →
        ∃ new, w'.sent = w.sent ++ new ∧
          (2 ≤ (watch r mode reversed mox).countAlong Due w ls → new ≠ []) ∧
            (mode = .modeB → new = [] ∨ ∃ t later, new = .mark e.other t :: later ∧
              ∀ t', .mark e.other t' ∉ later) ∧
              (mode = .modeA → ∀ t, .mark e.other t ∉ new)
  /-- When both are left alone, in mode B the other element is sent and nothing after it, and in
  mode A nothing. -/
  released : ∀ e, w.keyer.currentElem = some e → w.squeezed = true →
    (∀ x, w.keyer.down x = false) → ∀ ls w',
      (watch r mode reversed mox).exec w ls = some w' →
        (watch r mode reversed mox).Along (fun _ l => Keying l ∧ ∀ p, ¬ Presses p l) w ls →
          ∃ new, w'.sent = w.sent ++ new ∧
            (mode = .modeB → ∃ t, new <+: [.mark e.other t, .rest] ∧
              (4 ≤ (watch r mode reversed mox).countAlong Due w ls →
                new = [.mark e.other t, .rest])) ∧
              (mode = .modeA → new <+: [.rest] ∧
                (2 ≤ (watch r mode reversed mox).countAlong Due w ls → new = [.rest]))

section

variable {r : Settings} {w w' : Watch}

/-! ## The schedule -/

/-- The marks so far are a space apart, and the next one will be. -/
structure Scheduled (r : Settings) (w : Watch) : Prop where
  spaced : w.sent.IsChain (Spaced r)
  last : ∀ e t, w.sent.getLast? = some (.mark e t) → w.keyer.state ≠ .idle ∧
    (w.keyer.state = .mark → w.keyer.elemEndS = t + markS r e) ∧
      (w.keyer.state = .space → w.keyer.elemEndS = t + markS r e + spaceS r)

theorem isChain_concat {α : Type*} {R : α → α → Prop} {l : List α} {y : α} (h : l.IsChain R)
    (hlast : ∀ x, l.getLast? = some x → R x y) : (l ++ [y]).IsChain R := by
  refine h.append (List.isChain_singleton y) fun x hx z hz => ?_
  obtain rfl := Option.some.inj hz
  exact hlast x hx

theorem Scheduled.moves (h : Scheduled r w) (hmoves : Moves r w w') : Scheduled r w' := by
  cases hmoves with
  | stay hsent helem hsqueezed hstate hend =>
    refine ⟨hsent ▸ h.spaced, ?_⟩
    rw [hsent, hstate, hend]
    exact h.last
  | space hsent helem hsqueezed hstate hstate' hend =>
    refine ⟨hsent ▸ h.spaced, fun e t hlast => ?_⟩
    rw [hsent] at hlast
    obtain ⟨-, hmark, -⟩ := h.last e t hlast
    rw [hstate', hend, hmark hstate]
    exact ⟨nofun, nofun, fun _ => rfl⟩
  | start e hstate hstate' helem hsent hsqueezed hdown =>
    constructor
    · rw [hsent]
      refine isChain_concat h.spaced fun x hx => ?_
      cases x with
      | mark e' t' => exact absurd hstate (h.last e' t' hx).1
      | rest => trivial
    · intro e' t' hlast
      rw [hsent, List.getLast?_concat] at hlast
      obtain ⟨rfl, rfl⟩ := Sent.mark.inj (Option.some.inj hlast)
      rw [hstate']
      exact ⟨nofun, fun _ => (sub_add_cancel ..).symm, nofun⟩
  | next e e' hstate hstate' helem helem' hnext hend hsent hsqueezed hheld =>
    constructor
    · rw [hsent]
      refine isChain_concat h.spaced fun x hx => ?_
      cases x with
      | mark e' t' => exact (h.last e' t' hx).2.2 hstate
      | rest => trivial
    · intro e'' t' hlast
      rw [hsent, List.getLast?_concat] at hlast
      obtain ⟨rfl, rfl⟩ := Sent.mark.inj (Option.some.inj hlast)
      rw [hstate']
      exact ⟨nofun, fun _ => hend, nofun⟩
  | rest e hstate hstate' helem helem' hnext hsent hheld =>
    constructor
    · rw [hsent]
      refine isChain_concat h.spaced fun x hx => ?_
      cases x <;> trivial
    · intro e' t' hlast
      rw [hsent, List.getLast?_concat] at hlast
      cases hlast

/-! ## Steps of a run -/

variable {mode : KeyerMode} {reversed mox : Bool} {l : Label}

theorem down_advanceElement (k : Keyer) (nowS : ℚ) (e : Elem) :
    (k.advanceElement r nowS).down e = k.down e := by
  unfold Keyer.advanceElement
  split
  · split <;> cases e <;> rfl
  · dsimp only
    split <;> cases e <;> rfl
  · dsimp only
    split
    · split <;> cases e <;> rfl
    · cases e <;> rfl

theorem state_advanceElement {k : Keyer} {nowS : ℚ} (hstate : k.state ≠ .idle)
    (hend : k.elemEndS ≤ nowS) : (k.advanceElement r nowS).state ≠ k.state := by
  unfold Keyer.advanceElement
  split
  · rename_i hidle
    exact absurd hidle hstate
  · rename_i hmark
    dsimp only
    rw [if_pos (show nowS ≥ k.sampleLatch.elemEndS from hend), hmark]
    exact nofun
  · rename_i hspace
    dsimp only
    rw [if_pos (show nowS ≥ k.sampleLatch.elemEndS from hend), hspace]
    split <;> exact nofun

/-- A due tick ends the mark or the space. -/
theorem state_ne_of_due (hmode : w.keyer.mode ≠ .straight) (hdue : Due w l)
    (hstep : (watch r mode reversed mox).step w l = some w') :
    w'.keyer.state ≠ w.keyer.state := by
  obtain ⟨k, hk, rfl⟩ := Option.map_eq_some_iff.1 hstep
  cases l with
  | keyerTick =>
    obtain ⟨hstate, hend⟩ := hdue
    obtain ⟨-, hk⟩ := Option.ite_none_right_eq_some.1 hk
    obtain rfl := Option.some.inj hk
    obtain ⟨tickId, htick, -⟩ := keyerTick_eq (r := r) w.keyer
    obtain ⟨phys, hphys⟩ := stuckGuard_eq w.keyer w.keyer.now
    show (w.keyer.keyerTick r).state ≠ _
    rw [htick]
    show (w.keyer.cwKeyerAdvance r w.keyer.now).state ≠ _
    unfold Keyer.cwKeyerAdvance
    rw [if_neg hmode, hphys]
    exact state_advanceElement (k := w.keyer.holding phys) hstate hend
  | paddle | setMode | toggleReversed | txTick | elapse => exact hdue.elim

theorem down_eq_phys (k : Keyer) (e : Elem) : k.down e = k.phys (k.paddleOf e) := by
  cases e <;> rfl

/-- A paddle is down after a step only if it was down before, or has been pressed. -/
theorem down_step {e : Elem} (hmode : w.keyer.mode ≠ .straight) (hl : Keying l)
    (hstep : (watch r mode reversed mox).step w l = some w') (hdown : w'.keyer.down e = true) :
    w.keyer.down e = true ∨ Presses (w.keyer.paddleOf e) l := by
  obtain ⟨k, hk, rfl⟩ := Option.map_eq_some_iff.1 hstep
  cases l with
  | paddle which pressed =>
    obtain rfl := Option.some.inj hk
    have hphys : ((w.keyer.touch which pressed).cwKeyerPaddle r which pressed).down e =
        Function.update w.keyer.phys which pressed (w.keyer.paddleOf e) := by
      unfold Keyer.cwKeyerPaddle
      dsimp only
      rw [if_neg (show (w.keyer.touch which pressed).mode ≠ .straight from hmode), down_eq_phys]
      cases pressed <;> cases e <;> rfl
    have hnow := hphys.symm.trans hdown
    by_cases hwhich : w.keyer.paddleOf e = which
    · rw [hwhich, Function.update_self] at hnow
      subst hnow
      exact .inr hwhich.symm
    · rw [Function.update_of_ne hwhich] at hnow
      exact .inl ((down_eq_phys w.keyer e).trans hnow)
  | setMode | toggleReversed => exact hl.elim
  | keyerTick =>
    obtain ⟨-, hk⟩ := Option.ite_none_right_eq_some.1 hk
    obtain rfl := Option.some.inj hk
    obtain ⟨tickId, htick, -⟩ := keyerTick_eq (r := r) w.keyer
    have hdone : Keyer.down (w.keyer.cwKeyerAdvance r w.keyer.now) e = true := by
      have h := hdown
      rw [show (w.keyer.keyerTick r) = _ from htick] at h
      cases e <;> exact h
    unfold Keyer.cwKeyerAdvance at hdone
    rw [if_neg hmode, down_advanceElement] at hdone
    exact .inl (down_stuckGuard _ hdone)
  | txTick =>
    obtain ⟨-, hk⟩ := Option.ite_none_right_eq_some.1 hk
    obtain rfl := Option.some.inj hk
    exact .inl hdown
  | elapse s =>
    obtain ⟨-, hk⟩ := Option.ite_none_right_eq_some.1 hk
    obtain rfl := Option.some.inj hk
    exact .inl hdown

/-! ## Runs -/

/-- What holds of the first state, of a number of steps and of the last state, if every step keeps
it. -/
theorem Linked.run (hlinked : Linked w) (hmode : w.keyer.mode = mode) (hiambic : mode ≠ .straight)
    {Q : Watch → Label → Prop} (hQ : ∀ u l, Q u l → Keying l) {I : ℕ → Watch → Prop}
    (hstep : ∀ n u l v, Linked u → u.keyer.mode = mode → I n u → Q u l → Done r u v →
      (watch r mode reversed mox).step u l = some v →
        (Due u l → v.keyer.state ≠ u.keyer.state) → I (n + if Due u l then 1 else 0) v)
    {ls : List Label} (hI : I 0 w) (halong : (watch r mode reversed mox).Along Q w ls)
    (hrun : (watch r mode reversed mox).exec w ls = some w') :
    Linked w' ∧ I ((watch r mode reversed mox).countAlong Due w ls) w' := by
  have hrule := (watch r mode reversed mox).exec_induction_count_along (P := Due) (Q := Q)
    (I := fun n u => Linked u ∧ u.keyer.mode = mode ∧ I n u)
    (fun n u l v ⟨hu, hum, hI⟩ hq huv => by
      have hdone := hu.step (hum ▸ hiambic) (hQ u l hq) huv
      exact ⟨hdone.linked, hdone.mode.trans hum, hstep n u l v hu hum hI hq hdone huv
        fun hdue => state_ne_of_due (hum ▸ hiambic) hdue huv⟩)
    ls 0 w w' ⟨hlinked, hmode, hI⟩ halong hrun
  rw [Nat.zero_add] at hrule
  exact ⟨hrule.1, hrule.2.2⟩

/-- The ends that a mark and a space have yet to reach. -/
def owed : KeyerState → ℕ
  | .mark => 2
  | .space => 1
  | .idle => 0

/-- While nothing is sent, each due tick reaches an end. -/
theorem owed_moves (hmoves : Moves r w w') (hsent : w'.sent = w.sent)
    (hdue : Due w l → w'.keyer.state ≠ w.keyer.state) :
    w'.keyer.currentElem = w.keyer.currentElem ∧
      w'.squeezed = (w'.keyer.otherDown || w.squeezed) ∧
        owed w'.keyer.state + (if Due w l then 1 else 0) ≤ owed w.keyer.state := by
  have hlonger {x : Sent} (h : w'.sent = w.sent ++ [x]) : False := by
    have hlength := congrArg List.length (hsent.symm.trans h)
    rw [List.length_append, List.length_singleton] at hlength
    omega
  cases hmoves with
  | stay _ helem hsqueezed hstate _ =>
    refine ⟨helem, hsqueezed, ?_⟩
    rw [if_neg fun h => hdue h hstate, hstate, Nat.add_zero]
  | space _ helem hsqueezed hstate hstate' _ =>
    refine ⟨helem, hsqueezed, ?_⟩
    rw [hstate, hstate']
    show 1 + _ ≤ 2
    split <;> omega
  | start e _ _ _ h => exact (hlonger h).elim
  | next e e' _ _ _ _ _ _ h => exact (hlonger h).elim
  | rest e _ _ _ _ _ h => exact (hlonger h).elim

theorem nextElem_eq_some {squeezed : Bool} {down : Elem → Bool} {e e' : Elem}
    (h : nextElem mode squeezed down e = some e') :
    e' = e.other ∧ squeezed = true ∧ (mode = .modeB ∨ down e.other = true) ∨
      e' = e ∧ down e = true := by
  unfold nextElem at h
  split at h
  · rename_i hother
    obtain ⟨hsqueezed, hheed⟩ := Bool.and_eq_true_iff.1 hother
    rw [Bool.or_eq_true, decide_eq_true_eq] at hheed
    exact .inl ⟨(Option.some.inj h).symm, hsqueezed, hheed⟩
  · split at h
    · rename_i hdown
      exact .inr ⟨(Option.some.inj h).symm, hdown⟩
    · cases h

theorem nextElem_of_heeded {squeezed : Bool} {down : Elem → Bool} {e : Elem}
    (hsqueezed : squeezed = true) (hheed : mode = .modeB ∨ down e.other = true) :
    nextElem mode squeezed down e = some e.other := by
  refine if_pos ?_
  rw [hsqueezed, Bool.true_and, Bool.or_eq_true, decide_eq_true_eq]
  exact hheed

theorem otherDown_eq {k : Keyer} {e : Elem} (h : k.currentElem = some e) :
    k.otherDown = k.down e.other := by
  unfold Keyer.otherDown
  rw [h]

theorem Elem.other_ne (e : Elem) : e.other ≠ e := by cases e <;> exact nofun

theorem Elem.eq_of_other_eq {e e' : Elem} (h : e.other = e'.other) : e = e' := by
  cases e <;> cases e' <;> first | rfl | cases h

/-- At the end of an element the paddle of the other kind has been seen if it is down. -/
theorem Linked.heeded (h : Linked w) {e : Elem} (helem : w.keyer.currentElem = some e)
    (hheld : ∀ x, w'.keyer.down x = true → w.keyer.down x = true)
    (hdown : w'.keyer.down e.other = true) :
    nextElem w.keyer.mode w.squeezed w'.keyer.down e = some e.other :=
  nextElem_of_heeded (h.held ((otherDown_eq helem).trans (hheld _ hdown))) (.inr hdown)

theorem Linked.heeds (h : Linked w) (hmode : w.keyer.mode ≠ .straight) {e : Elem}
    (helem : w.keyer.currentElem = some e)
    (hstep : (watch r mode reversed mox).step w l = some w') (hl : Keying l)
    (hsent : w'.sent ≠ w.sent) (hdown : w'.keyer.down e.other = true) :
    ∃ t, w'.sent = w.sent ++ [.mark e.other t] := by
  cases (h.step hmode hl hstep).moves with
  | stay hsame _ _ _ _ => exact absurd hsame hsent
  | space hsame _ _ _ _ _ => exact absurd hsame hsent
  | start e' hidle _ _ _ _ _ => exact nomatch (h.elem.1 hidle).symm.trans helem
  | next e₁ e₂ _ _ helem₁ _ hnext _ hsent' _ hheld =>
    obtain rfl := Option.some.inj (helem₁.symm.trans helem)
    obtain rfl := Option.some.inj (hnext.symm.trans (h.heeded helem hheld hdown))
    exact ⟨_, hsent'⟩
  | rest e₁ _ _ helem₁ _ hnext _ hheld =>
    obtain rfl := Option.some.inj (helem₁.symm.trans helem)
    exact nomatch hnext.symm.trans (h.heeded helem hheld hdown)

/-- What has been sent since a state alternates, and ends with the current element. -/
def Alternating (w u : Watch) : Prop := ∃ new, u.sent = w.sent ++ new ∧
  (w.keyer.currentElem :: new.map Sent.elem).IsChain Follows ∧
    (w.keyer.currentElem :: new.map Sent.elem).getLast? = some u.keyer.currentElem

theorem Alternating.mark {u v : Watch} (h : Alternating w u) {e : Elem} {t : ℚ}
    (hsent : v.sent = u.sent ++ [.mark e t]) (helem : v.keyer.currentElem = some e)
    (hfollows : Follows u.keyer.currentElem (some e)) : Alternating w v := by
  obtain ⟨new, hnew, hchain, hlast⟩ := h
  have happend : w.keyer.currentElem :: (new ++ [Sent.mark e t]).map Sent.elem =
      (w.keyer.currentElem :: new.map Sent.elem) ++ [some e] := by
    rw [List.map_append, List.cons_append]
    rfl
  refine ⟨new ++ [.mark e t], by rw [hsent, hnew, List.append_assoc], ?_, ?_⟩
  · rw [happend]
    refine isChain_concat hchain fun x hx => ?_
    obtain rfl := Option.some.inj (hlast.symm.trans hx)
    exact hfollows
  · rw [happend, List.getLast?_concat, helem]

/-- **Alternation**, while both paddles are down. -/
theorem Linked.alternates (h : Linked w) (hmode : w.keyer.mode = mode)
    (hiambic : mode ≠ .straight) {ls : List Label}
    (hrun : (watch r mode reversed mox).exec w ls = some w')
    (halong : (watch r mode reversed mox).Along (fun w l => Keying l ∧
      ∀ w', (watch r mode reversed mox).step w l = some w' → w'.keyer.BothDown) w ls) :
    ∃ new, w'.sent = w.sent ++ new ∧
      (w.keyer.currentElem :: new.map Sent.elem).IsChain Follows := by
  have hrule := h.run hmode hiambic (fun _ _ hq => hq.1) (I := fun _ u => Alternating w u)
    (fun n u l v hu hum hI hq hdone hstep _ => by
      have hboth := hq.2 v hstep
      cases hdone.moves with
      | stay hsent helem _ _ _ | space hsent helem _ _ _ _ =>
        unfold Alternating
        rw [hsent, helem]
        exact hI
      | start e hidle _ helem hsent _ _ =>
        refine hI.mark hsent helem ?_
        rw [hu.elem.1 hidle]
        rfl
      | next e e' _ _ helem helem' hnext _ hsent _ hheld =>
        obtain rfl := Option.some.inj (hnext.symm.trans (hu.heeded helem hheld (hboth _)))
        refine hI.mark hsent helem' ?_
        rw [helem]
        rfl
      | rest e _ _ helem _ hnext _ hheld =>
        exact nomatch hnext.symm.trans (hu.heeded helem hheld (hboth _)))
    ⟨[], (List.append_nil _).symm, List.isChain_singleton _, rfl⟩ halong hrun
  obtain ⟨-, new, hsent, hchain, -⟩ := hrule
  exact ⟨new, hsent, hchain⟩

/-- Since a state in an element `e`, of which the paddle of the other kind has been seen and let go:
what has been sent, and what the keyer remembers of it. -/
structure Tapped (mode : KeyerMode) (e : Elem) (n : ℕ) (new : List Sent) (u : Watch) : Prop where
  up : u.keyer.down e.other = false
  waiting : new = [] → u.keyer.currentElem = some e ∧ u.squeezed = true ∧ n + owed u.keyer.state ≤ 2
  modeB : mode = .modeB → new ≠ [] → (∃ t later, new = .mark e.other t :: later ∧
    ∀ t', .mark e.other t' ∉ later) ∧ (u.keyer.currentElem = some e → u.squeezed = false)
  modeA : mode = .modeA → (∀ t, .mark e.other t ∉ new) ∧ u.keyer.currentElem ≠ some e.other

variable {e : Elem} {n : ℕ} {new : List Sent} {u v : Watch}

/-- Nothing is sent. -/
theorem Tapped.quiet (h : Tapped mode e n new u) (hup : v.keyer.down e.other = false)
    (hmoves : Moves r u v) (hsent : v.sent = u.sent)
    (hdue : Due u l → v.keyer.state ≠ u.keyer.state) :
    Tapped mode e (n + if Due u l then 1 else 0) new v := by
  obtain ⟨helem, hsqueezed, howed⟩ := owed_moves hmoves hsent hdue
  have hsame (hcurrent : u.keyer.currentElem = some e) : v.squeezed = u.squeezed := by
    rw [hsqueezed, otherDown_eq (helem.trans hcurrent), hup, Bool.false_or]
  refine ⟨hup, fun hnil => ?_, fun hB hne => ?_, fun hA => ?_⟩
  · obtain ⟨hcurrent, hseen, hle⟩ := h.waiting hnil
    exact ⟨helem.trans hcurrent, (hsame hcurrent).trans hseen, by omega⟩
  · obtain ⟨hfirst, hforgot⟩ := h.modeB hB hne
    refine ⟨hfirst, fun hcurrent => ?_⟩
    rw [helem] at hcurrent
    exact (hsame hcurrent).trans (hforgot hcurrent)
  · rw [helem]
    exact h.modeA hA

/-- A mark is sent that is not of the paddle that was let go. -/
theorem Tapped.other (h : Tapped mode e n new u) (hup : v.keyer.down e.other = false) {e' : Elem}
    {t : ℚ} (hne : new ≠ [] ∨ mode = .modeA) (he' : e' ≠ e.other)
    (helem : v.keyer.currentElem = some e') (hsqueezed : v.squeezed = v.keyer.otherDown) (m : ℕ) :
    Tapped mode e m (new ++ [.mark e' t]) v := by
  have hnot (t' : ℚ) : Sent.mark e.other t' ≠ .mark e' t := fun h => he' (Sent.mark.inj h).1.symm
  refine ⟨hup, fun hnil => by simp at hnil, fun hB _ => ?_, fun hA => ?_⟩
  · obtain ⟨⟨t₀, later, rfl, hlater⟩, -⟩ := h.modeB hB (hne.resolve_right (hB ▸ nofun))
    refine ⟨⟨t₀, later ++ [.mark e' t], rfl, fun t' hmem => ?_⟩, fun hcurrent => ?_⟩
    · rcases List.mem_append.1 hmem with hmem | hmem
      · exact hlater t' hmem
      · exact hnot t' (List.mem_singleton.1 hmem)
    · rw [hsqueezed, otherDown_eq hcurrent, hup]
  · refine ⟨fun t' hmem => ?_, fun hcurrent => he' (Option.some.inj (helem.symm.trans hcurrent))⟩
    rcases List.mem_append.1 hmem with hmem | hmem
    · exact (h.modeA hA).1 t' hmem
    · exact hnot t' (List.mem_singleton.1 hmem)

/-- The keyer comes to rest. -/
theorem Tapped.rest (h : Tapped mode e n new u) (hup : v.keyer.down e.other = false)
    (hne : new ≠ [] ∨ mode = .modeA) (helem : v.keyer.currentElem = none) (m : ℕ) :
    Tapped mode e m (new ++ [.rest]) v := by
  refine ⟨hup, fun hnil => by simp at hnil, fun hB _ => ?_, fun hA => ?_⟩
  · obtain ⟨⟨t₀, later, rfl, hlater⟩, -⟩ := h.modeB hB (hne.resolve_right (hB ▸ nofun))
    refine ⟨⟨t₀, later ++ [.rest], rfl, fun t' hmem => ?_⟩, fun hcurrent =>
      nomatch helem.symm.trans hcurrent⟩
    rcases List.mem_append.1 hmem with hmem | hmem
    · exact hlater t' hmem
    · exact nomatch List.mem_singleton.1 hmem
  · refine ⟨fun t' hmem => ?_, fun hcurrent => nomatch helem.symm.trans hcurrent⟩
    rcases List.mem_append.1 hmem with hmem | hmem
    · exact (h.modeA hA).1 t' hmem
    · exact nomatch List.mem_singleton.1 hmem

/-- In mode B the other element is due. -/
theorem Tapped.next (h : Tapped mode e n new u) (hAB : mode = .modeA ∨ mode = .modeB) {e₁ : Elem}
    (helem : u.keyer.currentElem = some e₁) (down : Elem → Bool) :
    (new ≠ [] ∨ mode = .modeA) ∨ nextElem mode u.squeezed down e₁ = some e.other := by
  by_cases hnil : new = []
  · rcases hAB with rfl | rfl
    · exact .inl (.inr rfl)
    · obtain ⟨hcurrent, hseen, -⟩ := h.waiting hnil
      obtain rfl := Option.some.inj (helem.symm.trans hcurrent)
      exact .inr (nextElem_of_heeded hseen (.inl rfl))
  · exact .inl (.inl hnil)

/-- One step. -/
theorem Tapped.moves (h : Tapped mode e n new u) (hu : Linked u) (hmode : u.keyer.mode = mode)
    (hAB : mode = .modeA ∨ mode = .modeB) (hup : v.keyer.down e.other = false)
    (hmoves : Moves r u v) (hdue : Due u l → v.keyer.state ≠ u.keyer.state) :
    ∃ more, v.sent = u.sent ++ more ∧
      Tapped mode e (n + if Due u l then 1 else 0) (new ++ more) v := by
  have hquiet (hsent : v.sent = u.sent) : ∃ more, v.sent = u.sent ++ more ∧
      Tapped mode e (n + if Due u l then 1 else 0) (new ++ more) v := by
    refine ⟨[], by rw [hsent, List.append_nil], ?_⟩
    rw [List.append_nil]
    exact h.quiet hup hmoves hsent hdue
  cases hmoves with
  | stay hsent _ _ _ _ => exact hquiet hsent
  | space hsent _ _ _ _ _ => exact hquiet hsent
  | start e' hidle _ helem hsent hsqueezed hdown =>
    have hne : new ≠ [] := fun hnil =>
      nomatch (hu.elem.1 hidle).symm.trans (h.waiting hnil).1
    have he' : e' ≠ e.other := fun heq => nomatch (heq ▸ hdown).symm.trans hup
    exact ⟨_, hsent, h.other hup (.inl hne) he' helem hsqueezed _⟩
  | next e₁ e₂ _ _ helem helem' hnext _ hsent hsqueezed _ =>
    refine ⟨_, hsent, ?_⟩
    rw [hmode] at hnext
    by_cases he₂ : e₂ = e.other
    · -- the tapped element comes next, and it has not been sent before
      subst he₂
      rcases nextElem_eq_some hnext with ⟨hother, hseen, hheed⟩ | ⟨hsame, hdown⟩
      · obtain rfl := Elem.eq_of_other_eq hother
        rcases hheed with rfl | hdown
        · have hnil : new = [] := by
            by_contra hne
            exact nomatch ((h.modeB rfl hne).2 helem).symm.trans hseen
          subst hnil
          refine ⟨hup, nofun, fun _ _ => ⟨⟨_, [], rfl, nofun⟩, fun hcurrent => ?_⟩, nofun⟩
          exact absurd (Option.some.inj (helem'.symm.trans hcurrent)) e.other_ne
        · exact nomatch hdown.symm.trans hup
      · rw [hsame, hdown] at hup
        cases hup
    · refine h.other hup ((h.next hAB helem v.keyer.down).resolve_right fun hother => ?_) he₂
        helem' hsqueezed _
      exact he₂ (Option.some.inj (hnext.symm.trans hother))
  | rest e₁ _ _ helem helem' hnext hsent _ =>
    rw [hmode] at hnext
    exact ⟨_, hsent, h.rest hup ((h.next hAB helem v.keyer.down).resolve_right fun hother =>
      nomatch hnext.symm.trans hother) helem' _⟩

/-- **A tap** is sent once in mode B, and not at all in mode A. -/
theorem Linked.tapped (h : Linked w) (hmode : w.keyer.mode = mode)
    (hAB : mode = .modeA ∨ mode = .modeB) (helem : w.keyer.currentElem = some e)
    (hseen : w.squeezed = true) (hup : w.keyer.down e.other = false) {ls : List Label}
    (hrun : (watch r mode reversed mox).exec w ls = some w')
    (halong : (watch r mode reversed mox).Along (fun w l => Keying l ∧
      ¬ Presses (w.keyer.paddleOf e.other) l) w ls) :
    ∃ new, w'.sent = w.sent ++ new ∧
      (2 ≤ (watch r mode reversed mox).countAlong Due w ls → new ≠ []) ∧
        (mode = .modeB → new = [] ∨ ∃ t later, new = .mark e.other t :: later ∧
          ∀ t', .mark e.other t' ∉ later) ∧
          (mode = .modeA → ∀ t, .mark e.other t ∉ new) := by
  have hiambic : mode ≠ .straight := by rcases hAB with rfl | rfl <;> exact nofun
  have hstart : Tapped mode e 0 [] w := ⟨hup, fun _ => ⟨helem, hseen, by
    cases w.keyer.state <;> decide⟩, fun _ hne => absurd rfl hne, fun _ => ⟨nofun, fun hcurrent =>
      e.other_ne (Option.some.inj (hcurrent.symm.trans helem))⟩⟩
  obtain ⟨hlinked, new, hsent, htapped⟩ := h.run hmode hiambic (fun _ _ hq => hq.1)
    (I := fun n u => ∃ new, u.sent = w.sent ++ new ∧ Tapped mode e n new u)
    (fun n u l v hu hum ⟨new, hnew, htapped⟩ hq hdone hstep hdue => by
      have hup' : v.keyer.down e.other = false := by
        by_contra hdown
        rw [Bool.not_eq_false] at hdown
        rcases down_step (hum ▸ hiambic) hq.1 hstep hdown with hbefore | hpress
        · exact nomatch hbefore.symm.trans htapped.up
        · exact hq.2 hpress
      obtain ⟨more, hmore, htapped'⟩ := htapped.moves hu hum hAB hup' hdone.moves hdue
      exact ⟨new ++ more, by rw [hmore, hnew, List.append_assoc], htapped'⟩)
    ⟨[], (List.append_nil _).symm, hstart⟩ halong hrun
  refine ⟨new, hsent, fun htwo hnil => ?_, fun hB => ?_, fun hA => (htapped.modeA hA).1⟩
  · obtain ⟨hcurrent, -, howed⟩ := htapped.waiting hnil
    have hidle : w'.keyer.state = .idle := by
      cases hstate : w'.keyer.state with
      | idle => rfl
      | mark | space =>
        rw [hstate] at howed
        simp only [owed] at howed
        omega
    cases (hlinked.elem.1 hidle).symm.trans hcurrent
  · by_cases hnil : new = []
    · exact .inl hnil
    · exact .inr (htapped.modeB hB hnil).1

/-- Since a state in an element `e` with both paddles up, of which the other has been seen. -/
structure Released (mode : KeyerMode) (e : Elem) (n : ℕ) (new : List Sent) (u : Watch) : Prop where
  up : ∀ x, u.keyer.down x = false
  modeB : mode = .modeB →
    new = [] ∧ u.keyer.currentElem = some e ∧ u.squeezed = true ∧ n + owed u.keyer.state ≤ 2 ∨
    (∃ t, new = [.mark e.other t]) ∧ u.keyer.currentElem = some e.other ∧ u.squeezed = false ∧
      n + owed u.keyer.state ≤ 4 ∨
    (∃ t, new = [.mark e.other t, .rest]) ∧ u.keyer.currentElem = none
  modeA : mode = .modeA →
    new = [] ∧ u.keyer.currentElem = some e ∧ n + owed u.keyer.state ≤ 2 ∨
    new = [.rest] ∧ u.keyer.currentElem = none

theorem Released.quiet (h : Released mode e n new u) (hup : ∀ x, v.keyer.down x = false)
    (hmoves : Moves r u v) (hsent : v.sent = u.sent)
    (hdue : Due u l → v.keyer.state ≠ u.keyer.state) :
    Released mode e (n + if Due u l then 1 else 0) new v := by
  obtain ⟨helem, hsqueezed, howed⟩ := owed_moves hmoves hsent hdue
  have hother : v.keyer.otherDown = false := by
    unfold Keyer.otherDown
    split
    · exact hup _
    · rfl
  rw [hother, Bool.false_or] at hsqueezed
  refine ⟨hup, fun hB => ?_, fun hA => ?_⟩
  · rw [helem, hsqueezed]
    rcases h.modeB hB with ⟨h1, h2, h3, h4⟩ | ⟨h1, h2, h3, h4⟩ | h1
    · exact .inl ⟨h1, h2, h3, by omega⟩
    · exact .inr (.inl ⟨h1, h2, h3, by omega⟩)
    · exact .inr (.inr h1)
  · rw [helem]
    rcases h.modeA hA with ⟨h1, h2, h3⟩ | h1
    · exact .inl ⟨h1, h2, by omega⟩
    · exact .inr h1

theorem nextElem_of_up {squeezed : Bool} {down : Elem → Bool} {e : Elem}
    (hup : ∀ x, down x = false) (hno : squeezed = false ∨ mode = .modeA) :
    nextElem mode squeezed down e = none := by
  unfold nextElem
  rw [hup, hup]
  rcases hno with rfl | rfl
  · simp
  · cases squeezed <;> simp

theorem Released.moves (h : Released mode e n new u) (hmode : u.keyer.mode = mode)
    (hup : ∀ x, v.keyer.down x = false) (hmoves : Moves r u v)
    (hdue : Due u l → v.keyer.state ≠ u.keyer.state) :
    ∃ more, v.sent = u.sent ++ more ∧
      Released mode e (n + if Due u l then 1 else 0) (new ++ more) v := by
  have hquiet (hsent : v.sent = u.sent) : ∃ more, v.sent = u.sent ++ more ∧
      Released mode e (n + if Due u l then 1 else 0) (new ++ more) v := by
    refine ⟨[], by rw [hsent, List.append_nil], ?_⟩
    rw [List.append_nil]
    exact h.quiet hup hmoves hsent hdue
  have hone : (if Due u l then 1 else 0) ≤ 1 := by split <;> decide
  cases hmoves with
  | stay hsent _ _ _ _ => exact hquiet hsent
  | space hsent _ _ _ _ _ => exact hquiet hsent
  | start e' _ _ _ _ _ hdown => exact nomatch hdown.symm.trans (hup e')
  | next e₁ e₂ hspace hmark helem helem' hnext _ hsent hsqueezed _ =>
    refine ⟨_, hsent, hup, fun hB => ?_, fun hA => ?_⟩
    · rw [hmode] at hnext
      rcases h.modeB hB with ⟨rfl, hcurrent, hseen, howed⟩ | ⟨-, hcurrent, hseen, -⟩ | ⟨-, hnone⟩
      · obtain rfl := Option.some.inj (helem.symm.trans hcurrent)
        obtain rfl := Option.some.inj (hnext.symm.trans (nextElem_of_heeded hseen (.inl hB)))
        rw [hspace] at howed
        refine .inr (.inl ⟨⟨_, rfl⟩, helem', ?_, ?_⟩)
        · rw [hsqueezed, otherDown_eq helem', hup]
        · rw [hmark]
          simp only [owed] at howed ⊢
          omega
      · exact nomatch hnext.symm.trans (nextElem_of_up hup (.inl hseen))
      · exact nomatch helem.symm.trans hnone
    · rw [hmode] at hnext
      exact nomatch hnext.symm.trans (nextElem_of_up hup (.inr hA))
  | rest e₁ _ _ helem helem' hnext hsent _ =>
    refine ⟨_, hsent, hup, fun hB => ?_, fun hA => ?_⟩
    · rw [hmode] at hnext
      rcases h.modeB hB with ⟨-, -, hseen, -⟩ | ⟨⟨t, rfl⟩, -⟩ | ⟨-, hnone⟩
      · exact nomatch hnext.symm.trans (nextElem_of_heeded hseen (.inl hB))
      · exact .inr (.inr ⟨⟨t, rfl⟩, helem'⟩)
      · exact nomatch helem.symm.trans hnone
    · rcases h.modeA hA with ⟨rfl, -⟩ | ⟨-, hnone⟩
      · exact .inr ⟨rfl, helem'⟩
      · exact nomatch helem.symm.trans hnone

/-- **Both paddles up**: in mode B one more element, and in mode A none. -/
theorem Linked.released (h : Linked w) (hmode : w.keyer.mode = mode) (hiambic : mode ≠ .straight)
    (helem : w.keyer.currentElem = some e) (hseen : w.squeezed = true)
    (hup : ∀ x, w.keyer.down x = false) {ls : List Label}
    (hrun : (watch r mode reversed mox).exec w ls = some w')
    (halong : (watch r mode reversed mox).Along
      (fun _ l => Keying l ∧ ∀ p, ¬ Presses p l) w ls) :
    ∃ new, w'.sent = w.sent ++ new ∧
      (mode = .modeB → ∃ t, new <+: [.mark e.other t, .rest] ∧
        (4 ≤ (watch r mode reversed mox).countAlong Due w ls →
          new = [.mark e.other t, .rest])) ∧
        (mode = .modeA → new <+: [.rest] ∧
          (2 ≤ (watch r mode reversed mox).countAlong Due w ls → new = [.rest])) := by
  have htwo (s : KeyerState) : 0 + owed s ≤ 2 := by cases s <;> decide
  have hstart : Released mode e 0 [] w := ⟨hup, fun _ => .inl ⟨rfl, helem, hseen, htwo _⟩,
    fun _ => .inl ⟨rfl, helem, htwo _⟩⟩
  obtain ⟨hlinked, new, hsent, hreleased⟩ := h.run hmode hiambic (fun _ _ hq => hq.1)
    (I := fun n u => ∃ new, u.sent = w.sent ++ new ∧ Released mode e n new u)
    (fun n u l v hu hum ⟨new, hnew, hreleased⟩ hq hdone hstep hdue => by
      have hup' (x : Elem) : v.keyer.down x = false := by
        by_contra hdown
        rw [Bool.not_eq_false] at hdown
        rcases down_step (hum ▸ hiambic) hq.1 hstep hdown with hbefore | hpress
        · exact nomatch hbefore.symm.trans (hreleased.up x)
        · exact hq.2 _ hpress
      obtain ⟨more, hmore, hreleased'⟩ := hreleased.moves hum hup' hdone.moves hdue
      exact ⟨new ++ more, by rw [hmore, hnew, List.append_assoc], hreleased'⟩)
    ⟨[], (List.append_nil _).symm, hstart⟩ halong hrun
  -- an element that is not over has an end to come
  have howed {x : Elem} (hcurrent : w'.keyer.currentElem = some x) :
      1 ≤ owed w'.keyer.state := by
    cases hstate : w'.keyer.state with
    | idle => exact nomatch (hlinked.elem.1 hstate).symm.trans hcurrent
    | mark | space => decide
  refine ⟨new, hsent, fun hB => ?_, fun hA => ?_⟩
  · rcases hreleased.modeB hB with ⟨rfl, hcurrent, -, hle⟩ | ⟨⟨t, rfl⟩, hcurrent, -, hle⟩ |
      ⟨⟨t, rfl⟩, -⟩
    · have hone := howed hcurrent
      exact ⟨0, List.nil_prefix, fun hfour => absurd hfour (by omega)⟩
    · have hone := howed hcurrent
      exact ⟨t, ⟨[.rest], rfl⟩, fun hfour => absurd hfour (by omega)⟩
    · exact ⟨t, List.prefix_rfl, fun _ => rfl⟩
  · rcases hreleased.modeA hA with ⟨rfl, hcurrent, hle⟩ | ⟨rfl, -⟩
    · have hone := howed hcurrent
      exact ⟨List.nil_prefix, fun htwo => absurd htwo (by omega)⟩
    · exact ⟨List.prefix_rfl, fun _ => rfl⟩

/-! ## The keyer -/

theorem linked_init (r : Settings) (mode : KeyerMode) (reversed mox : Bool) :
    Linked (watch r mode reversed mox).init := by
  refine ⟨iff_of_true rfl rfl, fun e helem => ?_, fun hdown => ?_, fun hne => absurd rfl hne⟩
  · have hnone : (none : Option Elem) = some e := helem
    cases hnone
  · have hup : false = true := hdown
    cases hup

/-- **The iambic keyer**, in every state of every run in which the settings are left alone. -/
theorem iambic_of_keying (r : Settings) {mode : KeyerMode} (hiambic : mode ≠ .straight)
    (reversed mox : Bool) (ls : List Label) (w : Watch)
    (hrun : (watch r mode reversed mox).exec (watch r mode reversed mox).init ls = some w)
    (hkeying : (watch r mode reversed mox).Along (fun _ l => Keying l)
      (watch r mode reversed mox).init ls) : Iambic r mode reversed mox w := by
  have hAB : mode = .modeA ∨ mode = .modeB := by
    cases mode with
    | straight => exact absurd rfl hiambic
    | modeA => exact .inl rfl
    | modeB => exact .inr rfl
  obtain ⟨hlinked, hmode, hscheduled⟩ := (watch r mode reversed mox).exec_induction_along
    (P := fun _ l => Keying l)
    (I := fun w => Linked w ∧ w.keyer.mode = mode ∧ Scheduled r w)
    (fun u l v ⟨hu, hum, hs⟩ hl hstep => by
      have hdone := hu.step (hum ▸ hiambic) hl hstep
      exact ⟨hdone.linked, hdone.mode.trans hum, hs.moves hdone.moves⟩)
    ls _ w ⟨linked_init r mode reversed mox, rfl, ⟨List.isChain_nil, fun _ _ hlast => by
      cases (show (none : Option Sent) = _ from hlast)⟩⟩ hkeying hrun
  exact {
    spaced := hscheduled.spaced
    alternates := fun _ _ hrun halong => hlinked.alternates hmode hiambic hrun halong
    heeds := fun _ _ _ helem hstep hl hsent hdown =>
      hlinked.heeds (hmode ▸ hiambic) helem hstep hl hsent hdown
    tapped := fun _ helem hseen hup _ _ hrun halong =>
      hlinked.tapped hmode hAB helem hseen hup hrun halong
    released := fun _ helem hseen hup _ _ hrun halong =>
      hlinked.released hmode hiambic helem hseen hup hrun halong }

/-- Both paddles are pressed, and let go during the dah that follows the dit. -/
def squeeze : List Label :=
  [.paddle .dot true, .paddle .dash true, .keyerTick, .elapse (1 / 16), .keyerTick,
   .elapse (1 / 16), .keyerTick, .elapse (1 / 16), .paddle .dot false, .paddle .dash false]

theorem iambic_of_keying_squeeze : ∃ w, (watch atTwentyWpm .modeB false false).exec
    (watch atTwentyWpm .modeB false false).init squeeze = some w ∧
      w.sent = [.mark .dit 0, .mark .dah (3 / 25)] ∧ w.squeezed = true ∧
        Iambic atTwentyWpm .modeB false false w := by
  have hend : ∃ w, (watch atTwentyWpm .modeB false false).exec
      (watch atTwentyWpm .modeB false false).init squeeze = some w ∧
        w.sent = [.mark .dit 0, .mark .dah (3 / 25)] ∧ w.squeezed = true :=
    (watch atTwentyWpm .modeB false false).exists_exec (by decide +kernel)
  obtain ⟨w, hrun, hsent, hsqueezed⟩ := hend
  exact ⟨w, hrun, hsent, hsqueezed, iambic_of_keying atTwentyWpm (by decide) false false squeeze w
    hrun (by decide +kernel)⟩

/-- The dash paddle is tapped during a dit, while the dot paddle stays down. -/
def tap : List Label :=
  [.paddle .dot true, .keyerTick, .paddle .dash true, .paddle .dash false]

/-- The end of the element and of its space. -/
def twoEnds : List Label := [.elapse (1 / 16), .keyerTick, .elapse (1 / 16), .keyerTick]

/-- In mode A a tap is not sent: another dit follows. -/
theorem not_sent_modeA : ∃ w w', (watch atTwentyWpm .modeA false false).exec
    (watch atTwentyWpm .modeA false false).init tap = some w ∧
      w.keyer.currentElem = some .dit ∧ w.squeezed = true ∧
        (watch atTwentyWpm .modeA false false).exec w twoEnds = some w' ∧
          w'.sent = w.sent ++ [.mark .dit (3 / 25)] := by
  have hend : ∃ w, (watch atTwentyWpm .modeA false false).exec
      (watch atTwentyWpm .modeA false false).init tap = some w ∧
        w.keyer.currentElem = some .dit ∧ w.squeezed = true ∧
          ((watch atTwentyWpm .modeA false false).exec w twoEnds).map Watch.sent =
            some (w.sent ++ [.mark .dit (3 / 25)]) :=
    (watch atTwentyWpm .modeA false false).exists_exec (by decide +kernel)
  obtain ⟨w, hrun, helem, hsqueezed, hends⟩ := hend
  obtain ⟨w', hrun', hsent⟩ := Option.map_eq_some_iff.1 hends
  exact ⟨w, w', hrun, helem, hsqueezed, hrun', hsent⟩

end

end MacHPSDR.Cw
