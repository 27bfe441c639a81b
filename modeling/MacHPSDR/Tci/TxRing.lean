import MacHPSDR.Foundations.Ring
import MacHPSDR.Foundations.Transition

/-!
# The TX-audio ring of the TCI server

Client threads push TX audio into a ring and the TX thread pops it, sample by sample. A push
(`tx_ring_push_locked`) and the reset on the first arm (`tci_set_tx_chrono`) hold `tx_ring_mutex`,
so one of them runs at a time; the pop (`tci_tx_next_sample`) takes no lock. Each atomic load or
store of the head, the tail or a slot is one step.

The model numbers the overs: `arms` counts the resets that have completed, a slot remembers the
count at which it was written and a completed pop is recorded together with the count it saw. The
ring keeps the overs apart (`isolated_of_clean`) as long as no reset clears the tail inside a pop
and no pop looks at the head between the two stores of a reset while it holds the tail of an older
sample; a reset that falls inside a pop is undone by it (`isolated_fails`).
-/

namespace MacHPSDR.Tci.TxRing

/-- `TCI_TX_RING` -/
def txRing : ℕ := 48000

/-- A slot of the ring: the sample, and how many arms had completed when it was pushed. -/
structure Slot (α : Type*) where
  sample : α
  pushed : Option ℕ

/-- What the holder of `tx_ring_mutex` does next. -/
inductive Holder (α : Type*)
  /-- Nobody holds the mutex. -/
  | free
  /-- A push at the load of the tail, with its own copy of the head. -/
  | compare (head : ℕ) (x : α) (rest : List α)
  /-- A push at the store of a slot. -/
  | write (head : ℕ) (x : α) (rest : List α)
  /-- A push at the store of the head. -/
  | publish (head : ℕ) (rest : List α)
  /-- A push at the unlock. -/
  | unlock
  /-- A reset at the store of the head. -/
  | resetHead
  /-- A reset at the store of the tail. -/
  | resetTail
  /-- A reset at the unlock. -/
  | unlockReset

/-- What `tci_tx_next_sample` does next. -/
inductive Consumer (α : Type*)
  | idle
  /-- At the load of the head. -/
  | gotTail (tail : ℕ)
  /-- At the load of the slot. -/
  | gotHead (tail : ℕ)
  /-- At the store of the tail. -/
  | gotSample (tail : ℕ) (x : Slot α)

/-- A completed pop: the slot it read, and how many arms had completed. -/
structure Popped (α : Type*) where
  slot : Slot α
  arms : ℕ

structure State (α : Type*) where
  head : ℕ
  tail : ℕ
  slot : ℕ → Slot α
  arms : ℕ
  holder : Holder α
  consumer : Consumer α
  popped : List (Popped α)

variable {α : Type*}

/-- The loop of `tx_ring_push_locked` on what is left of the samples. -/
def pushFrom (head : ℕ) : List α → Holder α
  | [] => .unlock
  | x :: rest => .compare head x rest

/-- One step of the thread that holds `tx_ring_mutex`. -/
def stepHolder (s : State α) : Option (State α) :=
  match s.holder with
  | .free => none
  | .compare head x rest =>
    if Ring.next txRing head = s.tail then some { s with holder := .unlock }
    else some { s with holder := .write head x rest }
  | .write head x rest =>
    some { s with
      slot := Function.update s.slot head ⟨x, some s.arms⟩
      holder := .publish head rest }
  | .publish head rest =>
    some { s with
      head := Ring.next txRing head
      holder := pushFrom (Ring.next txRing head) rest }
  | .unlock => some { s with holder := .free }
  | .resetHead => some { s with head := 0, holder := .resetTail }
  | .resetTail => some { s with tail := 0, holder := .unlockReset }
  | .unlockReset => some { s with arms := s.arms + 1, holder := .free }

/-- One step of `tci_tx_next_sample`. -/
def stepConsumer (s : State α) : State α :=
  match s.consumer with
  | .idle => { s with consumer := .gotTail s.tail }
  | .gotTail tail =>
    if tail ≠ s.head then { s with consumer := .gotHead tail } else { s with consumer := .idle }
  | .gotHead tail => { s with consumer := .gotSample tail (s.slot tail) }
  | .gotSample tail x =>
    { s with
      tail := Ring.next txRing tail
      consumer := .idle
      popped := ⟨x, s.arms⟩ :: s.popped }

/-- What can happen next. -/
inductive Label (α : Type*)
  /-- A client thread locks `tx_ring_mutex` and reads the head, to push `p`. -/
  | push (p : List α)
  /-- A client thread locks `tx_ring_mutex`, to reset the ring. -/
  | arm
  /-- The holder of the mutex makes its next step. -/
  | holder
  /-- The TX thread makes its next step. -/
  | consumer

def step (s : State α) : Label α → Option (State α)
  | .push p =>
    match s.holder with
    | .free => some { s with holder := pushFrom s.head p }
    | _ => none
  | .arm =>
    match s.holder with
    | .free => some { s with holder := .resetHead }
    | _ => none
  | .holder => stepHolder s
  | .consumer => some (stepConsumer s)

/-- The ring as the program starts: all zeros. -/
def system (α : Type*) [Zero α] : System (State α) (Label α) where
  init := ⟨0, 0, fun _ => ⟨0, none⟩, 0, .free, .idle, []⟩
  step := step

/-- Every sample popped after an arm was pushed after that arm. -/
def Isolated (s : State α) : Prop :=
  ∀ p ∈ s.popped, 0 < p.arms → ∃ k, p.slot.pushed = some k ∧ p.arms ≤ k

/-- No pop is under way that has passed its load of the tail, unless that load gave 0. -/
def Consumer.between : Consumer α → Bool
  | .idle => true
  | .gotTail tail => tail == 0
  | .gotHead _ | .gotSample .. => false

/-- The step does not let a reset and a pop meet: the reset does not clear the tail inside a pop,
and a pop that looks at the head inside a reset holds tail 0 or the tail of a sample of this
over. -/
def clean (s : State α) : Label α → Bool
  | .holder =>
    match s.holder with
    | .resetTail => s.consumer.between
    | _ => true
  | .consumer =>
    match s.holder, s.consumer with
    | .resetTail, .gotTail tail => tail == 0 || (s.slot tail).pushed == some s.arms
    | _, _ => true
  | _ => true

/-! ## The invariant -/

/-- The occupied slots were pushed in this over. -/
def Fresh (s : State α) : Prop :=
  ∀ i, Ring.Occupied txRing s.tail s.head i → (s.slot i).pushed = some s.arms

/-- The holder's copy of the head is the head, and a push that found room still has it. -/
def Holder.Ok (s : State α) : Holder α → Prop
  | .compare head _ _ => head = s.head
  | .write head _ _ => head = s.head ∧ Ring.next txRing head ≠ s.tail
  | .publish head _ =>
    head = s.head ∧ Ring.next txRing head ≠ s.tail ∧ (s.slot head).pushed = some s.arms
  | .resetTail => s.head = 0
  | .unlockReset => s.head = 0 ∧ s.tail = 0 ∧ s.consumer.between = true
  | .free | .unlock | .resetHead => True

/-- The two stores of a reset are not both done. -/
def Holder.inReset : Holder α → Prop
  | .resetTail | .unlockReset => True
  | _ => False

/-- What the consumer knows: it holds the tail, and the sample it is about to take is of this
over. -/
def Consumer.Ok (s : State α) : Consumer α → Prop
  | .idle => True
  | .gotTail tail => tail = s.tail
  | .gotHead tail =>
    tail = s.tail ∧ (s.slot tail).pushed = some s.arms ∧ (¬ s.holder.inReset → tail ≠ s.head)
  | .gotSample tail x =>
    tail = s.tail ∧ x.pushed = some s.arms ∧ (¬ s.holder.inReset → tail ≠ s.head)

/-- The invariant of the clean runs. -/
structure Inv (s : State α) : Prop where
  head_lt : s.head < txRing
  tail_lt : s.tail < txRing
  fresh : ¬ s.holder.inReset → Fresh s
  holder : s.holder.Ok s
  consumer : s.consumer.Ok s
  popped : ∀ p ∈ s.popped, ∃ k, p.slot.pushed = some k ∧ p.arms ≤ k

theorem inv_init [Zero α] : Inv (system α).init where
  head_lt := by simp [system, txRing]
  tail_lt := by simp [system, txRing]
  fresh := fun _ i hi => (Ring.not_occupied_self hi).elim
  holder := trivial
  consumer := trivial
  popped := by simp [system]

theorem pushFrom_ok (s : State α) (p : List α) : (pushFrom s.head p).Ok s := by
  cases p with
  | nil => trivial
  | cons x rest => exact rfl

theorem not_inReset_pushFrom (head : ℕ) (p : List α) : ¬ (pushFrom head p).inReset := by
  cases p <;> exact id

/-- The holder moves on and touches nothing but its own place. -/
theorem Inv.setHolder {s : State α} (h : Inv s) (hin : ¬ s.holder.inReset) {k : Holder α}
    (hk : k.Ok s) : Inv { s with holder := k } where
  head_lt := h.head_lt
  tail_lt := h.tail_lt
  fresh := fun _ => h.fresh hin
  holder := by cases k <;> exact hk
  consumer := by
    have hc := h.consumer
    cases hcon : s.consumer with
    | idle => trivial
    | gotTail tail => simpa [hcon, Consumer.Ok] using hc
    | gotHead tail =>
      rw [hcon] at hc
      exact ⟨hc.1, hc.2.1, fun _ => hc.2.2 hin⟩
    | gotSample tail x =>
      rw [hcon] at hc
      exact ⟨hc.1, hc.2.1, fun _ => hc.2.2 hin⟩
  popped := h.popped

/-- A push stores a slot. -/
theorem Inv.write {s : State α} (h : Inv s) {head : ℕ} {x : α} {rest : List α}
    (hk : s.holder = .write head x rest) :
    Inv { s with
      slot := Function.update s.slot head ⟨x, some s.arms⟩
      holder := .publish head rest } := by
  have hin : ¬ s.holder.inReset := by rw [hk]; exact id
  have hok := h.holder
  rw [hk] at hok
  have hslot : ∀ i, (s.slot i).pushed = some s.arms →
      (Function.update s.slot head ⟨x, some s.arms⟩ i).pushed = some s.arms := by
    intro i hi
    by_cases hih : i = head
    · rw [hih, Function.update_self]
    · rwa [Function.update_of_ne hih]
  refine ⟨h.head_lt, h.tail_lt, fun _ i hi => hslot i (h.fresh hin i hi), ?_, ?_, h.popped⟩
  · exact ⟨hok.1, hok.2, by simp⟩
  · have hc := h.consumer
    cases hcon : s.consumer with
    | idle => trivial
    | gotTail tail => simpa [hcon, Consumer.Ok] using hc
    | gotHead tail =>
      rw [hcon] at hc
      exact ⟨hc.1, hslot _ hc.2.1, fun _ => hc.2.2 hin⟩
    | gotSample tail x =>
      rw [hcon] at hc
      exact ⟨hc.1, hc.2.1, fun _ => hc.2.2 hin⟩

/-- A push stores the head: the ring grows by the slot it has written. -/
theorem Inv.publish {s : State α} (h : Inv s) {head : ℕ} {rest : List α}
    (hk : s.holder = .publish head rest) :
    Inv { s with
      head := Ring.next txRing head
      holder := pushFrom (Ring.next txRing head) rest } := by
  have hin : ¬ s.holder.inReset := by rw [hk]; exact id
  have hok := h.holder
  rw [hk] at hok
  obtain ⟨rfl, hroom, hslot⟩ := hok
  refine ⟨Ring.next_lt h.head_lt, h.tail_lt, fun _ i hi => ?_,
    by cases rest <;> trivial, ?_, h.popped⟩
  · rcases hi.of_push h.tail_lt h.head_lt with hi | rfl
    · exact h.fresh hin i hi
    · exact hslot
  · have hc := h.consumer
    cases hcon : s.consumer with
    | idle => trivial
    | gotTail tail => simpa [hcon, Consumer.Ok] using hc
    | gotHead tail =>
      rw [hcon] at hc
      obtain ⟨rfl, hc⟩ := hc
      exact ⟨rfl, hc.1, fun _ => hroom.symm⟩
    | gotSample tail x =>
      rw [hcon] at hc
      obtain ⟨rfl, hc⟩ := hc
      exact ⟨rfl, hc.1, fun _ => hroom.symm⟩

/-- A reset stores the head. -/
theorem Inv.resetHead {s : State α} (h : Inv s) :
    Inv { s with head := 0, holder := .resetTail } := by
  refine ⟨by simp [txRing], h.tail_lt, fun hin => (hin trivial).elim, rfl, ?_, h.popped⟩
  have hc := h.consumer
  cases hcon : s.consumer with
  | idle => trivial
  | gotTail tail => simpa [hcon, Consumer.Ok] using hc
  | gotHead tail =>
    rw [hcon] at hc
    exact ⟨hc.1, hc.2.1, fun hin => (hin trivial).elim⟩
  | gotSample tail x =>
    rw [hcon] at hc
    exact ⟨hc.1, hc.2.1, fun hin => (hin trivial).elim⟩

/-- A reset stores the tail while no pop is under way. -/
theorem Inv.resetTail {s : State α} (h : Inv s) (hk : s.holder = .resetTail)
    (hb : s.consumer.between = true) : Inv { s with tail := 0, holder := .unlockReset } := by
  have hok := h.holder
  rw [hk] at hok
  refine ⟨h.head_lt, by simp [txRing], fun hin => (hin trivial).elim, ⟨hok, rfl, hb⟩, ?_, h.popped⟩
  cases hcon : s.consumer with
  | idle => trivial
  | gotTail tail =>
    rw [hcon] at hb
    exact beq_iff_eq.1 hb
  | gotHead tail | gotSample tail x => simp [hcon, Consumer.between] at hb

/-- A reset completes: the ring is empty and a new over begins. -/
theorem Inv.unlockReset {s : State α} (h : Inv s) (hk : s.holder = .unlockReset) :
    Inv { s with arms := s.arms + 1, holder := .free } := by
  have hok := h.holder
  rw [hk] at hok
  obtain ⟨hhead, htail, hb⟩ := hok
  refine ⟨h.head_lt, h.tail_lt, fun _ i hi => ?_, trivial, ?_, h.popped⟩
  · have hempty : ¬ Ring.Occupied txRing s.tail s.head i := by
      rw [hhead, htail]
      exact Ring.not_occupied_self
    exact (hempty hi).elim
  · have hc := h.consumer
    cases hcon : s.consumer with
    | idle => trivial
    | gotTail tail => simpa [hcon, Consumer.Ok] using hc
    | gotHead tail | gotSample tail x => simp [hcon, Consumer.between] at hb

theorem inv_stepHolder {s s' : State α} (h : Inv s) (hclean : clean s .holder = true)
    (hs : stepHolder s = some s') : Inv s' := by
  have hok := h.holder
  cases hk : s.holder with
  | free => simp [stepHolder, hk] at hs
  | compare head x rest =>
    have hin : ¬ s.holder.inReset := by rw [hk]; exact id
    simp only [stepHolder, hk] at hs
    rw [hk] at hok
    split at hs <;> obtain rfl := Option.some.inj hs
    · exact h.setHolder hin trivial
    · rename_i hroom
      exact h.setHolder hin ⟨hok, hroom⟩
  | write head x rest =>
    simp only [stepHolder, hk, Option.some.injEq] at hs
    subst hs
    exact h.write hk
  | publish head rest =>
    simp only [stepHolder, hk, Option.some.injEq] at hs
    subst hs
    exact h.publish hk
  | unlock =>
    have hin : ¬ s.holder.inReset := by rw [hk]; exact id
    simp only [stepHolder, hk, Option.some.injEq] at hs
    subst hs
    exact h.setHolder hin trivial
  | resetHead =>
    simp only [stepHolder, hk, Option.some.injEq] at hs
    subst hs
    exact h.resetHead
  | resetTail =>
    simp only [stepHolder, hk, Option.some.injEq] at hs
    subst hs
    simp only [clean, hk] at hclean
    exact h.resetTail hk hclean
  | unlockReset =>
    simp only [stepHolder, hk, Option.some.injEq] at hs
    subst hs
    exact h.unlockReset hk

/-- The consumer moves on and touches nothing but its own place. -/
theorem Inv.setConsumer {s : State α} (h : Inv s) {k : Consumer α} (hk : k.Ok s)
    (hb : s.holder.Ok s → s.holder.Ok { s with consumer := k }) :
    Inv { s with consumer := k } where
  head_lt := h.head_lt
  tail_lt := h.tail_lt
  fresh := h.fresh
  holder := hb h.holder
  consumer := by cases k <;> exact hk
  popped := h.popped

/-- What a holder relies on survives a step of the consumer that keeps the tail and does not
enter a pop. -/
theorem Holder.Ok.setConsumer {s : State α} {k : Consumer α} (hok : s.holder.Ok s)
    (hb : s.head = 0 → s.tail = 0 → s.consumer.between = true → k.between = true) :
    s.holder.Ok { s with consumer := k } := by
  cases hk : s.holder with
  | unlockReset =>
    rw [hk] at hok
    exact ⟨hok.1, hok.2.1, hb hok.1 hok.2.1 hok.2.2⟩
  | _ => rw [hk] at hok; exact hok

/-- A pop stores the tail: the ring shrinks by the slot it has read. -/
theorem Inv.pop {s : State α} (h : Inv s) {tail : ℕ} {x : Slot α}
    (hk : s.consumer = .gotSample tail x) :
    Inv { s with
      tail := Ring.next txRing tail
      consumer := .idle
      popped := ⟨x, s.arms⟩ :: s.popped } := by
  have hc := h.consumer
  rw [hk] at hc
  obtain ⟨rfl, hx, hne⟩ := hc
  refine ⟨h.head_lt, Ring.next_lt h.tail_lt, fun hin i hi => ?_, ?_, trivial, ?_⟩
  · exact h.fresh hin i (hi.of_pop h.tail_lt h.head_lt (hne hin))
  · have hok := h.holder
    have hroom : ¬ s.holder.inReset → Ring.next txRing s.head ≠ Ring.next txRing s.tail :=
      fun hin heq => hne hin (Ring.next_inj h.head_lt h.tail_lt heq).symm
    cases hh : s.holder with
    | write head y rest =>
      rw [hh] at hok hroom
      exact ⟨hok.1, hok.1 ▸ hroom id⟩
    | publish head rest =>
      rw [hh] at hok hroom
      exact ⟨hok.1, hok.1 ▸ hroom id, hok.2.2⟩
    | unlockReset =>
      rw [hh] at hok
      have hb := hok.2.2
      simp [hk, Consumer.between] at hb
    | _ => rw [hh] at hok; exact hok
  · intro p hp
    rcases List.mem_cons.1 hp with rfl | hp
    · exact ⟨s.arms, hx, Nat.le_refl _⟩
    · exact h.popped p hp

theorem inv_stepConsumer {s : State α} (h : Inv s) (hclean : clean s .consumer = true) :
    Inv (stepConsumer s) := by
  have hc := h.consumer
  cases hk : s.consumer with
  | idle =>
    simp only [stepConsumer, hk]
    exact h.setConsumer rfl fun hok =>
      hok.setConsumer fun _ htail _ => by simpa [Consumer.between] using htail
  | gotTail tail =>
    rw [hk] at hc
    obtain rfl : tail = s.tail := hc
    simp only [stepConsumer, hk]
    split
    · rename_i hne
      have hslot : (s.slot s.tail).pushed = some s.arms := by
        cases hh : s.holder with
        | resetTail =>
          have hok := h.holder
          rw [hh] at hok
          have hhead : s.head = 0 := hok
          simp only [clean, hh, hk, Bool.or_eq_true, beq_iff_eq] at hclean
          exact hclean.resolve_left (by omega)
        | unlockReset =>
          have hok := h.holder
          rw [hh] at hok
          exact (hne (hok.2.1.trans hok.1.symm)).elim
        | _ => exact h.fresh (by rw [hh]; exact id) _ (Ring.occupied_tail h.tail_lt hne)
      exact h.setConsumer ⟨rfl, hslot, fun _ => hne⟩ fun hok =>
        hok.setConsumer fun hhead htail _ => (hne (htail.trans hhead.symm)).elim
    · exact h.setConsumer trivial fun hok => hok.setConsumer fun _ _ _ => rfl
  | gotHead tail =>
    rw [hk] at hc
    simp only [stepConsumer, hk]
    refine h.setConsumer hc fun hok => hok.setConsumer fun _ _ hb => ?_
    simp [hk, Consumer.between] at hb
  | gotSample tail x =>
    simp only [stepConsumer, hk]
    exact h.pop hk

theorem inv_step (s : State α) (l : Label α) (s' : State α) (h : Inv s) (hclean : clean s l = true)
    (hs : step s l = some s') : Inv s' := by
  cases l with
  | push p =>
    simp only [step] at hs
    split at hs <;> simp only [reduceCtorEq, Option.some.injEq] at hs
    rename_i hfree
    subst hs
    exact h.setHolder (by rw [hfree]; exact id) (pushFrom_ok s p)
  | arm =>
    simp only [step] at hs
    split at hs <;> simp only [reduceCtorEq, Option.some.injEq] at hs
    rename_i hfree
    subst hs
    exact h.setHolder (by rw [hfree]; exact id) trivial
  | holder => exact inv_stepHolder h hclean hs
  | consumer =>
    obtain rfl := Option.some.inj hs
    exact inv_stepConsumer h hclean

/-- **The ring keeps the overs apart in every run whose resets and pops do not meet.** -/
theorem isolated_of_clean [Zero α] {as : List (Label α)} {s : State α}
    (hrun : (system α).exec (system α).init as = some s)
    (hclean : (system α).Along (fun s l => clean s l = true) (system α).init as) :
    Isolated s :=
  fun p hp _ => ((system α).exec_induction_along inv_step as _ s inv_init hclean hrun).popped
    p hp

/-- Two samples of one over, of which the first is popped, then a reset, a push and a pop. -/
def twoOvers : List (Label ℤ) :=
  [.push [1, 2], .holder, .holder, .holder, .holder, .holder, .holder, .holder,
   .consumer, .consumer, .consumer, .consumer,
   .arm, .holder, .holder, .holder,
   .push [3], .holder, .holder, .holder, .holder,
   .consumer, .consumer, .consumer, .consumer]

theorem isolated_twoOvers : ∃ s : State ℤ, (system ℤ).exec (system ℤ).init twoOvers = some s ∧
    s.popped.map (fun p => p.slot.sample) = [3, 1] ∧ Isolated s := by
  have hrun : ∃ s : State ℤ, (system ℤ).exec (system ℤ).init twoOvers = some s ∧
      s.popped.map (fun p => p.slot.sample) = [3, 1] := ⟨_, rfl, by decide⟩
  obtain ⟨s, hs, hp⟩ := hrun
  exact ⟨s, hs, hp, isolated_of_clean hs (by decide)⟩

/-- The reset runs between the load and the store of the tail by a pop, which undoes it; the next
pop, all of it after the reset, takes the second sample of the preceding over. -/
def resetInsidePop : List (Label ℤ) :=
  [.push [1, 2], .holder, .holder, .holder, .holder, .holder, .holder, .holder,
   .consumer, .consumer, .consumer,
   .arm, .holder, .holder, .holder,
   .consumer, .consumer, .consumer, .consumer, .consumer]

/-- A sample of the preceding over is popped after the arm. -/
theorem isolated_fails : ∃ s : State ℤ, (system ℤ).exec (system ℤ).init resetInsidePop = some s ∧
    s.popped.map (fun p => (p.slot.sample, p.slot.pushed, p.arms)) =
      [(2, some 0, 1), (1, some 0, 1)] ∧ ¬ Isolated s := by
  refine ⟨_, rfl, by decide, fun h => ?_⟩
  obtain ⟨k, hk, hle⟩ := h ⟨⟨2, some 0⟩, 1⟩ (List.mem_cons_self ..) (by decide)
  obtain rfl : 0 = k := by simpa using hk
  simp at hle

end MacHPSDR.Tci.TxRing
