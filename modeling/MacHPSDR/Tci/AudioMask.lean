import MacHPSDR.Foundations.Threads
import MacHPSDR.Tci.Subscription

/-!
# The shared RX-audio mask of the TCI server

`audio_rx_mask` is the union over the clients of the receivers whose audio they stream; the audio
tap reads it as one atomic (`tci_audio_subscribed`). `client_set_audio` maintains it without a
lock: it stores the client's own mask, reads the masks of all slots one after the other and
publishes the union it has seen.

The model has one thread for each client slot. Every atomic access of `client_set_audio` is one
step (`Place` says which access comes next), and the threads interleave freely. The accept thread
takes a free slot in two steps (the descriptor, then the cleared mask); `clients_remove` runs
`client_set_audio` for every receiver and then frees the slot. Both hold `clients_mutex`, which the
audio commands do not take; the model leaves it out, so its runs include all those of the server.

A recompute that is overtaken by another one publishes an outdated union. The mask is right when
no `client_set_audio` runs if and only if the recompute that published last was up to date
(`audioRxMask_exact_iff`).
-/

namespace MacHPSDR.Tci.AudioMask

/-- The atomic that comes next in the thread of a client slot. `leaving` marks the call of
`client_set_audio` made by `clients_remove`. -/
inductive Place (n : ℕ)
  /-- The slot is free and has no thread. -/
  | free
  /-- The accept thread has stored the descriptor; next it clears `audio_mask`. -/
  | accepted
  /-- Between two commands. -/
  | ready
  /-- At the load of the client's own mask. -/
  | getMask (rxIndex : ℤ) (on leaving : Bool)
  /-- At the store of the client's own mask. -/
  | setMask (nw old : BitVec 32) (on leaving : Bool)
  /-- At the update of `audio_sub_count`. -/
  | addCount (nw old : BitVec 32) (on leaving : Bool)
  /-- At the load of the mask of slot `i`, with the union `all` of the slots before it. -/
  | scan (i : Fin n) (all : BitVec 32) (leaving : Bool)
  /-- At the store of `audio_rx_mask`. -/
  | publish (all : BitVec 32) (leaving : Bool)
  /-- `clients_remove` after its subscriptions are gone; next it frees the slot. -/
  | close
  deriving DecidableEq

/-- The shared variables. -/
structure Shared (n : ℕ) where
  /-- The slot has a descriptor (`fd >= 0`). -/
  connected : Fin n → Bool
  audioMask : Fin n → BitVec 32
  audioSubCount : ℤ
  audioRxMask : BitVec 32

abbrev State (n : ℕ) := Pool (Shared n) (Fin n) (Place n)

/-- The end of `client_set_audio`: back to `clients_remove` or to the command loop. -/
def Place.ret {n : ℕ} (leaving : Bool) : Place n := if leaving then .close else .ready

/-- The call of `client_set_audio`, up to its first atomic. -/
def clientSetAudio {n : ℕ} (rxIndex : ℤ) (on leaving : Bool) : Place n :=
  if rxIndex ≥ maxReceivers then .ret leaving else .getMask rxIndex on leaving

/-- One atomic step of the thread of slot `c`. -/
def Place.next {n : ℕ} (c : Fin n) (s : Shared n) : Place n → Option (Shared n × Place n)
  | .free | .ready => none
  | .accepted => some ({ s with audioMask := Function.update s.audioMask c 0 }, .ready)
  | .getMask rxIndex on leaving =>
    let old := s.audioMask c
    let nw := subscriptionMask old rxIndex on
    if nw = old then some (s, .ret leaving) else some (s, .setMask nw old on leaving)
  | .setMask nw old on leaving =>
    some ({ s with audioMask := Function.update s.audioMask c nw }, .addCount nw old on leaving)
  | .addCount nw old on leaving =>
    some ({ s with audioSubCount := s.audioSubCount + subscriptionDelta nw old on },
      .scan ⟨0, c.pos⟩ 0 leaving)
  | .scan i all leaving =>
    let all := all ||| s.audioMask i
    if h : i + 1 < n then some (s, .scan ⟨i + 1, h⟩ all leaving)
    else some (s, .publish all leaving)
  | .publish all leaving => some ({ s with audioRxMask := all }, .ret leaving)
  | .close => some ({ s with connected := Function.update s.connected c false }, .free)

/-- What can happen next, and to which slot. -/
inductive Label (n : ℕ)
  /-- The accept thread gives a new connection the free slot `c`. -/
  | accept (c : Fin n)
  /-- The client sends `audio_start` or `audio_stop`. -/
  | command (c : Fin n) (rxIndex : ℤ) (on : Bool)
  /-- The client is gone: `clients_remove`. -/
  | leave (c : Fin n)
  /-- The thread of slot `c` makes its next atomic step. -/
  | run (c : Fin n)

def step {n : ℕ} (s : State n) : Label n → Option (State n)
  | .accept c =>
    if s.loc c = .free then
      some (s.set c { s.shared with connected := Function.update s.shared.connected c true }
        .accepted)
    else none
  | .command c rxIndex on =>
    if s.loc c = .ready then some (s.set c s.shared (clientSetAudio rxIndex on false)) else none
  | .leave c =>
    if s.loc c = .ready then some (s.set c s.shared (clientSetAudio (-1) false true)) else none
  | .run c => ((s.loc c).next c s.shared).map fun r => s.set c r.1 r.2

/-- The server as it starts: no client, no subscription. -/
def system (n : ℕ) : System (State n) (Label n) where
  init := ⟨⟨fun _ => false, fun _ => 0, 0, 0⟩, fun _ => .free⟩
  step := step

/-! ## What the mask should be -/

/-- `client_set_audio` is running in this thread. -/
def Place.inSetAudio {n : ℕ} : Place n → Bool
  | .getMask .. | .setMask .. | .addCount .. | .scan .. | .publish .. => true
  | _ => false

/-- No thread is inside `client_set_audio`. -/
def Idle {n : ℕ} (s : State n) : Prop := ∀ c, (s.loc c).inSetAudio = false

instance {n : ℕ} (s : State n) : Decidable (Idle s) :=
  inferInstanceAs (Decidable (∀ c, (s.loc c).inSetAudio = false))

/-- Bit `j` is set in the shared mask exactly when a connected client has it set. -/
def Exact {n : ℕ} (s : State n) : Prop :=
  ∀ j, s.shared.audioRxMask.getLsbD j = true ↔
    ∃ c, s.shared.connected c = true ∧ (s.shared.audioMask c).getLsbD j = true

/-- The union of all masks as they stand. -/
def Shared.union {n : ℕ} (s : Shared n) : BitVec 32 :=
  (List.finRange n).foldl (fun all i => all ||| s.audioMask i) 0

/-- A step that publishes, and whether the union it publishes is that of the masks as they stand:
`some false` when a mask has changed since it was scanned and the change shows in the union. -/
def publishesFresh {n : ℕ} (s : State n) : Label n → Option Bool
  | .run c =>
    match s.loc c with
    | .publish all _ => some (decide (all = s.shared.union))
    | _ => none
  | _ => none

theorem getLsbD_foldl_or {ι : Type*} (m : ι → BitVec 32) (j : ℕ) (l : List ι) (all : BitVec 32) :
    (l.foldl (fun all i => all ||| m i) all).getLsbD j = true ↔
      all.getLsbD j = true ∨ ∃ i ∈ l, (m i).getLsbD j = true := by
  induction l generalizing all with
  | nil => simp
  | cons i l ih => simp [ih, or_assoc]

theorem Shared.getLsbD_union {n : ℕ} (s : Shared n) (j : ℕ) :
    s.union.getLsbD j = true ↔ ∃ c, (s.audioMask c).getLsbD j = true := by
  simp [Shared.union, getLsbD_foldl_or]

/-! ## What a step can do -/

/-- What a thread knows of its own slot at each place. -/
def Place.Ok {n : ℕ} (s : Shared n) (c : Fin n) : Place n → Prop
  | .free => s.connected c = false ∧ s.audioMask c = 0
  | .accepted | .close => s.connected c = true ∧ s.audioMask c = 0
  | .ready => s.connected c = true
  | .getMask rxIndex on leaving =>
    s.connected c = true ∧ (leaving = true → rxIndex < 0 ∧ on = false)
  | .setMask nw _ _ leaving => s.connected c = true ∧ (leaving = true → nw = 0)
  | .addCount _ _ _ leaving | .scan _ _ leaving | .publish _ leaving =>
    s.connected c = true ∧ (leaving = true → s.audioMask c = 0)

/-- The places between a client's change of its own mask and the publication of the union. -/
def Place.unpublished {n : ℕ} : Place n → Bool
  | .addCount .. | .scan .. | .publish .. => true
  | _ => false

theorem Place.Ok.congr {n : ℕ} {s s' : Shared n} {c : Fin n} {k : Place n} (h : k.Ok s c)
    (hc : s'.connected c = s.connected c) (hm : s'.audioMask c = s.audioMask c) : k.Ok s' c := by
  cases k <;> simpa [Place.Ok, hc, hm] using h

theorem Place.Ok.ret {n : ℕ} {s : Shared n} {c : Fin n} {leaving : Bool}
    (hc : s.connected c = true) (hm : leaving = true → s.audioMask c = 0) :
    (Place.ret leaving).Ok s c := by
  cases leaving
  · exact hc
  · exact ⟨hc, hm rfl⟩

theorem Place.Ok.clientSetAudio {n : ℕ} {s : Shared n} {c : Fin n} {rxIndex : ℤ}
    {on leaving : Bool} (hc : s.connected c = true)
    (hl : leaving = true → rxIndex < 0 ∧ on = false) :
    (clientSetAudio rxIndex on leaving : Place n).Ok s c := by
  unfold AudioMask.clientSetAudio
  split
  · rename_i hge
    refine Place.Ok.ret hc fun hleave => ?_
    have := (hl hleave).1
    simp only [maxReceivers] at hge
    omega
  · exact ⟨hc, hl⟩

/-- Every slot's thread knows what `Place.Ok` says. -/
def Consistent {n : ℕ} (s : State n) : Prop := ∀ c, (s.loc c).Ok s.shared c

/-- A slot without a connection has no bit in its mask. -/
theorem Consistent.mask_eq_zero {n : ℕ} {s : State n} (h : Consistent s) {c : Fin n}
    (hc : s.shared.connected c = false) : s.shared.audioMask c = 0 := by
  have := h c
  cases hk : s.loc c <;> simp_all [Place.Ok]

/-- **What a step of a slot's thread does**: it keeps what the other slots know, and it leaves the
mover at a place it is right about. -/
theorem Place.next_ok {n : ℕ} {c : Fin n} {s s' : Shared n} {k k' : Place n} (h : k.Ok s c)
    (hn : k.next c s = some (s', k')) :
    k'.Ok s' c ∧ ∀ u, u ≠ c → s'.connected u = s.connected u ∧ s'.audioMask u = s.audioMask u := by
  cases k with
  | free | ready => simp [Place.next] at hn
  | accepted =>
    simp only [Place.next, Option.some.injEq, Prod.mk.injEq] at hn
    obtain ⟨rfl, rfl⟩ := hn
    exact ⟨h.1, fun u hu => ⟨rfl, Function.update_of_ne hu ..⟩⟩
  | getMask rxIndex on leaving =>
    obtain ⟨hc, hl⟩ := h
    simp only [Place.next] at hn
    split at hn
    · rename_i hsame
      simp only [Option.some.injEq, Prod.mk.injEq] at hn
      obtain ⟨rfl, rfl⟩ := hn
      refine ⟨Place.Ok.ret hc fun hleave => ?_, fun u _ => ⟨rfl, rfl⟩⟩
      obtain ⟨hneg, rfl⟩ := hl hleave
      rw [← hsame, subscriptionMask_stop_all _ hneg]
      rfl
    · simp only [Option.some.injEq, Prod.mk.injEq] at hn
      obtain ⟨rfl, rfl⟩ := hn
      refine ⟨⟨hc, fun hleave => ?_⟩, fun u _ => ⟨rfl, rfl⟩⟩
      obtain ⟨hneg, rfl⟩ := hl hleave
      exact subscriptionMask_stop_all _ hneg
  | setMask nw old on leaving =>
    simp only [Place.next, Option.some.injEq, Prod.mk.injEq] at hn
    obtain ⟨rfl, rfl⟩ := hn
    exact ⟨⟨h.1, fun hleave => by simpa using h.2 hleave⟩,
      fun u hu => ⟨rfl, Function.update_of_ne hu ..⟩⟩
  | addCount nw old on leaving =>
    simp only [Place.next, Option.some.injEq, Prod.mk.injEq] at hn
    obtain ⟨rfl, rfl⟩ := hn
    exact ⟨h, fun u _ => ⟨rfl, rfl⟩⟩
  | scan i all leaving =>
    simp only [Place.next] at hn
    split at hn <;>
    · simp only [Option.some.injEq, Prod.mk.injEq] at hn
      obtain ⟨rfl, rfl⟩ := hn
      exact ⟨h, fun u _ => ⟨rfl, rfl⟩⟩
  | publish all leaving =>
    simp only [Place.next, Option.some.injEq, Prod.mk.injEq] at hn
    obtain ⟨rfl, rfl⟩ := hn
    exact ⟨Place.Ok.ret h.1 h.2, fun u _ => ⟨rfl, rfl⟩⟩
  | close =>
    simp only [Place.next, Option.some.injEq, Prod.mk.injEq] at hn
    obtain ⟨rfl, rfl⟩ := hn
    exact ⟨⟨Function.update_self .., h.2⟩, fun u hu => ⟨Function.update_of_ne hu .., rfl⟩⟩

theorem Consistent.set {n : ℕ} {s : State n} (h : Consistent s) {c : Fin n} {s' : Shared n}
    {k' : Place n} (hk : k'.Ok s' c)
    (hu : ∀ u, u ≠ c → s'.connected u = s.shared.connected u ∧
      s'.audioMask u = s.shared.audioMask u) : Consistent (s.set c s' k') :=
  Pool.forall_loc_set (P := fun (u : Fin n) (k : Place n) => k.Ok s' u) hk fun u hne =>
    (h u).congr (hu u hne).1 (hu u hne).2

theorem consistent_init (n : ℕ) : Consistent (system n).init := fun _ => ⟨rfl, rfl⟩

theorem consistent_step {n : ℕ} (s : State n) (l : Label n) (s' : State n) (h : Consistent s)
    (hs : step s l = some s') : Consistent s' := by
  cases l with
  | accept c =>
    simp only [step] at hs
    split at hs
    · rename_i hfree
      obtain rfl := Option.some.inj hs
      have hok := h c
      rw [hfree] at hok
      exact h.set ⟨Function.update_self .., hok.2⟩
        fun u hu => ⟨Function.update_of_ne hu .., rfl⟩
    · cases hs
  | command c rxIndex on =>
    simp only [step] at hs
    split at hs
    · rename_i hready
      obtain rfl := Option.some.inj hs
      have hok := h c
      rw [hready] at hok
      exact h.set (Place.Ok.clientSetAudio hok (by simp)) fun u _ => ⟨rfl, rfl⟩
    · cases hs
  | leave c =>
    simp only [step] at hs
    split at hs
    · rename_i hready
      obtain rfl := Option.some.inj hs
      have hok := h c
      rw [hready] at hok
      exact h.set (Place.Ok.clientSetAudio hok (by simp)) fun u _ => ⟨rfl, rfl⟩
    · cases hs
  | run c =>
    simp only [step, Option.map_eq_some_iff] at hs
    obtain ⟨⟨s', k'⟩, hn, rfl⟩ := hs
    obtain ⟨hk, hu⟩ := Place.next_ok (h c) hn
    exact h.set hk hu

/-! ## The published union -/

theorem Shared.union_congr {n : ℕ} {s s' : Shared n} (h : s'.audioMask = s.audioMask) :
    s'.union = s.union := by
  simp only [Shared.union, h]

/-- With consistent threads, the mask is right exactly when it is the union of all masks. -/
theorem Consistent.exact_iff {n : ℕ} {s : State n} (h : Consistent s) :
    Exact s ↔ s.shared.audioRxMask = s.shared.union := by
  have hconn : ∀ j, (∃ c, s.shared.connected c = true ∧
      (s.shared.audioMask c).getLsbD j = true) ↔ s.shared.union.getLsbD j = true := by
    intro j
    rw [Shared.getLsbD_union]
    refine ⟨fun ⟨c, _, hj⟩ => ⟨c, hj⟩, fun ⟨c, hj⟩ => ⟨c, ?_, hj⟩⟩
    cases hc : s.shared.connected c with
    | true => rfl
    | false => simp [h.mask_eq_zero hc] at hj
  simp only [Exact, hconn]
  refine ⟨fun hj => BitVec.eq_of_getLsbD_eq fun j _ => ?_, fun heq j => by rw [heq]⟩
  exact Bool.eq_iff_iff.2 (hj j)

/-- The invariant behind the main result: as long as no change is waiting to be published, the
shared mask is the union of the masks exactly when the last publication was fresh. -/
structure Inv {n : ℕ} (fresh : Bool) (s : State n) : Prop where
  consistent : Consistent s
  published : s.Pending (fun k => k.unpublished = true) ∨
    (s.shared.audioRxMask = s.shared.union ↔ fresh = true)

theorem inv_init (n : ℕ) : Inv true (system n).init := by
  refine ⟨consistent_init n, Or.inr (iff_of_true ?_ rfl)⟩
  refine BitVec.eq_of_getLsbD_eq fun j _ => Bool.eq_iff_iff.2 ?_
  simp [Shared.getLsbD_union, system]

/-- A step of a thread that is neither before a publication nor at one keeps what is published:
the union stands, or the thread is now on its way to publish. -/
theorem Inv.set {n : ℕ} {fresh : Bool} {s : State n} (h : Inv fresh s) {c : Fin n}
    {s' : Shared n} {k' : Place n} (hcons : Consistent (s.set c s' k'))
    (hpub : k'.unpublished = true ∨ (s.loc c).unpublished = false ∧
      s'.audioRxMask = s.shared.audioRxMask ∧ s'.union = s.shared.union) :
    Inv fresh (s.set c s' k') := by
  refine ⟨hcons, ?_⟩
  rcases hpub with hk | ⟨hk, hrx, hun⟩
  · exact Or.inl (Pool.pending_set_self hk)
  · rcases h.published with hp | heq
    · exact Or.inl (hp.set fun hc => by simp [hk] at hc)
    · right
      rwa [Pool.set_shared, hrx, hun]

theorem inv_step {n : ℕ} (fresh : Bool) (s : State n) (l : Label n) (s' : State n)
    (h : Inv fresh s) (hs : step s l = some s') :
    Inv ((publishesFresh s l).getD fresh) s' := by
  have hcons := consistent_step s l s' h.consistent hs
  cases l with
  | accept c =>
    simp only [step] at hs
    split at hs
    · rename_i hfree
      obtain rfl := Option.some.inj hs
      exact h.set hcons (Or.inr ⟨by simp [hfree, Place.unpublished], rfl, rfl⟩)
    · cases hs
  | command c rxIndex on =>
    simp only [step] at hs
    split at hs
    · rename_i hready
      obtain rfl := Option.some.inj hs
      exact h.set hcons (Or.inr ⟨by simp [hready, Place.unpublished], rfl, rfl⟩)
    · cases hs
  | leave c =>
    simp only [step] at hs
    split at hs
    · rename_i hready
      obtain rfl := Option.some.inj hs
      exact h.set hcons (Or.inr ⟨by simp [hready, Place.unpublished], rfl, rfl⟩)
    · cases hs
  | run c =>
    simp only [step, Option.map_eq_some_iff] at hs
    obtain ⟨⟨t, k'⟩, hn, rfl⟩ := hs
    have hok := h.consistent c
    cases hk : s.loc c with
    | free | ready => simp [hk, Place.next] at hn
    | accepted =>
      simp only [hk, Place.next, Option.some.injEq, Prod.mk.injEq] at hn hok
      obtain ⟨rfl, rfl⟩ := hn
      have hsame : Function.update s.shared.audioMask c 0 = s.shared.audioMask := by
        rw [← hok.2, Function.update_eq_self]
      simp only [publishesFresh, hk, Option.getD_none]
      exact h.set hcons (Or.inr ⟨by simp [hk, Place.unpublished], rfl, Shared.union_congr hsame⟩)
    | getMask rxIndex on leaving =>
      simp only [publishesFresh, hk, Option.getD_none]
      simp only [hk, Place.next] at hn
      split at hn <;>
      · simp only [Option.some.injEq, Prod.mk.injEq] at hn
        obtain ⟨rfl, rfl⟩ := hn
        exact h.set hcons (Or.inr ⟨by simp [hk, Place.unpublished], rfl, rfl⟩)
    | setMask nw old on leaving =>
      simp only [publishesFresh, hk, Option.getD_none]
      simp only [hk, Place.next, Option.some.injEq, Prod.mk.injEq] at hn
      obtain ⟨rfl, rfl⟩ := hn
      exact h.set hcons (Or.inl rfl)
    | addCount nw old on leaving =>
      simp only [publishesFresh, hk, Option.getD_none]
      simp only [hk, Place.next, Option.some.injEq, Prod.mk.injEq] at hn
      obtain ⟨rfl, rfl⟩ := hn
      exact h.set hcons (Or.inl rfl)
    | scan i all leaving =>
      simp only [publishesFresh, hk, Option.getD_none]
      simp only [hk, Place.next] at hn
      split at hn <;>
      · simp only [Option.some.injEq, Prod.mk.injEq] at hn
        obtain ⟨rfl, rfl⟩ := hn
        exact h.set hcons (Or.inl rfl)
    | publish all leaving =>
      simp only [publishesFresh, hk, Option.getD_some]
      simp only [hk, Place.next, Option.some.injEq, Prod.mk.injEq] at hn
      obtain ⟨rfl, rfl⟩ := hn
      exact ⟨hcons, Or.inr decide_eq_true_iff.symm⟩
    | close =>
      simp only [publishesFresh, hk, Option.getD_none]
      simp only [hk, Place.next, Option.some.injEq, Prod.mk.injEq] at hn
      obtain ⟨rfl, rfl⟩ := hn
      exact h.set hcons (Or.inr ⟨by simp [hk, Place.unpublished], rfl, rfl⟩)

theorem Place.unpublished_of_not_inSetAudio {n : ℕ} {k : Place n} (h : k.inSetAudio = false) :
    k.unpublished = false := by
  cases k <;> simp_all [Place.inSetAudio, Place.unpublished]

/-- **The shared mask is right in every quiet state exactly when the last publication was up to
date.** A recompute is out of date when another client changed its mask after the recompute read
it and before it stored the union. -/
theorem audioRxMask_exact_iff {n : ℕ} {as : List (Label n)} {s : State n}
    (hrun : (system n).exec (system n).init as = some s) (hidle : Idle s) :
    Exact s ↔ (system n).latestAlong publishesFresh true (system n).init as = true := by
  have h := (system n).exec_induction_latest (I := Inv) inv_step as true _ s (inv_init n) hrun
  rw [h.consistent.exact_iff]
  rcases h.published with ⟨c, hc⟩ | heq
  · rw [Place.unpublished_of_not_inSetAudio (hidle c)] at hc
    cases hc
  · exact heq

/-- Client 0 connects and subscribes to receiver 0, with nobody else around. -/
def oneSubscription : List (Label 2) :=
  [.accept 0, .run 0, .command 0 0 true, .run 0, .run 0, .run 0, .run 0, .run 0, .run 0]

theorem audioRxMask_exact_one : ∃ s, (system 2).exec (system 2).init oneSubscription = some s ∧
    s.shared.audioRxMask = 1 ∧ Exact s := by
  have hrun : ∃ s, (system 2).exec (system 2).init oneSubscription = some s ∧ Idle s ∧
      s.shared.audioRxMask = 1 := ⟨_, rfl, by decide, by decide⟩
  obtain ⟨s, hs, hidle, hmask⟩ := hrun
  exact ⟨s, hs, hmask, (audioRxMask_exact_iff hs hidle).2 (by decide)⟩

/-- Client 0 subscribes to receiver 0 while client 1 subscribes to receiver 1: client 0 has
scanned both masks when client 1 stores and publishes, and then publishes its own outdated union. -/
def lostSubscription : List (Label 2) :=
  [.accept 0, .run 0, .accept 1, .run 1,
   .command 0 0 true, .run 0, .run 0, .run 0, .run 0, .run 0,
   .command 1 1 true, .run 1, .run 1, .run 1, .run 1, .run 1, .run 1,
   .run 0]

/-- Two clients that subscribe at the same time can lose one of the two subscriptions. -/
theorem audioRxMask_lost : ∃ s, (system 2).exec (system 2).init lostSubscription = some s ∧
    Idle s ∧ ¬ Exact s := by
  refine ⟨_, rfl, by decide, fun h => ?_⟩
  have h1 := (h 1).2 ⟨1, by decide, by decide⟩
  revert h1
  decide

end MacHPSDR.Tci.AudioMask
