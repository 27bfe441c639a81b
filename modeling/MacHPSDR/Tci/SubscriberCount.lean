import MacHPSDR.Foundations.BitCount
import MacHPSDR.Foundations.Transition
import MacHPSDR.Tci.Command
import Mathlib

/-!
# The subscription counts of the TCI server

`iq_sub_count` and `audio_sub_count` tell the streaming threads whether anybody listens. They are
not recounted: `client_set_iq` and `client_set_audio` add the bits that a command changes.

In the runs here a handler is finished before the next one starts: commands of any client with any
receiver index, on any set of receivers, connections and disconnections. Each count is at all times
the number of bits in the masks of the connected clients (`subCount_exact`).
-/

namespace MacHPSDR.Tci.SubscriberCount

/-- One stream of each client, and the count of its subscriptions. -/
structure Stream (n : ℕ) where
  mask : Fin n → BitVec 32
  subCount : ℤ

/-- The slots of the clients, and their two streams. -/
structure Server (n : ℕ) where
  /-- The slot has a descriptor. -/
  connected : Fin n → Bool
  iq : Stream n
  audio : Stream n

variable {n : ℕ}

/-- `client_set_iq` and `client_set_audio`. -/
def Stream.clientSet (s : Stream n) (c : Fin n) (rxIndex : ℤ) (on : Bool) : Stream n :=
  if rxIndex ≥ maxReceivers then s
  else
    let old := s.mask c
    let nw := subscriptionMask old rxIndex on
    if nw = old then s
    else ⟨Function.update s.mask c nw, s.subCount + subscriptionDelta nw old on⟩

/-- What an effect of a command of client `c` does to the subscriptions. -/
def Server.apply (s : Server n) (c : Fin n) : Effect → Server n
  | .setIq rxIndex on => { s with iq := s.iq.clientSet c rxIndex on }
  | .setAudio rxIndex on => { s with audio := s.audio.clientSet c rxIndex on }
  | .mox _ | .txChrono _ | .tune _ | .cwSend _ => s

/-- `clients_remove`. -/
def clientsRemove (s : Server n) (c : Fin n) : Server n where
  connected := Function.update s.connected c false
  iq := s.iq.clientSet c (-1) false
  audio := s.audio.clientSet c (-1) false

/-- The accept loop: the first free slot takes the connection, with its masks cleared. -/
def accept (s : Server n) : Server n :=
  match (List.finRange n).find? fun c => !s.connected c with
  | none => s
  | some c =>
    { connected := Function.update s.connected c true
      iq := { s.iq with mask := Function.update s.iq.mask c 0 }
      audio := { s.audio with mask := Function.update s.audio.mask c 0 } }

/-- What can happen next. -/
inductive Label (n : ℕ)
  | connect
  /-- A command of client `c`, with the receivers as they are. -/
  | command (c : Fin n) (r : Radio) (token : List Char)
  | disconnect (c : Fin n)

def step (s : Server n) : Label n → Option (Server n)
  | .connect => some (accept s)
  | .command c r token =>
    if s.connected c then some ((handleCommand r token).foldl (Server.apply · c) s) else none
  | .disconnect c => if s.connected c then some (clientsRemove s c) else none

/-- The server as it starts: no client, no subscription. -/
def system (n : ℕ) : System (Server n) (Label n) where
  init := ⟨fun _ => false, ⟨fun _ => 0, 0⟩, ⟨fun _ => 0, 0⟩⟩
  step := step

/-! ## One stream -/

/-- The change of the count is the change of the number of bits. -/
theorem subscriptionDelta_eq (old : BitVec 32) (rxIndex : ℤ) (on : Bool) :
    subscriptionDelta (subscriptionMask old rxIndex on) old on =
      ((subscriptionMask old rxIndex on).cpop.toNat : ℤ) - old.cpop.toNat := by
  unfold subscriptionDelta subscriptionMask
  cases on
  · have h := (bitSubset_and old (~~~subscriptionBits rxIndex)).toNat_cpop
    simp only [Bool.false_eq_true, if_false]
    omega
  · have h := (bitSubset_or old (subscriptionBits rxIndex)).toNat_cpop
    rw [BitVec.xor_comm] at h
    simp only [if_true]
    omega

namespace Stream

/-- The subscriptions of the connected clients. -/
def subscriptions (s : Stream n) (connected : Fin n → Bool) : ℕ :=
  ∑ c with connected c = true, (s.mask c).cpop.toNat

/-- The count is right, and a slot without a client has no subscription. -/
structure Exact (s : Stream n) (connected : Fin n → Bool) : Prop where
  count : s.subCount = ∑ c, ((s.mask c).cpop.toNat : ℤ)
  free : ∀ c, connected c = false → s.mask c = 0

/-- One mask changes, and so does the sum. -/
theorem sum_update (mask : Fin n → BitVec 32) (c : Fin n) (nw : BitVec 32) :
    ∑ d, ((Function.update mask c nw d).cpop.toNat : ℤ) =
      (∑ d, ((mask d).cpop.toNat : ℤ)) + (nw.cpop.toNat - (mask c).cpop.toNat) := by
  have hrest : ∑ d ∈ Finset.univ.erase c, ((Function.update mask c nw d).cpop.toNat : ℤ) =
      ∑ d ∈ Finset.univ.erase c, ((mask d).cpop.toNat : ℤ) := by
    refine Finset.sum_congr rfl fun d hd => ?_
    rw [Function.update_of_ne (Finset.ne_of_mem_erase hd)]
  rw [← Finset.add_sum_erase _ _ (Finset.mem_univ c), hrest, Function.update_self,
    ← Finset.add_sum_erase _ (fun d => ((mask d).cpop.toNat : ℤ)) (Finset.mem_univ c)]
  ring

theorem Exact.clientSet {s : Stream n} {connected : Fin n → Bool} (h : s.Exact connected)
    {c : Fin n} (hc : connected c = true) (rxIndex : ℤ) (on : Bool) :
    (s.clientSet c rxIndex on).Exact connected := by
  unfold Stream.clientSet
  split
  · exact h
  · dsimp only
    split
    · exact h
    · refine ⟨?_, fun d hd => ?_⟩
      · rw [sum_update, subscriptionDelta_eq, ← h.count]
      · have hne : d ≠ c := fun he => by simp [he, hc] at hd
        simpa only [Function.update_of_ne hne] using h.free d hd

/-- Stopping every stream leaves the client without a subscription, so the slot can be freed. -/
theorem Exact.remove {s : Stream n} {connected : Fin n → Bool} (h : s.Exact connected)
    {c : Fin n} (hc : connected c = true) :
    (s.clientSet c (-1) false).Exact (Function.update connected c false) := by
  have hset := h.clientSet hc (-1) false
  refine ⟨hset.count, fun d hd => ?_⟩
  by_cases hdc : d = c
  · subst hdc
    have hbound : ¬ (-1 : ℤ) ≥ maxReceivers := by decide
    simp only [Stream.clientSet, if_neg hbound,
      subscriptionMask_stop_all _ (show (-1 : ℤ) < 0 by decide)]
    split
    · rename_i h0
      exact h0.symm
    · simp
  · rw [Function.update_of_ne hdc] at hd
    exact hset.free d hd

/-- A free slot has no bits to clear. -/
theorem Exact.accept {s : Stream n} {connected : Fin n → Bool} (h : s.Exact connected)
    {c : Fin n} (hc : connected c = false) :
    Exact { s with mask := Function.update s.mask c 0 } (Function.update connected c true) := by
  have hmask : Function.update s.mask c 0 = s.mask := by
    rw [← h.free c hc, Function.update_eq_self]
  simp only [hmask]
  refine ⟨h.count, fun d hd => ?_⟩
  by_cases hdc : d = c
  · simp [hdc] at hd
  · rw [Function.update_of_ne hdc] at hd
    exact h.free d hd

/-- What an exact count says. -/
theorem Exact.spec {s : Stream n} {connected : Fin n → Bool} (h : s.Exact connected) :
    s.subCount = s.subscriptions connected ∧
      (s.subCount = 0 ↔ ∀ c, connected c = true → s.mask c = 0) := by
  have hcount : s.subCount = s.subscriptions connected := by
    rw [h.count, subscriptions, Nat.cast_sum]
    refine (Finset.sum_subset (Finset.subset_univ _) fun c _ hc => ?_).symm
    have hoff : connected c = false := by simpa using hc
    simp [h.free c hoff]
  refine ⟨hcount, ?_⟩
  rw [hcount, Int.natCast_eq_zero, subscriptions, Finset.sum_eq_zero_iff]
  simp only [Finset.mem_filter, Finset.mem_univ, true_and, toNat_cpop_eq_zero_iff]

end Stream

/-! ## Runs -/

/-- Both counts are right. -/
def Server.Exact (s : Server n) : Prop := s.iq.Exact s.connected ∧ s.audio.Exact s.connected

theorem Server.Exact.apply {s : Server n} (h : s.Exact) {c : Fin n} (hc : s.connected c = true)
    (e : Effect) : (s.apply c e).Exact ∧ (s.apply c e).connected = s.connected := by
  cases e with
  | setIq rxIndex on => exact ⟨⟨h.1.clientSet hc rxIndex on, h.2⟩, rfl⟩
  | setAudio rxIndex on => exact ⟨⟨h.1, h.2.clientSet hc rxIndex on⟩, rfl⟩
  | mox | txChrono | tune | cwSend => exact ⟨h, rfl⟩

theorem Server.Exact.foldl {s : Server n} (h : s.Exact) {c : Fin n} (hc : s.connected c = true)
    (es : List Effect) : (es.foldl (Server.apply · c) s).Exact := by
  induction es generalizing s with
  | nil => exact h
  | cons e es ih =>
    obtain ⟨he, hconn⟩ := h.apply hc e
    exact ih he (by rw [hconn]; exact hc)

theorem Server.Exact.step {s t : Server n} {a : Label n} (h : s.Exact)
    (hs : SubscriberCount.step s a = some t) : t.Exact := by
  cases a with
  | connect =>
    obtain rfl := Option.some.inj hs
    unfold SubscriberCount.accept
    split
    · exact h
    · rename_i c hc
      have hfree : s.connected c = false := by simpa using List.find?_some hc
      exact ⟨h.1.accept hfree, h.2.accept hfree⟩
  | command c r token =>
    simp only [SubscriberCount.step] at hs
    split at hs
    · obtain rfl := Option.some.inj hs
      exact h.foldl (by assumption) _
    · cases hs
  | disconnect c =>
    simp only [SubscriberCount.step] at hs
    split at hs
    · obtain rfl := Option.some.inj hs
      exact ⟨h.1.remove (by assumption), h.2.remove (by assumption)⟩
    · cases hs

/-- **The subscription counts are exact**: after every run each is the number of bits in the masks
of the connected clients, and zero exactly when nobody is subscribed. -/
theorem subCount_exact (n : ℕ) (as : List (Label n)) (s : Server n)
    (hrun : (system n).exec (system n).init as = some s) :
    (s.iq.subCount = s.iq.subscriptions s.connected ∧ 0 ≤ s.iq.subCount ∧
        (s.iq.subCount = 0 ↔ ∀ c, s.connected c = true → s.iq.mask c = 0)) ∧
      s.audio.subCount = s.audio.subscriptions s.connected ∧ 0 ≤ s.audio.subCount ∧
        (s.audio.subCount = 0 ↔ ∀ c, s.connected c = true → s.audio.mask c = 0) := by
  have h0 : (system n).init.Exact := by
    constructor <;> exact ⟨by simp [system], fun _ _ => rfl⟩
  have h : s.Exact := (system n).exec_induction (I := Server.Exact) (fun _ _ _ h hs => h.step hs) h0
    hrun
  obtain ⟨hiq, hiq0⟩ := h.1.spec
  obtain ⟨haudio, haudio0⟩ := h.2.spec
  exact ⟨⟨hiq, hiq ▸ Int.natCast_nonneg _, hiq0⟩, haudio, haudio ▸ Int.natCast_nonneg _, haudio0⟩

/-- Two starts of one stream, a stop of a stream that was not started, and two clients. -/
def twoClients (r : Radio) (a b : Fin 2) : List (Label 2) :=
  [.connect, .command a r "iq_start:1".toList, .command a r "iq_start:1".toList, .connect,
   .command b r "iq_start:0".toList, .command b r "iq_stop:-1".toList,
   .command b r "audio_stop".toList, .disconnect a]

theorem subCount_exact_twoClients :
    ∃ s, (system 2).exec (system 2).init (twoClients (.twoReceivers 2 true) 0 1) = some s ∧
      s.iq.subCount = 1 ∧ s.iq.subCount = s.iq.subscriptions s.connected := by
  obtain ⟨s, hs, h1⟩ :
      ∃ s, (system 2).exec (system 2).init (twoClients (.twoReceivers 2 true) 0 1) = some s ∧
        s.iq.subCount = 1 := System.exists_exec _ (by decide +kernel)
  exact ⟨s, hs, h1, (subCount_exact 2 _ s hs).1.1⟩

end MacHPSDR.Tci.SubscriberCount
