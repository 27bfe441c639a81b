import MacHPSDR.Foundations.Threads

/-!
# The count of the clients that supply TX audio

A client that keys the radio with `trx:n,true,tci;` is armed: its flag `tx_chrono` is set and
`tx_chrono_clients` counts it. `tci_set_tx_chrono` tests the flag, stores it and then adjusts the
counter, each as an atomic of its own. The client's own thread runs it for the `trx` command and
when the client leaves (`clients_remove`, under `clients_mutex`); the GTK thread runs it for every
connected client when a transmission ends (`tci_notify_trx`, `tci_tx_chrono_disarm_all`, also under
`clients_mutex`). The `trx` command does not take the mutex.

The counter falls behind the number of armed clients by one for each disarm whose store finds the
flag already cleared (`txChronoClients_eq`), so it is right in a quiet state if and only if that
never happened (`txChronoClients_accounted_iff`).
-/

namespace MacHPSDR.Tci.TxChrono

/-- The threads: one for each client slot, and the GTK main loop. -/
inductive Tid (n : ℕ)
  | client (c : Fin n)
  | gtk
  deriving DecidableEq, Fintype

/-- Who called `tci_set_tx_chrono`, and so where it returns to. -/
inductive Caller (n : ℕ)
  /-- The `trx` command. -/
  | trx
  /-- `clients_remove`. -/
  | remove
  /-- `tci_tx_chrono_disarm_all`, at slot `i`. -/
  | disarmAll (i : Fin n)
  deriving DecidableEq

/-- The atomic that comes next in a thread. -/
inductive Place (n : ℕ)
  /-- The slot is free and has no thread. -/
  | free
  /-- Between two commands; for the GTK thread, between two callbacks. -/
  | ready
  /-- `clients_remove` of slot `c` at the lock of `clients_mutex`. -/
  | lockRemove (c : Fin n)
  /-- `tci_tx_chrono_disarm_all` at the lock of `clients_mutex`. -/
  | lockDisarmAll
  /-- `tci_tx_chrono_disarm_all` at the test of the descriptor of slot `i`. -/
  | scan (i : Fin n)
  /-- `tci_tx_chrono_disarm_all` at the unlock. -/
  | unlock
  /-- `tci_set_tx_chrono` at the load of the flag of slot `i`. -/
  | test (i : Fin n) (on : Bool) (r : Caller n)
  /-- `tci_set_tx_chrono` at the store of the flag of slot `i`. -/
  | store (i : Fin n) (on : Bool) (r : Caller n)
  /-- `tci_set_tx_chrono` at the increment of the counter. -/
  | add (i : Fin n) (r : Caller n)
  /-- `tci_set_tx_chrono` on the first arm, at the section that empties the TX ring. -/
  | reset (i : Fin n) (r : Caller n)
  /-- `tci_set_tx_chrono` at the decrement of the counter. -/
  | dec (i : Fin n) (r : Caller n)
  /-- `clients_remove` at the end: the slot is freed and the mutex released. -/
  | close (c : Fin n)
  deriving DecidableEq

/-- The shared variables. -/
structure Shared (n : ℕ) where
  clientsMutex : Option (Tid n)
  /-- The slot has a descriptor (`fd >= 0`). -/
  connected : Fin n → Bool
  txChrono : Fin n → Bool
  txChronoClients : ℤ
  txRingHead : ℕ
  txRingTail : ℕ

abbrev State (n : ℕ) := Pool (Shared n) (Tid n) (Place n)

/-- The loop of `tci_tx_chrono_disarm_all` from slot `i` on. -/
def scanFrom {n : ℕ} (i : ℕ) : Place n := if h : i < n then .scan ⟨i, h⟩ else .unlock

/-- The return of `tci_set_tx_chrono` for slot `i`. -/
def Caller.ret {n : ℕ} (i : Fin n) : Caller n → Place n
  | .trx => .ready
  | .remove => .close i
  | .disarmAll j => scanFrom (j + 1)

/-- One atomic step of thread `t`. -/
def Place.next {n : ℕ} (t : Tid n) (s : Shared n) : Place n → Option (Shared n × Place n)
  | .free | .ready => none
  | .lockRemove c =>
    if s.clientsMutex = none then
      some ({ s with clientsMutex := some t }, .test c false .remove)
    else none
  | .lockDisarmAll =>
    if s.clientsMutex = none then some ({ s with clientsMutex := some t }, scanFrom 0) else none
  | .scan i => some (s, if s.connected i then .test i false (.disarmAll i) else scanFrom (i + 1))
  | .unlock => some ({ s with clientsMutex := none }, .ready)
  | .test i on r => some (s, if s.txChrono i = on then r.ret i else .store i on r)
  | .store i on r =>
    some ({ s with txChrono := Function.update s.txChrono i on },
      if on then .add i r else .dec i r)
  | .add i r =>
    some ({ s with txChronoClients := s.txChronoClients + 1 },
      if s.txChronoClients = 0 then .reset i r else r.ret i)
  | .reset i r => some ({ s with txRingHead := 0, txRingTail := 0 }, r.ret i)
  | .dec i r => some ({ s with txChronoClients := s.txChronoClients - 1 }, r.ret i)
  | .close c =>
    some ({ s with connected := Function.update s.connected c false, clientsMutex := none }, .free)

/-- What can happen next. -/
inductive Label (n : ℕ)
  /-- The accept thread gives a new connection the free slot `c`, under `clients_mutex`. -/
  | accept (c : Fin n)
  /-- Client `c` sends `trx:k,on,source;`, where `k` is the transmitting receiver or not. -/
  | trx (c : Fin n) (isTx on srcTci : Bool)
  /-- Client `c` is gone: `clients_remove`. -/
  | leave (c : Fin n)
  /-- The GTK thread runs `tci_notify_trx`. -/
  | notifyTrx (mox : Bool)
  /-- Thread `t` makes its next atomic step. -/
  | run (t : Tid n)

def step {n : ℕ} (s : State n) : Label n → Option (State n)
  | .accept c =>
    if s.loc (.client c) = .free ∧ s.shared.clientsMutex = none then
      some (s.set (.client c)
        { s.shared with connected := Function.update s.shared.connected c true } .ready)
    else none
  | .trx c isTx on srcTci =>
    if s.loc (.client c) = .ready then
      some (s.set (.client c) s.shared (if isTx then .test c (on && srcTci) .trx else .ready))
    else none
  | .leave c =>
    if s.loc (.client c) = .ready then some (s.set (.client c) s.shared (.lockRemove c))
    else none
  | .notifyTrx mox =>
    if s.loc .gtk = .ready then
      some (s.set .gtk s.shared (if mox then .ready else .lockDisarmAll))
    else none
  | .run t => ((s.loc t).next t s.shared).map fun r => s.set t r.1 r.2

/-- The server as it starts: no client, nobody armed. -/
def system (n : ℕ) : System (State n) (Label n) where
  init := ⟨⟨none, fun _ => false, fun _ => false, 0, 0, 0⟩, fun t =>
    match t with
    | .client _ => .free
    | .gtk => .ready⟩
  step := step

/-! ## What the count should be -/

/-- No thread is inside `tci_set_tx_chrono`, `clients_remove` or `tci_tx_chrono_disarm_all`. -/
def Idle {n : ℕ} (s : State n) : Prop := ∀ t, s.loc t = .free ∨ s.loc t = .ready

instance {n : ℕ} (s : State n) : Decidable (Idle s) :=
  inferInstanceAs (Decidable (∀ t, s.loc t = .free ∨ s.loc t = .ready))

/-- The connected clients that are armed. -/
def armed {n : ℕ} (s : Shared n) : Finset (Fin n) :=
  Finset.univ.filter fun c => s.connected c = true ∧ s.txChrono c = true

/-- The counter is the number of connected clients whose flag is set. -/
def Accounted {n : ℕ} (s : State n) : Prop :=
  s.shared.txChronoClients = ((armed s.shared).card : ℤ)

/-- A disarm whose store finds the flag already cleared, by another thread since its test. -/
def staleDisarm {n : ℕ} (s : State n) : Label n → Bool
  | .run t =>
    match s.loc t with
    | .store i on _ => !on && !s.shared.txChrono i
    | _ => false
  | _ => false

/-! ## What a step can do -/

/-- What a client's thread knows of its own slot at each place. -/
def Place.OkClient {n : ℕ} (c : Fin n) (s : Shared n) : Place n → Prop
  | .free => s.connected c = false ∧ s.txChrono c = false
  | .ready => s.connected c = true
  | .lockRemove i => i = c ∧ s.connected c = true
  | .test i on r => i = c ∧ s.connected c = true ∧ (r = .trx ∨ r = .remove ∧ on = false)
  | .store i on r =>
    i = c ∧ s.connected c = true ∧ (r = .trx ∨ r = .remove ∧ on = false) ∧
      (on = true → s.txChrono c = false)
  | .add i r | .reset i r => i = c ∧ s.connected c = true ∧ r = .trx
  | .dec i r =>
    i = c ∧ s.connected c = true ∧ (r = .trx ∨ r = .remove ∧ s.txChrono c = false)
  | .close i => i = c ∧ s.connected c = true ∧ s.txChrono c = false
  | .lockDisarmAll | .scan _ | .unlock => False

/-- The GTK thread only ever disarms. -/
def Place.OkGtk {n : ℕ} : Place n → Prop
  | .ready | .lockDisarmAll | .scan _ | .unlock => True
  | .test _ on r | .store _ on r => on = false ∧ ∃ j, r = .disarmAll j
  | .dec _ r => ∃ j, r = .disarmAll j
  | .free | .lockRemove _ | .add .. | .reset .. | .close _ => False

def Place.Ok {n : ℕ} (s : Shared n) (t : Tid n) (k : Place n) : Prop :=
  match t with
  | .client c => k.OkClient c s
  | .gtk => k.OkGtk

/-- Thread `t` may change its own slot as it likes, and clear the flag of another. -/
def Respects {n : ℕ} (t : Tid n) (s s' : Shared n) : Prop :=
  ∀ c, t ≠ .client c → s'.connected c = s.connected c ∧
    (s.txChrono c = false → s'.txChrono c = false)

theorem Respects.of_eq {n : ℕ} {t : Tid n} {s s' : Shared n} (hc : s'.connected = s.connected)
    (hf : s'.txChrono = s.txChrono) : Respects t s s' :=
  fun _ _ => ⟨by rw [hc], by simp [hf]⟩

theorem Place.OkClient.respects {n : ℕ} {c : Fin n} {t : Tid n} {s s' : Shared n} {k : Place n}
    (h : k.OkClient c s) (hr : Respects t s s') (ht : t ≠ .client c) : k.OkClient c s' := by
  obtain ⟨hc, hf⟩ := hr c ht
  cases k with
  | free => exact ⟨hc.trans h.1, hf h.2⟩
  | ready => exact hc.trans h
  | lockRemove i => exact ⟨h.1, hc.trans h.2⟩
  | test i on r => exact ⟨h.1, hc.trans h.2.1, h.2.2⟩
  | store i on r => exact ⟨h.1, hc.trans h.2.1, h.2.2.1, fun hon => hf (h.2.2.2 hon)⟩
  | add i r | reset i r => exact ⟨h.1, hc.trans h.2.1, h.2.2⟩
  | dec i r => exact ⟨h.1, hc.trans h.2.1, h.2.2.imp_right fun h => ⟨h.1, hf h.2⟩⟩
  | close i => exact ⟨h.1, hc.trans h.2.1, hf h.2.2⟩
  | lockDisarmAll | scan i | unlock => exact h

/-- Every thread knows what `Place.Ok` says. -/
def Consistent {n : ℕ} (s : State n) : Prop := ∀ t, (s.loc t).Ok s.shared t

theorem Consistent.set {n : ℕ} {s : State n} (h : Consistent s) {t : Tid n} {s' : Shared n}
    {k' : Place n} (hk : k'.Ok s' t) (hr : Respects t s.shared s') :
    Consistent (s.set t s' k') := by
  refine Pool.forall_loc_set (P := fun (u : Tid n) (k : Place n) => k.Ok s' u) hk fun u hu => ?_
  have hok := h u
  cases u with
  | client c => exact Place.OkClient.respects hok hr hu.symm
  | gtk => exact hok

theorem scanFrom_okGtk {n : ℕ} (i : ℕ) : (scanFrom i : Place n).OkGtk := by
  unfold scanFrom
  split <;> trivial

/-- The number of armed clients, disconnected slots included. -/
def armedCount {n : ℕ} (f : Fin n → Bool) : ℤ := ∑ c, if f c = true then 1 else 0

theorem armedCount_update {n : ℕ} (f : Fin n → Bool) (i : Fin n) (on : Bool) :
    armedCount (Function.update f i on) =
      armedCount f - (if f i = true then 1 else 0) + if on = true then 1 else 0 := by
  have hnew := Finset.add_sum_erase Finset.univ
    (fun c => if Function.update f i on c = true then (1 : ℤ) else 0) (Finset.mem_univ i)
  have hold := Finset.add_sum_erase Finset.univ
    (fun c => if f c = true then (1 : ℤ) else 0) (Finset.mem_univ i)
  have hrest : ∑ c ∈ Finset.univ.erase i,
      (if Function.update f i on c = true then (1 : ℤ) else 0) =
      ∑ c ∈ Finset.univ.erase i, if f c = true then (1 : ℤ) else 0 :=
    Finset.sum_congr rfl fun c hc => by
      rw [Function.update_of_ne (Finset.ne_of_mem_erase hc)]
  simp only [Function.update_self, hrest] at hnew
  simp only [armedCount]
  omega

/-- The adjustment of the counter that a thread has still to make. -/
def Place.owed {n : ℕ} : Place n → ℤ
  | .add .. => 1
  | .dec .. => -1
  | _ => 0

@[simp] theorem Caller.owed_ret {n : ℕ} (i : Fin n) (r : Caller n) : (r.ret i).owed = 0 := by
  cases r <;> simp only [Caller.ret, scanFrom] <;> try rfl
  split <;> rfl

@[simp] theorem owed_scanFrom {n : ℕ} (i : ℕ) : (scanFrom i : Place n).owed = 0 := by
  unfold scanFrom
  split <;> rfl

theorem Caller.ret_okClient {n : ℕ} {c : Fin n} {s : Shared n} {r : Caller n}
    (hc : s.connected c = true) (hr : r = .trx ∨ r = .remove ∧ s.txChrono c = false) :
    (r.ret c).OkClient c s := by
  rcases hr with rfl | ⟨rfl, hf⟩
  · exact hc
  · exact ⟨rfl, hc, hf⟩

/-- **What a step of a client's thread does.** -/
theorem Place.next_okClient {n : ℕ} {c : Fin n} {s s' : Shared n} {k k' : Place n}
    (h : k.OkClient c s) (hn : k.next (.client c) s = some (s', k')) :
    k'.OkClient c s' ∧ Respects (.client c) s s' := by
  cases k with
  | free | ready => simp [Place.next] at hn
  | lockRemove i =>
    obtain ⟨rfl, hc⟩ := h
    simp only [Place.next] at hn
    split at hn <;> simp only [reduceCtorEq, Option.some.injEq, Prod.mk.injEq] at hn
    obtain ⟨rfl, rfl⟩ := hn
    exact ⟨⟨rfl, hc, Or.inr ⟨rfl, rfl⟩⟩, Respects.of_eq rfl rfl⟩
  | test i on r =>
    obtain ⟨rfl, hc, hr⟩ := h
    simp only [Place.next, Option.some.injEq, Prod.mk.injEq] at hn
    obtain ⟨rfl, rfl⟩ := hn
    refine ⟨?_, Respects.of_eq rfl rfl⟩
    split
    · rename_i hsame
      exact Caller.ret_okClient hc (hr.imp_right fun hr => ⟨hr.1, by rw [hsame, hr.2]⟩)
    · rename_i hne
      exact ⟨rfl, hc, hr, fun hon => by simpa [hon] using hne⟩
  | store i on r =>
    obtain ⟨rfl, hc, hr, hf⟩ := h
    simp only [Place.next, Option.some.injEq, Prod.mk.injEq] at hn
    obtain ⟨rfl, rfl⟩ := hn
    refine ⟨?_, fun u hu => ⟨rfl, fun huf => ?_⟩⟩
    · cases on with
      | true => exact ⟨rfl, hc, hr.resolve_right (by simp)⟩
      | false => exact ⟨rfl, hc, hr.imp_right fun hr => ⟨hr.1, Function.update_self ..⟩⟩
    · have hne : u ≠ i := fun h => hu (by rw [h])
      simpa [Function.update_of_ne hne] using huf
  | add i r =>
    obtain ⟨rfl, hc, rfl⟩ := h
    simp only [Place.next, Option.some.injEq, Prod.mk.injEq] at hn
    obtain ⟨rfl, rfl⟩ := hn
    refine ⟨?_, Respects.of_eq rfl rfl⟩
    split
    · exact ⟨rfl, hc, rfl⟩
    · exact hc
  | reset i r =>
    obtain ⟨rfl, hc, rfl⟩ := h
    simp only [Place.next, Option.some.injEq, Prod.mk.injEq] at hn
    obtain ⟨rfl, rfl⟩ := hn
    exact ⟨hc, Respects.of_eq rfl rfl⟩
  | dec i r =>
    obtain ⟨rfl, hc, hr⟩ := h
    simp only [Place.next, Option.some.injEq, Prod.mk.injEq] at hn
    obtain ⟨rfl, rfl⟩ := hn
    exact ⟨Caller.ret_okClient hc hr, Respects.of_eq rfl rfl⟩
  | close i =>
    obtain ⟨rfl, hc, hf⟩ := h
    simp only [Place.next, Option.some.injEq, Prod.mk.injEq] at hn
    obtain ⟨rfl, rfl⟩ := hn
    refine ⟨⟨Function.update_self .., hf⟩, fun u hu => ⟨?_, id⟩⟩
    exact Function.update_of_ne (fun h => hu (by rw [h])) ..
  | lockDisarmAll | scan i | unlock => exact h.elim

/-- **What a step of the GTK thread does.** -/
theorem Place.next_okGtk {n : ℕ} {s s' : Shared n} {k k' : Place n} (h : k.OkGtk)
    (hn : k.next .gtk s = some (s', k')) : k'.OkGtk ∧ Respects .gtk s s' := by
  cases k with
  | ready => simp [Place.next] at hn
  | lockDisarmAll =>
    simp only [Place.next] at hn
    split at hn <;> simp only [reduceCtorEq, Option.some.injEq, Prod.mk.injEq] at hn
    obtain ⟨rfl, rfl⟩ := hn
    exact ⟨scanFrom_okGtk _, Respects.of_eq rfl rfl⟩
  | scan i =>
    simp only [Place.next, Option.some.injEq, Prod.mk.injEq] at hn
    obtain ⟨rfl, rfl⟩ := hn
    refine ⟨?_, Respects.of_eq rfl rfl⟩
    split
    · exact ⟨rfl, _, rfl⟩
    · exact scanFrom_okGtk _
  | unlock =>
    simp only [Place.next, Option.some.injEq, Prod.mk.injEq] at hn
    obtain ⟨rfl, rfl⟩ := hn
    exact ⟨trivial, Respects.of_eq rfl rfl⟩
  | test i on r =>
    obtain ⟨rfl, j, rfl⟩ := h
    simp only [Place.next, Option.some.injEq, Prod.mk.injEq] at hn
    obtain ⟨rfl, rfl⟩ := hn
    refine ⟨?_, Respects.of_eq rfl rfl⟩
    split
    · exact scanFrom_okGtk _
    · exact ⟨rfl, _, rfl⟩
  | store i on r =>
    obtain ⟨rfl, j, rfl⟩ := h
    simp only [Place.next, Option.some.injEq, Prod.mk.injEq] at hn
    obtain ⟨rfl, rfl⟩ := hn
    refine ⟨⟨_, rfl⟩, fun u _ => ⟨rfl, fun huf => ?_⟩⟩
    by_cases hui : u = i
    · subst hui
      exact Function.update_self ..
    · simpa [Function.update_of_ne hui] using huf
  | dec i r =>
    obtain ⟨j, rfl⟩ := h
    simp only [Place.next, Option.some.injEq, Prod.mk.injEq] at hn
    obtain ⟨rfl, rfl⟩ := hn
    exact ⟨scanFrom_okGtk _, Respects.of_eq rfl rfl⟩
  | free | lockRemove i | add i r | reset i r | close i => exact h.elim

theorem Place.next_ok {n : ℕ} {t : Tid n} {s s' : Shared n} {k k' : Place n} (h : k.Ok s t)
    (hn : k.next t s = some (s', k')) : k'.Ok s' t ∧ Respects t s s' := by
  cases t with
  | client c => exact Place.next_okClient h hn
  | gtk => exact Place.next_okGtk h hn

theorem consistent_init (n : ℕ) : Consistent (system n).init := by
  intro t
  cases t with
  | client c => exact ⟨rfl, rfl⟩
  | gtk => trivial

theorem consistent_step {n : ℕ} (s : State n) (l : Label n) (s' : State n) (h : Consistent s)
    (hs : step s l = some s') : Consistent s' := by
  cases l with
  | accept c =>
    simp only [step] at hs
    split at hs <;> simp only [reduceCtorEq, Option.some.injEq] at hs
    subst hs
    refine h.set (Function.update_self ..) fun u hu => ⟨?_, id⟩
    exact Function.update_of_ne (fun h => hu (by rw [h])) ..
  | trx c isTx on srcTci =>
    simp only [step] at hs
    split at hs <;> simp only [reduceCtorEq, Option.some.injEq] at hs
    rename_i hready
    subst hs
    have hok : s.shared.connected c = true := by
      simpa [hready, Place.Ok, Place.OkClient] using h (.client c)
    refine h.set ?_ (Respects.of_eq rfl rfl)
    cases isTx with
    | true => exact ⟨rfl, hok, Or.inl rfl⟩
    | false => exact hok
  | leave c =>
    simp only [step] at hs
    split at hs <;> simp only [reduceCtorEq, Option.some.injEq] at hs
    rename_i hready
    subst hs
    have hok : s.shared.connected c = true := by
      simpa [hready, Place.Ok, Place.OkClient] using h (.client c)
    exact h.set ⟨rfl, hok⟩ (Respects.of_eq rfl rfl)
  | notifyTrx mox =>
    simp only [step] at hs
    split at hs <;> simp only [reduceCtorEq, Option.some.injEq] at hs
    subst hs
    refine h.set ?_ (Respects.of_eq rfl rfl)
    cases mox <;> trivial
  | run t =>
    simp only [step, Option.map_eq_some_iff] at hs
    obtain ⟨⟨s', k'⟩, hn, rfl⟩ := hs
    obtain ⟨hk, hr⟩ := Place.next_ok (h t) hn
    exact h.set hk hr

/-! ## The balance -/

/-- The invariant behind the main result: the counter and the adjustments on their way make up the
armed clients, less the stale disarms so far. -/
structure Inv {n : ℕ} (stale : ℕ) (s : State n) : Prop where
  consistent : Consistent s
  balance : s.shared.txChronoClients + s.weight Place.owed =
    armedCount s.shared.txChrono - stale

/-- A step of thread `t` that shifts the balance by the stale disarms `d` it makes. -/
theorem Inv.set {n : ℕ} {stale d : ℕ} {s : State n} (h : Inv stale s) {t : Tid n} {s' : Shared n}
    {k' : Place n} (hcons : Consistent (s.set t s' k'))
    (hstep : s'.txChronoClients + k'.owed - armedCount s'.txChrono =
      s.shared.txChronoClients + (s.loc t).owed - armedCount s.shared.txChrono - d) :
    Inv (stale + d) (s.set t s' k') := by
  refine ⟨hcons, ?_⟩
  have hb := h.balance
  rw [Pool.weight_set, Pool.set_shared]
  push_cast
  omega

theorem inv_init (n : ℕ) : Inv 0 (system n).init := by
  refine ⟨consistent_init n, ?_⟩
  have hw : (system n).init.weight Place.owed = 0 :=
    Pool.weight_eq_zero fun t => by cases t <;> rfl
  rw [hw]
  simp [system, armedCount]

/-- The store of `TRUE` is never stale: only the client's own thread arms it. -/
theorem Consistent.store_true {n : ℕ} {s : State n} (h : Consistent s) {t : Tid n} {i : Fin n}
    {r : Caller n} (hk : s.loc t = .store i true r) : s.shared.txChrono i = false := by
  have hok := h t
  cases t with
  | client c =>
    obtain ⟨rfl, _, _, hf⟩ : (Place.store i true r).OkClient c s.shared := by
      rwa [hk] at hok
    exact hf rfl
  | gtk => simp [hk, Place.Ok, Place.OkGtk] at hok

/-- **What an atomic step does to the balance.** The flag and the counter move together, one step
apart, except that the store of a stale disarm leaves the flag as it is. -/
theorem Consistent.next_balance {n : ℕ} {s : State n} (h : Consistent s) {t : Tid n}
    {s' : Shared n} {k' : Place n} (hn : (s.loc t).next t s.shared = some (s', k')) :
    s'.txChronoClients + k'.owed - armedCount s'.txChrono =
      s.shared.txChronoClients + (s.loc t).owed - armedCount s.shared.txChrono -
        ((if staleDisarm s (.run t) = true then 1 else 0 : ℕ) : ℤ) := by
  cases hk : s.loc t with
  | free | ready => simp [hk, Place.next] at hn
  | lockRemove i =>
    simp only [hk, Place.next] at hn
    split at hn <;> simp only [reduceCtorEq, Option.some.injEq, Prod.mk.injEq] at hn
    obtain ⟨rfl, rfl⟩ := hn
    simp [staleDisarm, hk, Place.owed]
  | lockDisarmAll =>
    simp only [hk, Place.next] at hn
    split at hn <;> simp only [reduceCtorEq, Option.some.injEq, Prod.mk.injEq] at hn
    obtain ⟨rfl, rfl⟩ := hn
    rw [owed_scanFrom]
    simp [staleDisarm, hk, Place.owed]
  | scan i =>
    simp only [hk, Place.next, Option.some.injEq, Prod.mk.injEq] at hn
    obtain ⟨rfl, rfl⟩ := hn
    split
    · simp [staleDisarm, hk, Place.owed]
    · rw [owed_scanFrom]
      simp [staleDisarm, hk, Place.owed]
  | test i on r =>
    simp only [hk, Place.next, Option.some.injEq, Prod.mk.injEq] at hn
    obtain ⟨rfl, rfl⟩ := hn
    split
    · rw [Caller.owed_ret]
      simp [staleDisarm, hk, Place.owed]
    · simp [staleDisarm, hk, Place.owed]
  | reset i r =>
    simp only [hk, Place.next, Option.some.injEq, Prod.mk.injEq] at hn
    obtain ⟨rfl, rfl⟩ := hn
    rw [Caller.owed_ret]
    simp [staleDisarm, hk, Place.owed]
  | unlock | close i =>
    simp only [hk, Place.next, Option.some.injEq, Prod.mk.injEq] at hn
    obtain ⟨rfl, rfl⟩ := hn
    simp [staleDisarm, hk, Place.owed]
  | store i on r =>
    simp only [hk, Place.next, Option.some.injEq, Prod.mk.injEq] at hn
    obtain ⟨rfl, rfl⟩ := hn
    rw [armedCount_update]
    cases on with
    | true =>
      have hf := h.store_true hk
      simp only [staleDisarm, hk, hf, Place.owed, Bool.not_true, Bool.false_and,
        Bool.false_eq_true, if_true, if_false]
      omega
    | false =>
      cases hf : s.shared.txChrono i <;>
      · simp only [staleDisarm, hk, hf, Place.owed, Bool.not_false, Bool.not_true, Bool.true_and,
          Bool.and_false, Bool.false_eq_true, if_true, if_false]
        omega
  | add i r =>
    simp only [hk, Place.next, Option.some.injEq, Prod.mk.injEq] at hn
    obtain ⟨rfl, rfl⟩ := hn
    split
    · simp [staleDisarm, hk, Place.owed]
    · rw [Caller.owed_ret]
      simp [staleDisarm, hk, Place.owed]
  | dec i r =>
    simp only [hk, Place.next, Option.some.injEq, Prod.mk.injEq] at hn
    obtain ⟨rfl, rfl⟩ := hn
    rw [Caller.owed_ret]
    simp only [staleDisarm, hk, Place.owed, Bool.false_eq_true, if_false]
    omega

theorem inv_step {n : ℕ} (stale : ℕ) (s : State n) (l : Label n) (s' : State n)
    (h : Inv stale s) (hs : step s l = some s') :
    Inv (stale + if staleDisarm s l = true then 1 else 0) s' := by
  have hcons := consistent_step s l s' h.consistent hs
  cases l with
  | accept c =>
    simp only [step] at hs
    split at hs <;> simp only [reduceCtorEq, Option.some.injEq] at hs
    rename_i hfree
    subst hs
    exact h.set hcons (by simp [staleDisarm, hfree.1, Place.owed])
  | trx c isTx on srcTci =>
    simp only [step] at hs
    split at hs <;> simp only [reduceCtorEq, Option.some.injEq] at hs
    rename_i hready
    subst hs
    exact h.set hcons (by cases isTx <;> simp [staleDisarm, hready, Place.owed])
  | leave c =>
    simp only [step] at hs
    split at hs <;> simp only [reduceCtorEq, Option.some.injEq] at hs
    rename_i hready
    subst hs
    exact h.set hcons (by simp [staleDisarm, hready, Place.owed])
  | notifyTrx mox =>
    simp only [step] at hs
    split at hs <;> simp only [reduceCtorEq, Option.some.injEq] at hs
    rename_i hready
    subst hs
    exact h.set hcons (by cases mox <;> simp [staleDisarm, hready, Place.owed])
  | run t =>
    simp only [step, Option.map_eq_some_iff] at hs
    obtain ⟨⟨s', k'⟩, hn, rfl⟩ := hs
    exact h.set hcons (h.consistent.next_balance hn)

/-- Only connected clients are armed. -/
theorem Consistent.connected_of_armed {n : ℕ} {s : State n} (h : Consistent s) (hidle : Idle s)
    {c : Fin n} (hc : s.shared.txChrono c = true) : s.shared.connected c = true := by
  have hok := h (.client c)
  rcases hidle (.client c) with hk | hk
  · simp [hk, Place.Ok, Place.OkClient, hc] at hok
  · simpa [hk, Place.Ok, Place.OkClient] using hok

theorem Consistent.armedCount_eq {n : ℕ} {s : State n} (h : Consistent s) (hidle : Idle s) :
    armedCount s.shared.txChrono = (armed s.shared).card := by
  have hfilter : armed s.shared = Finset.univ.filter fun c => s.shared.txChrono c = true :=
    Finset.filter_congr fun c _ => ⟨And.right, fun hc => ⟨h.connected_of_armed hidle hc, hc⟩⟩
  rw [hfilter]
  exact Finset.sum_boole ..

/-- In a quiet state the counter is behind the armed clients by the stale disarms of the run. -/
theorem txChronoClients_eq {n : ℕ} {as : List (Label n)} {s : State n}
    (hrun : (system n).exec (system n).init as = some s) (hidle : Idle s) :
    s.shared.txChronoClients = (armed s.shared).card -
      ((system n).countAlong (fun s l => staleDisarm s l = true) (system n).init as : ℤ) := by
  have h := (system n).exec_induction_count (I := Inv) inv_step as 0 _ s (inv_init n) hrun
  have hw : s.weight Place.owed = 0 :=
    Pool.weight_eq_zero fun t => by rcases hidle t with hk | hk <;> simp [hk, Place.owed]
  have hb := h.balance
  rw [h.consistent.armedCount_eq hidle, hw] at hb
  simpa using hb

/-- **The counter is right in every quiet state exactly when no disarm was stale.** A disarm is
stale when another thread disarms the same client between its test of the flag and its store. -/
theorem txChronoClients_accounted_iff {n : ℕ} {as : List (Label n)} {s : State n}
    (hrun : (system n).exec (system n).init as = some s) (hidle : Idle s) :
    Accounted s ↔
      (system n).Along (fun s l => ¬ staleDisarm s l = true) (system n).init as := by
  have heq := txChronoClients_eq hrun hidle
  rw [← System.countAlong_eq_zero_iff, Accounted]
  omega

/-- Client 0 connects and keys the radio as the audio source; then the transmission ends. -/
def oneOver : List (Label 1) :=
  [.accept 0, .trx 0 true true true, .run (.client 0), .run (.client 0), .run (.client 0),
   .run (.client 0), .notifyTrx false, .run .gtk, .run .gtk, .run .gtk, .run .gtk, .run .gtk,
   .run .gtk]

theorem txChronoClients_accounted_one : ∃ s,
    (system 1).exec (system 1).init oneOver = some s ∧ Accounted s := by
  have hrun : ∃ s, (system 1).exec (system 1).init oneOver = some s ∧ Idle s ∧
      s.shared.txChronoClients = 0 := ⟨_, rfl, by decide, by decide⟩
  obtain ⟨s, hs, hidle, _⟩ := hrun
  exact ⟨s, hs, (txChronoClients_accounted_iff hs hidle).2 (by decide)⟩

/-- The client ends its over with `trx:0,false;` while the GTK thread ends it as well: both have
tested the flag before either stores it. -/
def doubleDisarm : List (Label 1) :=
  [.accept 0, .trx 0 true true true, .run (.client 0), .run (.client 0), .run (.client 0),
   .run (.client 0), .notifyTrx false, .run .gtk, .run .gtk, .run .gtk,
   .trx 0 true false false, .run (.client 0), .run (.client 0), .run (.client 0),
   .run .gtk, .run .gtk, .run .gtk]

/-- Two disarms of one client that overlap leave the counter negative. -/
theorem txChronoClients_negative : ∃ s,
    (system 1).exec (system 1).init doubleDisarm = some s ∧ Idle s ∧
      s.shared.txChronoClients = -1 ∧ ¬ Accounted s := by
  refine ⟨_, rfl, by decide, by decide, ?_⟩
  unfold Accounted
  decide

end MacHPSDR.Tci.TxChrono
