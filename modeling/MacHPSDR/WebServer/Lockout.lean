import MacHPSDR.WebServer.Throttle
import Mathlib

/-!
# The lock-out schedule

What the throttle is for: the failures of an address since its entry was created determine its
lock-outs (`ledger`). A failure that reaches the limit while the address is not locked out starts
the next lock-out, the `k`-th of `min (30 s * 2 ^ (k - 1)) (15 min)`.

The table keeps to the schedule (`throttle_exact`): it has one entry for each address, with the
lock-out of the schedule, and an entry leaves it only when it has aged, after a correct login, or
for another address when the table is full. There is one limit: the failures are counted in an
`unsigned int`, and the one that makes it wrap starts no lock-out (`not_throttle_exact`).
-/

namespace MacHPSDR.WebServer

variable {n : ℕ}

/-! ## The schedule -/

/-- The length of the `k`-th lock-out. -/
def lockout (k : ℕ) : ℤ := min (30 * 1000000 * 2 ^ (k - 1)) (15 * 60 * 1000000)

/-- The lock-outs of an address. -/
structure Ledger where
  failures : ℕ
  lockouts : ℕ
  lockedUntil : ℤ

/-- One more failure. -/
def Ledger.fail (l : Ledger) (nowUs : ℤ) : Ledger :=
  if webAuthFreeFailures ≤ l.failures + 1 ∧ l.lockedUntil ≤ nowUs then
    ⟨l.failures + 1, l.lockouts + 1, nowUs + lockout (l.lockouts + 1)⟩
  else { l with failures := l.failures + 1 }

/-- The ledger after failures at these times. -/
def ledger (since : List ℤ) : Ledger := since.foldl Ledger.fail ⟨0, 0, 0⟩

theorem ledger_concat (since : List ℤ) (nowUs : ℤ) :
    ledger (since ++ [nowUs]) = (ledger since).fail nowUs := by
  simp [ledger]

@[simp] theorem ledger_failures (since : List ℤ) : (ledger since).failures = since.length := by
  induction since using List.reverseRecOn with
  | nil => rfl
  | append_singleton since nowUs ih =>
    rw [ledger_concat, List.length_append, Ledger.fail]
    split <;> simp [ih]

/-- The next lock-out is twice as long, up to the bound. -/
theorem lockout_succ (k : ℕ) : min (lockout (k + 1) * 2) webAuthMaxLockUs = lockout (k + 2) := by
  have hpow : (2 : ℤ) ^ (k + 1) = 2 ^ k * 2 := pow_succ 2 k
  simp only [lockout, webAuthMaxLockUs, Nat.add_sub_cancel, show k + 2 - 1 = k + 1 by omega, hpow]
  generalize (2 : ℤ) ^ k = p
  omega

/-- The entry keeps to the schedule. -/
structure ThrottleEntry.Follows (e : ThrottleEntry) : Prop where
  failures : e.failures = e.since.length
  lockedUntilUs : e.lockedUntilUs = (ledger e.since).lockedUntil
  lockUs : e.lockUs = lockout ((ledger e.since).lockouts + 1)

namespace ThrottleEntry.Follows

theorem fresh (address : BitVec 32) : (fresh address).Follows := by
  refine ⟨rfl, rfl, ?_⟩
  change webAuthFirstLockUs = lockout 1
  decide

/-- **One failure**: the entry keeps to the schedule, and the lock-out that it starts is
returned. -/
theorem fail {e : ThrottleEntry} (h : e.Follows) (nowUs : ℤ) (hwrap : e.failures + 1 < 2 ^ 32) :
    (e.fail nowUs).1.Follows ∧
      (e.fail nowUs).2 = if (ledger (e.since ++ [nowUs])).lockouts = (ledger e.since).lockouts
        then 0 else lockout (ledger (e.since ++ [nowUs])).lockouts := by
  obtain ⟨hfail, huntil, hlock⟩ := h
  rw [ledger_concat]
  unfold ThrottleEntry.fail
  dsimp only
  rw [Nat.mod_eq_of_lt hwrap]
  by_cases hfree : e.failures + 1 < webAuthFreeFailures ∨ e.lockedUntilUs > nowUs
  · have hnot : ¬ (webAuthFreeFailures ≤ (ledger e.since).failures + 1 ∧
        (ledger e.since).lockedUntil ≤ nowUs) := by
      rw [ledger_failures, ← hfail, ← huntil]
      omega
    rw [if_pos hfree, Ledger.fail, if_neg hnot]
    refine ⟨⟨by simp [hfail], ?_, ?_⟩, by simp⟩
    · rw [ledger_concat, Ledger.fail, if_neg hnot, huntil]
    · rw [ledger_concat, Ledger.fail, if_neg hnot, hlock]
  · have hstart : webAuthFreeFailures ≤ (ledger e.since).failures + 1 ∧
        (ledger e.since).lockedUntil ≤ nowUs := by
      rw [ledger_failures, ← hfail, ← huntil]
      omega
    rw [if_neg hfree, Ledger.fail, if_pos hstart]
    refine ⟨⟨by simp [hfail], ?_, ?_⟩, by simp [hlock]⟩
    · rw [ledger_concat, Ledger.fail, if_pos hstart, hlock]
    · rw [ledger_concat, Ledger.fail, if_pos hstart, hlock]
      exact lockout_succ _

end ThrottleEntry.Follows

/-! ## Runs of the throttle -/

/-- The throttle and the clock. -/
structure Logins where
  table : Throttle webAuthThrottleSlots
  nowUs : ℤ
  /-- History: the failed logins, with their times. -/
  failed : List (BitVec 32 × ℤ)

/-- What can happen. -/
inductive Login
  | wait (address : BitVec 32)
  | failure (address : BitVec 32)
  | success (address : BitVec 32)
  /-- Microseconds pass. -/
  | elapse (d : ℕ)
  deriving DecidableEq

def Logins.step (s : Logins) : Login → Option Logins
  | .wait address => some { s with table := (webAuthThrottleWait s.table address s.nowUs).1 }
  | .failure address =>
    some { s with
      table := (webAuthThrottleFailure s.table address s.nowUs).1
      failed := s.failed ++ [(address, s.nowUs)] }
  | .success address => some { s with table := webAuthThrottleSuccess s.table address }
  | .elapse d => some { s with nowUs := s.nowUs + d }

/-- The throttle as it starts, at a time of the monotonic clock. -/
def logins (startUs : ℕ) : System Logins Login := ⟨⟨fun _ => none, startUs, []⟩, Logins.step⟩

/-- The failed login does not make the count of its entry wrap. -/
def NoWrap (s : Logins) : Login → Prop
  | .failure address => ∀ i, ∀ e ∈ s.table i, e.address = address → ¬ e.Aged s.nowUs →
      e.failures + 1 < 2 ^ 32
  | _ => True

/-- The times of the failed logins of an address. -/
def Logins.failedAt (s : Logins) (address : BitVec 32) : List ℤ :=
  (s.failed.filter fun f => decide (f.1 = address)).map Prod.snd

/-- An entry of the table: it keeps to the schedule and counts the last failures of its address. -/
structure Logins.Counts (s : Logins) (e : ThrottleEntry) : Prop where
  follows : e.Follows
  ne : e.since ≠ []
  suffix : e.since <:+ s.failedAt e.address

/-- The table holds at most one entry for each address, and each is in order. -/
structure Logins.Inv (s : Logins) : Prop where
  now : 0 ≤ s.nowUs
  unique : ∀ i j e e', s.table i = some e → s.table j = some e' → e.address = e'.address → i = j
  counts : ∀ i e, s.table i = some e → s.Counts e

theorem Logins.failedAt_failure (s : Logins) (table : Throttle webAuthThrottleSlots)
    (address a : BitVec 32) :
    Logins.failedAt ⟨table, s.nowUs, s.failed ++ [(address, s.nowUs)]⟩ a =
      s.failedAt a ++ if address = a then [s.nowUs] else [] := by
  unfold Logins.failedAt
  rw [List.filter_append, List.map_append]
  by_cases h : address = a <;> simp [h]

/-! ## What a step does to an entry -/

/-- The table is full, and `e` is the stalest of the unlocked entries or, with every slot locked,
the one whose lock-out ends first. -/
structure Evictable (t : Throttle n) (nowUs : ℤ) (e : ThrottleEntry) : Prop where
  full : ∀ j, ∃ c, t j = some c ∧ ¬ c.Aged nowUs
  next : (e.lockedUntilUs ≤ nowUs ∧
      ∀ j c, t j = some c → c.lockedUntilUs ≤ nowUs → e.lastFailureUs ≤ c.lastFailureUs) ∨
    ∀ j c, t j = some c → nowUs < c.lockedUntilUs ∧ e.lockedUntilUs ≤ c.lockedUntilUs

/-- What becomes of the entry `e` in slot `i`. -/
inductive Fate (s : Logins) (a : Login) (t : Logins) (i : Fin webAuthThrottleSlots)
    (e : ThrottleEntry) : Prop
  | kept (h : t.table i = some e)
  | failed (ha : a = .failure e.address) (h : t.table i = some (e.fail s.nowUs).1)
  | cleared (ha : a = .success e.address)
  | aged (h : e.Aged s.nowUs)
  | evicted (address : BitVec 32) (ha : a = .failure address) (hne : e.address ≠ address)
      (h : Evictable s.table s.nowUs e)

/-- Where the entry `c` in slot `i` comes from. -/
inductive Origin (s : Logins) (a : Login) (i : Fin webAuthThrottleSlots) (c : ThrottleEntry) : Prop
  | kept (h : s.table i = some c)
  | failed (e : ThrottleEntry) (ha : a = .failure e.address) (h : s.table i = some e)
      (hc : c = (e.fail s.nowUs).1)
  | fresh (ha : a = .failure c.address)
      (hnew : ∀ j e, s.table j = some e → e.address = c.address → e.Aged s.nowUs)
      (hc : c = ((ThrottleEntry.fresh c.address).fail s.nowUs).1)

@[simp] theorem ThrottleEntry.fresh_address (address : BitVec 32) :
    (ThrottleEntry.fresh address).address = address := rfl

@[simp] theorem ThrottleEntry.fail_address (nowUs : ℤ) (e : ThrottleEntry) :
    (e.fail nowUs).1.address = e.address := by
  unfold ThrottleEntry.fail
  dsimp only
  split <;> rfl

@[simp] theorem ThrottleEntry.fail_since (nowUs : ℤ) (e : ThrottleEntry) :
    (e.fail nowUs).1.since = e.since ++ [nowUs] := by
  unfold ThrottleEntry.fail
  dsimp only
  split <;> rfl

theorem AgedFrom.aged_of_ne {nowUs : ℤ} {t u : Throttle n} (h : AgedFrom nowUs t u) {i : Fin n}
    {e : ThrottleEntry} (he : t i = some e) (hne : u i ≠ some e) : e.Aged nowUs := by
  obtain hi | ⟨-, c, hc, ha⟩ := h i
  · exact absurd (hi.trans he) hne
  · obtain rfl := Option.some.inj (he.symm.trans hc)
    exact ha

/-- **One step**, over the entries there were. -/
theorem step_fate {s t : Logins} {a : Login} (h : s.step a = some t)
    (i : Fin webAuthThrottleSlots) (e : ThrottleEntry) (he : s.table i = some e) :
    Fate s a t i e := by
  cases a with
  | wait address =>
    obtain rfl := Option.some.inj h
    by_cases hu : (webAuthThrottleWait s.table address s.nowUs).1 i = some e
    · exact .kept hu
    · exact .aged ((webAuthThrottleWait_agedFrom s.table address s.nowUs).aged_of_ne he hu)
  | elapse d =>
    obtain rfl := Option.some.inj h
    exact .kept he
  | success address =>
    obtain rfl := Option.some.inj h
    by_cases ha : e.address = address
    · exact .cleared (by rw [ha])
    · exact .kept (webAuthThrottleSuccess_eq_some.2 ⟨he, ha⟩)
  | failure address =>
    obtain rfl := Option.some.inj h
    obtain ⟨u, hage, ⟨j, c, hj, hc, -, heq⟩ | ⟨hnone, j, htake, heq⟩⟩ :=
      webAuthThrottleFailure_cases (by decide) s.table address s.nowUs
    · by_cases hij : i = j
      · subst hij
        obtain rfl := Option.some.inj (he.symm.trans (hage.eq_some hj))
        refine .failed (by rw [hc]) ?_
        simp [heq]
      · by_cases hu : u i = some e
        · exact .kept (by simp [heq, hij, hu])
        · exact .aged (hage.aged_of_ne he hu)
    · by_cases hu : u i = some e
      · by_cases hij : i = j
        · subst hij
          obtain hfree | ⟨hfull, c, hc, hnext⟩ := htake
          · simp [hu] at hfree
          · -- nothing was forgotten, so the table is the one that the search went through
            have htable : u = s.table := by
              funext k
              obtain ⟨d, hd⟩ := Option.ne_none_iff_exists'.1 (hfull k)
              rw [hd, hage.eq_some hd]
            obtain rfl := Option.some.inj (hu.symm.trans hc)
            refine .evicted address rfl (hnone i e hu).1 ⟨fun k => ?_, htable ▸ hnext⟩
            obtain ⟨d, hd⟩ := Option.ne_none_iff_exists'.1 (hfull k)
            exact ⟨d, hage.eq_some hd, (hnone k d hd).2⟩
        · exact .kept (by simp [heq, hij, hu])
      · exact .aged (hage.aged_of_ne he hu)

/-- **One step**, over the entries there are. -/
theorem step_origin {s t : Logins} {a : Login} (h : s.step a = some t)
    (i : Fin webAuthThrottleSlots) (c : ThrottleEntry) (hc : t.table i = some c) :
    Origin s a i c := by
  cases a with
  | wait address =>
    obtain rfl := Option.some.inj h
    exact .kept ((webAuthThrottleWait_agedFrom s.table address s.nowUs).eq_some hc)
  | elapse d =>
    obtain rfl := Option.some.inj h
    exact .kept hc
  | success address =>
    obtain rfl := Option.some.inj h
    exact .kept (webAuthThrottleSuccess_eq_some.1 hc).1
  | failure address =>
    obtain rfl := Option.some.inj h
    obtain ⟨u, hage, ⟨j, e, hj, he, -, heq⟩ | ⟨hnone, j, -, heq⟩⟩ :=
      webAuthThrottleFailure_cases (by decide) s.table address s.nowUs
    · simp only [heq] at hc
      by_cases hij : i = j
      · subst hij
        rw [Function.update_self] at hc
        exact .failed e (by rw [he]) (hage.eq_some hj) (Option.some.inj hc).symm
      · rw [Function.update_of_ne hij] at hc
        exact .kept (hage.eq_some hc)
    · simp only [heq] at hc
      by_cases hij : i = j
      · subst hij
        rw [Function.update_self] at hc
        obtain rfl := Option.some.inj hc
        refine .fresh (by simp) (fun k e he ha => ?_) (by simp)
        refine hage.aged_of_ne he fun hu => (hnone k e hu).1 ?_
        simpa using ha
      · rw [Function.update_of_ne hij] at hc
        exact .kept (hage.eq_some hc)

/-! ## Every run -/

/-- Only entries may go. -/
theorem Logins.Inv.sub {s : Logins} (h : s.Inv) {table : Throttle webAuthThrottleSlots}
    (hsub : ∀ i e, table i = some e → s.table i = some e) :
    Logins.Inv { s with table := table } where
  now := h.now
  unique i j e e' hi hj := h.unique i j e e' (hsub i e hi) (hsub j e' hj)
  counts i e hi :=
    have hc := h.counts i e (hsub i e hi)
    ⟨hc.follows, hc.ne, hc.suffix⟩

/-- The failures of another address. -/
theorem Logins.Counts.other {s : Logins} {e : ThrottleEntry} (h : s.Counts e)
    (table : Throttle webAuthThrottleSlots) {address : BitVec 32} (hne : e.address ≠ address) :
    Logins.Counts ⟨table, s.nowUs, s.failed ++ [(address, s.nowUs)]⟩ e where
  follows := h.follows
  ne := h.ne
  suffix := by
    rw [Logins.failedAt_failure, if_neg (Ne.symm hne), List.append_nil]
    exact h.suffix

/-- The entry in slot `i` is the only one that changes. -/
theorem Logins.Inv.failure {s : Logins} (h : s.Inv) {u : Throttle webAuthThrottleSlots}
    (hage : AgedFrom s.nowUs s.table u) {i : Fin webAuthThrottleSlots} {address : BitVec 32}
    (hother : ∀ j e, j ≠ i → u j = some e → e.address ≠ address) {e : ThrottleEntry}
    (haddress : e.address = address) (hfollows : (e.fail s.nowUs).1.Follows)
    (hsuffix : e.since <:+ s.failedAt address) :
    Logins.Inv ⟨Function.update u i (some (e.fail s.nowUs).1), s.nowUs,
      s.failed ++ [(address, s.nowUs)]⟩ where
  now := h.now
  unique j k c d hj hk hcd := by
    dsimp only at hj hk
    by_cases hji : j = i <;> by_cases hki : k = i
    · rw [hji, hki]
    · subst hji
      rw [Function.update_self] at hj
      rw [Function.update_of_ne hki] at hk
      obtain rfl := Option.some.inj hj
      exact absurd (by rw [← hcd, ThrottleEntry.fail_address, haddress]) (hother k d hki hk)
    · subst hki
      rw [Function.update_of_ne hji] at hj
      rw [Function.update_self] at hk
      obtain rfl := Option.some.inj hk
      exact absurd (by rw [hcd, ThrottleEntry.fail_address, haddress]) (hother j c hji hj)
    · rw [Function.update_of_ne hji] at hj
      rw [Function.update_of_ne hki] at hk
      exact h.unique j k c d (hage.eq_some hj) (hage.eq_some hk) hcd
  counts j c hj := by
    dsimp only at hj
    by_cases hji : j = i
    · subst hji
      rw [Function.update_self] at hj
      obtain rfl := Option.some.inj hj
      refine ⟨hfollows, by simp, ?_⟩
      rw [ThrottleEntry.fail_since, ThrottleEntry.fail_address, haddress, Logins.failedAt_failure,
        if_pos rfl]
      exact (List.suffix_append_inj_of_length_eq rfl).2 ⟨hsuffix, rfl⟩
    · rw [Function.update_of_ne hji] at hj
      exact (h.counts j c (hage.eq_some hj)).other _ (hother j c hji hj)

theorem step_inv {s t : Logins} {a : Login} (hs : s.Inv) (hw : NoWrap s a)
    (h : s.step a = some t) : t.Inv := by
  cases a with
  | wait address =>
    obtain rfl := Option.some.inj h
    exact hs.sub fun i e he => (webAuthThrottleWait_agedFrom s.table address s.nowUs).eq_some he
  | success address =>
    obtain rfl := Option.some.inj h
    exact hs.sub fun i e he => (webAuthThrottleSuccess_eq_some.1 he).1
  | elapse d =>
    obtain rfl := Option.some.inj h
    have hnow := hs.now
    exact ⟨by dsimp only; omega, hs.unique, fun i e he =>
      have hc := hs.counts i e he
      ⟨hc.follows, hc.ne, hc.suffix⟩⟩
  | failure address =>
    obtain rfl := Option.some.inj h
    obtain ⟨u, hage, ⟨i, e, hi, he, hna, heq⟩ | ⟨hnone, i, -, heq⟩⟩ :=
      webAuthThrottleFailure_cases (by decide) s.table address s.nowUs <;> simp only [heq]
    · have hc := hs.counts i e (hage.eq_some hi)
      refine hs.failure hage (fun j c hji hj hca => ?_) he ?_ (he ▸ hc.suffix)
      · exact hji (hs.unique j i c e (hage.eq_some hj) (hage.eq_some hi) (hca.trans he.symm))
      · exact (hc.follows.fail s.nowUs (hw i e (hage.eq_some hi) he hna)).1
    · refine hs.failure hage (fun j c _ hj => (hnone j c hj).1) rfl ?_ (List.nil_suffix)
      exact ((ThrottleEntry.Follows.fresh address).fail s.nowUs (by simp [ThrottleEntry.fresh])).1

/-- **The throttle in a state of a run.** -/
structure Logins.Exact (s : Logins) : Prop where
  /-- An address has one entry at most. -/
  unique : ∀ i j e e', s.table i = some e → s.table j = some e' → e.address = e'.address → i = j
  /-- An entry has counted the last failures of its address, one or more. -/
  counts : ∀ i e, s.table i = some e → e.since ≠ [] ∧ e.since <:+ s.failedAt e.address
  /-- It is locked out as the schedule has it. -/
  locked : ∀ i e, s.table i = some e → e.lockedUntilUs = (ledger e.since).lockedUntil
  /-- The wait is what is left of the lock-out. -/
  wait : ∀ i e, s.table i = some e → (webAuthThrottleWait s.table e.address s.nowUs).2 =
    max 0 ((ledger e.since).lockedUntil - s.nowUs)
  /-- There is none without an entry. -/
  unseen : ∀ address, (∀ i e, s.table i = some e → e.address ≠ address) →
    (webAuthThrottleWait s.table address s.nowUs).2 = 0
  /-- An entry stays until it has aged, its address has logged in, or it is evicted. -/
  fate : ∀ a t, s.step a = some t → ∀ i e, s.table i = some e → Fate s a t i e
  /-- It begins with one failure and gains one at a time. -/
  origin : ∀ a t, s.step a = some t → ∀ i c, t.table i = some c → Origin s a i c

theorem Logins.Inv.exact {s : Logins} (h : s.Inv) : s.Exact where
  unique := h.unique
  counts i e he := ⟨(h.counts i e he).ne, (h.counts i e he).suffix⟩
  locked i e he := (h.counts i e he).follows.lockedUntilUs
  wait i e he := by
    rw [← (h.counts i e he).follows.lockedUntilUs]
    unfold webAuthThrottleWait
    obtain ⟨u, j, c, hf, hage, hj, hc, -⟩ | ⟨u, hf, hage, hnone⟩ :=
      throttleFind_cases s.table e.address s.nowUs <;> rw [hf]
    · obtain rfl := h.unique i j e c he (hage.eq_some hj) hc.symm
      obtain rfl := Option.some.inj (he.symm.trans (hage.eq_some hj))
      dsimp only
      split <;> omega
    · -- the entry has aged, so it is not locked
      obtain ⟨hle, -⟩ := hage.aged_of_ne he fun hu => (hnone i e hu).1 rfl
      dsimp only
      omega
  unseen address hun := by
    unfold webAuthThrottleWait
    obtain ⟨u, j, c, hf, hage, hj, hc, -⟩ | ⟨u, hf, -, -⟩ :=
      throttleFind_cases s.table address s.nowUs <;> rw [hf]
    exact absurd hc (hun j c (hage.eq_some hj))
  fate a t ht := step_fate ht
  origin a t ht := step_origin ht

theorem logins_inv (startUs : ℕ) : (logins startUs).init.Inv where
  now := Int.natCast_nonneg startUs
  unique := nofun
  counts := nofun

/-- **The lock-outs**: in every run in which no failed login makes a count wrap, the throttle keeps
to the schedule. -/
theorem throttle_exact (startUs : ℕ) (as : List Login) (s : Logins)
    (h : (logins startUs).Along NoWrap (logins startUs).init as)
    (hs : (logins startUs).exec (logins startUs).init as = some s) : s.Exact :=
  ((logins startUs).exec_induction_along (fun _ _ _ hs hw hstep => step_inv hs hw hstep) as _ s
    (logins_inv startUs) h hs).exact

/-! ## One address that fails again and again -/

/-- The entry of an address after `k` failures at time 0. -/
def failedEntry (address : BitVec 32) (k : ℕ) : ThrottleEntry where
  address := address
  failures := k % 2 ^ 32
  lastFailureUs := 0
  lockedUntilUs := if k < webAuthFreeFailures then 0 else webAuthFirstLockUs
  lockUs := if k < webAuthFreeFailures then webAuthFirstLockUs else 2 * webAuthFirstLockUs
  since := List.replicate k 0

/-- The slot that every loop looks at first. -/
def firstSlot : Fin webAuthThrottleSlots := ⟨0, by decide⟩

/-- The state after `k + 1` failures at time 0. -/
def failedLogins (address : BitVec 32) (k : ℕ) : Logins where
  table := Function.update (fun _ => none) firstSlot (some (failedEntry address (k + 1)))
  nowUs := 0
  failed := List.replicate (k + 1) (address, 0)

theorem finRange_slots : List.finRange webAuthThrottleSlots =
    firstSlot :: (List.finRange 63).map Fin.succ := List.finRange_succ

theorem fail_failedEntry (address : BitVec 32) (k : ℕ) :
    ((failedEntry address k).fail 0).1 = failedEntry address (k + 1) := by
  have hfree : webAuthFreeFailures = 5 := rfl
  have hlock : webAuthFirstLockUs = 30000000 := by decide
  have hmax : webAuthMaxLockUs = 900000000 := by decide
  have hsince : List.replicate k (0 : ℤ) ++ [0] = List.replicate (k + 1) 0 :=
    List.replicate_succ'.symm
  unfold ThrottleEntry.fail failedEntry
  simp only [hsince, Nat.mod_add_mod]
  obtain hk | rfl | hk : k + 1 < 5 ∨ k = 4 ∨ 5 ≤ k := by omega
  · have hmod : (k + 1) % 4294967296 < webAuthFreeFailures := by omega
    have hk' : k < webAuthFreeFailures := by omega
    simp [hmod, hk', hfree ▸ hk]
  · simp [hfree, hlock, hmax]
  · have hk' : ¬ k < webAuthFreeFailures := by omega
    have hk'' : ¬ k + 1 < webAuthFreeFailures := by omega
    simp [hk', hk'', hlock]

/-- An entry in the first slot is the one that `throttle_find` looks at first. -/
theorem throttleFind_first {t : Throttle webAuthThrottleSlots} {e : ThrottleEntry} {nowUs : ℤ}
    (h : t firstSlot = some e) (hna : ¬ e.Aged nowUs) :
    throttleFind t e.address nowUs = (t, some (firstSlot, e)) := by
  have hage : throttleAge nowUs (some e) = some e := throttleAge_eq_some.2 ⟨rfl, hna⟩
  have hupdate : Function.update t firstSlot (some e) = t := by rw [← h, Function.update_eq_self]
  simp [throttleFind, finRange_slots, throttleFindLoop, h, hage, hupdate]

theorem failure_first {t : Throttle webAuthThrottleSlots} {e : ThrottleEntry} {nowUs : ℤ}
    (h : t firstSlot = some e) (hna : ¬ e.Aged nowUs) :
    (webAuthThrottleFailure t e.address nowUs).1 =
      Function.update t firstSlot (some (e.fail nowUs).1) := by
  rw [webAuthThrottleFailure, throttleFind_first h hna]

theorem failure_empty (address : BitVec 32) (nowUs : ℤ) :
    (webAuthThrottleFailure (fun _ => none) address nowUs).1 =
      Function.update (fun _ => none) firstSlot
        (some ((ThrottleEntry.fresh address).fail nowUs).1) := by
  unfold webAuthThrottleFailure
  obtain ⟨u, i, e, -, hage, hi, -⟩ | ⟨u, hf, hage, -⟩ :=
    throttleFind_cases (fun _ : Fin webAuthThrottleSlots => none) address nowUs
  · exact absurd (hage.eq_some hi) (by simp)
  · have hu : u = fun _ => none := funext fun i => (hage i).elim id And.left
    rw [hf, hu]
    simp [throttleSlot, finRange_slots, throttleSlotLoop]

theorem not_aged_failedEntry (address : BitVec 32) (k : ℕ) {nowUs : ℤ}
    (h : nowUs < webAuthForgetUs) : ¬ (failedEntry address k).Aged nowUs := by
  rintro ⟨-, ha⟩
  simp only [failedEntry] at ha
  have hmax := le_max_left (0 : ℤ) (if k < webAuthFreeFailures then 0 else webAuthFirstLockUs)
  omega

@[simp] theorem failedLogins_first (address : BitVec 32) (k : ℕ) :
    (failedLogins address k).table firstSlot = some (failedEntry address (k + 1)) := by
  simp [failedLogins]

theorem step_failedLogins (address : BitVec 32) (k : ℕ) :
    (logins 0).step (failedLogins address k) (.failure address) =
      some (failedLogins address (k + 1)) := by
  have hfail := failure_first (failedLogins_first address k)
    (not_aged_failedEntry address (k + 1) (show (0 : ℤ) < _ by decide))
  rw [fail_failedEntry, failedLogins, Function.update_idem] at hfail
  have hfailed : List.replicate (k + 1) (address, (0 : ℤ)) ++ [(address, 0)] =
      List.replicate (k + 2) (address, 0) := List.replicate_succ'.symm
  exact congrArg some (congrArg₂ (Logins.mk · 0 ·) hfail hfailed)

/-- **Failures at time 0 alone.** -/
theorem exec_failures (address : BitVec 32) (k : ℕ) :
    (logins 0).exec (logins 0).init (List.replicate (k + 1) (.failure address)) =
      some (failedLogins address k) := by
  induction k with
  | zero =>
    have hfail := failure_empty address 0
    have hstep : (logins 0).init.step (.failure address) = some (failedLogins address 0) :=
      congrArg (fun table => some (Logins.mk table 0 [(address, 0)])) hfail
    exact congrArg (Option.bind · some) hstep
  | succ k ih =>
    rw [List.replicate_succ', System.exec_append _ ih]
    exact congrArg (Option.bind · some) (step_failedLogins address k)

/-- As long as the count does not wrap. -/
theorem along_failures (address : BitVec 32) {k : ℕ} (hk : k < 2 ^ 32) :
    (logins 0).Along NoWrap (logins 0).init (List.replicate k (.failure address)) := by
  suffices h : ∀ j m, j + 1 + m < 2 ^ 32 →
      (logins 0).Along NoWrap (failedLogins address j) (List.replicate m (.failure address)) by
    cases k with
    | zero => trivial
    | succ k =>
      refine ((logins 0).along_cons (t := failedLogins address 0) ?_).2 ⟨nofun, h 0 k (by omega)⟩
      simpa [System.exec_cons] using exec_failures address 0
  intro j m
  induction m generalizing j with
  | zero => exact fun _ => trivial
  | succ m ih =>
    intro hm
    refine ((logins 0).along_cons (step_failedLogins address j)).2 ⟨?_, ih (j + 1) (by omega)⟩
    intro i e he _ _
    by_cases hi : i = firstSlot
    · subst hi
      obtain rfl := Option.some.inj ((failedLogins_first address j).symm.trans he)
      simp only [failedEntry]
      omega
    · simp [failedLogins, hi] at he

theorem throttle_exact_fiveFailures : (failedLogins 7 4).Exact :=
  throttle_exact 0 (List.replicate 5 (.failure 7)) _ (along_failures 7 (by decide))
    (exec_failures 7 4)

theorem ledger_replicate {k : ℕ} (hk : 5 ≤ k) :
    ledger (List.replicate k 0) = ⟨k, 1, webAuthFirstLockUs⟩ := by
  induction k, hk using Nat.le_induction with
  | base => rfl
  | succ k hk ih =>
    have hlocked : ¬ webAuthFirstLockUs ≤ 0 := by decide
    rw [List.replicate_succ', ledger_concat, ih, Ledger.fail, if_neg fun h => hlocked h.2]

/-- The failure at the end of the first lock-out. -/
theorem exec_failures_again (address : BitVec 32) (k : ℕ) : ∃ s,
    (logins 0).exec (logins 0).init (List.replicate (k + 1) (.failure address) ++
      [.elapse 30000000, .failure address]) = some s ∧
    s.table firstSlot = some ((failedEntry address (k + 1)).fail webAuthFirstLockUs).1 := by
  have hna := not_aged_failedEntry address (k + 1) (show webAuthFirstLockUs < _ by decide)
  have hfail := failure_first (failedLogins_first address k) hna
  refine ⟨_, ((logins 0).exec_append (exec_failures address k)).trans rfl, ?_⟩
  exact (congrFun hfail firstSlot).trans (Function.update_self ..)

/-- When it makes the count wrap, it starts no lock-out: the entry says that the last one has ended,
and the schedule that a minute remains. -/
theorem not_throttle_exact : ¬ ∀ (startUs : ℕ) (as : List Login) (s : Logins),
    (logins startUs).exec (logins startUs).init as = some s → s.Exact := by
  intro h
  obtain ⟨k, hk, hwrap⟩ : ∃ k, 5 ≤ k + 1 ∧ (k + 2) % 2 ^ 32 = 0 := ⟨2 ^ 32 - 2, by decide⟩
  obtain ⟨s, hs, hfirst⟩ := exec_failures_again 7 k
  have hlocked := (h 0 _ s hs).locked firstSlot _ hfirst
  rw [ThrottleEntry.fail_since] at hlocked
  change _ = (ledger (List.replicate (k + 1) 0 ++ [webAuthFirstLockUs])).lockedUntil at hlocked
  have hk' : ¬ k + 1 < webAuthFreeFailures := by
    have hfree : webAuthFreeFailures = 5 := rfl
    omega
  have hentry : ((failedEntry 7 (k + 1)).fail webAuthFirstLockUs).1.lockedUntilUs =
      webAuthFirstLockUs := by
    have hzero : ((k + 1) % 2 ^ 32 + 1) % 2 ^ 32 = 0 := by omega
    simp only [ThrottleEntry.fail, failedEntry, hzero, if_neg hk']
    rfl
  have hstart : webAuthFreeFailures ≤ k + 1 + 1 ∧ webAuthFirstLockUs ≤ webAuthFirstLockUs :=
    ⟨by omega, le_rfl⟩
  rw [hentry, ledger_concat, ledger_replicate hk, Ledger.fail, if_pos hstart] at hlocked
  have hnot : webAuthFirstLockUs ≠ webAuthFirstLockUs + lockout 2 := by decide
  exact hnot hlocked

end MacHPSDR.WebServer
