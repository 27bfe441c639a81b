import MacHPSDR.Foundations.Transition
import Mathlib

/-!
# The login throttle

`web_auth_throttle_*` of `web_protocol.c`: a table of 64 slots counts the failed logins of each
address and locks an address out for a while, for longer each time. An entry that is unlocked and
has been quiet for a quarter of an hour is forgotten; when the table is full, a new address takes
the slot of the stalest unlocked entry or, with every slot locked, of the one whose lock-out ends
first. Times are microseconds of a monotonic clock.
-/

namespace MacHPSDR.WebServer

/-- `WEB_AUTH_THROTTLE_SLOTS` -/
def webAuthThrottleSlots : ℕ := 64

/-- `WEB_AUTH_FREE_FAILURES` -/
def webAuthFreeFailures : ℕ := 5

/-- `WEB_AUTH_FIRST_LOCK_US` -/
def webAuthFirstLockUs : ℤ := 30 * 1000000

/-- `WEB_AUTH_MAX_LOCK_US` -/
def webAuthMaxLockUs : ℤ := 15 * 60 * 1000000

/-- `WEB_AUTH_FORGET_US` -/
def webAuthForgetUs : ℤ := 15 * 60 * 1000000

/-- `WEB_AUTH_THROTTLE_ENTRY` -/
structure ThrottleEntry where
  address : BitVec 32
  /-- A `guint`. -/
  failures : ℕ
  lastFailureUs : ℤ
  lockedUntilUs : ℤ
  /-- The length of the next lock-out. -/
  lockUs : ℤ
  /-- History: the times of the failures that the entry has counted. -/
  since : List ℤ
  deriving DecidableEq

/-- `WEB_AUTH_THROTTLE`; a slot that is not used is `none`. -/
abbrev Throttle (n : ℕ) := Fin n → Option ThrottleEntry

/-- `throttle_age` -/
def throttleAge (nowUs : ℤ) : Option ThrottleEntry → Option ThrottleEntry
  | none => none
  | some e =>
    if e.lockedUntilUs > nowUs then some e
    else if nowUs - max e.lastFailureUs e.lockedUntilUs ≥ webAuthForgetUs then none
    else some e

variable {n : ℕ}

/-- The loop of `throttle_find` over the slots `is`. -/
def throttleFindLoop (address : BitVec 32) (nowUs : ℤ) :
    List (Fin n) → Throttle n → Throttle n × Option (Fin n × ThrottleEntry)
  | [], t => (t, none)
  | i :: is, t =>
    let t := Function.update t i (throttleAge nowUs (t i))
    match t i with
    | some e =>
      if e.address = address then (t, some (i, e)) else throttleFindLoop address nowUs is t
    | none => throttleFindLoop address nowUs is t

/-- `throttle_find`: the table with its entries aged up to the one found. -/
def throttleFind (t : Throttle n) (address : BitVec 32) (nowUs : ℤ) :
    Throttle n × Option (Fin n × ThrottleEntry) :=
  throttleFindLoop address nowUs (List.finRange n) t

/-- `web_auth_throttle_wait` -/
def webAuthThrottleWait (t : Throttle n) (address : BitVec 32) (nowUs : ℤ) : Throttle n × ℤ :=
  match throttleFind t address nowUs with
  | (t, none) => (t, 0)
  | (t, some (_, e)) => (t, if e.lockedUntilUs > nowUs then e.lockedUntilUs - nowUs else 0)

/-- Of two slots the one with the smaller key; a slot comes with its key. -/
def earlier (best : Option (Fin n × ℤ)) (i : Fin n) (key : ℤ) : Option (Fin n × ℤ) :=
  match best with
  | none => some (i, key)
  | some b => if key < b.2 then some (i, key) else some b

/-- The slot for a new entry, among the slots `is`: the first that is free, else `stale`, else
`soonest`. -/
def throttleSlotLoop (t : Throttle n) (nowUs : ℤ) :
    List (Fin n) → Option (Fin n × ℤ) → Option (Fin n × ℤ) → Option (Fin n)
  | [], stale, soonest => (stale.or soonest).map Prod.fst
  | i :: is, stale, soonest =>
    match t i with
    | none => some i
    | some c =>
      if c.lockedUntilUs ≤ nowUs then
        throttleSlotLoop t nowUs is (earlier stale i c.lastFailureUs) soonest
      else throttleSlotLoop t nowUs is stale (earlier soonest i c.lockedUntilUs)

def throttleSlot (t : Throttle n) (nowUs : ℤ) : Option (Fin n) :=
  throttleSlotLoop t nowUs (List.finRange n) none none

namespace ThrottleEntry

/-- A new entry. -/
def fresh (address : BitVec 32) : ThrottleEntry where
  address := address
  failures := 0
  lastFailureUs := 0
  lockedUntilUs := 0
  lockUs := webAuthFirstLockUs
  since := []

/-- The end of `web_auth_throttle_failure`: one more failure, and the lock-out that it starts. -/
def fail (nowUs : ℤ) (e : ThrottleEntry) : ThrottleEntry × ℤ :=
  let e := { e with
    failures := (e.failures + 1) % 2 ^ 32
    lastFailureUs := nowUs
    since := e.since ++ [nowUs] }
  if e.failures < webAuthFreeFailures ∨ e.lockedUntilUs > nowUs then (e, 0)
  else
    ({ e with
      lockedUntilUs := nowUs + e.lockUs
      lockUs := min (e.lockUs * 2) webAuthMaxLockUs }, e.lockUs)

end ThrottleEntry

/-- `web_auth_throttle_failure` -/
def webAuthThrottleFailure (t : Throttle n) (address : BitVec 32) (nowUs : ℤ) : Throttle n × ℤ :=
  match throttleFind t address nowUs with
  | (t, some (i, e)) => (Function.update t i (some (e.fail nowUs).1), (e.fail nowUs).2)
  | (t, none) =>
    match throttleSlot t nowUs with
    | none => (t, 0)
    | some i =>
      let r := (ThrottleEntry.fresh address).fail nowUs
      (Function.update t i (some r.1), r.2)

/-- `web_auth_throttle_success` -/
def webAuthThrottleSuccess (t : Throttle n) (address : BitVec 32) : Throttle n := fun i =>
  (t i).filter fun e => !decide (e.address = address)

/-! ## Ageing and finding -/

/-- An entry that is unlocked and has been quiet for long enough. -/
def ThrottleEntry.Aged (nowUs : ℤ) (e : ThrottleEntry) : Prop :=
  e.lockedUntilUs ≤ nowUs ∧ nowUs - max e.lastFailureUs e.lockedUntilUs ≥ webAuthForgetUs

theorem throttleAge_eq_some {nowUs : ℤ} {s : Option ThrottleEntry} {e : ThrottleEntry} :
    throttleAge nowUs s = some e ↔ s = some e ∧ ¬ e.Aged nowUs := by
  cases s with
  | none => simp [throttleAge]
  | some c =>
    unfold throttleAge ThrottleEntry.Aged
    dsimp only
    split
    · constructor
      · intro h
        obtain rfl := Option.some.inj h
        exact ⟨rfl, fun ha => by omega⟩
      · exact fun h => h.1
    · split
      · constructor
        · intro h
          cases h
        · rintro ⟨h, ha⟩
          obtain rfl := Option.some.inj h
          exact absurd ⟨by omega, by assumption⟩ ha
      · constructor
        · intro h
          obtain rfl := Option.some.inj h
          exact ⟨rfl, fun ha => by have := ha.2; contradiction⟩
        · exact fun h => h.1

/-- The table after some of its entries were forgotten. -/
def AgedFrom (nowUs : ℤ) (t t' : Throttle n) : Prop :=
  ∀ i, t' i = t i ∨ t' i = none ∧ ∃ e, t i = some e ∧ e.Aged nowUs

theorem AgedFrom.eq_some {nowUs : ℤ} {t t' : Throttle n} (h : AgedFrom nowUs t t') {i : Fin n}
    {e : ThrottleEntry} (he : t' i = some e) : t i = some e := by
  obtain hi | ⟨hi, -⟩ := h i
  · rw [← hi, he]
  · simp [hi] at he

theorem AgedFrom.trans {nowUs : ℤ} {t u v : Throttle n} (h : AgedFrom nowUs t u)
    (h' : AgedFrom nowUs u v) : AgedFrom nowUs t v := by
  intro i
  obtain hi | ⟨hi, e, he, ha⟩ := h' i
  · rw [hi]
    exact h i
  · exact .inr ⟨hi, e, h.eq_some he, ha⟩

theorem agedFrom_update (nowUs : ℤ) (t : Throttle n) (i : Fin n) :
    AgedFrom nowUs t (Function.update t i (throttleAge nowUs (t i))) := by
  intro j
  by_cases hj : j = i
  · subst hj
    rw [Function.update_self]
    cases ht : t j with
    | none => exact .inl rfl
    | some e =>
      by_cases ha : e.Aged nowUs
      · right
        refine ⟨?_, e, rfl, ha⟩
        cases hage : throttleAge nowUs (some e) with
        | none => rfl
        | some c =>
          obtain ⟨hc, hna⟩ := throttleAge_eq_some.1 hage
          obtain rfl := Option.some.inj hc
          exact absurd ha hna
      · exact .inl (throttleAge_eq_some.2 ⟨rfl, ha⟩)
  · exact .inl (Function.update_of_ne hj _ _)

/-- **`throttle_find`**: it only forgets entries, and finds the entry of the address if there is one
that has not aged. -/
theorem throttleFindLoop_spec (address : BitVec 32) (nowUs : ℤ) (is : List (Fin n))
    (t : Throttle n) :
    AgedFrom nowUs t (throttleFindLoop address nowUs is t).1 ∧
      match (throttleFindLoop address nowUs is t).2 with
      | some (i, e) => (throttleFindLoop address nowUs is t).1 i = some e ∧ e.address = address ∧
          ¬ e.Aged nowUs
      | none => ∀ i ∈ is, ∀ e, (throttleFindLoop address nowUs is t).1 i = some e →
          e.address ≠ address ∧ ¬ e.Aged nowUs := by
  induction is generalizing t with
  | nil => exact ⟨fun i => .inl rfl, by simp [throttleFindLoop]⟩
  | cons i is ih =>
    have hage := agedFrom_update nowUs t i
    unfold throttleFindLoop
    dsimp only
    generalize hu : Function.update t i (throttleAge nowUs (t i)) = u at hage ⊢
    have hui : u i = throttleAge nowUs (t i) := by rw [← hu, Function.update_self]
    obtain ⟨hih, hfind⟩ := ih u
    cases hi : u i with
    | none =>
      dsimp only
      refine ⟨hage.trans hih, ?_⟩
      cases hr : (throttleFindLoop address nowUs is u).2 with
      | some r =>
        rw [hr] at hfind
        exact hfind
      | none =>
        rw [hr] at hfind
        dsimp only at hfind ⊢
        intro j hj e he
        obtain rfl | hj := List.mem_cons.1 hj
        · exact absurd (hih.eq_some he) (by simp [hi])
        · exact hfind j hj e he
    | some e =>
      obtain ⟨-, hna⟩ := throttleAge_eq_some.1 (hui.symm.trans hi)
      by_cases ha : e.address = address
      · simp only [if_pos ha]
        exact ⟨hage, hi, ha, hna⟩
      · simp only [if_neg ha]
        refine ⟨hage.trans hih, ?_⟩
        cases hr : (throttleFindLoop address nowUs is u).2 with
        | some r =>
          rw [hr] at hfind
          exact hfind
        | none =>
          rw [hr] at hfind
          dsimp only at hfind ⊢
          intro j hj c hc
          obtain rfl | hj := List.mem_cons.1 hj
          · obtain rfl := Option.some.inj (hi.symm.trans (hih.eq_some hc))
            exact ⟨ha, hna⟩
          · exact hfind j hj c hc

/-- The two results of `throttle_find`. -/
theorem throttleFind_cases (t : Throttle n) (address : BitVec 32) (nowUs : ℤ) :
    (∃ u i e, throttleFind t address nowUs = (u, some (i, e)) ∧ AgedFrom nowUs t u ∧
      u i = some e ∧ e.address = address ∧ ¬ e.Aged nowUs) ∨
    (∃ u, throttleFind t address nowUs = (u, none) ∧ AgedFrom nowUs t u ∧
      ∀ i e, u i = some e → e.address ≠ address ∧ ¬ e.Aged nowUs) := by
  have hspec := throttleFindLoop_spec address nowUs (List.finRange n) t
  unfold throttleFind
  generalize throttleFindLoop address nowUs (List.finRange n) t = p at hspec ⊢
  obtain ⟨u, r⟩ := p
  obtain ⟨hage, hfind⟩ := hspec
  cases r with
  | some r => exact .inl ⟨u, r.1, r.2, rfl, hage, hfind⟩
  | none => exact .inr ⟨u, rfl, hage, fun i e he => hfind i (List.mem_finRange i) e he⟩

/-! ## The slot of a new entry -/

/-- Of the slots `seen`, `best` is one whose entry satisfies `P` with the smallest key, if there is
one. -/
def IsEarliest (t : Throttle n) (P : ThrottleEntry → Prop) (key : ThrottleEntry → ℤ)
    (seen : Fin n → Prop) (best : Option (Fin n × ℤ)) : Prop :=
  match best with
  | none => ∀ j, seen j → ∀ c, t j = some c → ¬ P c
  | some (i, k) => (∃ c, t i = some c ∧ P c ∧ key c = k) ∧
      ∀ j, seen j → ∀ c, t j = some c → P c → k ≤ key c

theorem IsEarliest.earlier {t : Throttle n} {P : ThrottleEntry → Prop} {key : ThrottleEntry → ℤ}
    {seen : Fin n → Prop} {best : Option (Fin n × ℤ)} (h : IsEarliest t P key seen best) {i : Fin n}
    {c : ThrottleEntry} (hi : t i = some c) (hc : P c) :
    IsEarliest t P key (fun j => j = i ∨ seen j) (earlier best i (key c)) := by
  have hsame {j : Fin n} {c' : ThrottleEntry} (hj : j = i) (hc' : t j = some c') : c' = c := by
    subst hj
    exact Option.some.inj (hc'.symm.trans hi)
  cases best with
  | none =>
    refine ⟨⟨c, hi, hc, rfl⟩, ?_⟩
    rintro j (hj | hj) c' hc' hP
    · rw [hsame hj hc']
    · exact absurd hP (h j hj c' hc')
  | some b =>
    obtain ⟨⟨c₀, hc₀, hP₀, hk₀⟩, hmin⟩ := h
    unfold WebServer.earlier
    dsimp only
    split
    · refine ⟨⟨c, hi, hc, rfl⟩, ?_⟩
      rintro j (hj | hj) c' hc' hP
      · rw [hsame hj hc']
      · exact (le_of_lt ‹_›).trans (hmin j hj c' hc' hP)
    · refine ⟨⟨c₀, hc₀, hP₀, hk₀⟩, ?_⟩
      rintro j (hj | hj) c' hc' hP
      · rw [hsame hj hc']
        exact not_lt.1 ‹_›
      · exact hmin j hj c' hc' hP

/-- An entry that does not satisfy `P` changes nothing. -/
theorem IsEarliest.skip {t : Throttle n} {P : ThrottleEntry → Prop} {key : ThrottleEntry → ℤ}
    {seen : Fin n → Prop} {best : Option (Fin n × ℤ)} (h : IsEarliest t P key seen best) {i : Fin n}
    {c : ThrottleEntry} (hi : t i = some c) (hc : ¬ P c) :
    IsEarliest t P key (fun j => j = i ∨ seen j) best := by
  have hskip {j : Fin n} {c' : ThrottleEntry} (hj : j = i) (hc' : t j = some c') : ¬ P c' := by
    subst hj
    rw [Option.some.inj (hc'.symm.trans hi)]
    exact hc
  cases best with
  | none =>
    rintro j (hj | hj) c' hc'
    · exact hskip hj hc'
    · exact h j hj c' hc'
  | some b =>
    refine ⟨h.1, ?_⟩
    rintro j (hj | hj) c' hc' hP
    · exact absurd hP (hskip hj hc')
    · exact h.2 j hj c' hc' hP

/-- The slot that a new entry may take. -/
def MayTake (t : Throttle n) (nowUs : ℤ) (i : Fin n) : Prop :=
  t i = none ∨ (∀ j, t j ≠ none) ∧ ∃ c, t i = some c ∧
    (c.lockedUntilUs ≤ nowUs ∧
        (∀ j c', t j = some c' → c'.lockedUntilUs ≤ nowUs → c.lastFailureUs ≤ c'.lastFailureUs) ∨
      (∀ j c', t j = some c' → nowUs < c'.lockedUntilUs ∧ c.lockedUntilUs ≤ c'.lockedUntilUs))

theorem throttleSlotLoop_spec (t : Throttle n) (nowUs : ℤ) (is : List (Fin n))
    (seen : Fin n → Prop) (stale soonest : Option (Fin n × ℤ)) (hall : ∀ j, seen j ∨ j ∈ is)
    (hused : ∀ j, seen j → t j ≠ none) (hn : (∃ j, seen j) ∨ is ≠ [])
    (hstale : IsEarliest t (fun c => c.lockedUntilUs ≤ nowUs) ThrottleEntry.lastFailureUs seen
      stale)
    (hsoonest : IsEarliest t (fun c => nowUs < c.lockedUntilUs) ThrottleEntry.lockedUntilUs seen
      soonest) :
    ∃ i, throttleSlotLoop t nowUs is stale soonest = some i ∧ MayTake t nowUs i := by
  induction is generalizing seen stale soonest with
  | nil =>
    have hseen : ∀ j, seen j := fun j => (hall j).resolve_right (by simp)
    have hfull : ∀ j, t j ≠ none := fun j => hused j (hseen j)
    cases stale with
    | some b =>
      obtain ⟨⟨c, hc, hP, hk⟩, hmin⟩ := hstale
      exact ⟨b.1, rfl, .inr ⟨hfull, c, hc, .inl ⟨hP, fun j c' hj hc' =>
        hk.trans_le (hmin j (hseen j) c' hj hc')⟩⟩⟩
    | none =>
      have hlocked {j : Fin n} {c : ThrottleEntry} (hj : t j = some c) : nowUs < c.lockedUntilUs :=
        not_le.1 (hstale j (hseen j) c hj)
      cases soonest with
      | some b =>
        obtain ⟨⟨c, hc, hP, hk⟩, hmin⟩ := hsoonest
        exact ⟨b.1, rfl, .inr ⟨hfull, c, hc, .inr fun j c' hj =>
          ⟨hlocked hj, hk.trans_le (hmin j (hseen j) c' hj (hlocked hj))⟩⟩⟩
      | none =>
        -- there is a slot, and its entry is locked or not
        obtain ⟨j, hj⟩ := hn.resolve_right (by simp)
        obtain ⟨c, hc⟩ := Option.ne_none_iff_exists'.1 (hfull j)
        exact absurd (hlocked hc) (hsoonest j hj c hc)
  | cons i is ih =>
    unfold throttleSlotLoop
    cases hi : t i with
    | none => exact ⟨i, rfl, .inl hi⟩
    | some c =>
      have hall' : ∀ j, (j = i ∨ seen j) ∨ j ∈ is := fun j => by
        obtain h | h := hall j
        · exact .inl (.inr h)
        · obtain h | h := List.mem_cons.1 h
          · exact .inl (.inl h)
          · exact .inr h
      have hused' : ∀ j, (j = i ∨ seen j) → t j ≠ none := by
        rintro j (rfl | h)
        · simp [hi]
        · exact hused j h
      have hn' : (∃ j, j = i ∨ seen j) ∨ is ≠ [] := .inl ⟨i, .inl rfl⟩
      by_cases hl : c.lockedUntilUs ≤ nowUs
      · simp only [if_pos hl]
        exact ih _ _ _ hall' hused' hn' (hstale.earlier hi hl) (hsoonest.skip hi (not_lt.2 hl))
      · simp only [if_neg hl]
        exact ih _ _ _ hall' hused' hn' (hstale.skip hi hl) (hsoonest.earlier hi (not_le.1 hl))

/-- **Which slot a new entry takes.** -/
theorem throttleSlot_spec (hn : 0 < n) (t : Throttle n) (nowUs : ℤ) :
    ∃ i, throttleSlot t nowUs = some i ∧ MayTake t nowUs i := by
  refine throttleSlotLoop_spec t nowUs _ (fun _ => False) none none ?_ nofun ?_ ?_ ?_
  · exact fun j => .inr (List.mem_finRange j)
  · exact .inr (List.ne_nil_of_mem (List.mem_finRange (⟨0, hn⟩ : Fin n)))
  · exact fun j hj => hj.elim
  · exact fun j hj => hj.elim

/-! ## What the operations do to the table -/

/-- `web_auth_throttle_wait` only forgets entries. -/
theorem webAuthThrottleWait_agedFrom (t : Throttle n) (address : BitVec 32) (nowUs : ℤ) :
    AgedFrom nowUs t (webAuthThrottleWait t address nowUs).1 := by
  unfold webAuthThrottleWait
  obtain ⟨u, i, e, h, hage, -⟩ | ⟨u, h, hage, -⟩ := throttleFind_cases t address nowUs <;> rw [h]
  · exact hage
  · exact hage

/-- **`web_auth_throttle_failure`**: the entry of the address counts the failure, or a new one takes
a slot. -/
theorem webAuthThrottleFailure_cases (hn : 0 < n) (t : Throttle n) (address : BitVec 32)
    (nowUs : ℤ) : ∃ u, AgedFrom nowUs t u ∧
      ((∃ i e, u i = some e ∧ e.address = address ∧ ¬ e.Aged nowUs ∧
        webAuthThrottleFailure t address nowUs =
          (Function.update u i (some (e.fail nowUs).1), (e.fail nowUs).2)) ∨
      ((∀ i e, u i = some e → e.address ≠ address ∧ ¬ e.Aged nowUs) ∧ ∃ i, MayTake u nowUs i ∧
        webAuthThrottleFailure t address nowUs =
          (Function.update u i (some ((ThrottleEntry.fresh address).fail nowUs).1),
            ((ThrottleEntry.fresh address).fail nowUs).2))) := by
  unfold webAuthThrottleFailure
  obtain ⟨u, i, e, h, hage, hi, ha, hna⟩ | ⟨u, h, hage, hnone⟩ :=
    throttleFind_cases t address nowUs <;> rw [h]
  · exact ⟨u, hage, .inl ⟨i, e, hi, ha, hna, rfl⟩⟩
  · obtain ⟨i, hslot, htake⟩ := throttleSlot_spec hn u nowUs
    dsimp only
    rw [hslot]
    exact ⟨u, hage, .inr ⟨hnone, i, htake, rfl⟩⟩

theorem webAuthThrottleSuccess_eq_some {t : Throttle n} {address : BitVec 32} {i : Fin n}
    {e : ThrottleEntry} :
    webAuthThrottleSuccess t address i = some e ↔ t i = some e ∧ e.address ≠ address := by
  simp [webAuthThrottleSuccess, Option.filter_eq_some_iff]

end MacHPSDR.WebServer
