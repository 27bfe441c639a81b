import MacHPSDR.Foundations.Transition
import MacHPSDR.Hfdl.SysTable

/-!
# The version of the system table

The ground network numbers its tables modulo 4096. Once a table has been received whole, a copy of
an older one may still come, from a station that has not changed over yet.

`systable_is_newer` takes every larger number for a newer version, so a copy from before the numbers
came round replaces the current table; so does one that is more than half the space behind, which
looks like a wrap. `not_replaced_iff` says that these are the only ones: a copy `k` versions behind
the current version `v` leaves the table alone exactly when `k ≤ v` and `k ≤ 2047`.
-/

namespace MacHPSDR.Hfdl

/-- The octets are a table. -/
def systableWellformed (buf : List UInt8) : Bool :=
  match systableStations gsLearnedMax buf with
  | none | some [] => false
  | some (_ :: _) => true

/-- The receiver, with the number of versions that it has received. -/
structure Tables where
  stations : Stations
  issued : ℕ

/-- A table that is received whole: the next version, or a copy `k` versions behind the current one;
the current one itself is 0 behind. -/
inductive Arrival
  | next (buf : List UInt8)
  | copy (k : ℕ) (buf : List UInt8)

/-- Tables that are received whole; `v0` is the first version. -/
def network (v0 : ℕ) : System Tables Arrival where
  init := ⟨Stations.none, 0⟩
  step s a :=
    match a with
    | .next buf =>
      if systableWellformed buf then
        some ⟨(systableDecode s.stations buf ((v0 + s.issued) % 4096 : ℕ)).1, s.issued + 1⟩
      else none
    | .copy k buf =>
      if systableWellformed buf ∧ k < s.issued ∧ k < 4096 then
        some ⟨(systableDecode s.stations buf ((v0 + s.issued - 1 - k) % 4096 : ℕ)).1, s.issued⟩
      else none

/-- A late copy replaces the table. -/
def Replaces (v0 : ℕ) (s : Tables) (a : Arrival) : Prop :=
  ∃ k buf t, a = .copy k buf ∧ (network v0).step s a = some t ∧ t.stations ≠ s.stations

/-- A late copy is from before a wrap or too far behind. -/
def TooLate (v0 : ℕ) (s : Tables) (a : Arrival) : Prop :=
  ∃ k buf, a = .copy k buf ∧ ((network v0).step s a).isSome ∧
    ¬ ((k : ℤ) ≤ s.stations.version ∧ k ≤ 2047)

/-- The version that has been received last is the current one. -/
def Tables.Inv (v0 : ℕ) (s : Tables) : Prop :=
  (s.issued = 0 → s.stations.version = -1) ∧
    (0 < s.issued → s.stations.version = ((v0 + s.issued - 1) % 4096 : ℕ))

/-- The test of a copy `k` versions behind. -/
theorem isNewer_copy {x k : ℕ} (hk : k ≤ x) (hlt : k < 4096) :
    systableIsNewer ((x % 4096 : ℕ) : ℤ) (((x - k) % 4096 : ℕ) : ℤ) = false ↔
      (k : ℤ) ≤ ((x % 4096 : ℕ) : ℤ) ∧ k ≤ 2047 := by
  unfold systableIsNewer systableVersionMax
  split_ifs with h1 h2 h3
  · omega
  · omega
  · simp only [true_iff]
    omega
  · simp only [Bool.or_eq_false_iff, decide_eq_false_iff_not]
    omega

/-- The test of the next version. -/
theorem isNewer_next (x : ℕ) :
    systableIsNewer ((x % 4096 : ℕ) : ℤ) (((x + 1) % 4096 : ℕ) : ℤ) = true := by
  unfold systableIsNewer systableVersionMax
  split_ifs with h1 h2 h3
  · rfl
  · omega
  · omega
  · simp only [Bool.or_eq_true, decide_eq_true_eq]
    omega

theorem isNewer_self (v : ℤ) : systableIsNewer v v = false := by
  unfold systableIsNewer
  split_ifs with hfirst hsame
  · omega
  · rfl
  · exact absurd rfl hsame

/-- A table that is not newer changes nothing; a newer one brings its version. -/
theorem decode_of_wellformed {buf : List UInt8} (h : systableWellformed buf = true) (s : Stations)
    (version : ℤ) :
    (systableIsNewer s.version version = false → (systableDecode s buf version).1 = s) ∧
    (systableIsNewer s.version version = true →
      (systableDecode s buf version).1.version = version) := by
  unfold systableWellformed at h
  unfold systableDecode
  split at h
  · cases h
  · cases h
  · rename_i st rest heq
    rw [heq]
    constructor
    · intro hnew
      simp [hnew]
    · intro hnew
      simp [hnew]

namespace Tables

variable {v0 : ℕ}

theorem inv_init : Inv v0 (network v0).init := ⟨fun _ => rfl, fun h => absurd h (lt_irrefl 0)⟩

/-- A copy leaves the table alone exactly when it is not too late. -/
theorem not_replaces_iff (s : Tables) (a : Arrival) (h : Inv v0 s) :
    ¬ TooLate v0 s a ↔ ¬ Replaces v0 s a := by
  refine not_congr ?_
  cases a with
  | next buf =>
    constructor
    · rintro ⟨k, buf', heq, -⟩
      cases heq
    · rintro ⟨k, buf', t, heq, -⟩
      cases heq
  | copy k buf =>
    by_cases hguard : systableWellformed buf = true ∧ k < s.issued ∧ k < 4096
    · obtain ⟨hwell, hk, hlt⟩ := hguard
      have hcur := h.2 (Nat.zero_lt_of_lt hk)
      obtain ⟨hold, hnew⟩ := decode_of_wellformed hwell s.stations
        ((v0 + s.issued - 1 - k) % 4096 : ℕ)
      have hiff := isNewer_copy (x := v0 + s.issued - 1) (k := k) (by omega) hlt
      rw [← hcur] at hiff
      have hstep : (network v0).step s (.copy k buf) = some
          ⟨(systableDecode s.stations buf ((v0 + s.issued - 1 - k) % 4096 : ℕ)).1, s.issued⟩ :=
        if_pos ⟨hwell, hk, hlt⟩
      constructor
      · rintro ⟨k', buf', heq, -, hlate⟩
        obtain ⟨rfl, rfl⟩ := Arrival.copy.inj heq
        refine ⟨k, buf, _, rfl, hstep, fun hsame => hlate (hiff.1 ?_)⟩
        cases hn : systableIsNewer s.stations.version ((v0 + s.issued - 1 - k) % 4096 : ℕ) with
        | false => rfl
        | true =>
          have hver := (congrArg Stations.version hsame).symm.trans (hnew hn)
          rw [← hver, isNewer_self] at hn
          cases hn
      · rintro ⟨k', buf', t, heq, hs, hne⟩
        obtain ⟨rfl, rfl⟩ := Arrival.copy.inj heq
        obtain rfl := Option.some.inj (hstep.symm.trans hs)
        refine ⟨k, buf, rfl, by rw [hstep]; rfl, fun hok => hne (hold (hiff.2 hok))⟩
    · have hstep : (network v0).step s (.copy k buf) = none := if_neg hguard
      constructor
      · rintro ⟨k', buf', -, hsome, -⟩
        rw [hstep] at hsome
        cases hsome
      · rintro ⟨k', buf', t, -, hs, -⟩
        rw [hstep] at hs
        cases hs

theorem inv_step (s : Tables) (a : Arrival) (s' : Tables) (h : Inv v0 s)
    (hlate : ¬ TooLate v0 s a) (hs : (network v0).step s a = some s') : Inv v0 s' := by
  have hkeep := (not_replaces_iff s a h).1 hlate
  cases a with
  | next buf =>
    simp only [network] at hs
    split_ifs at hs with hwell
    obtain rfl := Option.some.inj hs
    obtain ⟨-, hnew⟩ := decode_of_wellformed hwell s.stations ((v0 + s.issued) % 4096 : ℕ)
    refine ⟨fun hzero => absurd hzero (Nat.succ_ne_zero _), fun _ => ?_⟩
    simp only
    rw [hnew]
    · rfl
    · rcases Nat.eq_zero_or_pos s.issued with hzero | hpos
      · rw [h.1 hzero]
        exact if_pos ⟨by omega, by omega⟩
      · rw [h.2 hpos]
        have hsucc := isNewer_next (v0 + s.issued - 1)
        rwa [show v0 + s.issued - 1 + 1 = v0 + s.issued by omega] at hsucc
  | copy k buf =>
    have hsame : s'.stations = s.stations := by
      by_contra hne
      exact hkeep ⟨k, buf, s', rfl, hs, hne⟩
    simp only [network] at hs
    split_ifs at hs with hguard
    have hissued : s'.issued = s.issued := by
      obtain rfl := Option.some.inj hs
      rfl
    unfold Inv
    rw [hsame, hissued]
    exact h

end Tables

/-- **When a late copy is ignored.** In a run of tables received whole, no copy of a superseded
version replaces the current table exactly when none is from before a wrap of the numbers or more
than 2047 versions behind. -/
theorem not_replaced_iff (v0 : ℕ) (as : List Arrival) :
    (network v0).Along (fun s a => ¬ Replaces v0 s a) (network v0).init as ↔
      (network v0).Along (fun s a => ¬ TooLate v0 s a) (network v0).init as :=
  ((network v0).along_congr Tables.inv_step Tables.not_replaces_iff as
    Tables.inv_init).symm

/-- A table of one station with one frequency. -/
def oneStation : List UInt8 := [0x84, 0, 0, 0, 0, 0, 0x09, 0, 0, 0, 1]

/-- The version goes from 4095 to 0, and a copy of 4095 comes back. -/
theorem copy_across_wrap : ∃ s, (network 4095).exec (network 4095).init
    [.next oneStation, .next oneStation] = some s ∧ s.stations.version = 0 ∧
    ∃ t, (network 4095).step s (.copy 1 oneStation) = some t ∧ t.stations.version = 4095 :=
  ⟨_, rfl, rfl, _, rfl, rfl⟩

end MacHPSDR.Hfdl
