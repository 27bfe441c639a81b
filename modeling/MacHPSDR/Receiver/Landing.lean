import MacHPSDR.Receiver.Converter
import MacHPSDR.Receiver.Satellite
import Mathlib

/-!
# Where a frequency lands

A frequency is typed in whole, or one digit of the display at a time. Either way it becomes a move:
the sign of a move of VFO A depends on whether there is a cursor, and a move that goes further out
of the range of the receiver is refused. A receiver that shares the hardware of another one ends in
the window that the hardware covers.
-/

namespace MacHPSDR.Receiver

/-! ## Digits -/

/-- `GDK_KEY_0` to `GDK_KEY_9`, and those of the keypad. -/
def keyDigit (keyval : ℕ) : Option ℤ :=
  if 0x30 ≤ keyval ∧ keyval ≤ 0x39 then some (keyval - 0x30)
  else if 0xffb0 ≤ keyval ∧ keyval ≤ 0xffb9 then some (keyval - 0xffb0)
  else none

/-- `ll_step`; 0 is a separator. -/
def llStep : List ℤ :=
  [10000000000, 1000000000, 100000000, 10000000, 1000000, 0, 100000, 10000, 1000, 0, 100, 10, 1]

/-- The place of a digit of the display. -/
def place (digit : ℕ) : ℤ := llStep.getD digit 0

/-- The digit under the pointer: `freq_hover_digit` and `freq_hover_is_b`. -/
structure Hover where
  digit : ℤ
  isB : Bool

/-- The next digit to the right that is no separator. -/
def nextDigit (digit : ℕ) : ℕ :=
  ((List.range 13).find? fun nd => digit < nd && place nd ≠ 0).getD digit

/-- The frequency `f` with another digit at a place. -/
def withDigit (f place n : ℤ) : ℤ := f + (n - (f.tdiv place).tmod 10) * place

namespace Rx

variable (s : Rx)

/-- The frequency that a VFO shows. -/
def shown (isB : Bool) : ℤ := if isB then s.frequencyB else s.tunedFrequency

/-- `vfo_type_digit`: whether the key is consumed, the digit under the pointer then, and the
receiver. The pointer is over a display of this receiver. -/
def vfoTypeDigit (keyval : ℕ) (hover : Hover) : Bool × Hover × Rx :=
  match keyDigit keyval with
  | none => (false, hover, s)
  | some n =>
    if s.locked || hover.digit < 0 || 13 ≤ hover.digit then (false, hover, s)
    else
      let digit := hover.digit.toNat
      if place digit = 0 then (false, hover, s)
      else
        let f := s.shown hover.isB
        let cur := (f.tdiv (place digit)).tmod 10
        let want := (n - cur) * place digit
        let t :=
          if hover.isB then (s.receiverMoveB want false false).frequencyChanged
          else if s.hasCursor then s.receiverMove want false
          else s.receiverMove (-want) false
        (true, { hover with digit := nextDigit digit }, t)

end Rx

/-! ## What a move lands on -/

/-- An unlocked receiver with no converter, no sub-receiver and no linked pair. -/
structure Direct (s : Rx) : Prop where
  locked : s.locked = false
  loA : s.loA = 0
  subrx : s.subrx = false
  subrxEnable : s.subrxEnable = false
  unlinked : ¬ ((s.split = .sat ∨ s.split = .rsat) ∧ s.vfoLinked = true)

/-- The move leaves the range, or goes further out of it. -/
def Outward (lo hi cur nf : ℤ) : Prop := nf < lo ∧ nf < cur ∨ hi < nf ∧ cur < nf

/-- `g` is `f` with the digit `n` at a place. -/
def DigitSet (f g n place : ℤ) : Prop :=
  ∃ e : ℕ, place = 10 ^ e ∧ ∀ k : ℕ, g / 10 ^ k % 10 = if k = e then n else f / 10 ^ k % 10

namespace Rx

variable (s : Rx)

/-- VFO A, or its cursor, at `landed`; in freetune the centre has slid along with the cursor as it
was asked for. -/
def put (asked landed : ℤ) : Rx :=
  if s.hasCursor then
    { s with
      ctunFrequency := landed
      frequencyA := if s.freetune then s.centre asked else s.frequencyA }
  else { s with frequencyA := landed }

/-- The frequency under the pointer, with the digit that is typed. -/
def typed (n : ℤ) (hover : Hover) : ℤ :=
  withDigit (s.shown hover.isB) (place hover.digit.toNat) n

/-- What the window of the hardware makes of it. -/
def landing (asked landed : ℤ) : ℤ := landed + (s.put asked landed).windowError

/-- Where typing and moving take the receiver. -/
structure LandsRight (s : Rx) : Prop where
  /-- A receiver with hardware of its own is not held in a window. -/
  owner : s.owner = true → ∀ asked landed, s.landing asked landed = landed
  applyA : ∀ target, 1 ≤ target → target ≤ s.receiverMaxFrequency →
    (s.vfoApplyFrequency target false).tunedFrequency = s.landing target target
  applyB : s.split ≠ .rsat → ∀ target, 1 ≤ target → target ≤ s.receiverMaxFrequency →
    (s.vfoApplyFrequency target true).frequencyB = target
  /-- The digit under the pointer, and no other, is the one that is typed. -/
  digit : ∀ keyval n, ∀ hover : Hover, keyDigit keyval = some n → 0 ≤ hover.digit →
    hover.digit < 13 → place hover.digit.toNat ≠ 0 → 0 ≤ s.shown hover.isB →
    DigitSet (s.shown hover.isB) (s.typed n hover) n (place hover.digit.toNat) ∧
      (1 ≤ s.typed n hover → s.typed n hover ≤ s.receiverMaxFrequency → if hover.isB then
        s.split ≠ .rsat → (s.vfoTypeDigit keyval hover).2.2.frequencyB = s.typed n hover
      else (s.vfoTypeDigit keyval hover).2.2.tunedFrequency =
        s.landing (s.typed n hover) (s.typed n hover))
  refusedA : ∀ hz round, Outward 0 s.receiverMaxFrequency s.tunedFrequency
      (s.tunedFrequency + s.pull hz) →
      (s.receiverMove hz round).frequencyA = s.frequencyA + s.windowError ∧
      (s.receiverMove hz round).ctunFrequency = s.ctunFrequency + s.windowError ∧
      (s.receiverMove hz round).frequencyB = s.frequencyB
  acceptedA : ∀ hz round, ¬ Outward 0 s.receiverMaxFrequency s.tunedFrequency
      (s.tunedFrequency + s.pull hz) →
    (s.receiverMove hz round).tunedFrequency =
      s.landing (s.tunedFrequency + s.pull hz) (s.pulled hz round)
  refusedB : ∀ hz bOnly round, Outward 1 s.receiverMaxFrequency s.frequencyB (s.frequencyB + hz) →
    s.receiverMoveB hz bOnly round = s
  acceptedB : s.split ≠ .rsat → ∀ hz bOnly round,
    ¬ Outward 1 s.receiverMaxFrequency s.frequencyB (s.frequencyB + hz) →
    (s.receiverMoveB hz bOnly round).frequencyB = s.roundedB round (s.frequencyB + hz)

end Rx

/-! ## Digits -/

/-- A digit set at `10 ^ e` leaves those below alone. -/
theorem digit_below {f d : ℤ} {k e : ℕ} (hk : k < e) :
    (f + d * 10 ^ e) / 10 ^ k % 10 = f / 10 ^ k % 10 := by
  have hpow : d * (10 : ℤ) ^ e = d * 10 ^ (e - k - 1) * 10 * 10 ^ k := by
    rw [mul_assoc, mul_assoc, ← pow_succ', ← pow_add]
    congr 2
    omega
  rw [hpow, Int.add_mul_ediv_right _ _ (by positivity)]
  omega

/-- And those above, as there is no carry. -/
theorem digit_above {f n : ℤ} {k e : ℕ} (hn : 0 ≤ n) (hn' : n < 10) (hk : e < k) :
    (f + (n - f / 10 ^ e % 10) * 10 ^ e) / 10 ^ k % 10 = f / 10 ^ k % 10 := by
  have hpow : (10 : ℤ) ^ k = 10 ^ e * 10 * 10 ^ (k - e - 1) := by
    rw [← pow_succ, ← pow_add]
    congr 1
    omega
  have hten : (0 : ℤ) ≤ 10 ^ e := by positivity
  have hten' : (0 : ℤ) ≤ 10 ^ e * 10 := by positivity
  rw [hpow, ← Int.ediv_ediv_of_nonneg hten', ← Int.ediv_ediv_of_nonneg hten,
    ← Int.ediv_ediv_of_nonneg hten', ← Int.ediv_ediv_of_nonneg hten,
    Int.add_mul_ediv_right _ _ (by positivity)]
  generalize f / 10 ^ e = q
  have hsame : (q + (n - q % 10)) / 10 = q / 10 := by omega
  rw [hsame]

theorem digitSet_withDigit {f n : ℤ} (hf : 0 ≤ f) (hn : 0 ≤ n) (hn' : n < 10) (e : ℕ) :
    DigitSet f (withDigit f (10 ^ e) n) n (10 ^ e) := by
  have hcur : (f.tdiv (10 ^ e)).tmod 10 = f / 10 ^ e % 10 := by
    rw [Int.tdiv_eq_ediv_of_nonneg hf,
      Int.tmod_eq_emod_of_nonneg (Int.ediv_nonneg hf (by positivity))]
  refine ⟨e, rfl, fun k => ?_⟩
  unfold withDigit
  rw [hcur]
  rcases lt_trichotomy k e with hk | rfl | hk
  · rw [if_neg (by omega), digit_below hk]
  · rw [if_pos rfl, Int.add_mul_ediv_right _ _ (by positivity)]
    generalize f / 10 ^ k = q
    omega
  · rw [if_neg (by omega), digit_above hn hn' hk]

/-- A place that is no separator is a power of ten. -/
theorem place_eq_pow {digit : ℕ} (hplace : place digit ≠ 0) : ∃ e, place digit = 10 ^ e := by
  by_cases hdigit : digit < 13
  · refine ⟨Nat.log 10 (place digit).toNat, ?_⟩
    interval_cases digit <;> first | exact absurd rfl hplace | decide +kernel
  · exact absurd (List.getD_eq_default _ _ (by simpa [llStep] using hdigit)) hplace

theorem keyDigit_range {keyval : ℕ} {n : ℤ} (h : keyDigit keyval = some n) : 0 ≤ n ∧ n < 10 := by
  unfold keyDigit at h
  split_ifs at h with hrow hpad
  · obtain rfl := Option.some.inj h
    omega
  · obtain rfl := Option.some.inj h
    omega

/-! ## Moves -/

theorem not_outward {lo hi cur nf : ℤ} (hlo : lo ≤ nf) (hhi : nf ≤ hi) :
    ¬ Outward lo hi cur nf := by
  rintro (⟨hbelow, -⟩ | ⟨habove, -⟩)
  · exact absurd hbelow (not_lt.mpr hlo)
  · exact absurd habove (not_lt.mpr hhi)

/-- The guard of VFO B has 0 out of its range. -/
theorem refusedB_iff (s : Settings) (cur nf : ℤ) :
    s.RefusedB cur nf ↔ Outward 1 s.receiverMaxFrequency cur nf := by
  unfold Settings.RefusedB Outward
  constructor
  · rintro (⟨hlow, hcur⟩ | h)
    · exact .inl ⟨by omega, hcur⟩
    · exact .inr h
  · rintro (⟨hlow, hcur⟩ | h)
    · exact .inl ⟨by omega, hcur⟩
    · exact .inr h

namespace Rx

variable {s : Rx}

theorem follow_of_unlinked (h : ¬ ((s.split = .sat ∨ s.split = .rsat) ∧ s.vfoLinked = true))
    (delta : ℤ) (round : Bool) : s.follow delta round = s := by
  unfold follow
  rw [if_neg (by simpa using h)]

theorem syncTransverter_frequencyB (s : Rx) : s.syncTransverter.frequencyB = s.frequencyB := by
  rcases s.syncTransverter_cases with ⟨-, h⟩ | ⟨-, ⟨b, -, h⟩ | ⟨-, -, h⟩ | ⟨-, -, h⟩⟩ <;> rw [h]

theorem placeCursor_frequencyB (s : Rx) : s.placeCursor.frequencyB = s.frequencyB := by
  cases hcursor : s.hasCursor with
  | true => rw [s.placeCursor_cursor hcursor]
  | false => rw [s.placeCursor_plain hcursor]

theorem frequencyChanged_frequencyB (hsub : s.subrxEnable = false) :
    s.frequencyChanged.frequencyB = s.frequencyB := by
  have hnot : s.syncTransverter.clampToSharedWindow.placeCursor.subrxEnable = false := by
    rw [(sameDial_placeCursor _).settings]
    change s.syncTransverter.subrxEnable = false
    rw [s.syncTransverter_settings]
    exact hsub
  unfold frequencyChanged
  dsimp only
  rw [if_neg (by simp [hnot])]
  change s.syncTransverter.clampToSharedWindow.placeCursor.frequencyB = s.frequencyB
  rw [placeCursor_frequencyB]
  exact s.syncTransverter_frequencyB

/-- With no converter `frequency_changed` only holds VFO A in the window. -/
theorem sameDial_clamped (hlo : s.loA = 0) : SameDial s.clampToSharedWindow s.frequencyChanged := by
  have hsync : s.syncTransverter = s := s.syncTransverter_of_not fun h => h.1 hlo
  have hdial := s.sameDial_frequencyChanged
  rwa [hsync] at hdial

theorem tunedFrequency_clamped :
    s.clampToSharedWindow.tunedFrequency = s.tunedFrequency + s.windowError := by
  unfold tunedFrequency clampToSharedWindow
  cases hcursor : s.hasCursor with
  | true => rfl
  | false => rfl

theorem put_tunedFrequency (asked landed : ℤ) : (s.put asked landed).tunedFrequency = landed := by
  unfold put tunedFrequency
  cases hcursor : s.hasCursor with
  | true =>
    simp only [if_true]
    exact if_pos hcursor
  | false =>
    simp only [Bool.false_eq_true, if_false]
    exact if_neg (by simpa using hcursor)

theorem put_settings (asked landed : ℤ) : (s.put asked landed).toSettings = s.toSettings := by
  unfold put
  split <;> rfl

theorem put_loA (asked landed : ℤ) : (s.put asked landed).loA = s.loA := by
  unfold put
  split <;> rfl

theorem receiverMoveA_put {hz : ℤ} {round : Bool} (hlocked : s.locked = false)
    (hrefused : ¬ s.Refused s.tunedFrequency (s.tunedFrequency + s.pull hz)) :
    (s.receiverMoveA hz round).2 = s.put (s.tunedFrequency + s.pull hz) (s.pulled hz round) := by
  rw [s.receiverMoveA_eq hlocked hrefused]
  unfold put tunedFrequency pull
  cases hcursor : s.hasCursor with
  | true => rfl
  | false => rfl

/-- **A move of VFO A** that is accepted. -/
theorem receiverMove_accepted (hs : Direct s) {hz : ℤ} {round : Bool}
    (hrefused : ¬ s.Refused s.tunedFrequency (s.tunedFrequency + s.pull hz)) :
    (s.receiverMove hz round).tunedFrequency =
      s.landing (s.tunedFrequency + s.pull hz) (s.pulled hz round) := by
  unfold receiverMove
  rw [if_neg (by simp [hs.locked])]
  dsimp only
  have hput : (s.receiverMoveA hz round).2 =
      s.put (s.tunedFrequency + s.pull hz) (s.pulled hz round) :=
    receiverMoveA_put hs.locked hrefused
  have hfollow (delta : ℤ) : (s.receiverMoveA hz round).2.follow delta round =
      s.put (s.tunedFrequency + s.pull hz) (s.pulled hz round) := by
    rw [hput]
    refine follow_of_unlinked ?_ delta round
    rw [put_settings]
    exact hs.unlinked
  rw [hfollow, (sameA_updateFrequency _).toSameDial.tunedFrequency,
    (sameDial_clamped ((put_loA _ _).trans hs.loA)).tunedFrequency, tunedFrequency_clamped,
    put_tunedFrequency]
  rfl

/-- And one that is refused. -/
theorem receiverMove_refused (hs : Direct s) {hz : ℤ} {round : Bool}
    (hrefused : s.Refused s.tunedFrequency (s.tunedFrequency + s.pull hz)) :
    s.receiverMove hz round = s.frequencyChanged.updateFrequency := by
  unfold receiverMove
  rw [if_neg (by simp [hs.locked]), s.receiverMoveA_refused (.inr hrefused)]
  dsimp only
  rw [follow_of_unlinked hs.unlinked]

/-- **A move of VFO B** that is accepted, where it adds. -/
theorem receiverMoveB_accepted (hs : Direct s) (hrsat : s.split ≠ .rsat) {hz : ℤ}
    (hrefused : ¬ s.RefusedB s.frequencyB (s.frequencyB + hz)) (bOnly round : Bool) :
    (s.receiverMoveB hz bOnly round).frequencyB = s.roundedB round (s.frequencyB + hz) := by
  unfold receiverMoveB
  rw [if_neg (by simp [hs.locked]), if_neg hrefused]
  cases hsplit : s.split with
  | off => rfl
  | on => rfl
  | sat =>
    have hlinked : s.vfoLinked = false := by
      by_contra h
      exact hs.unlinked ⟨.inl hsplit, by simpa using h⟩
    have hhold (f : ℤ) : s.holdB f = f := by
      unfold holdB
      rw [hs.subrx]
      rfl
    dsimp only
    rw [hlinked, Bool.and_false, if_neg (by decide), hhold]
    rfl
  | rsat => exact absurd hsplit hrsat

theorem landing_of_owner (howner : s.owner = true) (asked landed : ℤ) :
    s.landing asked landed = landed := by
  unfold landing
  rw [windowError_of_owner _ (by rw [put_settings]; exact howner), add_zero]

/-- A digit is typed: its VFO is put at the frequency with that digit. -/
theorem vfoTypeDigit_eq (hlocked : s.locked = false) {keyval : ℕ} {n : ℤ} {hover : Hover}
    (hkey : keyDigit keyval = some n) (hlow : 0 ≤ hover.digit) (hhigh : hover.digit < 13)
    (hplace : place hover.digit.toNat ≠ 0) : (s.vfoTypeDigit keyval hover).2.2 =
      s.vfoApplyFrequency (s.typed n hover) hover.isB := by
  have hfree : ¬ s.locked = true := by simp [hlocked]
  have hconsumed : ¬ (s.locked || hover.digit < 0 || 13 ≤ hover.digit) = true := by
    simp [hlocked]
    omega
  unfold vfoTypeDigit
  rw [hkey]
  dsimp only
  rw [if_neg hconsumed, if_neg hplace]
  unfold vfoApplyFrequency typed shown tunedFrequency
  rw [if_neg hfree]
  cases hover.isB with
  | true => simp only [if_true, withDigit, add_sub_cancel_left]
  | false =>
    cases hcursor : s.hasCursor with
    | true => simp only [Bool.false_eq_true, if_false, if_true, withDigit, add_sub_cancel_left]
    | false => simp only [Bool.false_eq_true, if_false, withDigit, add_sub_cancel_left]

theorem vfoApplyFrequency_lands (hs : Direct s) {target : ℤ} (hlow : 1 ≤ target)
    (hhigh : target ≤ s.receiverMaxFrequency) :
    (s.vfoApplyFrequency target false).tunedFrequency = s.landing target target := by
  have hpull : s.tunedFrequency + s.pull (s.pull (target - s.tunedFrequency)) = target := by
    unfold pull
    cases s.hasCursor
    · simp
    · simp
  have hrefused : ¬ s.Refused s.tunedFrequency
      (s.tunedFrequency + s.pull (s.pull (target - s.tunedFrequency))) := by
    rw [hpull]
    exact not_outward (by omega) hhigh
  rw [vfoApplyFrequency_a hs.locked, receiverMove_accepted hs hrefused]
  unfold pulled Settings.roundedA
  rw [hpull]
  rfl

theorem vfoApplyFrequency_landsB (hs : Direct s) (hrsat : s.split ≠ .rsat) {target : ℤ}
    (hlow : 1 ≤ target) (hhigh : target ≤ s.receiverMaxFrequency) :
    (s.vfoApplyFrequency target true).frequencyB = target := by
  have hrefused : ¬ s.RefusedB s.frequencyB (s.frequencyB + (target - s.frequencyB)) := by
    rw [refusedB_iff, add_sub_cancel]
    exact not_outward hlow hhigh
  have hmoved := receiverMoveB_accepted hs hrsat hrefused false false
  have hsettings : (s.receiverMoveB (target - s.frequencyB) false false).toSettings =
      s.toSettings :=
    (s.sameA_receiverMoveB _ false false (.inr fun h => hs.unlinked ⟨h.2, h.1⟩)).settings
  rw [vfoApplyFrequency_b hs.locked, frequencyChanged_frequencyB (by
    rw [hsettings]; exact hs.subrxEnable), hmoved]
  exact add_sub_cancel _ _

end Rx

/-- **Typing and moving land where they should.** -/
theorem tuning_lands (s : Rx) (hs : Direct s) : s.LandsRight where
  owner howner asked landed := Rx.landing_of_owner howner asked landed
  applyA _ hlow hhigh := Rx.vfoApplyFrequency_lands hs hlow hhigh
  applyB hrsat _ hlow hhigh := Rx.vfoApplyFrequency_landsB hs hrsat hlow hhigh
  digit keyval n hover hkey hlow hhigh hplace hshown := by
    obtain ⟨hn, hn'⟩ := keyDigit_range hkey
    obtain ⟨e, hpow⟩ := place_eq_pow hplace
    refine ⟨?_, fun hone hmax => ?_⟩
    · unfold Rx.typed
      rw [hpow]
      exact digitSet_withDigit hshown hn hn' e
    · rw [Rx.vfoTypeDigit_eq hs.locked hkey hlow hhigh hplace]
      split_ifs with hB
      · intro hrsat
        rw [hB]
        exact Rx.vfoApplyFrequency_landsB hs hrsat hone hmax
      · rw [Bool.eq_false_iff.mpr hB]
        exact Rx.vfoApplyFrequency_lands hs hone hmax
  refusedA hz round hout := by
    rw [Rx.receiverMove_refused hs hout]
    have hdial := Rx.sameDial_clamped hs.loA
    exact ⟨hdial.frequencyA, hdial.ctunFrequency, Rx.frequencyChanged_frequencyB hs.subrxEnable⟩
  acceptedA hz round hin := Rx.receiverMove_accepted hs hin
  refusedB hz bOnly round hout := Rx.receiverMoveB_stays (.inr ((refusedB_iff _ _ _).2 hout))
  acceptedB hrsat hz bOnly round hin :=
    Rx.receiverMoveB_accepted hs hrsat (by rw [refusedB_iff]; exact hin) bOnly round

/-- The receiver on 20 m goes to a frequency that is typed in. -/
theorem tuning_lands_twentyMetres : Direct twentyMetres ∧ twentyMetres.LandsRight ∧
    (twentyMetres.vfoApplyFrequency 14250000 false).tunedFrequency = 14250000 := by
  have hdirect : Direct twentyMetres := ⟨rfl, rfl, rfl, rfl, by decide⟩
  have hlands := tuning_lands twentyMetres hdirect
  exact ⟨hdirect, hlands,
    (hlands.applyA 14250000 (by decide) (by decide)).trans (hlands.owner rfl _ _)⟩

/-- It shares the hardware of a receiver that is tuned to 14.2 MHz. -/
def twentyMetresShared : Rx := { twentyMetres with
  owner := false
  adcLo := 14200000
  hwRate := 384000 }

/-- A receiver that shares hardware stops at the edge of the window. VFO B of an unlinked reverse
pair goes the other way. A digit typed over a negative frequency changes the others, and VFO A goes
to 0. -/
theorem not_tuning_lands :
    (Direct twentyMetresShared ∧
      (twentyMetresShared.vfoApplyFrequency 14300000 false).tunedFrequency = 14296000) ∧
    (Direct { twentyMetres with split := .rsat } ∧
      ({ twentyMetres with split := .rsat }.vfoApplyFrequency 14210000 true).frequencyB =
        14190000) ∧
    (Direct { twentyMetres with frequencyA := -12345 } ∧
      ({ twentyMetres with frequencyA := -12345 }.vfoTypeDigit 0x33 ⟨7, false⟩).2.2.frequencyA =
        27655) ∧
    (Direct { twentyMetres with frequencyA := 1 } ∧
      ({ twentyMetres with frequencyA := 1 }.receiverMove 1 false).frequencyA = 0) :=
  ⟨⟨⟨rfl, rfl, rfl, rfl, by decide⟩, by decide⟩, ⟨⟨rfl, rfl, rfl, rfl, by decide⟩, by decide⟩,
    ⟨⟨rfl, rfl, rfl, rfl, by decide⟩, by decide +kernel⟩,
    ⟨⟨rfl, rfl, rfl, rfl, by decide⟩, by decide⟩⟩

end MacHPSDR.Receiver
