import MacHPSDR.Ft8.Engine
import Mathlib

/-!
# Every decode is acted on at most once

The engine finds what is new in the decoder's list by the position `(last_utc, last_n)`. Starting a
CQ and answering a station reset the position, and then the next poll acts on the whole list again.

A poll finds the list *continued* when its slot is the one that was acted on last and the position
has not been reset since, and *untouched* when nothing of its slot was acted on yet. As long as
every poll that acts finds the one or the other, no entry is acted on twice
(`engine_handled_nodup`).
-/

namespace MacHPSDR.Ft8

/-! ## The position is changed by the poll, and by the commands that reset it -/

namespace Qso

variable (q : Qso)

@[simp] theorem logQso_lastUtc : q.logQso.lastUtc = q.lastUtc := by
  unfold logQso
  split <;> rfl

@[simp] theorem logQso_lastN : q.logQso.lastN = q.lastN := by
  unfold logQso
  split <;> rfl

/-- A decode does not move the position. -/
theorem handleDecode_position (now : ℤ) (d : Decode) :
    (q.handleDecode now d).lastUtc = q.lastUtc ∧ (q.handleDecode now d).lastN = q.lastN := by
  unfold handleDecode
  split
  · unfold advance
    repeat' split
    all_goals
      simp [progress, goIdle, setDx, msgReport, msgRreport, msgRr73, msg73, msgTo, setPending]
  · exact ⟨rfl, rfl⟩

theorem pollWatchdog_position (now : ℤ) :
    (q.pollWatchdog now).lastUtc = q.lastUtc ∧ (q.pollWatchdog now).lastN = q.lastN := by
  unfold pollWatchdog
  dsimp only
  split <;> split <;> exact ⟨rfl, rfl⟩

theorem pollTxEnd_position (active : Bool) :
    (q.pollTxEnd active).lastUtc = q.lastUtc ∧ (q.pollTxEnd active).lastN = q.lastN := by
  unfold pollTxEnd
  dsimp only
  repeat' split
  all_goals exact ⟨rfl, rfl⟩

theorem pollArm_position (active encodes : Bool) :
    (q.pollArm active encodes).lastUtc = q.lastUtc ∧
      (q.pollArm active encodes).lastN = q.lastN := by
  unfold pollArm
  dsimp only
  repeat' split
  all_goals exact ⟨rfl, rfl⟩

end Qso

/-- A command keeps the position or resets it. -/
theorem Command.run_position (r : Station) (q : Qso) (c : Command) :
    (c.run r q).lastUtc = none ∨
      (c.run r q).lastUtc = q.lastUtc ∧ (c.run r q).lastN = q.lastN := by
  cases c with
  | startCq =>
    simp only [run, Qso.startCq]
    split
    · exact .inr ⟨rfl, rfl⟩
    · exact .inl rfl
  | answer d =>
    simp only [run, Qso.answer]
    split
    · exact .inr ⟨rfl, rfl⟩
    · split
      · exact .inr ⟨rfl, rfl⟩
      · exact .inl rfl
  | selectTx idx =>
    right
    simp only [run, Qso.selectTx]
    repeat' split
    all_goals exact ⟨rfl, rfl⟩
  | sendFree text =>
    right
    simp only [run, Qso.sendFree]
    split <;> exact ⟨rfl, rfl⟩
  | halt | setTxEnabled | setAuto => exact .inr ⟨rfl, rfl⟩

/-! ## What a poll acts on -/

namespace State

/-- The poll acts on a first part of the entries `ds`; it is not empty unless the engine is idle. -/
theorem handleFrom_spec (now slot : ℤ) (i : ℕ) (ds : List Decode) (s : State) :
    ∃ k ≤ ds.length, (s.qso.state ≠ .idle → ds ≠ [] → 0 < k) ∧
      handled (handleFrom now slot i ds s).history =
        handled s.history ++ (List.range' i k).map (slot, ·) ∧
      (handleFrom now slot i ds s).qso.lastUtc = s.qso.lastUtc ∧
      (handleFrom now slot i ds s).qso.lastN = s.qso.lastN ∧
      (handleFrom now slot i ds s).decodes = s.decodes := by
  induction ds generalizing i s with
  | nil => exact ⟨0, le_rfl, by simp, by simp [handleFrom], rfl, rfl, rfl⟩
  | cons d ds ih =>
    unfold handleFrom
    split
    case isTrue h => exact ⟨0, by simp, fun hs => absurd h hs, by simp, rfl, rfl, rfl⟩
    case isFalse =>
      obtain ⟨k, hk, -, hh, hu, hn, hd⟩ := ih (i + 1)
        { s with
          qso := s.qso.handleDecode now d
          history := s.history ++ [.message slot i d s.qso (s.qso.handleDecode now d)] }
      refine ⟨k + 1, by simpa using hk, by simp, ?_, ?_, ?_, hd⟩
      · simp only [hh, handled_append, handled_message, List.range'_succ, List.map_cons,
          List.append_assoc, List.singleton_append]
      · exact hu.trans (s.qso.handleDecode_position now d).1
      · exact hn.trans (s.qso.handleDecode_position now d).2

/-- The list's slot is the one that was acted on last, and the position was not reset since. -/
def Continues (s : State) : Prop :=
  s.qso.lastUtc ≠ none ∧ (handled s.history).getLast?.map Prod.fst = some s.decodes.resultSlot

/-- Nothing of the list's slot was acted on yet. -/
def Untouched (s : State) : Prop := s.decodes.resultSlot ∉ (handled s.history).map Prod.fst

instance (s : State) : Decidable s.Continues := inferInstanceAs (Decidable (_ ∧ _))

instance (s : State) : Decidable s.Untouched := inferInstanceAs (Decidable (_ ∉ _))

/-- A poll that finds new decodes finds the list continued or untouched. -/
def Afresh (s : State) : Label → Prop
  | .poll .. => s.HasNew → s.Continues ∨ s.Untouched
  | _ => True

instance : DecidableRel Afresh := fun s a => by
  cases a <;> unfold Afresh <;> infer_instance

/-! ## The invariant -/

/-- The position is behind everything that was acted on of the last slot. -/
structure Positioned (s : State) : Prop where
  nodup : (handled s.history).Nodup
  resultUtc : ∀ u, s.decodes.resultUtc = some u → u = utcLabel s.decodes.resultSlot
  position : ∀ t, (handled s.history).getLast?.map Prod.fst = some t → s.qso.lastUtc ≠ none →
    s.qso.lastUtc = some (utcLabel t) ∧ ∀ i, (t, i) ∈ handled s.history → i < s.qso.lastN

/-- The invariant depends on the list of handled entries, the position and the decoder's list. -/
theorem Positioned.congr {s t : State} (hs : s.Positioned)
    (hh : handled t.history = handled s.history)
    (hu : t.qso.lastUtc = none ∨ t.qso.lastUtc = s.qso.lastUtc ∧ t.qso.lastN = s.qso.lastN)
    (hd : t.decodes = s.decodes) : t.Positioned where
  nodup := hh ▸ hs.nodup
  resultUtc := hd ▸ hs.resultUtc
  position := by
    intro slot hslot hne
    rw [hh] at hslot ⊢
    obtain hu | ⟨hu, hn⟩ := hu
    · exact absurd hu hne
    · rw [hu] at hne ⊢
      rw [hn]
      exact hs.position slot hslot hne

/-- The first new entry is past everything that was acted on of the list's slot. -/
theorem Positioned.lt_first {s : State} (hs : s.Positioned) (hnew : s.HasNew)
    (h : s.Continues ∨ s.Untouched) {i : ℕ}
    (hi : (s.decodes.resultSlot, i) ∈ handled s.history) : i < s.first := by
  obtain ⟨hne, hlast⟩ | h := h
  · obtain ⟨hu, hlt⟩ := hs.position _ hlast hne
    obtain ⟨u, hr⟩ := Option.ne_none_iff_exists'.1 hnew.2.2
    have hsame : s.qso.lastUtc = s.decodes.resultUtc := by rw [hu, hr, hs.resultUtc u hr]
    rw [first, if_pos hsame]
    exact hlt i hi
  · exact absurd (List.mem_map_of_mem hi) h

/-- **A poll acts on no entry a second time.** -/
theorem Positioned.pollDecodes {s : State} (now : ℤ) (hs : s.Positioned)
    (hfresh : s.HasNew → s.Continues ∨ s.Untouched) : (s.pollDecodes now).Positioned := by
  unfold State.pollDecodes
  split
  case isFalse => exact hs
  case isTrue hnew =>
    obtain ⟨hidle, hlen, hutc⟩ := id hnew
    obtain ⟨k, hk, hpos, hh, hu, hn, hd⟩ := handleFrom_spec now s.decodes.resultSlot s.first
      (s.decodes.results.drop s.first)
      { s with qso := { s.qso with
        lastUtc := s.decodes.resultUtc, lastN := s.decodes.results.length } }
    rw [List.length_drop] at hk
    have hk0 : 0 < k := hpos hidle (by simpa using hlen)
    have hbelow : ∀ i, (s.decodes.resultSlot, i) ∈ handled s.history → i < s.first :=
      fun i => hs.lt_first hnew (hfresh hnew)
    obtain ⟨u, hr⟩ := Option.ne_none_iff_exists'.1 hutc
    refine ⟨?_, by rw [hd]; exact hs.resultUtc, ?_⟩
    · rw [hh, List.nodup_append]
      refine ⟨hs.nodup, (List.nodup_range' ..).map (Prod.mk_right_injective _), ?_⟩
      rintro ⟨t, i⟩ ha b hb rfl
      obtain ⟨j, hj, hji⟩ := List.mem_map.1 hb
      obtain ⟨rfl, rfl⟩ := Prod.mk.inj hji
      have := hbelow j ha
      have := (List.mem_range'_1.1 hj).1
      omega
    · intro t ht _
      have hslot : t = s.decodes.resultSlot := by
        rw [hh, List.getLast?_append_of_ne_nil _ (by simp; omega)] at ht
        simp only [List.getLast?_map, Option.map_map, Option.map_eq_some_iff] at ht
        obtain ⟨_, _, rfl⟩ := ht
        rfl
      rw [hu, hn, hh, hslot]
      refine ⟨by rw [hr, hs.resultUtc u hr], fun i hi => ?_⟩
      obtain hi | hi := List.mem_append.1 hi
      · exact (hbelow i hi).trans hlen
      · obtain ⟨j, hj, hji⟩ := List.mem_map.1 hi
        obtain ⟨-, rfl⟩ := Prod.mk.inj hji
        have := (List.mem_range'_1.1 hj).2
        simp only
        omega

theorem Positioned.pollTx {s : State} (active encodes : Bool) (hs : s.Positioned) :
    (s.pollTx active encodes).Positioned := by
  refine hs.congr (by simp [State.pollTx]) (.inr ?_) rfl
  obtain ⟨hu, hn⟩ := (s.qso.pollTxEnd active).pollArm_position active encodes
  obtain ⟨hu', hn'⟩ := s.qso.pollTxEnd_position active
  exact ⟨hu.trans hu', hn.trans hn'⟩

theorem Positioned.qsoPoll {s : State} (now : ℤ) (active encodes : Bool) (hs : s.Positioned)
    (hfresh : s.HasNew → s.Continues ∨ s.Untouched) :
    (s.qsoPoll now active encodes).Positioned := by
  unfold State.qsoPoll
  split
  · exact hs.congr rfl (.inr ⟨rfl, rfl⟩) rfl
  · obtain ⟨hu, hn⟩ := s.qso.pollWatchdog_position now
    refine Positioned.pollTx active encodes (Positioned.pollDecodes now ?_ ?_)
    · exact hs.congr rfl (.inr ⟨hu, hn⟩) rfl
    · intro hnew
      have hidle : s.qso.state ≠ .idle := by assumption
      simp only [HasNew, first, hu, hn] at hnew
      simpa only [Continues, Untouched, hu] using hfresh ⟨hidle, hnew.2⟩

/-- The decoder's list keeps its slot, or it becomes the list of the new one. -/
theorem publish_slot (slot : ℤ) (new : List Decode) (l : Decodes) :
    (l.publish slot new).resultUtc = l.resultUtc ∧
        (l.publish slot new).resultSlot = l.resultSlot ∨
      (l.publish slot new).resultUtc = some (utcLabel slot) ∧
        (l.publish slot new).resultSlot = slot := by
  unfold Decodes.publish
  by_cases h : !l.haveSlot ∨ slot > l.resultSlot
  · right
    simp only [if_pos h, if_true, and_self]
  · left
    simp only [if_neg h]
    split <;> exact ⟨rfl, rfl⟩

theorem Positioned.step {r : Station} {s t : State} {a : Label} (hs : s.Positioned)
    (ha : s.Afresh a) (h : (engine r).step s a = some t) : t.Positioned := by
  change MacHPSDR.Ft8.step s a = some t at h
  cases a <;> obtain rfl := Option.some.inj h
  case poll now active encodes => exact hs.qsoPoll now active encodes ha
  case decoded slot new =>
    refine ⟨hs.nodup, fun u hu => ?_, hs.position⟩
    dsimp only at hu ⊢
    obtain ⟨hutc, hslot⟩ | ⟨hutc, hslot⟩ := publish_slot slot new s.decodes
    · rw [hslot]
      exact hs.resultUtc u (hutc ▸ hu)
    · rw [hslot]
      exact (Option.some.inj (hutc.symm.trans hu)).symm
  case enable => exact ⟨hs.nodup, fun u hu => by simp [Decodes.clear] at hu, hs.position⟩
  case command c => exact hs.congr (by simp) (c.run_position s.station s.qso) rfl
  case configure r => exact hs.congr rfl (.inr ⟨rfl, rfl⟩) rfl

end State

/-- **Every decode is acted on at most once**, in a run whose polls find the list continued or
untouched. -/
theorem engine_handled_nodup (r : Station) (as : List Label) (s : State)
    (hrun : (engine r).exec (engine r).init as = some s)
    (hfresh : (engine r).Along State.Afresh (engine r).init as) : (handled s.history).Nodup := by
  have h0 : (engine r).init.Positioned := ⟨List.nodup_nil, nofun, nofun⟩
  exact ((engine r).exec_induction_along (I := State.Positioned)
    (fun s a t hs ha h => hs.step ha h) as _ s h0 hfresh hrun).nodup

/-! ## Starting a CQ exposes the list again -/

/-- A station in Paris. -/
def Station.paris : Station where
  stationCall := "F1ABC".toList
  stationGrid := "JN18".toList
  cqDir := []
  txEven := true
  proto := false

/-- "F1ABC K1XYZ -05", in the slot at noon. -/
def Decode.report : Decode where
  utc := 43200
  snr := -5
  callTo := "F1ABC".toList
  callDe := "K1XYZ".toList
  extra := "-05".toList

/-- A CQ is started, the answer to it decoded and acted on. -/
def calledOnce : List Label :=
  [.command .startCq, .decoded 43200 [Decode.report], .poll 43215 false true]

theorem engine_handled_nodup_calledOnce :
    (engine .paris).Along State.Afresh (engine .paris).init calledOnce ∧
      ∃ s, (engine .paris).exec (engine .paris).init calledOnce = some s ∧
        handled s.history = [(43200, 0)] ∧ (handled s.history).Nodup := by
  have hfresh : (engine .paris).Along State.Afresh (engine .paris).init calledOnce := by decide
  obtain ⟨s, hs, hh⟩ : ∃ s, (engine .paris).exec (engine .paris).init calledOnce = some s ∧
      handled s.history = [(43200, 0)] := System.exists_exec _ (by decide)
  exact ⟨hfresh, s, hs, hh, engine_handled_nodup .paris calledOnce s hs hfresh⟩

/-- A second CQ in the same slot answers the same decode again. -/
theorem not_engine_handled_nodup :
    ¬ ∀ (r : Station) (as : List Label) (s : State),
      (engine r).exec (engine r).init as = some s → (handled s.history).Nodup := by
  intro h
  obtain ⟨s, hs, hh⟩ : ∃ s, (engine .paris).exec (engine .paris).init
      (calledOnce ++ [.command .startCq, .poll 43216 false true]) = some s ∧
      handled s.history = [(43200, 0), (43200, 0)] := System.exists_exec _ (by decide +kernel)
  have := h _ _ s hs
  rw [hh] at this
  simp at this

end MacHPSDR.Ft8
