import MacHPSDR.WebServer.Spectrum
import Mathlib

/-!
# The quality ladder

Whatever a client asks for, and whatever its link does, the three numbers that describe what it is
sent stay together (`Display.OnLadder`): the rung is between the lowest and the one asked for, the
bins are those of the rung, and the rows are at least five a second and at most those of the rung.

From there a step of the sender moves by one rung or by one rate; only the request sets the rung it
names (`Moved`). The way up is open only while the receiver has no audio, or the audio has its
bitrate (`onLadder_moved`).
-/

namespace MacHPSDR.WebServer

open SpectrumProfile

/-! ## The table of limits -/

theorem limits_mono {p q : ℤ} (h0 : low.val ≤ p) (hpq : p < q) (h3 : q ≤ ultra.val) :
    (webSpectrumProfileLimits p).bins < (webSpectrumProfileLimits q).bins ∧
      (webSpectrumProfileLimits p).fps < (webSpectrumProfileLimits q).fps := by
  simp only [SpectrumProfile.val] at h0 h3
  obtain rfl | rfl | rfl : p = 0 ∨ p = 1 ∨ p = 2 := by omega
  all_goals
    obtain rfl | rfl | rfl : q = 1 ∨ q = 2 ∨ q = 3 := by omega
    all_goals first | decide | omega

theorem limits_fps_ge (p : ℤ) : 5 ≤ (webSpectrumProfileLimits p).fps := by
  have hindex : profileIndex p ≤ 3 := by
    unfold profileIndex
    simp only [SpectrumProfile.val]
    split_ifs <;> omega
  unfold webSpectrumProfileLimits
  interval_cases profileIndex p <;> decide

theorem SpectrumProfile.val_bounds (p : SpectrumProfile) : low.val ≤ p.val ∧ p.val ≤ ultra.val := by
  cases p <;> decide

/-! ## The relation between the numbers -/

/-- The quality of a receiver is in order. -/
structure Display.OnLadder (d : Display) : Prop where
  low_le : low.val ≤ d.effective
  le_desired : d.effective ≤ d.desired
  desired_le : d.desired ≤ ultra.val
  bins : d.effectiveBins = (webSpectrumProfileLimits d.effective).bins
  fps_ge : 5 ≤ d.effectiveFps
  fps_le : d.effectiveFps ≤ (webSpectrumProfileLimits d.effective).fps

/-- The fields that say what the client is sent. -/
def Display.SameQuality (d d' : Display) : Prop :=
  d'.desired = d.desired ∧ d'.effective = d.effective ∧ d'.effectiveBins = d.effectiveBins ∧
    d'.effectiveFps = d.effectiveFps

theorem Display.OnLadder.congr {d d' : Display} (h : d.OnLadder) (hd : d.SameQuality d') :
    d'.OnLadder := by
  obtain ⟨hdes, heff, hbins, hfps⟩ := hd
  exact ⟨heff ▸ h.low_le, heff ▸ hdes ▸ h.le_desired, hdes ▸ h.desired_le,
    by rw [hbins, heff, h.bins], hfps ▸ h.fps_ge, by rw [hfps, heff]; exact h.fps_le⟩

theorem Display.press_sameQuality (d : Display) : d.SameQuality d.press := ⟨rfl, rfl, rfl, rfl⟩

theorem Display.publish_sameQuality (nowUs : ℤ) (d : Display) :
    d.SameQuality (d.publish nowUs) := by
  unfold publish
  dsimp only
  split
  · split <;> exact ⟨rfl, rfl, rfl, rfl⟩
  · exact ⟨rfl, rfl, rfl, rfl⟩

theorem Display.feedback_sameQuality (congested raised : Bool) (nowUs : ℤ) (d : Display) :
    d.SameQuality (d.feedback congested raised nowUs) := by
  cases congested <;> cases raised <;> exact ⟨rfl, rfl, rfl, rfl⟩

theorem Display.rowSent_sameQuality (slow : Bool) (d : Display) :
    d.SameQuality (d.rowSent slow) := by
  unfold rowSent
  split_ifs <;> exact ⟨rfl, rfl, rfl, rfl⟩

theorem Display.OnLadder.subscribe (d : Display) (profile : SpectrumProfile) (nowUs : ℤ) :
    (d.subscribe profile nowUs).OnLadder where
  low_le := profile.val_bounds.1
  le_desired := le_rfl
  desired_le := profile.val_bounds.2
  bins := rfl
  fps_ge := limits_fps_ge _
  fps_le := le_rfl

/-- One rung, or one rate, down. -/
structure Display.Lowered (d d' : Display) : Prop where
  desired : d'.desired = d.desired
  moved : d'.effective = d.effective - 1 ∧ d'.effectiveFps = d.effectiveFps ∨
    d'.effective = d.effective ∧ d'.effectiveFps < d.effectiveFps

/-- One rung, or to the rate of the rung, up. -/
structure Display.Raised (d d' : Display) : Prop where
  desired : d'.desired = d.desired
  moved : d'.effective = d.effective + 1 ∧ d'.effectiveFps = d.effectiveFps ∨
    d'.effective = d.effective ∧ d.effectiveFps < d'.effectiveFps

/-- **The sender adjusts the quality.** -/
theorem Display.OnLadder.adjust {d : Display} (h : d.OnLadder) (audioOk : Bool) (nowUs : ℤ) :
    (d.adjust audioOk nowUs).OnLadder ∧
      (d.SameQuality (d.adjust audioOk nowUs) ∨ d.Lowered (d.adjust audioOk nowUs) ∨
        d.Raised (d.adjust audioOk nowUs) ∧ audioOk = true) := by
  obtain ⟨hlow, hle, hdes, hbins, hge, hfps⟩ := h
  unfold Display.adjust
  dsimp only
  split
  · rename_i hdown
    obtain ⟨-, hlow'⟩ := hdown
    have hlower := (limits_mono (p := d.effective - 1) (q := d.effective) (by omega) (by omega)
      (by omega)).2
    split
    · rename_i hrate
      exact ⟨⟨hlow, hle, hdes, hbins, limits_fps_ge _, hlower.le⟩,
        .inr (.inl ⟨rfl, .inr ⟨rfl, hrate⟩⟩)⟩
    · rename_i hrate
      refine ⟨⟨?_, ?_, hdes, rfl, hge, not_lt.1 hrate⟩, .inr (.inl ⟨rfl, .inl ⟨rfl, rfl⟩⟩)⟩
      · exact Int.le_sub_one_of_lt hlow'
      · exact (Int.sub_le_self _ (by decide)).trans hle
  · split
    · rename_i hup
      obtain ⟨-, -, hok⟩ := hup
      split
      · rename_i hrung
        have hlt : d.effective < d.desired := by
          rw [hbins] at hrung
          obtain h | h := hle.lt_or_eq
          · exact h
          · exact absurd hrung (by rw [h]; exact lt_irrefl _)
        refine ⟨⟨?_, hlt, hdes, rfl, hge, ?_⟩, .inr (.inr ⟨⟨rfl, .inl ⟨rfl, rfl⟩⟩, hok⟩)⟩
        · exact hlow.trans (Int.le_add_one le_rfl)
        · have hnext := (Int.add_one_le_of_lt hlt).trans hdes
          exact hfps.trans (limits_mono hlow (Int.lt_succ _) hnext).2.le
      · split
        · rename_i hrung hrate
          have heq : d.effective = d.desired := by
            obtain h | h := hle.lt_or_eq
            · exact absurd (hbins ▸ (limits_mono hlow h hdes).1) hrung
            · exact h
          refine ⟨⟨hlow, hle, hdes, hbins, limits_fps_ge _, le_rfl⟩,
            .inr (.inr ⟨⟨rfl, .inr ⟨rfl, ?_⟩⟩, hok⟩)⟩
          rw [heq]
          exact hrate
        · exact ⟨⟨hlow, hle, hdes, hbins, hge, hfps⟩, .inl ⟨rfl, rfl, rfl, rfl⟩⟩
    · exact ⟨⟨hlow, hle, hdes, hbins, hge, hfps⟩, .inl ⟨rfl, rfl, rfl, rfl⟩⟩

/-! ## Every run -/

/-- What a step may do to the quality of a receiver. -/
inductive Moved (s : SpectrumClient) (a : SpectrumEvent) (t : SpectrumClient)
    (rx : Fin maxReceivers) : Prop
  | same (h : (s.display rx).SameQuality (t.display rx))
  | requested (profile : SpectrumProfile) (nowUs : ℤ)
      (ha : a = .spectrumSubscribe rx true profile nowUs)
      (h : t.display rx = (s.display rx).subscribe profile nowUs)
      (haudio : t.hasAudio rx = true → t.audioRate.bitrate = t.audioRate.target)
  | lowered (nowUs : ℤ) (ha : a = .take nowUs) (h : (s.display rx).Lowered (t.display rx))
  | raised (nowUs : ℤ) (ha : a = .take nowUs) (h : (s.display rx).Raised (t.display rx))
      (haudio : s.hasAudio rx = true → s.audioRate.target ≤ s.audioRate.bitrate)

theorem SpectrumClient.audioOk_iff (s : SpectrumClient) (rx : Fin maxReceivers) :
    s.audioOk rx = true ↔ (s.hasAudio rx = true → s.audioRate.target ≤ s.audioRate.bitrate) := by
  unfold audioOk hasAudio
  cases s.rtc <;> by_cases h : s.rtcRx = some rx <;> simp [h]

/-- A step that touches only the receiver `rx`, and not its quality. -/
theorem sameQuality_moved {s t : SpectrumClient} (hs : ∀ i, (s.display i).OnLadder)
    {rx : Fin maxReceivers} {d : Display} (ht : t.display = Function.update s.display rx d)
    (hd : (s.display rx).SameQuality d) (a : SpectrumEvent) (i : Fin maxReceivers) :
    (t.display i).OnLadder ∧ Moved s a t i := by
  have hsame : (s.display i).SameQuality (t.display i) := by
    rw [ht]
    by_cases hi : i = rx
    · subst hi
      rw [Function.update_self]
      exact hd
    · rw [Function.update_of_ne hi]
      exact ⟨rfl, rfl, rfl, rfl⟩
  exact ⟨(hs i).congr hsame, .same hsame⟩

/-- A step that touches no receiver. -/
theorem display_eq_moved {s t : SpectrumClient} (hs : ∀ i, (s.display i).OnLadder)
    (ht : t.display = s.display) (a : SpectrumEvent) (i : Fin maxReceivers) :
    (t.display i).OnLadder ∧ Moved s a t i := by
  rw [ht]
  exact ⟨hs i, .same (by rw [ht]; exact ⟨rfl, rfl, rfl, rfl⟩)⟩

/-- After a request for a receiver with audio, the audio has its bitrate. -/
theorem subscribe_moved {s : SpectrumClient} (hs : ∀ i, (s.display i).OnLadder)
    (rx : Fin maxReceivers) (profile : SpectrumProfile) (nowUs : ℤ) {t : SpectrumClient}
    (h : s.step (.spectrumSubscribe rx true profile nowUs) = some t) (i : Fin maxReceivers) :
    (t.display i).OnLadder ∧ Moved s (.spectrumSubscribe rx true profile nowUs) t i := by
  simp only [SpectrumClient.step] at h
  split at h
  · cases h
  · obtain rfl := Option.some.inj h
    generalize hu : s.setDisplay rx ((s.display rx).subscribe profile nowUs) = u
    have hdisplay : (if u.hasAudio rx = true
        then { u with audioRate := webAudioRateReset profile.val nowUs } else u).display =
        u.display := by
      split <;> rfl
    by_cases hi : i = rx
    · subst hi
      have hrx : u.display i = (s.display i).subscribe profile nowUs := by
        rw [← hu]
        exact Function.update_self ..
      refine ⟨by rw [hdisplay, hrx]; exact .subscribe _ _ _, .requested profile nowUs rfl ?_ ?_⟩
      · rw [hdisplay, hrx]
      · by_cases ha : u.hasAudio i = true
        · rw [if_pos ha]
          exact fun _ => rfl
        · rw [if_neg ha]
          exact fun h => absurd h ha
    · have hother : u.display i = s.display i := by
        rw [← hu]
        exact Function.update_of_ne hi _ _
      refine ⟨by rw [hdisplay, hother]; exact hs i, .same ?_⟩
      rw [hdisplay, hother]
      exact ⟨rfl, rfl, rfl, rfl⟩

theorem take_moved {s : SpectrumClient} (hs : ∀ i, (s.display i).OnLadder) (nowUs : ℤ)
    {t : SpectrumClient} (h : s.step (.take nowUs) = some t) (i : Fin maxReceivers) :
    (t.display i).OnLadder ∧ Moved s (.take nowUs) t i := by
  simp only [SpectrumClient.step] at h
  split at h
  · cases h
  · obtain ⟨rx, -, rfl⟩ := Option.map_eq_some_iff.1 h
    set d : Display := { s.display rx with pending := false } with hd
    have hladder : d.OnLadder := (hs rx).congr ⟨rfl, rfl, rfl, rfl⟩
    obtain ⟨hadjust, hmoved⟩ := hladder.adjust (s.audioOk rx) nowUs
    by_cases hi : i = rx
    · subst hi
      have hrx : (s.setDisplay i (d.adjust (s.audioOk i) nowUs)).display i =
          d.adjust (s.audioOk i) nowUs := Function.update_self ..
      refine ⟨by dsimp only; rw [hrx]; exact hadjust, ?_⟩
      obtain hsame | hlow | ⟨hraise, hok⟩ := hmoved
      · exact .same (by dsimp only; rw [hrx]; exact hsame)
      · exact .lowered nowUs rfl (by dsimp only; rw [hrx]; exact ⟨hlow.desired, hlow.moved⟩)
      · exact .raised nowUs rfl (by dsimp only; rw [hrx]; exact ⟨hraise.desired, hraise.moved⟩)
          ((s.audioOk_iff i).1 hok)
    · have hother : (s.setDisplay rx (d.adjust (s.audioOk rx) nowUs)).display i = s.display i :=
        Function.update_of_ne hi _ _
      refine ⟨by dsimp only; rw [hother]; exact hs i, .same ?_⟩
      dsimp only
      rw [hother]
      exact ⟨rfl, rfl, rfl, rfl⟩

/-- **One step.** -/
theorem step_moved {s t : SpectrumClient} {a : SpectrumEvent}
    (hs : ∀ i, (s.display i).OnLadder) (h : s.step a = some t) (i : Fin maxReceivers) :
    (t.display i).OnLadder ∧ Moved s a t i := by
  cases a with
  | spectrumSubscribe rx visible profile nowUs =>
    cases visible with
    | true => exact subscribe_moved hs rx profile nowUs h i
    | false =>
      simp only [SpectrumClient.step] at h
      split at h
      · cases h
      · obtain rfl := Option.some.inj h
        exact display_eq_moved hs (by rfl) _ i
  | take nowUs => exact take_moved hs nowUs h i
  | publish rx nowUs =>
    obtain rfl := Option.some.inj h
    exact sameQuality_moved hs (by rfl) (Display.publish_sameQuality nowUs _) _ i
  | spectrumUnsubscribe rx visible =>
    simp only [SpectrumClient.step] at h
    split_ifs at h
    · obtain rfl := Option.some.inj h
      exact display_eq_moved hs (by rfl) _ i
    · obtain rfl := Option.some.inj h
      exact sameQuality_moved hs (by rfl) ⟨by rfl, by rfl, by rfl, by rfl⟩ _ i
  | audioFeedback rx lossPercent nowUs =>
    simp only [SpectrumClient.step] at h
    split_ifs at h
    · obtain rfl := Option.some.inj h
      exact sameQuality_moved hs (by rfl) (Display.feedback_sameQuality _ _ nowUs _) _ i
    · obtain rfl := Option.some.inj h
      exact display_eq_moved hs (by rfl) _ i
  | audioSubscribe rx visible =>
    simp only [SpectrumClient.step] at h
    split_ifs at h <;> obtain rfl := Option.some.inj h <;> exact display_eq_moved hs (by rfl) _ i
  | audioReceiver =>
    simp only [SpectrumClient.step] at h
    split at h
    · obtain rfl := Option.some.inj h
      exact display_eq_moved hs (by rfl) _ i
    · cases h
  | audioOffer ok nowUs =>
    simp only [SpectrumClient.step] at h
    split at h
    · split at h <;> obtain rfl := Option.some.inj h <;> exact display_eq_moved hs (by rfl) _ i
    · cases h
  | audioUnsubscribe visible =>
    simp only [SpectrumClient.step] at h
    split_ifs at h <;> obtain rfl := Option.some.inj h <;> exact display_eq_moved hs (by rfl) _ i
  | skip =>
    obtain ⟨rx, -, rfl⟩ := Option.map_eq_some_iff.1 h
    exact display_eq_moved hs (by rfl) _ i
  | sent slow =>
    obtain ⟨rx, -, rfl⟩ := Option.map_eq_some_iff.1 h
    exact sameQuality_moved hs (by rfl) (Display.rowSent_sameQuality slow _) _ i

/-- A client that has connected has the quality of the balanced profile. -/
theorem connected_onLadder (nowUs : ℤ) : (Display.connected nowUs).OnLadder :=
  (Display.OnLadder.subscribe (.connected nowUs) .balanced nowUs).congr ⟨rfl, rfl, rfl, rfl⟩

/-- **The ladder**: in every run the numbers of every receiver stay together, and the next step
moves them as `Moved` says. -/
theorem onLadder_moved (audioRate : AudioRate) (nowUs : ℤ) (as : List SpectrumEvent)
    (s : SpectrumClient)
    (h : (spectrumClient audioRate nowUs).exec (spectrumClient audioRate nowUs).init as = some s)
    (rx : Fin maxReceivers) : (s.display rx).OnLadder ∧
      ∀ a t, (spectrumClient audioRate nowUs).step s a = some t → Moved s a t rx := by
  have hs : ∀ i, (s.display i).OnLadder :=
    (spectrumClient audioRate nowUs).exec_induction
      (I := fun s => ∀ i, (s.display i).OnLadder)
      (fun s a t hs hstep i => (step_moved hs hstep i).1)
      (fun _ => connected_onLadder nowUs) h
  exact ⟨hs rx, fun a t ht => (step_moved hs ht rx).2⟩

/-- Four rows, and the sender is late: it takes the last one at `nowUs + 3 * d`. -/
def lateRows (rx : Fin maxReceivers) (nowUs d : ℤ) : List SpectrumEvent :=
  [.publish rx nowUs, .publish rx (nowUs + d), .publish rx (nowUs + 2 * d),
    .publish rx (nowUs + 3 * d), .take (nowUs + 3 * d), .sent false]

/-- The audio of a client gives way, and ends; then its display gives way twice. -/
def losingRun (rx : Fin maxReceivers) : List SpectrumEvent :=
  [.audioSubscribe rx true, .audioReceiver, .audioOffer true 0, .audioFeedback rx 10 0,
    .audioUnsubscribe true, .spectrumSubscribe rx true .balanced 0] ++
  lateRows rx 0 100000 ++ lateRows rx 400000 200000 ++ [.publish rx 1200000]

/-- The client at the start, before anyone has had audio. -/
def newClient : System SpectrumClient SpectrumEvent := spectrumClient ⟨0, 0, 0, 0⟩ 0

theorem onLadder_moved_losingRun : ∃ s, newClient.exec newClient.init (losingRun 0) = some s ∧
    (s.display 0).effective = low.val ∧ (s.display 0).OnLadder := by
  obtain ⟨s, hs, hlow⟩ : ∃ s, newClient.exec newClient.init (losingRun 0) = some s ∧
      (s.display 0).effective = low.val := newClient.exists_exec (by decide +kernel)
  exact ⟨s, hs, hlow, (onLadder_moved ⟨0, 0, 0, 0⟩ 0 _ s hs 0).1⟩

/-- A request goes to its rung at once; and a display without audio goes up whatever bitrate the
audio had at its end. -/
theorem not_oneRung_audioFirst :
    (¬ ∀ as s a t, newClient.exec newClient.init as = some s → newClient.step s a = some t →
      (t.display 0).effective ≤ (s.display 0).effective + 1) ∧
    ¬ ∀ as s a t, newClient.exec newClient.init as = some s → newClient.step s a = some t →
      (s.display 0).effective < (t.display 0).effective →
        s.audioRate.target ≤ s.audioRate.bitrate := by
  constructor
  · intro h
    obtain ⟨s, hs, hjump⟩ : ∃ s,
        newClient.exec newClient.init [.spectrumSubscribe 0 true .low 0] = some s ∧
        (newClient.step s (.spectrumSubscribe 0 true .ultra 0)).any fun t =>
          decide ((s.display 0).effective + 1 < (t.display 0).effective) :=
      newClient.exists_exec (by decide +kernel)
    obtain ⟨t, ht, hlt⟩ := (Option.any_eq_true ..).1 hjump
    exact absurd (h _ s _ t hs ht) (not_le.2 (of_decide_eq_true hlt))
  · intro h
    obtain ⟨s, hs, hraise⟩ : ∃ s, newClient.exec newClient.init (losingRun 0) = some s ∧
        (newClient.step s (.take 11000000)).any fun t =>
          decide ((s.display 0).effective < (t.display 0).effective ∧
            s.audioRate.bitrate < s.audioRate.target) :=
      newClient.exists_exec (by decide +kernel)
    obtain ⟨t, ht, hlt⟩ := (Option.any_eq_true ..).1 hraise
    obtain ⟨hup, hbitrate⟩ := of_decide_eq_true hlt
    exact absurd (h _ s _ t hs ht hup) (not_le.2 hbitrate)

end MacHPSDR.WebServer
