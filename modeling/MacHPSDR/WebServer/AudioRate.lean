import MacHPSDR.WebServer.Spectrum
import Mathlib

/-!
# The bitrate of the audio

`web_audio_rate_reset` sets the bitrate to the one that goes with a profile, and each network report
may move it by one rung of the ladder: down when the loss is at least 5 % and the display cannot go
down any more, up after ten seconds without a loss above 2 %. What counts for these is the time of
the last report that was lossy or moved the bitrate (`healthySince_eq`), so the ten seconds begin
after every one of them as long as the clock does not go back (`audio_rate_law`).
-/

namespace MacHPSDR.WebServer

/-- What `web_audio_rate_report` is told. -/
structure AudioReport where
  lossPercent : ℕ
  displayAtLow : Bool
  nowUs : ℤ

namespace AudioRate

/-- The rate after a report. -/
def report (r : AudioRate) (p : AudioReport) : AudioRate :=
  (webAudioRateReport r p.lossPercent p.displayAtLow p.nowUs).1

/-- The rate after a reset and the reports. -/
def after (profile startUs : ℤ) (reports : List AudioReport) : AudioRate :=
  reports.foldl report (webAudioRateReset profile startUs)

/-- The rung `b` follows the rung `a`. -/
def NextRung (a b : ℕ) : Prop :=
  a ∈ audioLadder ∧ b ∈ audioLadder ∧ a < b ∧ ∀ c ∈ audioLadder, c ≤ a ∨ b ≤ c

instance (a b : ℕ) : Decidable (NextRung a b) := inferInstanceAs (Decidable (_ ∧ _))

/-! ## One report -/

theorem rung_below {b : ℕ} (h : b ∈ audioLadder) :
    (audioLadder.reverse.find? (· < b)).getD b = b ∨
      NextRung ((audioLadder.reverse.find? (· < b)).getD b) b := by
  simp only [audioLadder, List.mem_cons, List.not_mem_nil, or_false] at h
  rcases h with rfl | rfl | rfl | rfl | rfl <;> decide

theorem rung_above {b t : ℕ} (hb : b ∈ audioLadder) (ht : t ∈ audioLadder) (h : b < t) :
    NextRung b (((audioLadder.find? (b < ·)).map (min · t)).getD b) ∧
      ((audioLadder.find? (b < ·)).map (min · t)).getD b ≤ t := by
  simp only [audioLadder, List.mem_cons, List.not_mem_nil, or_false] at hb ht
  rcases hb with rfl | rfl | rfl | rfl | rfl <;>
    rcases ht with rfl | rfl | rfl | rfl | rfl <;>
      first
      | exact absurd h (by decide)
      | decide

/-- A rate on the ladder, up to its target. -/
structure OnLadder (r : AudioRate) : Prop where
  rung : r.bitrate ∈ audioLadder
  target : r.target ∈ audioLadder
  le_target : r.bitrate ≤ r.target

/-- What a report does. -/
inductive Reported (r : AudioRate) (p : AudioReport) (s : AudioRate) : Prop
  | held (h : s.bitrate = r.bitrate) (hsince : s.healthySinceUs = p.nowUs)
  | fell (hloss : 5 ≤ p.lossPercent) (hlow : p.displayAtLow = true)
      (h : NextRung s.bitrate r.bitrate) (hsince : s.healthySinceUs = p.nowUs)
  | rose (hloss : p.lossPercent ≤ 2) (h : NextRung r.bitrate s.bitrate)
      (hlong : r.healthySinceUs + 10 * 1000000 ≤ p.nowUs) (hsince : s.healthySinceUs = p.nowUs)
  | clean (hloss : p.lossPercent ≤ 2) (h : s.bitrate = r.bitrate)
      (hsince : s.healthySinceUs = r.healthySinceUs)

theorem OnLadder.report {r : AudioRate} (h : r.OnLadder) (p : AudioReport) :
    (r.report p).OnLadder ∧ (r.report p).target = r.target ∧ Reported r p (r.report p) := by
  obtain ⟨hrung, htarget, hle⟩ := h
  unfold AudioRate.report webAudioRateReport
  dsimp only
  by_cases hlossy : p.lossPercent ≥ 5
  · rw [if_pos hlossy]
    cases hlow : p.displayAtLow with
    | false => exact ⟨⟨hrung, htarget, hle⟩, rfl, .held rfl rfl⟩
    | true =>
      rw [if_pos rfl]
      rcases rung_below hrung with heq | hnext
      · exact ⟨⟨heq.symm ▸ hrung, htarget, heq.trans_le hle⟩, rfl, .held heq rfl⟩
      · exact ⟨⟨hnext.1, htarget, hnext.2.2.1.le.trans hle⟩, rfl, .fell hlossy hlow hnext rfl⟩
  rw [if_neg hlossy]
  by_cases hhigh : p.lossPercent > 2
  · rw [if_pos hhigh]
    exact ⟨⟨hrung, htarget, hle⟩, rfl, .held rfl rfl⟩
  rw [if_neg hhigh]
  by_cases hup : r.bitrate < r.target ∧ p.nowUs - r.healthySinceUs ≥ 10 * 1000000
  · obtain ⟨hlt, hlong⟩ := hup
    obtain ⟨hnext, hle'⟩ := rung_above hrung htarget hlt
    rw [if_pos ⟨hlt, hlong⟩]
    exact ⟨⟨hnext.2.1, htarget, hle'⟩, rfl, .rose (not_lt.1 hhigh) hnext (by omega) rfl⟩
  · rw [if_neg hup]
    exact ⟨⟨hrung, htarget, hle⟩, rfl, .clean (not_lt.1 hhigh) rfl rfl⟩

theorem target_mem (profile : ℤ) : webAudioRateTarget profile ∈ audioLadder := by
  have hindex : profileIndex profile ≤ 3 := by
    unfold profileIndex
    simp only [SpectrumProfile.val]
    split_ifs <;> omega
  unfold webAudioRateTarget
  interval_cases profileIndex profile <;> decide

theorem OnLadder.reset (profile startUs : ℤ) : (webAudioRateReset profile startUs).OnLadder :=
  ⟨target_mem profile, target_mem profile, le_rfl⟩

/-! ## Every run -/

variable {profile startUs : ℤ} {before : List AudioReport} {p : AudioReport}

theorem after_concat : after profile startUs (before ++ [p]) =
    (after profile startUs before).report p := by
  rw [after, List.foldl_append]
  rfl

theorem onLadder_after (profile startUs : ℤ) (before : List AudioReport) :
    (after profile startUs before).OnLadder ∧
      (after profile startUs before).target = webAudioRateTarget profile := by
  induction before using List.reverseRecOn with
  | nil => exact ⟨OnLadder.reset profile startUs, rfl⟩
  | append_singleton before p ih =>
    rw [after_concat]
    obtain ⟨hladder, htarget, -⟩ := ih.1.report p
    exact ⟨hladder, htarget.trans ih.2⟩

theorem reported_after (profile startUs : ℤ) (before : List AudioReport) (p : AudioReport) :
    Reported (after profile startUs before) p (after profile startUs (before ++ [p])) := by
  rw [after_concat]
  exact ((onLadder_after profile startUs before).1.report p).2.2

/-- When the last of the reports came, or the reset. -/
def lastUs (startUs : ℤ) (reports : List AudioReport) : ℤ :=
  (reports.getLast?.map AudioReport.nowUs).getD startUs

theorem lastUs_concat : lastUs startUs (before ++ [p]) = p.nowUs := by
  simp [lastUs]

/-- The reports that came after `older` were not lossy and left the bitrate as it was. -/
structure Quiet (profile startUs : ℤ) (older newer : List AudioReport) : Prop where
  loss : ∀ p ∈ newer, p.lossPercent ≤ 2
  bitrate : ∀ front, front <+: newer →
    (after profile startUs (older ++ front)).bitrate = (after profile startUs older).bitrate

/-- **The clock of the healthy time** runs since the last report that was lossy or moved the
bitrate, or an earlier one. -/
theorem healthySince_eq (profile startUs : ℤ) (before : List AudioReport) :
    ∃ older newer, before = older ++ newer ∧ Quiet profile startUs older newer ∧
      (after profile startUs before).healthySinceUs = lastUs startUs older := by
  induction before using List.reverseRecOn with
  | nil =>
    refine ⟨[], [], rfl, ⟨nofun, fun front hfront => ?_⟩, rfl⟩
    rw [List.prefix_nil.1 hfront]
    rfl
  | append_singleton before p ih =>
    have hnow (hsince : (after profile startUs (before ++ [p])).healthySinceUs = p.nowUs) :
        ∃ older newer, before ++ [p] = older ++ newer ∧ Quiet profile startUs older newer ∧
          (after profile startUs (before ++ [p])).healthySinceUs = lastUs startUs older := by
      refine ⟨before ++ [p], [], (List.append_nil _).symm, ⟨nofun, fun front hfront => ?_⟩,
        hsince.trans lastUs_concat.symm⟩
      rw [List.prefix_nil.1 hfront, List.append_nil]
    rcases reported_after profile startUs before p with ⟨-, hsince⟩ | ⟨-, -, -, hsince⟩ |
      ⟨-, -, -, hsince⟩ | ⟨hloss, hsame, hsince⟩
    · exact hnow hsince
    · exact hnow hsince
    · exact hnow hsince
    · obtain ⟨older, newer, rfl, hquiet, hlast⟩ := ih
      refine ⟨older, newer ++ [p], List.append_assoc .., ⟨fun q hq => ?_, fun front hfront => ?_⟩,
        hsince.trans hlast⟩
      · rcases List.mem_append.1 hq with hq | hq
        · exact hquiet.loss q hq
        · rw [List.mem_singleton.1 hq]
          exact hloss
      · rcases List.prefix_concat_iff.1 hfront with rfl | hfront
        · rw [← List.append_assoc, hsame]
          exact hquiet.bitrate newer List.prefix_rfl
        · exact hquiet.bitrate front hfront

/-- The times of the reset and the reports do not go back. -/
def InTime (startUs : ℤ) (reports : List AudioReport) : Prop :=
  (startUs :: reports.map AudioReport.nowUs).Pairwise (· ≤ ·)

theorem le_lastUs {older : List AudioReport} (h : InTime startUs older) :
    startUs ≤ lastUs startUs older ∧ ∀ q ∈ older, q.nowUs ≤ lastUs startUs older := by
  rcases older.eq_nil_or_concat' with rfl | ⟨front, last, rfl⟩
  · exact ⟨le_rfl, nofun⟩
  rw [lastUs_concat]
  obtain ⟨hstart, hrest⟩ := List.pairwise_cons.1 h
  rw [List.map_append, List.pairwise_append] at hrest
  refine ⟨hstart _ (by simp), fun q hq => ?_⟩
  rcases List.mem_append.1 hq with hq | hq
  · exact hrest.2.2 _ (List.mem_map_of_mem hq) _ (by simp)
  · rw [List.mem_singleton.1 hq]

/-- The report `q`, which came after the reports `earlier`, was lossy or moved the bitrate. -/
def Marks (profile startUs : ℤ) (earlier : List AudioReport) (q : AudioReport) : Prop :=
  2 < q.lossPercent ∨ (after profile startUs (earlier ++ [q])).bitrate ≠
    (after profile startUs earlier).bitrate

/-- Such a report is not among those since when it has been quiet. -/
theorem Quiet.mem_older {older newer xs ys : List AudioReport} {q : AudioReport}
    (h : Quiet profile startUs older newer) (heq : older ++ newer = xs ++ q :: ys)
    (hq : Marks profile startUs xs q) : q ∈ older := by
  have hnewer : ∀ as, xs = older ++ as → newer = as ++ q :: ys → False := by
    rintro as rfl rfl
    rcases hq with hloss | hmoved
    · exact absurd (h.loss q (by simp)) (not_le.2 hloss)
    · refine hmoved ?_
      rw [List.append_assoc, h.bitrate (as ++ [q]) ⟨ys, by simp⟩, h.bitrate as ⟨q :: ys, rfl⟩]
  rcases List.append_eq_append_iff.1 heq with ⟨as, hxs, has⟩ | ⟨bs, rfl, hbs⟩
  · exact (hnewer as hxs has).elim
  · cases bs with
    | nil => exact (hnewer [] (by simp) hbs.symm).elim
    | cons b bs =>
      obtain ⟨rfl, -⟩ := List.cons.inj hbs
      simp

theorem InTime.of_append {older newer : List AudioReport} (h : InTime startUs (older ++ newer)) :
    InTime startUs older := by
  refine List.Pairwise.sublist ?_ h
  rw [List.map_append]
  exact (List.sublist_append_left _ _).cons_cons _

/-- **The law of the bitrate.** After a reset it always is a rung from 16000 to the target. It falls
only by one rung, on a report of at least 5 % while the display is at its lowest. It rises only by
one rung, when for ten seconds there has been no lossy report and no change: since some report, or
the reset, and, where the times do not go back, since every one that was lossy or moved it. -/
theorem audio_rate_law (profile startUs : ℤ) (before : List AudioReport) (p : AudioReport) :
    ((after profile startUs before).bitrate ∈ audioLadder ∧
      16000 ≤ (after profile startUs before).bitrate ∧
      (after profile startUs before).bitrate ≤ webAudioRateTarget profile) ∧
    ((after profile startUs (before ++ [p])).bitrate < (after profile startUs before).bitrate →
      5 ≤ p.lossPercent ∧ p.displayAtLow = true ∧
      NextRung (after profile startUs (before ++ [p])).bitrate
        (after profile startUs before).bitrate) ∧
    ((after profile startUs before).bitrate < (after profile startUs (before ++ [p])).bitrate →
      p.lossPercent ≤ 2 ∧
      NextRung (after profile startUs before).bitrate
        (after profile startUs (before ++ [p])).bitrate ∧
      (∃ older newer, before = older ++ newer ∧ Quiet profile startUs older newer ∧
        lastUs startUs older + 10 * 1000000 ≤ p.nowUs) ∧
      (InTime startUs before → startUs + 10 * 1000000 ≤ p.nowUs ∧
        ∀ xs q ys, before = xs ++ q :: ys → Marks profile startUs xs q →
          q.nowUs + 10 * 1000000 ≤ p.nowUs)) := by
  obtain ⟨hladder, htarget⟩ := onLadder_after profile startUs before
  have hlow : ∀ b ∈ audioLadder, 16000 ≤ b := by decide
  refine ⟨⟨hladder.rung, hlow _ hladder.rung, htarget ▸ hladder.le_target⟩, fun hfall => ?_,
    fun hrise => ?_⟩
  · rcases reported_after profile startUs before p with ⟨h, -⟩ | ⟨hloss, hatlow, h, -⟩ |
      ⟨-, h, -, -⟩ | ⟨-, h, -⟩
    · exact absurd h hfall.ne
    · exact ⟨hloss, hatlow, h⟩
    · exact absurd h.2.2.1 hfall.not_gt
    · exact absurd h hfall.ne
  · rcases reported_after profile startUs before p with ⟨h, -⟩ | ⟨-, -, h, -⟩ |
      ⟨hloss, h, hlong, -⟩ | ⟨-, h, -⟩
    · exact absurd h hrise.ne'
    · exact absurd h.2.2.1 hrise.not_gt
    · obtain ⟨older, newer, rfl, hquiet, hlast⟩ := healthySince_eq profile startUs before
      rw [hlast] at hlong
      refine ⟨hloss, h, ⟨older, newer, rfl, hquiet, hlong⟩, fun htime => ?_⟩
      obtain ⟨hstart, holder⟩ := le_lastUs htime.of_append
      refine ⟨(Int.add_le_add_right hstart _).trans hlong, fun xs q ys heq hmarks => ?_⟩
      exact (Int.add_le_add_right (holder q (hquiet.mem_older heq hmarks)) _).trans hlong
    · exact absurd h hrise.ne'

theorem audio_rate_law_rise :
    (after 3 0 [⟨20, true, 2000000⟩]).bitrate = 48000 ∧
      (after 3 0 ([⟨20, true, 2000000⟩] ++ [⟨0, true, 12000000⟩])).bitrate = 64000 ∧
      (0 : ℤ) + 10 * 1000000 ≤ 12000000 :=
  ⟨by decide, by decide, (((audio_rate_law 3 0 [⟨20, true, 2000000⟩] ⟨0, true, 12000000⟩).2.2
    (by decide)).2.2.2 (by simp [InTime])).1⟩

/-- When the clock goes back, the bitrate can rise with no ten seconds since it fell. -/
theorem not_ten_seconds_since_change :
    ¬ ∀ (profile startUs : ℤ) (before : List AudioReport) (p : AudioReport),
      (after profile startUs before).bitrate < (after profile startUs (before ++ [p])).bitrate →
      ∀ xs q ys, before = xs ++ q :: ys →
        (after profile startUs (xs ++ [q])).bitrate ≠ (after profile startUs xs).bitrate →
        q.nowUs + 10 * 1000000 ≤ p.nowUs := by
  intro h
  have hlaw := h 3 0 [⟨20, true, 100000000⟩, ⟨3, true, 0⟩] ⟨0, true, 11000000⟩ (by decide) []
    ⟨20, true, 100000000⟩ [⟨3, true, 0⟩] rfl (by decide)
  exact absurd hlaw (by decide)

end AudioRate

end MacHPSDR.WebServer
