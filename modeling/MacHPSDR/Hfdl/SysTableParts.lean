import MacHPSDR.Foundations.Transition
import MacHPSDR.Hfdl.SysTableRecords
import MacHPSDR.Hfdl.SysTableVersion

/-!
# The parts of a system table

The parts of one version and size are gathered whatever their order and however often each comes;
a part of another version or size starts anew (`gather`). The table is decoded with the arrival
that completes the parts (`Whole`), and it is then decoded as it was cut.

What is decoded are the stations that were sent if there are not more than 128 and the last one has
a frequency; otherwise some of them are missing (`table_decoded_iff`). Octets that are no table
leave the stations as they are unless they begin with whole records and only a few octets are left
over.
-/

namespace MacHPSDR.Hfdl

/-! ## What has been gathered -/

/-- A part that is not ignored. -/
def Part.Valid (p : Part) : Prop :=
  1 ≤ p.total ∧ p.total ≤ systableMaxPdus ∧ p.idx < p.total ∧ p.buf ≠ [] ∧
    p.buf.length ≤ systablePduMaxLen

instance (p : Part) : Decidable p.Valid := inferInstanceAs (Decidable (_ ∧ _))

/-- The parts of one table, after one more part has come. -/
def gather (since : List Part) (p : Part) : List Part :=
  if ∀ q ∈ since, q.version = p.version ∧ q.total = p.total then since ++ [p] else [p]

/-- Every part has come. -/
def Whole (parts : List Part) (total : ℕ) : Prop := ∀ i < total, ∃ q ∈ parts, q.idx = i

instance (parts : List Part) (total : ℕ) : Decidable (Whole parts total) :=
  inferInstanceAs (Decidable (∀ i < total, ∃ q ∈ parts, q.idx = i))

/-- The part with this index that has come last. -/
def latest (parts : List Part) (i : ℕ) : List UInt8 :=
  parts.foldl (fun buf q => if q.idx = i then q.buf else buf) []

/-- The receiver, together with the parts that have come since it began with the table. -/
structure Gathering where
  table : Systable
  since : List Part

/-- Parts that arrive. -/
def gathering : System Gathering Part where
  init := ⟨⟨none, Stations.none⟩, []⟩
  step s p := some
    { table := (systableStorePdu s.table p).1
      since :=
        if p.Valid then
          if Whole (gather s.since p) p.total then [] else gather s.since p
        else s.since }

theorem latest_concat (parts : List Part) (p : Part) :
    latest (parts ++ [p]) = Function.update (latest parts) p.idx p.buf := by
  funext i
  by_cases hi : i = p.idx
  · simp [latest, hi]
  · simp [latest, hi, Ne.symm hi]

theorem latest_ne_nil_iff {parts : List Part} (h : ∀ q ∈ parts, q.buf ≠ []) (i : ℕ) :
    latest parts i ≠ [] ↔ ∃ q ∈ parts, q.idx = i := by
  induction parts using List.reverseRecOn with
  | nil => simp [latest]
  | append_singleton parts p ih =>
    have hp := h p (by simp)
    rw [latest_concat]
    by_cases hi : i = p.idx
    · subst hi
      simp [hp]
    · rw [Function.update_of_ne hi, ih fun q hq => h q (by simp [hq])]
      constructor
      · rintro ⟨q, hq, hqi⟩
        exact ⟨q, by simp [hq], hqi⟩
      · rintro ⟨q, hq, hqi⟩
        rcases List.mem_append.1 hq with hq | hq
        · exact ⟨q, hq, hqi⟩
        · rw [List.mem_singleton.1 hq] at hqi
          exact absurd hqi.symm hi

/-- How many of the parts have come. -/
def count (frag : ℕ → List UInt8) (total : ℕ) : ℕ :=
  ((Finset.range total).filter fun i => frag i ≠ []).card

theorem count_update {frag : ℕ → List UInt8} {total i : ℕ} (hi : i < total) {buf : List UInt8}
    (hbuf : buf ≠ []) : count (Function.update frag i buf) total =
      if (frag i).length = 0 then count frag total + 1 else count frag total := by
  have hinsert : ((Finset.range total).filter fun j => Function.update frag i buf j ≠ []) =
      insert i ((Finset.range total).filter fun j => frag j ≠ []) := by
    ext j
    by_cases hj : j = i
    · simp [hj, hi, hbuf]
    · simp [hj]
  unfold count
  rw [hinsert]
  split
  · rename_i hnil
    refine Finset.card_insert_of_notMem ?_
    simp [List.length_eq_zero_iff.1 hnil]
  · rename_i hnil
    rw [Finset.insert_eq_of_mem]
    simpa [hi, List.length_eq_zero_iff] using hnil

theorem count_lt_iff (frag : ℕ → List UInt8) (total : ℕ) :
    count frag total < total ↔ ¬ ∀ i < total, frag i ≠ [] := by
  have hle : count frag total ≤ total := by
    have hcard := Finset.card_filter_le (Finset.range total) fun i => frag i ≠ []
    rwa [Finset.card_range] at hcard
  rw [lt_iff_le_and_ne, and_iff_right hle, not_iff_not]
  unfold count
  constructor
  · intro hcard i hi
    have hall := Finset.card_filter_eq_iff.1 (hcard.trans (Finset.card_range total).symm)
    exact hall i (Finset.mem_range.2 hi)
  · intro hall
    rw [Finset.filter_true_of_mem fun i hi => hall i (Finset.mem_range.1 hi), Finset.card_range]

/-- The set holds what has been gathered. -/
def Holding (set : Option SystableSet) (since : List Part) : Prop :=
  match set with
  | none => since = []
  | some set => since ≠ [] ∧ (∀ q ∈ since, q.version = set.version ∧ q.total = set.len) ∧
      (∀ q ∈ since, q.buf ≠ []) ∧ set.frag = latest since ∧ set.have_ = count set.frag set.len

/-- The parts that a part is added to. -/
def kept (since : List Part) (p : Part) : List Part :=
  if ∀ q ∈ since, q.version = p.version ∧ q.total = p.total then since else []

theorem gather_eq (since : List Part) (p : Part) : gather since p = kept since p ++ [p] := by
  unfold gather kept
  split <;> simp

theorem kept_same {since : List Part} {p : Part} :
    ∀ q ∈ kept since p, q.version = p.version ∧ q.total = p.total := by
  unfold kept
  split
  · assumption
  · simp

theorem kept_subset {since : List Part} {p q : Part} (h : q ∈ kept since p) : q ∈ since := by
  unfold kept at h
  split at h
  · exact h
  · cases h

/-- The set for a part holds the parts that it is added to. -/
theorem systableSetFor_spec {set : Option SystableSet} {since : List Part} (h : Holding set since)
    (p : Part) : (systableSetFor set p).version = p.version ∧ (systableSetFor set p).len = p.total ∧
      (systableSetFor set p).frag = latest (kept since p) ∧
      (systableSetFor set p).have_ = count (systableSetFor set p).frag p.total := by
  have hempty : count (fun _ => []) p.total = 0 := by simp [count]
  cases set with
  | none =>
    obtain rfl : since = [] := h
    refine ⟨rfl, rfl, ?_, hempty.symm⟩
    simp [kept, systableSetFor, funext_iff, latest]
  | some set =>
    obtain ⟨hne, hsame, -, hfrag, hhave⟩ := h
    unfold systableSetFor
    by_cases hnew : set.version ≠ p.version ∨ set.len ≠ p.total
    · have hkept : kept since p = [] := by
        refine if_neg fun hall => ?_
        obtain ⟨q, hq⟩ := List.exists_mem_of_ne_nil _ hne
        obtain ⟨hv, ht⟩ := hall q hq
        obtain ⟨hv', ht'⟩ := hsame q hq
        rcases hnew with hnew | hnew
        · exact hnew (hv'.symm.trans hv)
        · exact hnew (ht'.symm.trans ht)
      simp only [if_pos hnew, hkept]
      exact ⟨trivial, trivial, rfl, hempty.symm⟩
    · obtain ⟨hv, ht⟩ := not_or.1 hnew
      have hv := not_not.1 hv
      have ht := not_not.1 ht
      have hkept : kept since p = since :=
        if_pos fun q hq => ⟨(hsame q hq).1.trans hv, (hsame q hq).2.trans ht⟩
      simp only [if_neg hnew, hkept]
      exact ⟨hv, ht, hfrag, by rw [hhave, ht]⟩

/-- **One part.** The set goes on until the parts are complete; then they are decoded in their
order. -/
theorem systableStorePdu_spec {s : Systable} {since : List Part} (h : Holding s.set since)
    {p : Part} (hp : p.Valid) :
    (¬ Whole (gather since p) p.total → ∃ set, Holding (some set) (gather since p) ∧
      systableStorePdu s p = (⟨some set, s.stations⟩,
        .collected (count (latest (gather since p)) p.total) p.total)) ∧
    (Whole (gather since p) p.total → systableStorePdu s p =
      (⟨none, (systableDecode s.stations ((List.range p.total).flatMap (latest (gather since p)))
          p.version).1⟩,
        (systableDecode s.stations ((List.range p.total).flatMap (latest (gather since p)))
          p.version).2)) := by
  obtain ⟨h1, hmax, hidx, hbuf, hlen⟩ := hp
  obtain ⟨hversion, htotal, hfrag, hhave⟩ := systableSetFor_spec h p
  have hnil : ∀ q ∈ gather since p, q.buf ≠ [] := by
    intro q hq
    rw [gather_eq] at hq
    rcases List.mem_append.1 hq with hq | hq
    · have hq := kept_subset hq
      unfold Holding at h
      split at h
      · rw [h] at hq
        cases hq
      · exact h.2.2.1 q hq
    · rw [List.mem_singleton.1 hq]
      exact hbuf
  have hlatest : Function.update (systableSetFor s.set p).frag p.idx p.buf =
      latest (gather since p) := by
    rw [gather_eq, latest_concat, hfrag]
  have hcount : (if ((systableSetFor s.set p).frag p.idx).length = 0
      then (systableSetFor s.set p).have_ + 1 else (systableSetFor s.set p).have_) =
      count (latest (gather since p)) p.total := by
    rw [← hlatest, count_update hidx hbuf, hhave]
  have hwhole : count (latest (gather since p)) p.total < p.total ↔
      ¬ Whole (gather since p) p.total := by
    rw [count_lt_iff]
    refine not_congr (forall₂_congr fun i _ => ?_)
    exact latest_ne_nil_iff hnil i
  have hguard1 : ¬ (p.total < 1 ∨ p.total > systableMaxPdus ∨ p.idx ≥ p.total) := by omega
  have hguard2 : ¬ (p.buf.length = 0 ∨ p.buf.length > systablePduMaxLen) := by
    rw [List.length_eq_zero_iff]
    exact not_or.2 ⟨hbuf, not_lt.2 hlen⟩
  unfold systableStorePdu
  simp only [if_neg hguard1, if_neg hguard2, hcount, hlatest, hwhole]
  constructor
  · intro hnot
    rw [if_pos hnot]
    refine ⟨_, ⟨?_, ?_, hnil, rfl, ?_⟩, rfl⟩
    · rw [gather_eq]
      simp
    · intro q hq
      rw [gather_eq] at hq
      rw [hversion, htotal]
      rcases List.mem_append.1 hq with hq | hq
      · exact kept_same q hq
      · rw [List.mem_singleton.1 hq]
        exact ⟨rfl, rfl⟩
    · rw [htotal]
  · intro hall
    rw [if_neg (not_not.2 hall)]

/-- A part that is not valid is ignored. -/
theorem systableStorePdu_of_not_valid (s : Systable) {p : Part} (hp : ¬ p.Valid) :
    systableStorePdu s p = (s, .ignored) := by
  unfold Part.Valid at hp
  unfold systableStorePdu
  by_cases hguard1 : p.total < 1 ∨ p.total > systableMaxPdus ∨ p.idx ≥ p.total
  · exact if_pos hguard1
  · have hguard2 : p.buf.length = 0 ∨ p.buf.length > systablePduMaxLen := by
      rw [List.length_eq_zero_iff]
      by_contra hbad
      obtain ⟨hne, hle⟩ := not_or.1 hbad
      exact hp ⟨by omega, by omega, by omega, hne, not_lt.1 hle⟩
    exact (if_neg hguard1).trans (if_pos hguard2)

theorem holding_step (s : Gathering) (p : Part) (s' : Gathering) (h : Holding s.table.set s.since)
    (hs : gathering.step s p = some s') : Holding s'.table.set s'.since := by
  obtain rfl := Option.some.inj hs
  by_cases hp : p.Valid
  · obtain ⟨hmore, hdone⟩ := systableStorePdu_spec h hp
    simp only [if_pos hp]
    by_cases hwhole : Whole (gather s.since p) p.total
    · rw [hdone hwhole, if_pos hwhole]
      rfl
    · obtain ⟨set, hset, heq⟩ := hmore hwhole
      rw [heq, if_neg hwhole]
      exact hset
  · simp only [if_neg hp]
    rw [systableStorePdu_of_not_valid _ hp]
    exact h

/-! ## What is decoded -/

/-- The parts of a table, put together. -/
theorem flatMap_latest {parts : List Part} {total : ℕ} {pieces : List (List UInt8)}
    (hlen : pieces.length = total) (hcut : ∀ q ∈ parts, pieces[q.idx]? = some q.buf)
    (hwhole : Whole parts total) : (List.range total).flatMap (latest parts) = pieces.flatten := by
  have hpiece {parts : List Part} (hcut : ∀ q ∈ parts, pieces[q.idx]? = some q.buf) {i : ℕ}
      (hi : ∃ q ∈ parts, q.idx = i) : pieces[i]? = some (latest parts i) := by
    induction parts using List.reverseRecOn with
    | nil =>
      obtain ⟨q, hq, -⟩ := hi
      cases hq
    | append_singleton parts p ih =>
      rw [latest_concat]
      by_cases hip : i = p.idx
      · rw [hip, Function.update_self]
        exact hcut p (by simp)
      · rw [Function.update_of_ne hip]
        refine ih (fun q hq => hcut q (by simp [hq])) ?_
        obtain ⟨q, hq, hqi⟩ := hi
        rcases List.mem_append.1 hq with hq | hq
        · exact ⟨q, hq, hqi⟩
        · rw [List.mem_singleton.1 hq] at hqi
          exact absurd hqi.symm hip
  have hmap : (List.range total).map (latest parts) = pieces := by
    refine List.ext_getElem? fun i => ?_
    rw [List.getElem?_map]
    by_cases hi : i < total
    · rw [List.getElem?_range hi, Option.map_some, hpiece hcut (hwhole i hi)]
    · rw [List.getElem?_eq_none (by simpa using hi), List.getElem?_eq_none (by omega)]
      rfl
  rw [List.flatMap_def, hmap]

/-- The stations that were sent are those that are reported, and they are learned if the version is
newer. -/
def Yields (s : Systable) (p : Part) (sts : List GroundStation) : Prop :=
  if systableIsNewer s.stations.version p.version then
    (systableStorePdu s p).2 = .adopted (learnedTable sts) ∧
      (systableStorePdu s p).1.stations = ⟨learnedFrom (learnedTable sts), p.version⟩
  else (systableStorePdu s p).2 = .kept sts.length ∧
    (systableStorePdu s p).1.stations = s.stations

/-- What the receiver makes of a table that it has whole. -/
theorem yields_iff {s : Systable} {p : Part} {sts : List GroundStation} (hsts : sts ≠ [])
    (h : systableStorePdu s p =
      (⟨none, (systableDecode s.stations (encodeTable sts) p.version).1⟩,
        (systableDecode s.stations (encodeTable sts) p.version).2)) :
    Yields s p sts ↔ AllReadable sts := by
  have hread := systableStations_encode gsLearnedMax sts
  have hiff : readable gsLearnedMax sts = sts ↔ AllReadable sts := readable_eq_self_iff _ _
  have hprefix := readable_prefix gsLearnedMax sts
  rw [← hiff]
  unfold Yields
  rw [h]
  unfold systableDecode
  rw [hread]
  cases hall : readable gsLearnedMax sts with
  | nil =>
    refine ⟨fun hy => ?_, fun heq => absurd heq.symm hsts⟩
    simp only [learnedTable, List.map_nil] at hy
    split at hy
    · cases hy.1
    · cases hy.1
  | cons st rest =>
    rw [hall] at hprefix
    simp only [learnedTable, List.map_cons]
    cases hnew : systableIsNewer s.stations.version p.version with
    | true =>
      simp only [if_true]
      constructor
      · rintro ⟨hrep, -⟩
        have hlen := congrArg List.length (SystableReport.adopted.inj hrep)
        simp only [List.length_cons, List.length_map] at hlen
        exact hprefix.eq_of_length (by simpa using hlen)
      · intro heq
        rw [← heq]
        exact ⟨rfl, rfl⟩
    | false =>
      simp only [Bool.false_eq_true, if_false]
      constructor
      · rintro ⟨hrep, -⟩
        have hlen := SystableReport.kept.inj hrep
        simp only [List.length_cons, List.length_map] at hlen
        exact hprefix.eq_of_length (by simpa using hlen)
      · intro heq
        rw [← heq]
        exact ⟨by simp, trivial⟩

/-- Octets that are no table change the stations when a newer version has something left over. -/
theorem decode_eq_iff {w : List UInt8} (h : ¬ IsTable w) (s : Stations) (version : ℤ) :
    (systableDecode s w version).1 = s ↔
      ¬ (systableIsNewer s.version version = true ∧ Trailing w) := by
  rw [trailing_iff h]
  unfold systableDecode
  rcases hread : systableStations gsLearnedMax w with _ | _ | ⟨x, xs⟩
  · simp
  · simp
  · simp only [Option.some.injEq, List.cons.injEq, exists_and_left, exists_eq', and_true]
    cases hnew : systableIsNewer s.version version with
    | true =>
      simp only [if_true, not_true_eq_false, iff_false]
      intro hsame
      have hversion := congrArg Stations.version hsame
      simp only at hversion
      rw [hversion, isNewer_self] at hnew
      cases hnew
    | false => simp

/-- **When a table arrives as it was sent.** In every run of parts, with the arrival of one more:

* while parts are missing, the part is collected and the stations stay;
* a table that has been cut into these parts is decoded as it was sent with the part that completes
  it, exactly if it has no more than 128 stations and the last one has a frequency;
* octets that are no table leave the stations as they are, exactly if the version is not newer or
  they do not consist of whole records with something left over. -/
theorem table_decoded_iff (ps : List Part) (s : Gathering)
    (hrun : gathering.exec gathering.init ps = some s) (p : Part) (hp : p.Valid) :
    (¬ Whole (gather s.since p) p.total →
      (systableStorePdu s.table p).2 =
        .collected (count (latest (gather s.since p)) p.total) p.total ∧
      (systableStorePdu s.table p).1.stations = s.table.stations) ∧
    (∀ (sts : List GroundStation) (pieces : List (List UInt8)), sts ≠ [] →
      pieces.length = p.total → pieces.flatten = encodeTable sts →
      (∀ q ∈ gather s.since p, pieces[q.idx]? = some q.buf) →
      ((Yields s.table p sts ↔ Whole (gather s.since p) p.total) ↔
        (Whole (gather s.since p) p.total → AllReadable sts))) ∧
    (Whole (gather s.since p) p.total →
      ¬ IsTable ((List.range p.total).flatMap (latest (gather s.since p))) →
      ((systableStorePdu s.table p).1.stations = s.table.stations ↔
        ¬ (systableIsNewer s.table.stations.version p.version = true ∧
          Trailing ((List.range p.total).flatMap (latest (gather s.since p)))))) := by
  have hinit : Holding gathering.init.table.set gathering.init.since := rfl
  have hinv := gathering.exec_induction (I := fun s => Holding s.table.set s.since) holding_step
    hinit hrun
  obtain ⟨hmore, hdone⟩ := systableStorePdu_spec hinv hp
  refine ⟨fun hnot => ?_, fun sts pieces hsts hlen hflat hcut => ?_, fun hwhole hnot => ?_⟩
  · obtain ⟨set, -, heq⟩ := hmore hnot
    rw [heq]
    exact ⟨rfl, rfl⟩
  · by_cases hwhole : Whole (gather s.since p) p.total
    · have hstore := hdone hwhole
      rw [flatMap_latest hlen hcut hwhole, hflat] at hstore
      rw [yields_iff hsts hstore]
      simp [hwhole]
    · obtain ⟨set, -, heq⟩ := hmore hwhole
      have hno : ¬ Yields s.table p sts := by
        unfold Yields
        rw [heq]
        split
        · rintro ⟨hrep, -⟩
          cases hrep
        · rintro ⟨hrep, -⟩
          cases hrep
      simp [hwhole, hno]
  · rw [hdone hwhole]
    exact decode_eq_iff hnot _ _

/-- A station with one frequency. -/
def sending : GroundStation where
  id := 4
  utcSync := true
  lat := 118000
  lon := -212000
  spduVersion := 1
  freqs := [⟨113870, 1, by decide, by decide⟩]
  id_lt := by decide
  lat_mem := by decide
  lon_mem := by decide
  spduVersion_lt := by decide
  length_freqs := by decide

/-- A station without frequencies. -/
def silent : GroundStation where
  id := 5
  utcSync := true
  lat := 0
  lon := 0
  spduVersion := 1
  freqs := []
  id_lt := by decide
  lat_mem := by decide
  lon_mem := by decide
  spduVersion_lt := by decide
  length_freqs := by decide

/-- A table of two stations whose last one has a frequency, in two parts, the second one first. -/
theorem table_decoded_iff_twoParts : ∃ s, gathering.exec gathering.init
    [⟨60, 1, 2, (encodeTable [silent, sending]).drop 10⟩] = some s ∧
    Yields s.table ⟨60, 0, 2, (encodeTable [silent, sending]).take 10⟩ [silent, sending] := by
  refine ⟨_, rfl, ?_⟩
  have h := table_decoded_iff [⟨60, 1, 2, (encodeTable [silent, sending]).drop 10⟩] _ rfl
    ⟨60, 0, 2, (encodeTable [silent, sending]).take 10⟩ (by decide)
  refine ((h.2.1 [silent, sending] [(encodeTable [silent, sending]).take 10,
    (encodeTable [silent, sending]).drop 10] (by simp) rfl (by simp) (by decide)).2 fun _ => ?_).2
    (by decide)
  exact ⟨by decide, by simp [sending]⟩

/-- The same stations the other way round, in one part: the last one is not learned. -/
theorem last_station_dropped :
    (systableStorePdu gathering.init.table ⟨60, 0, 1, encodeTable [sending, silent]⟩).2 =
      .adopted (learnedTable [sending]) := by
  decide +kernel

end MacHPSDR.Hfdl
