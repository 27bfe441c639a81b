import MacHPSDR.Hfdl.SysTable

/-!
# The records of a system table

A station is encoded in seven octets and four more for each frequency (`GroundStation.encode`), and
a record that is followed by anything is read back as it was written (`systableDecodeGs_encode`).
But the reader of the table wants eight octets for a record, one more than a station without
frequencies has: it stops before such a station when it is the last one, as it does before any
seven octets or fewer that are left over.

`systableStations_encode` says which stations are read, and `readable_eq_self_iff` when these are
all of them.
-/

namespace MacHPSDR.Hfdl

/-! ## Stations -/

/-- A frequency, in units of 100 Hz, with its master slot. -/
structure Frequency where
  hundredHz : ℕ
  slot : ℕ
  hundredHz_lt : hundredHz < 1000000
  slot_lt : slot < 16

/-- A ground station; the coordinates are in units of 180 / 0x7ffff degrees. -/
structure GroundStation where
  id : ℕ
  utcSync : Bool
  lat : ℤ
  lon : ℤ
  spduVersion : ℕ
  freqs : List Frequency
  id_lt : id < 128
  lat_mem : -524288 ≤ lat ∧ lat < 524288
  lon_mem : -524288 ≤ lon ∧ lon < 524288
  spduVersion_lt : spduVersion < 8
  length_freqs : freqs.length ≤ gsMaxFreqCnt

/-- A decimal digit. -/
def digit (n i : ℕ) : ℕ := n / 10 ^ i % 10

/-- Three octets of packed decimal digits and the slot. -/
def Frequency.encode (f : Frequency) : List UInt8 :=
  [UInt8.ofNat (digit f.hundredHz 0 + 16 * digit f.hundredHz 1),
   UInt8.ofNat (digit f.hundredHz 2 + 16 * digit f.hundredHz 3),
   UInt8.ofNat (digit f.hundredHz 4 + 16 * digit f.hundredHz 5),
   UInt8.ofNat f.slot]

/-- Twenty bits in two's complement. -/
def coordinateBits (c : ℤ) : ℕ := (c % 1048576).toNat

namespace GroundStation

/-- The octets before the frequencies. -/
def header (st : GroundStation) : List ℕ :=
  let lat := coordinateBits st.lat
  let lon := coordinateBits st.lon
  [st.id + (if st.utcSync then 128 else 0), lat % 256, lat / 256 % 256,
   lat / 65536 + 16 * (lon % 16), lon / 16 % 256, lon / 4096,
   st.spduVersion + 8 * st.freqs.length]

/-- The record of a station. -/
def encode (st : GroundStation) : List UInt8 :=
  st.header.map UInt8.ofNat ++ st.freqs.flatMap Frequency.encode

/-- What is learned from the record. -/
def learned (st : GroundStation) : GsLearned where
  utcSync := st.utcSync
  lat := st.lat * 180 / 0x7ffff
  lon := st.lon * 180 / 0x7ffff
  spduVersion := st.spduVersion
  freqs := st.freqs.map fun f => (f.hundredHz / 10, f.slot)

end GroundStation

theorem toNat_ofNat {n : ℕ} (h : n < 256) : (UInt8.ofNat n).toNat = n := by
  simp [UInt8.toNat_ofNat', Nat.mod_eq_of_lt h]

theorem digit_lt (n i : ℕ) : digit n i < 10 := Nat.mod_lt _ (by omega)

/-- Six digits make up the number. -/
theorem sum_digits {n : ℕ} (h : n < 1000000) :
    digit n 0 + 10 * digit n 1 + 100 * digit n 2 + 1000 * digit n 3 + 10000 * digit n 4 +
      100000 * digit n 5 = n := by
  simp only [digit]
  omega

theorem systableDecodeFrequency_encode {n : ℕ} (h : n < 1000000) :
    systableDecodeFrequency (UInt8.ofNat (digit n 0 + 16 * digit n 1))
      (UInt8.ofNat (digit n 2 + 16 * digit n 3)) (UInt8.ofNat (digit n 4 + 16 * digit n 5)) =
      n / 10 := by
  have h0 := digit_lt n 0
  have h1 := digit_lt n 1
  have h2 := digit_lt n 2
  have h3 := digit_lt n 3
  have h4 := digit_lt n 4
  have h5 := digit_lt n 5
  have hsum := sum_digits h
  unfold systableDecodeFrequency
  rw [toNat_ofNat (by omega), toNat_ofNat (by omega), toNat_ofNat (by omega)]
  dsimp only
  omega

theorem systableDecodeFreqs_encode (fs : List Frequency) (rest : List UInt8) :
    systableDecodeFreqs fs.length (fs.flatMap Frequency.encode ++ rest) =
      some (fs.map fun f => (f.hundredHz / 10, f.slot)) := by
  induction fs with
  | nil => rfl
  | cons f fs ih =>
    have hslot := f.slot_lt
    rw [List.flatMap_cons, List.append_assoc]
    simp only [Frequency.encode, List.cons_append, List.nil_append, List.length_cons,
      systableDecodeFreqs, ih, Option.map_some, List.map_cons,
      systableDecodeFrequency_encode f.hundredHz_lt]
    rw [toNat_ofNat (by omega), Nat.mod_eq_of_lt hslot]

theorem length_flatMap_encode (fs : List Frequency) :
    (fs.flatMap Frequency.encode).length = 4 * fs.length := by
  induction fs with
  | nil => rfl
  | cons f fs ih =>
    rw [List.flatMap_cons, List.length_append, ih, List.length_cons]
    simp only [Frequency.encode, List.length_cons, List.length_nil]
    omega

theorem coordinateBits_lt (c : ℤ) : coordinateBits c < 1048576 := by
  unfold coordinateBits
  omega

theorem parseCoordinate_coordinateBits {c : ℤ} (h : -524288 ≤ c ∧ c < 524288) :
    parseCoordinate (coordinateBits c) = c * 180 / 0x7ffff := by
  have hsigned : (if coordinateBits c < 0x80000 then (coordinateBits c : ℤ)
      else (coordinateBits c : ℤ) - 0x100000) = c := by
    unfold coordinateBits
    split <;> omega
  unfold parseCoordinate
  rw [hsigned]

theorem GroundStation.length_encode (st : GroundStation) :
    st.encode.length = systableGsMinLen - 1 + 4 * st.freqs.length := by
  rw [encode, List.length_append, length_flatMap_encode, List.length_map]
  rfl

/-- **A record is read back.** -/
theorem systableDecodeGs_encode (st : GroundStation) (rest : List UInt8)
    (hlen : systableGsMinLen ≤ (st.encode ++ rest).length) :
    systableDecodeGs (st.encode ++ rest) = some (st.encode.length, st.id, st.learned) := by
  have hid := st.id_lt
  have hspdu := st.spduVersion_lt
  have hcnt := st.length_freqs
  have hlat := coordinateBits_lt st.lat
  have hlon := coordinateBits_lt st.lon
  unfold gsMaxFreqCnt at hcnt
  have hdrop : (st.encode ++ rest).drop 7 = st.freqs.flatMap Frequency.encode ++ rest := by
    rw [GroundStation.encode, List.append_assoc]
    rfl
  have hhead : (st.encode ++ rest).map UInt8.toNat =
      st.header ++ (st.freqs.flatMap Frequency.encode ++ rest).map UInt8.toNat := by
    rw [GroundStation.encode, List.append_assoc, List.map_append, List.map_map]
    congr 1
    refine (List.map_congr_left fun n hn => ?_).trans (List.map_id _)
    refine toNat_ofNat ?_
    simp only [GroundStation.header, List.mem_cons, List.not_mem_nil, or_false] at hn
    rcases hn with rfl | rfl | rfl | rfl | rfl | rfl | rfl
    · split <;> omega
    all_goals omega
  unfold systableDecodeGs
  rw [if_neg (not_lt.2 hlen), hhead, hdrop, GroundStation.length_encode]
  simp only [GroundStation.header, List.cons_append]
  have hfreqs : (st.spduVersion + 8 * st.freqs.length) / 8 = st.freqs.length := by omega
  have hversion : (st.spduVersion + 8 * st.freqs.length) % 8 = st.spduVersion := by omega
  have hidbits : (st.id + if st.utcSync = true then 128 else 0) % 128 = st.id := by
    split <;> omega
  have hsync : decide (128 ≤ st.id + if st.utcSync = true then 128 else 0) = st.utcSync := by
    cases st.utcSync
    · simpa using hid
    · simp
  have hlatbits : coordinateBits st.lat % 256 + 256 * (coordinateBits st.lat / 256 % 256) +
      65536 * ((coordinateBits st.lat / 65536 + 16 * (coordinateBits st.lon % 16)) % 16) =
      coordinateBits st.lat := by omega
  have hlonbits : (coordinateBits st.lat / 65536 + 16 * (coordinateBits st.lon % 16)) / 16 +
      16 * (coordinateBits st.lon / 16 % 256) + 4096 * (coordinateBits st.lon / 4096) =
      coordinateBits st.lon := by omega
  rw [hfreqs, if_neg (not_lt.2 (by simpa [gsMaxFreqCnt] using hcnt)), hversion, hidbits, hsync,
    hlatbits, hlonbits, parseCoordinate_coordinateBits st.lat_mem,
    parseCoordinate_coordinateBits st.lon_mem, systableDecodeFreqs_encode]
  rfl

/-! ## Tables -/

/-- A table. -/
def encodeTable (sts : List GroundStation) : List UInt8 := sts.flatMap GroundStation.encode

/-- What is learned from a table. -/
def learnedTable (sts : List GroundStation) : List (ℕ × GsLearned) :=
  sts.map fun st => (st.id, st.learned)

/-- The stations that are read when there is room for so many. -/
def readable : ℕ → List GroundStation → List GroundStation
  | 0, _ => []
  | _ + 1, [] => []
  | room + 1, st :: sts =>
    if st.freqs.isEmpty && sts.isEmpty then [] else st :: readable room sts

theorem length_lt_gsMinLen_iff (st : GroundStation) (sts : List GroundStation) :
    (encodeTable (st :: sts)).length < systableGsMinLen ↔
      (st.freqs.isEmpty && sts.isEmpty) = true := by
  rw [encodeTable, List.flatMap_cons, List.length_append, st.length_encode, Bool.and_eq_true,
    List.isEmpty_iff, List.isEmpty_iff, ← List.length_eq_zero_iff, ← List.length_eq_zero_iff]
  simp only [systableGsMinLen]
  cases sts with
  | nil =>
    have hshort : 8 - 1 + 4 * st.freqs.length + 0 < 8 ↔ st.freqs.length = 0 := by omega
    simpa using hshort
  | cons st' sts =>
    rw [List.flatMap_cons, List.length_append, st'.length_encode]
    simp only [systableGsMinLen, List.length_cons]
    omega

/-- **What is read of a table.** -/
theorem systableStations_encode (room : ℕ) (sts : List GroundStation) :
    systableStations room (encodeTable sts) = some (learnedTable (readable room sts)) := by
  induction room generalizing sts with
  | zero => rfl
  | succ room ih =>
    cases sts with
    | nil => rfl
    | cons st sts =>
      have hiff := length_lt_gsMinLen_iff st sts
      unfold systableStations readable
      by_cases hend : (encodeTable (st :: sts)).length < systableGsMinLen
      · rw [if_pos hend, if_pos (hiff.1 hend)]
        rfl
      · rw [if_neg hend, if_neg fun h => hend (hiff.2 h)]
        have hcons : encodeTable (st :: sts) = st.encode ++ encodeTable sts := rfl
        rw [hcons] at hend ⊢
        rw [systableDecodeGs_encode st _ (not_lt.1 hend)]
        simp only [List.drop_left, ih]
        rfl

theorem readable_prefix (room : ℕ) (sts : List GroundStation) : readable room sts <+: sts := by
  induction room generalizing sts with
  | zero => exact List.nil_prefix
  | succ room ih =>
    cases sts with
    | nil => exact List.nil_prefix
    | cons st sts =>
      unfold readable
      split
      · exact List.nil_prefix
      · exact (List.prefix_cons_inj st).2 (ih sts)

/-- All stations are read: there is room for them, and the last one has a frequency. -/
def AllReadable (sts : List GroundStation) : Prop :=
  sts.length ≤ gsLearnedMax ∧ ∀ st ∈ sts.getLast?, st.freqs ≠ []

theorem readable_eq_self_iff (room : ℕ) (sts : List GroundStation) :
    readable room sts = sts ↔ sts.length ≤ room ∧ ∀ st ∈ sts.getLast?, st.freqs ≠ [] := by
  induction room generalizing sts with
  | zero => cases sts <;> simp [readable]
  | succ room ih =>
    cases sts with
    | nil => simp [readable]
    | cons st sts =>
      unfold readable
      cases sts with
      | nil =>
        by_cases hst : st.freqs = []
        · simp [hst]
        · have hrest : readable room [] = [] := by cases room <;> rfl
          simp [hst, hrest]
      | cons st' sts =>
        have hrest := ih (st' :: sts)
        simp only [List.isEmpty_cons, Bool.and_false, Bool.false_eq_true, if_false,
          List.cons.injEq, true_and, List.length_cons, Nat.add_le_add_iff_right,
          List.getLast?_cons_cons] at hrest ⊢
        exact hrest

/-! ## Octets that are no table -/

/-- A record of a station: its header says how many frequencies follow. -/
def IsRecord (r : List UInt8) : Prop :=
  r.length = systableGsMinLen - 1 + 4 * ((r.getD 6 0).toNat / 8) ∧
    (r.getD 6 0).toNat / 8 ≤ gsMaxFreqCnt

/-- Whole records, and nothing else. -/
def IsTable (w : List UInt8) : Prop :=
  ∃ records : List (List UInt8), (∀ r ∈ records, IsRecord r) ∧ w = records.flatten

/-- Whole records, and something after them that is not looked at. -/
def Trailing (w : List UInt8) : Prop :=
  ∃ (records : List (List UInt8)) (tail : List UInt8), records ≠ [] ∧ (∀ r ∈ records, IsRecord r) ∧
    w = records.flatten ++ tail ∧ tail ≠ [] ∧ records.length ≤ gsLearnedMax ∧
    (tail.length < systableGsMinLen ∨ records.length = gsLearnedMax)

theorem isSome_systableDecodeFreqs (n : ℕ) (buf : List UInt8) :
    (systableDecodeFreqs n buf).isSome ↔ 4 * n ≤ buf.length := by
  induction n generalizing buf with
  | zero => simp [systableDecodeFreqs]
  | succ n ih =>
    match buf with
    | b0 :: b1 :: b2 :: slot :: buf =>
      simp only [systableDecodeFreqs, Option.isSome_map, ih, List.length_cons]
      omega
    | [] | [_] | [_, _] | [_, _, _] =>
      simp [systableDecodeFreqs]
      try omega

/-- The octets of the record that a header announces. -/
def recordLen (buf : List UInt8) : ℕ := systableGsMinLen - 1 + 4 * ((buf.getD 6 0).toNat / 8)

theorem isRecord_take_iff (buf : List UInt8) : IsRecord (buf.take (recordLen buf)) ↔
    recordLen buf ≤ buf.length ∧ (buf.getD 6 0).toNat / 8 ≤ gsMaxFreqCnt := by
  have hlen : 6 < recordLen buf := by
    unfold recordLen systableGsMinLen
    omega
  have hget : (buf.take (recordLen buf)).getD 6 0 = buf.getD 6 0 := by
    rw [List.getD_eq_getElem?_getD, List.getElem?_take_of_lt hlen, ← List.getD_eq_getElem?_getD]
  unfold IsRecord
  rw [hget, List.length_take]
  refine and_congr_left fun _ => ?_
  change min (recordLen buf) buf.length = recordLen buf ↔ _
  exact min_eq_left_iff

/-- A record is read where there is one, and only there. -/
theorem systableDecodeGs_cases (buf : List UInt8) (hlen : systableGsMinLen ≤ buf.length) :
    (IsRecord (buf.take (recordLen buf)) ∧
      ∃ id gs, systableDecodeGs buf = some (recordLen buf, id, gs)) ∨
    (¬ IsRecord (buf.take (recordLen buf)) ∧ systableDecodeGs buf = none) := by
  rw [isRecord_take_iff]
  match buf, hlen with
  | b0 :: b1 :: b2 :: b3 :: b4 :: b5 :: b6 :: rest, hlen =>
    have hcnt : ((b0 :: b1 :: b2 :: b3 :: b4 :: b5 :: b6 :: rest).getD 6 0) = b6 := rfl
    have hroom : recordLen (b0 :: b1 :: b2 :: b3 :: b4 :: b5 :: b6 :: rest) ≤
        (b0 :: b1 :: b2 :: b3 :: b4 :: b5 :: b6 :: rest).length ↔
        4 * (b6.toNat / 8) ≤ rest.length := by
      simp only [recordLen, hcnt, systableGsMinLen, List.length_cons]
      omega
    have hfreqs := isSome_systableDecodeFreqs (b6.toNat / 8) rest
    unfold systableDecodeGs
    rw [if_neg (not_lt.2 hlen), hroom, hcnt]
    simp only [List.map_cons, List.drop_succ_cons, List.drop_zero]
    by_cases hmax : b6.toNat / 8 > gsMaxFreqCnt
    · exact .inr ⟨fun h => absurd h.2 (not_le.2 hmax), if_pos hmax⟩
    · rw [if_neg hmax]
      by_cases hfit : 4 * (b6.toNat / 8) ≤ rest.length
      · obtain ⟨freqs, hf⟩ := Option.isSome_iff_exists.1 (hfreqs.2 hfit)
        refine .inl ⟨⟨hfit, not_lt.1 hmax⟩, ?_⟩
        rw [hf]
        exact ⟨_, _, rfl⟩
      · refine .inr ⟨fun h => hfit h.1, ?_⟩
        have hnone : systableDecodeFreqs (b6.toNat / 8) rest = none := by
          rw [← Option.not_isSome_iff_eq_none, hfreqs]
          exact hfit
        rw [hnone]
        rfl
  | [], hlen | [_], hlen | [_, _], hlen | [_, _, _], hlen | [_, _, _, _], hlen
  | [_, _, _, _, _], hlen | [_, _, _, _, _, _], hlen =>
    simp [systableGsMinLen] at hlen

/-- The stations that are read stand for whole records, and the rest is not looked at. -/
theorem records_of_systableStations {room : ℕ} {w : List UInt8} {xs : List (ℕ × GsLearned)}
    (h : systableStations room w = some xs) :
    ∃ (records : List (List UInt8)) (tail : List UInt8), records.length = xs.length ∧
      records.length ≤ room ∧ (∀ r ∈ records, IsRecord r) ∧ w = records.flatten ++ tail ∧
      (tail.length < systableGsMinLen ∨ records.length = room) := by
  induction room generalizing w xs with
  | zero =>
    obtain rfl := Option.some.inj h
    exact ⟨[], w, rfl, le_rfl, by simp, rfl, .inr rfl⟩
  | succ room ih =>
    unfold systableStations at h
    by_cases hend : w.length < systableGsMinLen
    · rw [if_pos hend] at h
      obtain rfl := Option.some.inj h
      exact ⟨[], w, rfl, Nat.zero_le _, by simp, rfl, .inl hend⟩
    · rw [if_neg hend] at h
      rcases systableDecodeGs_cases w (not_lt.1 hend) with ⟨hrec, id, gs, hdec⟩ | ⟨-, hdec⟩
      · rw [hdec] at h
        obtain ⟨ys, hys, rfl⟩ := Option.map_eq_some_iff.1 h
        obtain ⟨records, tail, hlen, hroom, hall, hw, htail⟩ := ih hys
        refine ⟨w.take (recordLen w) :: records, tail, by simp [hlen], by simpa using hroom, ?_, ?_,
          htail.imp (fun h => h) fun h => by simp [h]⟩
        · intro r hr
          rcases List.mem_cons.1 hr with rfl | hr
          · exact hrec
          · exact hall r hr
        · rw [List.flatten_cons, List.append_assoc, ← hw, List.take_append_drop]
      · rw [hdec] at h
        cases h

/-- Whole records are read as long as there is something after them. -/
theorem systableStations_of_records {room : ℕ} {records : List (List UInt8)} {tail : List UInt8}
    (hroom : records.length ≤ room) (hall : ∀ r ∈ records, IsRecord r) (hne : tail ≠ [])
    (htail : tail.length < systableGsMinLen ∨ records.length = room) :
    ∃ xs, systableStations room (records.flatten ++ tail) = some xs ∧
      xs.length = records.length := by
  induction records generalizing room with
  | nil =>
    rw [List.flatten_nil, List.nil_append]
    cases room with
    | zero => exact ⟨[], rfl, rfl⟩
    | succ room =>
      have hshort := htail.resolve_right (Nat.succ_ne_zero room).symm
      exact ⟨[], if_pos hshort, rfl⟩
  | cons r records ih =>
    cases room with
    | zero => simp at hroom
    | succ room =>
      obtain ⟨xs, hxs, hlen⟩ := ih (by simpa using hroom) (fun r' hr' => hall r' (by simp [hr']))
        (htail.imp (fun h => h) fun h => by simpa using h)
      have hr := hall r (List.mem_cons_self ..)
      have hpos : 0 < tail.length := List.length_pos_iff.2 hne
      rw [List.flatten_cons, List.append_assoc]
      have hrlen : 6 < r.length := by
        rw [hr.1]
        unfold systableGsMinLen
        omega
      have hget : (r ++ (records.flatten ++ tail)).getD 6 0 = r.getD 6 0 :=
        List.getD_append _ _ _ _ hrlen
      have hused : recordLen (r ++ (records.flatten ++ tail)) = r.length := by
        rw [recordLen, hget, ← hr.1]
      have hbig : ¬ (r ++ (records.flatten ++ tail)).length < systableGsMinLen := by
        rw [List.length_append, List.length_append, hr.1]
        unfold systableGsMinLen
        omega
      unfold systableStations
      rw [if_neg hbig]
      rcases systableDecodeGs_cases _ (not_lt.1 hbig) with ⟨-, id, gs, hdec⟩ | ⟨hnot, -⟩
      · rw [hdec, hused]
        simp only [List.drop_left, hxs]
        exact ⟨_, rfl, by simp [hlen]⟩
      · rw [hused, List.take_left] at hnot
        exact absurd hr hnot

/-- **When octets that are no table bring stations.** -/
theorem trailing_iff {w : List UInt8} (h : ¬ IsTable w) :
    Trailing w ↔ ∃ x xs, systableStations gsLearnedMax w = some (x :: xs) := by
  constructor
  · rintro ⟨records, tail, hne, hall, rfl, htail, hroom, hend⟩
    obtain ⟨xs, hxs, hlen⟩ := systableStations_of_records hroom hall htail hend
    cases xs with
    | nil => exact absurd (List.eq_nil_of_length_eq_zero hlen.symm) hne
    | cons x xs => exact ⟨x, xs, hxs⟩
  · rintro ⟨x, xs, hxs⟩
    obtain ⟨records, tail, hlen, hroom, hall, rfl, hend⟩ := records_of_systableStations hxs
    refine ⟨records, tail, ?_, hall, rfl, ?_, hroom, hend⟩
    · rintro rfl
      cases hlen
    · rintro rfl
      exact h ⟨records, hall, List.append_nil _⟩

end MacHPSDR.Hfdl
