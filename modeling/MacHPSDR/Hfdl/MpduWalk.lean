import MacHPSDR.Hfdl.Mpdu

/-!
# The LPDUs of an MPDU

A `Header` is an MPDU header that is well formed: as many sizes as it counts, for as many aircraft
as it counts. It lays its LPDUs out (`layOut`), one after the other from the end of the checksum on.

The two readers never read outside the buffer and accept the same frames; a frame that is accepted
begins with a header, and the LPDUs visited are the pieces that it lays out, up to the first that
would end past the buffer (`mpdu_walk`).
-/

namespace MacHPSDR.Hfdl

/-! ## Headers -/

/-- The list of one aircraft in an uplink header. -/
structure UplinkList where
  aircraft : UInt8
  count : UInt8
  sizes : List UInt8
  counted : sizes.length = (count >>> 4).toNat

/-- The octets of a list. -/
def UplinkList.octets (l : UplinkList) : List UInt8 := l.aircraft :: l.count :: l.sizes

/-- The header of an MPDU. -/
inductive Header
  | downlink (b0 gs aircraft b3 b4 b5 : UInt8) (sizes : List UInt8) (mpdu : b0 &&& 1 ≠ 0)
      (down : b0 &&& 2 ≠ 0) (counted : sizes.length = ((b0 >>> 2) &&& 0xf).toNat)
  | uplink (b0 gs : UInt8) (lists : List UplinkList) (mpdu : b0 &&& 1 ≠ 0) (up : b0 &&& 2 = 0)
      (counted : lists.length = ((b0 &&& 0x70) >>> 4).toNat + 1)

/-- The LPDUs of a list, each with its aircraft and its size octet. -/
def UplinkList.entries (l : UplinkList) : List (UInt8 × UInt8) :=
  l.sizes.map fun s => (l.aircraft, s)

namespace Header

/-- The octets of a header. -/
def octets : Header → List UInt8
  | downlink b0 gs aircraft b3 b4 b5 sizes .. => b0 :: gs :: aircraft :: b3 :: b4 :: b5 :: sizes
  | uplink b0 gs lists .. => b0 :: gs :: lists.flatMap UplinkList.octets

/-- The LPDUs that a header announces, each with its aircraft and its size octet. -/
def entries : Header → List (UInt8 × UInt8)
  | downlink _ _ aircraft _ _ _ sizes .. => sizes.map fun s => (aircraft, s)
  | uplink _ _ lists .. => lists.flatMap UplinkList.entries

end Header

/-! ## Layout -/

/-- Pieces that follow each other from an offset on; a size octet is one less than the length. -/
def layOut (offset : ℕ) : List (UInt8 × UInt8) → List Piece
  | [] => []
  | (aircraft, size) :: entries =>
    ⟨aircraft, offset, size.toNat + 1⟩ :: layOut (offset + (size.toNat + 1)) entries

/-- The length of all of them. -/
def laidLength (entries : List (UInt8 × UInt8)) : ℕ := (entries.map fun e => e.2.toNat + 1).sum

/-- The piece is inside the buffer. -/
def Piece.fits (buf : List UInt8) (p : Piece) : Bool := decide (p.offset + p.len ≤ buf.length)

theorem layOut_append (offset : ℕ) (a b : List (UInt8 × UInt8)) :
    layOut offset (a ++ b) = layOut offset a ++ layOut (offset + laidLength a) b := by
  induction a generalizing offset with
  | nil => rfl
  | cons e a ih =>
    obtain ⟨aircraft, size⟩ := e
    have hsum : offset + (size.toNat + 1) + laidLength a =
        offset + laidLength ((aircraft, size) :: a) := by
      simp only [laidLength, List.map_cons, List.sum_cons]
      omega
    rw [List.cons_append, layOut, layOut, List.cons_append, ih, hsum]

/-- What of the pieces is inside the buffer is a run of octets without overlap or gap. -/
theorem flatMap_octets_takeWhile (buf : List UInt8) (entries : List (UInt8 × UInt8)) (offset : ℕ) :
    ((layOut offset entries).takeWhile (Piece.fits buf)).flatMap (fun p => p.octets buf) <+:
      buf.drop offset := by
  induction entries generalizing offset with
  | nil => exact List.nil_prefix
  | cons e entries ih =>
    obtain ⟨aircraft, size⟩ := e
    rw [layOut, List.takeWhile_cons]
    split
    · rw [List.flatMap_cons, Piece.octets]
      obtain ⟨rest, hrest⟩ := ih (offset + (size.toNat + 1))
      refine ⟨rest, ?_⟩
      rw [List.append_assoc, hrest, ← List.drop_drop, List.take_append_drop]
    · exact List.nil_prefix

/-! ## Reads -/

variable (crc : List UInt8 → UInt16 → UInt16) {buf : List UInt8}

theorem exists_getElem (buf : List UInt8) (i : ℕ) (h : i < buf.length) : ∃ b, buf[i]? = some b :=
  ⟨buf[i], List.getElem?_eq_getElem h⟩

theorem exists_fcsCheck (buf : List UInt8) (hdrLen : ℕ) (h : hdrLen + 2 ≤ buf.length) :
    ∃ ok, hfdlPduFcsCheck crc buf hdrLen = some ok := by
  obtain ⟨lo, hlo⟩ := exists_getElem buf hdrLen (by omega)
  obtain ⟨hi, hhi⟩ := exists_getElem buf (hdrLen + 1) (by omega)
  exact ⟨_, by simp only [hfdlPduFcsCheck, hlo, hhi, Option.bind_eq_bind, Option.bind_some,
    Option.pure_def]; rfl⟩

theorem exists_parseIcaoHex (buf : List UInt8) (i : ℕ) (h : i + 3 ≤ buf.length) :
    ∃ icao, parseIcaoHex buf i = some icao := by
  obtain ⟨b0, h0⟩ := exists_getElem buf i (by omega)
  obtain ⟨b1, h1⟩ := exists_getElem buf (i + 1) (by omega)
  obtain ⟨b2, h2⟩ := exists_getElem buf (i + 2) (by omega)
  exact ⟨_, by simp only [parseIcaoHex, h0, h1, h2, Option.bind_eq_bind, Option.bind_some,
    Option.pure_def]; rfl⟩

theorem exists_lpduFields (buf : List UInt8) (len : ℕ) (h : len ≤ buf.length) (type : UInt8) :
    ∃ r, lpduFields buf len type = some r := by
  unfold lpduFields
  split_ifs with h1 h2 h3 h4 h5 h6 h7
  · exact ⟨_, rfl⟩
  · exact ⟨_, rfl⟩
  · obtain ⟨icao, hicao⟩ := exists_parseIcaoHex buf 1 (by omega)
    obtain ⟨reason, hreason⟩ := exists_getElem buf 4 (by omega)
    exact ⟨_, by simp only [hicao, hreason, Option.bind_eq_bind, Option.bind_some,
      Option.pure_def]; rfl⟩
  · exact ⟨_, rfl⟩
  · obtain ⟨icao, hicao⟩ := exists_parseIcaoHex buf 1 (by omega)
    obtain ⟨acId, hacId⟩ := exists_getElem buf 4 (by omega)
    exact ⟨_, by simp only [hicao, hacId, Option.bind_eq_bind, Option.bind_some,
      Option.pure_def]; rfl⟩
  · exact ⟨_, rfl⟩
  · obtain ⟨icao, hicao⟩ := exists_parseIcaoHex buf 1 (by omega)
    exact ⟨_, by simp only [hicao, Option.bind_eq_bind, Option.bind_some, Option.pure_def]; rfl⟩
  · exact ⟨_, rfl⟩

/-- An LPDU is read inside its own octets. -/
theorem exists_lpduDecode (buf : List UInt8) : ∃ lpdu, lpduDecode crc buf = some lpdu := by
  unfold lpduDecode
  split_ifs with hlen
  · exact ⟨_, rfl⟩
  · obtain ⟨ok, hok⟩ := exists_fcsCheck crc buf (buf.length - 2) (by omega)
    obtain ⟨type, htype⟩ := exists_getElem buf 0 (by omega)
    obtain ⟨⟨fields, consumed⟩, hfields⟩ := exists_lpduFields buf (buf.length - 2) (by omega)
      type
    cases ok with
    | false => exact ⟨.fcsFail, by simp [hok]⟩
    | true =>
      exact ⟨_, by simp only [hok, htype, hfields, Option.bind_eq_bind, Option.bind_some,
        Bool.true_eq_false, if_false, Option.pure_def]; rfl⟩

/-! ## Walks -/

/-- These visits are the pieces up to the first that is not inside the buffer, each decoded from its
own octets. -/
structure Walked (buf : List UInt8) (pieces : List Piece) (visits : List Visit) : Prop where
  pieces_eq : visits.map Visit.piece = pieces.takeWhile (Piece.fits buf)
  decoded : ∀ v ∈ visits, lpduDecode crc (v.piece.octets buf) = some v.lpdu

section Walked

variable {crc} {p q : List Piece} {visits more : List Visit}

theorem Walked.append (hp : Walked crc buf p visits) (hall : p.all (Piece.fits buf) = true)
    (hq : Walked crc buf q more) : Walked crc buf (p ++ q) (visits ++ more) where
  pieces_eq := by
    have hfit := List.all_eq_true.1 hall
    have hself : p.takeWhile (Piece.fits buf) = p := by
      simpa using @List.takeWhile_append_of_pos _ _ p [] hfit
    rw [List.takeWhile_append_of_pos hfit, List.map_append, hp.pieces_eq, hq.pieces_eq, hself]
  decoded v hv := by
    rcases List.mem_append.1 hv with hv | hv
    · exact hp.decoded v hv
    · exact hq.decoded v hv

theorem Walked.stop (hp : Walked crc buf p visits) (hall : p.all (Piece.fits buf) = false)
    (q : List Piece) : Walked crc buf (p ++ q) visits where
  pieces_eq := by
    obtain ⟨x, hx, hfit⟩ := List.all_eq_false.1 hall
    have hlen : ¬ (p.takeWhile (Piece.fits buf)).length = p.length := by
      intro heq
      have hself := (List.takeWhile_prefix (Piece.fits buf)).eq_of_length heq
      rw [← hself] at hx
      exact hfit (List.mem_takeWhile_imp hx)
    rw [List.takeWhile_append, if_neg hlen]
    exact hp.pieces_eq
  decoded := hp.decoded

end Walked

/-- The LPDUs of one list. -/
theorem lpduListDecode_eq (buf : List UInt8) (aircraft : UInt8) (sizes : List UInt8)
    (sizePtr dataPtr consumed : ℕ) (h : sizes <+: buf.drop sizePtr) :
    ∃ visits, lpduListDecode crc buf aircraft sizePtr dataPtr consumed sizes.length =
        some (visits, if (layOut dataPtr (sizes.map fun s => (aircraft, s))).all (Piece.fits buf)
          then some (consumed + laidLength (sizes.map fun s => (aircraft, s))) else none) ∧
      Walked crc buf (layOut dataPtr (sizes.map fun s => (aircraft, s))) visits := by
  induction sizes generalizing sizePtr dataPtr consumed with
  | nil => exact ⟨[], rfl, rfl, fun v hv => by cases hv⟩
  | cons size sizes ih =>
    obtain ⟨rest, hrest⟩ := h
    have hsize : buf[sizePtr]? = some size := by
      rw [← Nat.add_zero sizePtr, ← List.getElem?_drop, ← hrest]
      rfl
    have htail : sizes <+: buf.drop (sizePtr + 1) := by
      rw [← List.drop_drop, ← hrest]
      exact List.prefix_append ..
    by_cases hfit : dataPtr + (size.toNat + 1) > buf.length
    · have hout : Piece.fits buf ⟨aircraft, dataPtr, size.toNat + 1⟩ = false := by
        simpa [Piece.fits] using hfit
      refine ⟨[], ?_, ⟨?_, fun v hv => by cases hv⟩⟩
      · simp [lpduListDecode, hsize, hfit, layOut, hout]
      · simp [layOut, hout]
    · have hin : Piece.fits buf ⟨aircraft, dataPtr, size.toNat + 1⟩ = true := by
        simpa [Piece.fits] using hfit
      obtain ⟨lpdu, hlpdu⟩ := exists_lpduDecode crc
        ((⟨aircraft, dataPtr, size.toNat + 1⟩ : Piece).octets buf)
      obtain ⟨visits, hvisits, hwalked⟩ := ih (sizePtr + 1) (dataPtr + (size.toNat + 1))
        (consumed + (size.toNat + 1)) htail
      have hsum : consumed + (size.toNat + 1) + laidLength (sizes.map fun s => (aircraft, s)) =
          consumed + laidLength ((aircraft, size) :: sizes.map fun s => (aircraft, s)) := by
        simp only [laidLength, List.map_cons, List.sum_cons]
        omega
      refine ⟨⟨⟨aircraft, dataPtr, size.toNat + 1⟩, lpdu⟩ :: visits, ?_, ?_, ?_⟩
      · simp only [List.length_cons, lpduListDecode, hsize, hfit, hlpdu, hvisits, List.map_cons,
          layOut, List.all_cons, hin, Bool.true_and, Option.bind_eq_bind, Option.bind_some,
          Option.pure_def, if_false, hsum]
      · rw [List.map_cons, List.map_cons, layOut, List.takeWhile_cons, if_pos hin,
          hwalked.pieces_eq]
      · intro v hv
        rcases List.mem_cons.1 hv with rfl | hv
        · exact hlpdu
        · exact hwalked.decoded v hv

/-- The high half of an octet is not changed by a mask. -/
theorem shift_and_mask (octet : UInt8) : (octet >>> 4) &&& (0xf : UInt8) = octet >>> 4 := by
  apply UInt8.toNat.inj
  have hlt := octet.toNat_lt
  have hhalf : (octet >>> 4 : UInt8).toNat = octet.toNat / 16 := by
    simp [Nat.shiftRight_eq_div_pow]
  have hmask : (0xf : UInt8).toNat = 2 ^ 4 - 1 := rfl
  rw [UInt8.toNat_and, hmask, Nat.and_two_pow_sub_one_eq_mod, hhalf]
  omega

/-- The LPDUs of an uplink. -/
theorem uplinkWalk_eq (lists : List UplinkList) (hdrPtr dataPtr : ℕ)
    (h : lists.flatMap UplinkList.octets <+: buf.drop hdrPtr) :
    ∃ visits, uplinkWalk crc buf hdrPtr dataPtr lists.length = some (visits,
        !(layOut dataPtr (lists.flatMap UplinkList.entries)).all (Piece.fits buf)) ∧
      Walked crc buf (layOut dataPtr (lists.flatMap UplinkList.entries)) visits := by
  induction lists generalizing hdrPtr dataPtr with
  | nil => exact ⟨[], rfl, rfl, fun v hv => by cases hv⟩
  | cons l lists ih =>
    obtain ⟨rest, hrest⟩ := h
    rw [List.flatMap_cons, UplinkList.octets, List.append_assoc, List.cons_append,
      List.cons_append] at hrest
    have hget (i : ℕ) : buf[hdrPtr + i]? = (buf.drop hdrPtr)[i]? := List.getElem?_drop.symm
    have haircraft : buf[hdrPtr]? = some l.aircraft := by
      rw [← Nat.add_zero hdrPtr, hget, ← hrest]
      rfl
    have hcount : buf[hdrPtr + 1]? = some l.count := by
      rw [hget, ← hrest]
      rfl
    have hdrop : buf.drop (hdrPtr + 2) = l.sizes ++ (lists.flatMap UplinkList.octets ++ rest) := by
      rw [← List.drop_drop, ← hrest]
      rfl
    have hnext : buf.drop (hdrPtr + 2 + l.sizes.length) =
        lists.flatMap UplinkList.octets ++ rest := by
      rw [← List.drop_drop, hdrop, List.drop_left]
    have hcnt : ((l.count >>> 4) &&& 0xf).toNat = l.sizes.length := by
      rw [shift_and_mask, l.counted]
    obtain ⟨visits, hvisits, hwalked⟩ := lpduListDecode_eq crc buf l.aircraft l.sizes (hdrPtr + 2)
      dataPtr 0 (hdrop ▸ List.prefix_append ..)
    rw [Nat.zero_add] at hvisits
    obtain ⟨more, hmore, hwalked'⟩ := ih (hdrPtr + 2 + l.sizes.length)
      (dataPtr + laidLength l.entries) (hnext ▸ List.prefix_append ..)
    rw [List.flatMap_cons, layOut_append, List.all_append]
    cases hall : (layOut dataPtr l.entries).all (Piece.fits buf) with
    | false =>
      refine ⟨visits, ?_, hwalked.stop hall _⟩
      rw [UplinkList.entries] at hall
      simp only [List.length_cons, uplinkWalk, haircraft, hcount, hcnt, hvisits, hall,
        Option.bind_eq_bind, Option.bind_some, Option.pure_def, Bool.false_eq_true, if_false,
        UplinkList.entries, Bool.false_and, Bool.not_false]
    | true =>
      refine ⟨visits ++ more, ?_, hwalked.append hall hwalked'⟩
      rw [UplinkList.entries] at hall hmore
      simp only [List.length_cons, uplinkWalk, haircraft, hcount, hcnt, hvisits, hall, hmore,
        Option.bind_eq_bind, Option.bind_some, Option.pure_def, if_true, UplinkList.entries,
        Bool.true_and]

/-! ## The header as it is read -/

/-- The two readers take the same length for an uplink header. -/
theorem describeHdrLen_eq (buf : List UInt8) (aircraft hdrLen : ℕ) :
    describeHdrLen buf aircraft hdrLen = decodeHdrLen buf aircraft hdrLen := by
  induction aircraft generalizing hdrLen with
  | zero => rfl
  | succ aircraft ih =>
    unfold describeHdrLen decodeHdrLen
    simp only [ih]

/-- The lists of an uplink header, as far as the buffer goes. -/
theorem decodeHdrLen_cases (buf : List UInt8) (aircraft off : ℕ) :
    ∃ r, decodeHdrLen buf aircraft off = some r ∧ ∀ hdrLen ∈ r, hdrLen ≤ buf.length →
      ∃ lists : List UplinkList, lists.length = aircraft ∧
        lists.flatMap UplinkList.octets <+: buf.drop off ∧
        hdrLen = off + (lists.flatMap UplinkList.octets).length := by
  induction aircraft generalizing off with
  | zero =>
    refine ⟨some off, rfl, fun hdrLen hr _ => ⟨[], rfl, List.nil_prefix, ?_⟩⟩
    obtain rfl := Option.some.inj hr
    rfl
  | succ aircraft ih =>
    unfold decodeHdrLen
    by_cases hshort : buf.length < off + 2
    · exact ⟨none, if_pos hshort, fun hdrLen hr => by cases hr⟩
    · have hlen : off + 2 ≤ buf.length := not_lt.1 hshort
      obtain ⟨ac, hac⟩ := exists_getElem buf off (by omega)
      obtain ⟨octet, hoctet⟩ := exists_getElem buf (off + 1) (by omega)
      obtain ⟨r, hr, hcases⟩ := ih (off + (2 + (octet >>> 4).toNat))
      refine ⟨r, by rw [if_neg hshort, hoctet]; exact hr, fun hdrLen hmem hle => ?_⟩
      obtain ⟨lists, hlists, hprefix, hdrLen_eq⟩ := hcases hdrLen hmem hle
      have hdrop : buf.drop off = ac :: octet :: buf.drop (off + 2) := by
        rw [List.drop_eq_getElem_cons (by omega), List.drop_eq_getElem_cons (by omega)]
        rw [List.getElem?_eq_getElem (by omega)] at hac hoctet
        rw [Option.some.inj hac, Option.some.inj hoctet]
      have hsizes : ((buf.drop (off + 2)).take (octet >>> 4).toNat).length =
          (octet >>> 4).toNat := by
        rw [List.length_take, List.length_drop]
        omega
      refine ⟨⟨ac, octet, (buf.drop (off + 2)).take (octet >>> 4).toNat, hsizes⟩ :: lists,
        by rw [List.length_cons, hlists], ?_, ?_⟩
      · obtain ⟨rest, hrest⟩ := hprefix
        refine ⟨rest, ?_⟩
        have hjoin : (buf.drop (off + 2)).take (octet >>> 4).toNat ++
            buf.drop (off + (2 + (octet >>> 4).toNat)) = buf.drop (off + 2) := by
          have hsplit := List.take_append_drop (octet >>> 4).toNat (buf.drop (off + 2))
          rwa [List.drop_drop, Nat.add_assoc] at hsplit
        rw [List.flatMap_cons, UplinkList.octets, List.append_assoc, hrest, hdrop]
        exact congrArg (fun sizes => ac :: octet :: sizes) hjoin
      · rw [List.flatMap_cons, UplinkList.octets, List.length_append, List.length_cons,
          List.length_cons, hsizes, hdrLen_eq]
        omega

/-- The LPDUs that were visited in a frame, and whether one of them runs past its end. -/
def Frame.walk : Frame → Option (List Visit × Bool)
  | .mpduDownlink _ _ visits truncated => some (visits, truncated)
  | .mpduUplink _ _ visits truncated => some (visits, truncated)
  | _ => none

/-- The buffer is a header with its checksum and an area of LPDUs, and these are those visited. -/
def Visits (buf : List UInt8) (visits : List Visit) (truncated : Bool) : Prop :=
  ∃ (h : Header) (fcs area : List UInt8), buf = h.octets ++ fcs ++ area ∧ fcs.length = 2 ∧
    visits.map Visit.piece =
      (layOut (h.octets.length + 2) h.entries).takeWhile (Piece.fits buf) ∧
    (truncated = true ↔ ∃ p ∈ layOut (h.octets.length + 2) h.entries,
      buf.length < p.offset + p.len) ∧
    (∀ v ∈ visits, v.piece.offset + v.piece.len ≤ buf.length ∧
      lpduDecode crc (v.piece.octets buf) = some v.lpdu) ∧
    visits.flatMap (fun v => v.piece.octets buf) <+: area

theorem Walked.visits {h : Header} {visits : List Visit}
    (hw : Walked crc buf (layOut (h.octets.length + 2) h.entries) visits)
    (hh : h.octets <+: buf) (hlen : h.octets.length + 2 ≤ buf.length) :
    Visits crc buf visits
      (!(layOut (h.octets.length + 2) h.entries).all (Piece.fits buf)) := by
  obtain ⟨rest, rfl⟩ := hh
  rw [List.length_append] at hlen
  have harea : (h.octets ++ rest).drop (h.octets.length + 2) = rest.drop 2 := by
    rw [← List.drop_drop, List.drop_left]
  refine ⟨h, rest.take 2, rest.drop 2, ?_, ?_, hw.pieces_eq, ?_, fun v hv => ⟨?_, hw.decoded v hv⟩,
    ?_⟩
  · rw [List.append_assoc, List.take_append_drop]
  · rw [List.length_take]
    omega
  · rw [Bool.not_eq_true', List.all_eq_false]
    simp only [Piece.fits, decide_eq_true_eq, not_le]
  · have hmem : v.piece ∈ visits.map Visit.piece := List.mem_map_of_mem hv
    rw [hw.pieces_eq] at hmem
    simpa [Piece.fits] using List.mem_takeWhile_imp hmem
  · have hflat := flatMap_octets_takeWhile (h.octets ++ rest) h.entries (h.octets.length + 2)
    rwa [harea, ← hw.pieces_eq, List.flatMap_map] at hflat

/-! ## Both readers -/

/-- An SPDU, or a frame that is too short for one. -/
theorem spdu_readers {b0 : UInt8} (hlen : 3 ≤ buf.length) (h0 : buf[0]? = some b0)
    (hspdu : b0 &&& 1 = 0) : ∃ text frame, hfdlPduDescribe crc buf = some text ∧
      hfdlMsgDecode crc buf = some frame ∧ text.accepted = frame.accepted ∧ frame.walk = none := by
  have hlong : ¬ buf.length < 3 := not_lt.2 hlen
  unfold hfdlPduDescribe hfdlMsgDecode
  simp only [hlong, h0, hspdu, if_true, if_false, Option.bind_eq_bind, Option.bind_some]
  by_cases hshort : buf.length < spduLen
  · exact ⟨.spduTooShort, .spduTooShort, by simp [hshort], by simp [hshort], rfl, rfl⟩
  · have hfcs : spduHdr + 2 ≤ buf.length := by
      unfold spduLen at hshort
      unfold spduHdr
      omega
    obtain ⟨ok, hok⟩ := exists_fcsCheck crc buf spduHdr hfcs
    refine ⟨.spdu ok, if ok then .spdu else .spduFcsFail, by simp [hshort, hok],
      by simp [hshort, hok], ?_⟩
    cases ok with
    | false => exact ⟨rfl, rfl⟩
    | true => exact ⟨rfl, rfl⟩

theorem exists_cons {n : ℕ} {l : List UInt8} (h : n + 1 ≤ l.length) :
    ∃ b l', l = b :: l' ∧ n ≤ l'.length := by
  cases l with
  | nil => cases h
  | cons b l => exact ⟨b, l, rfl, Nat.le_of_succ_le_succ h⟩

/-- A downlink MPDU. -/
theorem downlink_readers {b0 : UInt8} (hlen : 3 ≤ buf.length) (h0 : buf[0]? = some b0)
    (hmpdu : b0 &&& 1 ≠ 0) (hdown : b0 &&& 2 ≠ 0) : ∃ text frame,
      hfdlPduDescribe crc buf = some text ∧ hfdlMsgDecode crc buf = some frame ∧
      text.accepted = frame.accepted ∧
      ∀ visits truncated, frame.walk = some (visits, truncated) →
        Visits crc buf visits truncated := by
  have hlong : ¬ buf.length < 3 := not_lt.2 hlen
  set lpduCnt := ((b0 >>> 2) &&& 0xf).toNat with hcnt
  unfold hfdlPduDescribe hfdlMsgDecode
  simp only [hlong, h0, hmpdu, hdown, if_true, if_false, Option.bind_eq_bind, Option.bind_some,
    ne_eq, not_false_eq_true, ← hcnt]
  by_cases hshort : buf.length < 6 + lpduCnt + 2
  · exact ⟨.mpduTooShort, .mpduTooShort, by simp [hshort], by simp [hshort], rfl,
      fun visits truncated hw => by cases hw⟩
  · have hlen' : 6 + lpduCnt + 2 ≤ buf.length := not_lt.1 hshort
    obtain ⟨ok, hok⟩ := exists_fcsCheck crc buf (6 + lpduCnt) hlen'
    obtain ⟨c0, buf1, rfl, hlen1⟩ := exists_cons (l := buf) (n := lpduCnt + 7) (by omega)
    obtain ⟨gs, buf2, rfl, hlen2⟩ := exists_cons (l := buf1) (n := lpduCnt + 6) hlen1
    obtain ⟨ac, buf3, rfl, hlen3⟩ := exists_cons (l := buf2) (n := lpduCnt + 5) hlen2
    obtain ⟨b3, buf4, rfl, hlen4⟩ := exists_cons (l := buf3) (n := lpduCnt + 4) hlen3
    obtain ⟨b4, buf5, rfl, hlen5⟩ := exists_cons (l := buf4) (n := lpduCnt + 3) hlen4
    obtain ⟨b5, rest, rfl, hlen6⟩ := exists_cons (l := buf5) (n := lpduCnt + 2) hlen5
    obtain rfl : c0 = b0 := Option.some.inj h0
    have hsizes : (rest.take lpduCnt).length = lpduCnt := by
      rw [List.length_take]
      omega
    let h : Header := .downlink c0 gs ac b3 b4 b5 (rest.take lpduCnt) hmpdu hdown hsizes
    have hoctets : h.octets.length = 6 + lpduCnt := by
      simp only [h, Header.octets, List.length_cons, hsizes]
      omega
    obtain ⟨visits, hvisits, hwalked⟩ := lpduListDecode_eq crc
      (c0 :: gs :: ac :: b3 :: b4 :: b5 :: rest) ac (rest.take lpduCnt) 6 (6 + lpduCnt + 2) 0
      (List.take_prefix _ _)
    rw [hsizes] at hvisits
    simp only [hshort, hok, hvisits, if_false, Option.bind_some, List.getElem?_cons_succ,
      List.getElem?_cons_zero, Option.pure_def]
    cases ok with
    | false => exact ⟨_, _, rfl, rfl, rfl, fun visits truncated hw => by cases hw⟩
    | true =>
      refine ⟨_, _, rfl, rfl, rfl, fun visits' truncated hw => ?_⟩
      obtain ⟨rfl, rfl⟩ := Prod.mk.inj (Option.some.inj hw)
      have hw : Walked crc (h.octets ++ rest.drop lpduCnt)
          (layOut (h.octets.length + 2) h.entries) visits := by
        rw [hoctets]
        simpa [h, Header.octets, Header.entries] using hwalked
      have hbuf : h.octets ++ rest.drop lpduCnt = c0 :: gs :: ac :: b3 :: b4 :: b5 :: rest := by
        simp [h, Header.octets]
      rw [hbuf] at hw
      have hv := hw.visits crc (hbuf ▸ List.prefix_append ..) (by rwa [hoctets])
      rw [hoctets] at hv
      have hflag (c : Bool) (n : ℕ) : (if c then some n else none).isNone = !c := by cases c <;> rfl
      rw [hflag]
      exact hv

/-- An uplink MPDU. -/
theorem uplink_readers {b0 : UInt8} (hlen : 3 ≤ buf.length) (h0 : buf[0]? = some b0)
    (hmpdu : b0 &&& 1 ≠ 0) (hup : b0 &&& 2 = 0) : ∃ text frame,
      hfdlPduDescribe crc buf = some text ∧ hfdlMsgDecode crc buf = some frame ∧
      text.accepted = frame.accepted ∧
      ∀ visits truncated, frame.walk = some (visits, truncated) →
        Visits crc buf visits truncated := by
  have hlong : ¬ buf.length < 3 := not_lt.2 hlen
  set aircraftCnt := ((b0 &&& 0x70) >>> 4).toNat + 1 with hcnt
  obtain ⟨r, hr, hcases⟩ := decodeHdrLen_cases buf aircraftCnt 2
  unfold hfdlPduDescribe hfdlMsgDecode
  simp only [hlong, h0, hmpdu, hup, if_false, Option.bind_eq_bind, Option.bind_some, ne_eq,
    not_true_eq_false, ← hcnt, describeHdrLen_eq, hr]
  cases r with
  | none => exact ⟨_, _, rfl, rfl, rfl, fun visits truncated hw => by cases hw⟩
  | some hdrLen =>
    by_cases hshort : buf.length < hdrLen + 2
    · simp only [hshort, if_true]
      exact ⟨_, _, rfl, rfl, rfl, fun visits truncated hw => by cases hw⟩
    · have hlen' : hdrLen + 2 ≤ buf.length := not_lt.1 hshort
      obtain ⟨ok, hok⟩ := exists_fcsCheck crc buf hdrLen hlen'
      obtain ⟨lists, hlists, hprefix, hdrLen_eq⟩ := hcases hdrLen rfl (by omega)
      obtain ⟨c0, buf1, rfl, hlen1⟩ := exists_cons (l := buf) (n := 2) hlen
      obtain ⟨gs, buf2, rfl, hlen2⟩ := exists_cons (l := buf1) (n := 1) hlen1
      obtain rfl : c0 = b0 := Option.some.inj h0
      let h : Header := .uplink c0 gs lists hmpdu hup hlists
      have hoctets : h.octets.length = hdrLen := by
        rw [hdrLen_eq]
        simp only [h, Header.octets, List.length_cons]
        omega
      have hbuf : h.octets <+: c0 :: gs :: buf2 := by
        obtain ⟨rest, hrest⟩ := hprefix
        exact ⟨rest, congrArg (fun l => c0 :: gs :: l) hrest⟩
      obtain ⟨visits, hvisits, hwalked⟩ := uplinkWalk_eq crc lists 2 (hdrLen + 2) hprefix
      rw [hlists] at hvisits
      simp only [hshort, hok, hvisits, if_false, Option.bind_some, List.getElem?_cons_succ,
        List.getElem?_cons_zero, Option.pure_def]
      cases ok with
      | false => exact ⟨_, _, rfl, rfl, rfl, fun visits truncated hw => by cases hw⟩
      | true =>
        refine ⟨_, _, rfl, rfl, rfl, fun visits' truncated hw => ?_⟩
        obtain ⟨rfl, rfl⟩ := Prod.mk.inj (Option.some.inj hw)
        rw [← hoctets] at hwalked hlen' ⊢
        exact Walked.visits crc (h := h) hwalked hbuf hlen'

/-- A downlink frame with one LPDU. -/
example : hfdlMsgDecode crc16Ccitt [7, 5, 0x21, 0, 0, 0, 3, 161, 6, 0x0d, 0xd1, 59, 120] =
    some (.mpduDownlink 0x21 5 [⟨⟨0x21, 9, 4⟩, .decoded 0x0d .nothing (some [0xd1])⟩] false) := by
  decide +kernel

end MacHPSDR.Hfdl
