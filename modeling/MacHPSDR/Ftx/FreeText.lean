import MacHPSDR.Ftx.Text

/-!
# Free text

A free text is at most 13 characters of the table of 42, a number of 71 bits in nine bytes. The
encoder multiplies the bytes by 42 for each character, the decoder divides them by 42, and the
payload holds them shifted by one bit. What is accepted comes back without the blanks around it
(`decodeFree_encodeFree`).
-/

namespace MacHPSDR.Ftx

open Bytes Radix

/-! ## The encoder -/

/-- A byte in the loop of `ftx_message_encode_telemetry`, with the carry and the bytes behind it. -/
def shiftByte (b : UInt8) (s : UInt8 × List UInt8) : UInt8 × List UInt8 :=
  (b &&& 0x80, (b <<< 1 ||| s.1 >>> 7) :: s.2)

/-- `ftx_message_encode_telemetry`, from the last byte on. -/
def encodeTelemetry (telemetry : List UInt8) : List UInt8 := (telemetry.foldr shiftByte (0, [])).2

/-- The characters that `ftx_message_encode_free` packs; the length is kept in a byte. -/
def freeChars (text : List Char) : List Char :=
  (List.range 13).map fun idx => if idx < text.length % 256 then text.getD idx ' ' else ' '

/-- `ftx_message_encode_free`: the payload, or nothing on `FTX_MESSAGE_RC_ERROR_TYPE`. -/
def encodeFree (text : List Char) : Option (List UInt8) :=
  if text.length % 256 > 13 then none
  else
    ((freeChars text).foldlM
      (fun b71 c => (nchar c .full).map fun cid => (mulAdd 42 b71 cid).2)
      (List.replicate 9 0)).map fun b71 => encodeTelemetry b71 ++ [0]

/-! ## The decoder -/

/-- `ftx_message_decode_telemetry` -/
def decodeTelemetry : UInt8 → List UInt8 → List UInt8
  | _, [] => []
  | carry, b :: bs => (carry <<< 7 ||| b >>> 1) :: decodeTelemetry (b &&& 0x01) bs

/-- The loop of `ftx_message_decode_free`, in front of the characters `cs`. -/
def divideLoop : ℕ → List UInt8 → List Char → List Char
  | 0, _, cs => cs
  | n + 1, b71, cs =>
    let s := divMod 42 b71 0
    divideLoop n s.1 (charn s.2 .full :: cs)

/-- `ftx_message_decode_free` -/
def decodeFree (payload : List UInt8) : List Char :=
  trim (divideLoop 13 (decodeTelemetry 0 (payload.take 9)) [])

/-! ## Shifts -/

theorem shl_byte : ∀ b : Fin 256, ∀ c : Fin 2,
    UInt8.ofNat b <<< 1 ||| UInt8.ofNat c = UInt8.ofNat (b * 2 + c) ∧
      ((UInt8.ofNat b &&& 0x80) >>> 7).toNat = (b * 2 + c) / 256 := by decide +kernel

theorem shr_byte : ∀ b : Fin 256, ∀ c : Fin 2,
    UInt8.ofNat c <<< 7 ||| UInt8.ofNat b >>> 1 = UInt8.ofNat ((c * 256 + b) / 2) ∧
      UInt8.ofNat b &&& 0x01 = UInt8.ofNat ((c * 256 + b) % 2) := by decide +kernel

/-- **A shift to the left** is a multiplication by two. -/
theorem encodeTelemetry_eq (t : List UInt8) : encodeTelemetry t = (mulAdd 2 t 0).2 := by
  suffices hfold : ((t.foldr shiftByte (0, [])).1 >>> 7).toNat = (mulAdd 2 t 0).1 ∧
      (mulAdd 2 t 0).1 < 2 ∧ (t.foldr shiftByte (0, [])).2 = (mulAdd 2 t 0).2 from hfold.2.2
  induction t with
  | nil => exact ⟨rfl, by decide, rfl⟩
  | cons b t ih =>
    obtain ⟨hcarry, hlt, hbytes⟩ := ih
    obtain ⟨hbyte, htop⟩ := shl_byte ⟨b.toNat, b.toNat_lt⟩ ⟨(mulAdd 2 t 0).1, hlt⟩
    dsimp only at hbyte htop
    rw [UInt8.ofNat_toNat, ← hcarry, UInt8.ofNat_toNat] at hbyte
    rw [UInt8.ofNat_toNat] at htop
    have hcons : mulAdd 2 (b :: t) 0 = ((b.toNat * 2 + (mulAdd 2 t 0).1) / 256,
        UInt8.ofNat (b.toNat * 2 + (mulAdd 2 t 0).1) :: (mulAdd 2 t 0).2) := rfl
    have hb := b.toNat_lt
    rw [hcons]
    refine ⟨htop, by dsimp only; omega, ?_⟩
    rw [List.foldr_cons, shiftByte, ← hcarry, ← hbyte, ← hbytes]

/-- **A shift to the right** is a division by two. -/
theorem decodeTelemetry_eq (t : List UInt8) {carry : ℕ} (hcarry : carry < 2) :
    decodeTelemetry (UInt8.ofNat carry) t = (divMod 2 t carry).1 := by
  induction t generalizing carry with
  | nil => rfl
  | cons b t ih =>
    obtain ⟨hbyte, hlow⟩ := shr_byte ⟨b.toNat, b.toNat_lt⟩ ⟨carry, hcarry⟩
    dsimp only at hbyte hlow
    rw [UInt8.ofNat_toNat] at hbyte hlow
    rw [decodeTelemetry, divMod, hbyte, hlow, ih (Nat.mod_lt _ (by decide))]

/-- The telemetry of a payload. -/
theorem decodeTelemetry_encodeTelemetry {n : ℕ} (hn : n < 2 ^ 71) :
    decodeTelemetry 0 (encodeTelemetry (beBytes 9 n)) = beBytes 9 n := by
  have hbytes : beNat (beBytes 9 n) = n := beNat_beBytes (hn.trans (by decide))
  have hdouble : beNat (beBytes 9 (n * 2 + 0)) = n * 2 + 0 := beNat_beBytes (by omega)
  rw [encodeTelemetry_eq, mulAdd_eq, length_beBytes, hbytes]
  have hdecode := decodeTelemetry_eq (beBytes 9 (n * 2 + 0)) (by decide : 0 < 2)
  rw [divMod_eq _ (by decide), length_beBytes, hdouble] at hdecode
  refine hdecode.trans (congrArg (beBytes 9) ?_)
  omega

/-! ## Multiplication and division by 42 -/

/-- The table of a free text, thirteen times. -/
def freeTables : List CharTable := List.replicate 13 .full

theorem foldlM_mulAdd (cs : List Char) (n : ℕ) :
    cs.foldlM (fun b71 c => (nchar c .full).map fun cid => (mulAdd 42 b71 cid).2) (beBytes 9 n) =
      (charDigits (List.replicate cs.length .full) cs).map fun ds =>
        beBytes 9 (ds.foldl (fun n d => n * d.1 + d.2) n) := by
  induction cs generalizing n with
  | nil => rfl
  | cons c cs ih =>
    rw [List.foldlM_cons, List.length_cons, List.replicate_succ, charDigits]
    cases nchar c .full with
    | none => rfl
    | some cid =>
      have hbytes : (mulAdd 42 (beBytes 9 n) cid).2 = beBytes 9 (n * 42 + cid) := by
        rw [mulAdd_eq, length_beBytes, beNat_beBytes_mod, ← beBytes_mod 9,
          ← beBytes_mod 9 (n * 42 + cid)]
        dsimp only
        rw [Nat.add_mod, Nat.mod_mul_mod, ← Nat.add_mod]
      rw [Option.map_some, Option.bind_eq_bind, Option.bind_some, hbytes, ih, Option.bind_some,
        Option.map_map]
      rfl

theorem divideLoop_eq (k : ℕ) {n : ℕ} (hn : n < 256 ^ 9) (cs : List Char) :
    divideLoop k (beBytes 9 n) cs = unpackChars (List.replicate k .full) n ++ cs := by
  induction k generalizing n cs with
  | zero => rfl
  | succ k ih =>
    have hdiv := divMod_eq (beBytes 9 n) (by decide : 0 < 42)
    rw [length_beBytes, beNat_beBytes hn, Nat.zero_mul, Nat.zero_add] at hdiv
    rw [divideLoop, hdiv, ih (Nat.lt_of_le_of_lt (Nat.div_le_self n 42) hn),
      List.replicate_succ', unpackChars_concat, List.append_assoc]
    rfl

/-! ## The round trip -/

/-- What is packed: the characters and blanks behind them. -/
theorem freeChars_eq {text : List Char} (h : text.length % 256 ≤ 13) :
    freeChars text = text.take (text.length % 256) ++
      List.replicate (13 - text.length % 256) ' ' := by
  have hle : text.length % 256 ≤ text.length := Nat.mod_le _ _
  unfold freeChars
  generalize text.length % 256 = n at *
  refine List.ext_getElem (by simp; omega) fun i hi _ => ?_
  have hi : i < 13 := by simpa using hi
  rw [List.getElem_map, List.getElem_range, List.getElem_append]
  by_cases hin : i < n
  · rw [if_pos hin, dif_pos (by simp; omega), List.getElem_take,
      List.getD_eq_getElem _ _ (by omega)]
  · rw [if_neg hin, dif_neg (by simp; omega), List.getElem_replicate]

theorem length_freeChars (text : List Char) : (freeChars text).length = 13 := by simp [freeChars]

theorem encodeFree_eq {text : List Char} (h : text.length % 256 ≤ 13) :
    encodeFree text = (packChars freeTables (freeChars text)).map fun n =>
      encodeTelemetry (beBytes 9 n) ++ [0] := by
  have hzero : List.replicate 9 (0 : UInt8) = beBytes 9 0 := by decide
  rw [encodeFree, if_neg (Nat.not_lt.2 h), hzero, foldlM_mulAdd, length_freeChars, packChars,
    Option.map_map, Option.map_map]
  rfl

/-- The length, as the encoder keeps it, is at most 13, and so many characters are in the table. -/
def FreeText (text : List Char) : Prop :=
  text.length % 256 ≤ 13 ∧ ∀ c ∈ text.take (text.length % 256), (nchar c .full).isSome = true

instance (text : List Char) : Decidable (FreeText text) := inferInstanceAs (Decidable (_ ∧ _))

theorem encodeFree_isSome_iff (text : List Char) :
    (encodeFree text).isSome = true ↔ FreeText text := by
  unfold FreeText
  by_cases h : text.length % 256 ≤ 13
  · have hchars := packChars_replicate_isSome_iff .full (freeChars text)
    rw [length_freeChars, freeChars_eq h, List.forall_mem_append] at hchars
    rw [encodeFree_eq h, Option.isSome_map, freeChars_eq h, and_iff_right h]
    refine hchars.trans (and_iff_left fun c hc => ?_)
    rw [List.eq_of_mem_replicate hc]
    rfl
  · rw [encodeFree, if_pos (Nat.not_le.1 h)]
    exact iff_of_false Bool.false_ne_true fun hle => h hle.1

theorem decodeFree_of_encodeFree {text : List Char} {payload : List UInt8}
    (h : encodeFree text = some payload) :
    decodeFree payload = trim (text.take (text.length % 256)) := by
  have hlen : text.length % 256 ≤ 13 :=
    ((encodeFree_isSome_iff text).1 (Option.isSome_of_eq_some h)).1
  rw [encodeFree_eq hlen] at h
  obtain ⟨n, hn, rfl⟩ := Option.map_eq_some_iff.1 h
  obtain ⟨hchars, hlt⟩ := unpackChars_packChars hn (length_freeChars text).symm
  have hlt : n < 42 ^ 13 := hlt
  have hbytes : (encodeTelemetry (beBytes 9 n)).length = 9 := by
    rw [encodeTelemetry_eq, mulAdd_eq, length_beBytes, length_beBytes]
  have htables : List.replicate 13 CharTable.full = freeTables := rfl
  rw [decodeFree, List.take_left' hbytes,
    decodeTelemetry_encodeTelemetry (hlt.trans (by decide)),
    divideLoop_eq 13 (hlt.trans (by decide)), List.append_nil, htables, hchars, freeChars_eq hlen,
    trim_append_replicate]

/-- **Free text** is accepted or not by its length and its characters, and what is accepted comes
back without the blanks around it. -/
theorem decodeFree_encodeFree (text : List Char) :
    (encodeFree text).map decodeFree =
      if FreeText text then some (trim (text.take (text.length % 256))) else none := by
  by_cases h : FreeText text
  · obtain ⟨payload, hpayload⟩ := Option.isSome_iff_exists.1 ((encodeFree_isSome_iff text).2 h)
    rw [if_pos h, hpayload, Option.map_some, decodeFree_of_encodeFree hpayload]
  · have hnone : encodeFree text = none := by
      rw [← Option.not_isSome_iff_eq_none, encodeFree_isSome_iff]
      exact h
    rw [if_neg h, hnone, Option.map_none]

end MacHPSDR.Ftx
