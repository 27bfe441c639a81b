import MacHPSDR.Foundations.ShiftRegister
import Mathlib

/-!
# The ARINC-622 envelope

`hfdl_arinc_decode` looks for a ground address and the tag of a kind of message at the beginning of
a text. The registration of the aircraft follows, and in hexadecimal the octets of the message and
of a checksum over the kind, the registration and the octets. The checksum is sent complemented, so
that what is received with it leaves a fixed remainder.

A text that has been built so is decoded to what it was built from (`arinc_envelope`), and if one
octet of it has been changed then the check fails or the text is not taken for an envelope. A text
is the list of its characters, without the zero at its end.
-/

namespace MacHPSDR.Hfdl.Arinc

/-! ## The checksum -/

/-- The inner loop of `crc16_arinc`. -/
def crcBit (crc : BitVec 16) : BitVec 16 :=
  if crc &&& 0x8000#16 ≠ 0#16 then (crc <<< 1) ^^^ 0x1021#16 else crc <<< 1

/-- The outer loop, for one octet. -/
def crcOctet (crc : BitVec 16) (d : UInt8) : BitVec 16 :=
  crcBit^[8] (crc ^^^ d.toBitVec.setWidth 16 <<< 8)

/-- `crc16_arinc` -/
def crc16Arinc (d : List UInt8) (crc : BitVec 16) : BitVec 16 := d.foldl crcOctet crc

/-- `CRC_ARINC_GOOD` -/
def crcArincGood : BitVec 16 := 0x1D0F#16

/-! ## The envelope -/

/-- `ARINC_IMI` -/
inductive ArincImi
  | at1 | cr1 | cc1 | dr1 | ads | dis
  deriving DecidableEq

def point : UInt8 := 0x2E

/-- An entry of `imi_map`, with the text of the report. -/
structure ImiEntry where
  tag : List UInt8
  imi : ArincImi
  desc : String
  deriving DecidableEq

/-- `imi_map` -/
def imiMap : List ImiEntry :=
  [⟨[point, 0x41, 0x54, 0x31], .at1, "FANS-1/A CPDLC message"⟩,
   ⟨[point, 0x43, 0x52, 0x31], .cr1, "FANS-1/A CPDLC connect request"⟩,
   ⟨[point, 0x43, 0x43, 0x31], .cc1, "FANS-1/A CPDLC connect confirm"⟩,
   ⟨[point, 0x44, 0x52, 0x31], .dr1, "FANS-1/A CPDLC disconnect request"⟩,
   ⟨[point, 0x41, 0x44, 0x53], .ads, "ADS-C message"⟩,
   ⟨[point, 0x44, 0x49, 0x53], .dis, "ADS-C disconnect request"⟩]

/-- `hexval` -/
def hexval (c : UInt8) : Option ℕ :=
  if 0x30 ≤ c ∧ c ≤ 0x39 then some (c.toNat - 0x30)
  else if 0x41 ≤ c ∧ c ≤ 0x46 then some (10 + c.toNat - 0x41)
  else if 0x61 ≤ c ∧ c ≤ 0x66 then some (10 + c.toNat - 0x61)
  else none

/-- `slurp_hex`, for `max` octets at most. -/
def slurpHex : ℕ → List UInt8 → List UInt8
  | max + 1, c :: d :: cs =>
    match hexval c, hexval d with
    | some hi, some lo => UInt8.ofNat (hi <<< 4 ||| lo) :: slurpHex max cs
    | _, _ => []
  | _, _ => []

/-- A character of an address. -/
def isAddrChar (c : UInt8) : Bool := 0x41 ≤ c && c ≤ 0x5A || 0x30 ≤ c && c ≤ 0x39

/-- `is_addr` -/
def isAddr (s : List UInt8) : Bool := s.all isAddrChar

/-- A leading slash. -/
def skipSlash : List UInt8 → List UInt8
  | 0x2F :: p => p
  | p => p

/-- A sublabel, `#XXB` down and `- #XX` up. -/
def skipSublabel : List UInt8 → List UInt8
  | 0x23 :: _ :: _ :: 0x42 :: p => p
  | 0x2D :: 0x20 :: 0x23 :: _ :: p => p.drop 1
  | p => p

/-- An MFI, `/XX ` -/
def skipMfi : List UInt8 → List UInt8
  | 0x2F :: _ :: _ :: 0x20 :: p => p
  | p => p

/-- What may stand before the envelope. -/
def skipPrefix (txt : List UInt8) : List UInt8 := skipMfi (skipSublabel (skipSlash txt))

/-- The tag stands behind an address of `n` characters. -/
def tagAt (p : List UInt8) (n : ℕ) (e : ImiEntry) : Prop :=
  n < p.length ∧ (p.drop n).take 4 = e.tag ∧ isAddr (p.take n) = true

instance (p : List UInt8) (n : ℕ) (e : ImiEntry) : Decidable (tagAt p n e) :=
  inferInstanceAs (Decidable (_ ∧ _ ∧ _))

/-- The loop over `imi_map`, with the length of the address. -/
def findImi (p : List UInt8) : List ImiEntry → Option (ImiEntry × ℕ)
  | [] => none
  | e :: es =>
    if tagAt p 7 e then some (e, 7) else if tagAt p 4 e then some (e, 4) else findImi p es

/-- `g_ascii_isspace` -/
def isSpace (c : UInt8) : Bool := c = 0x20 || c = 0x09 || c = 0x0A || c = 0x0C || c = 0x0D

/-- `g_strchomp` -/
def strchomp (s : List UInt8) : List UInt8 := s.rdropWhile isSpace

/-- What is handed to a decoder of bodies, and for CPDLC whether the message goes up. -/
inductive Body
  | adsc (data : List UInt8)
  | cpdlc (data : List UInt8) (uplink : Bool)
  deriving DecidableEq

/-- The decoder of bodies that `imi` stands for. -/
def bodyOf (imi : ArincImi) (data : List UInt8) (downlink : Bool) : Body :=
  match imi with
  | .ads | .dis => .adsc data
  | .at1 | .cr1 | .cc1 | .dr1 => .cpdlc data !downlink

/-- What is reported of an envelope. -/
inductive Report
  | truncated (desc : String) (gs : List UInt8)
  | noPayload (desc : String) (gs reg : List UInt8)
  | message (desc : String) (gs reg : List UInt8) (crcOk : Bool) (body : Option Body)
  deriving DecidableEq

/-- `hfdl_arinc_decode`, which is `none` if the text is no envelope. -/
def hfdlArincDecode (txt : List UInt8) (downlink : Bool) : Option Report :=
  let p := skipPrefix txt
  match findImi p imiMap with
  | none => none
  | some (e, n) =>
    let gs := p.take n
    let payload := p.drop (n + 1)
    if payload.length < 3 + 7 + 2 * 2 then some (.truncated e.desc gs)
    else
      let reg := (payload.drop 3).take 7
      let bin := slurpHex 512 (payload.drop (3 + 7))
      if bin.length < 2 then some (.noPayload e.desc gs reg)
      else
        let crcOk := decide (crc16Arinc (payload.take (3 + 7) ++ bin) 0xFFFF#16 = crcArincGood)
        let data := bin.take (bin.length - 2)
        some (.message e.desc gs (strchomp reg) crcOk
          (if 0 < data.length then some (bodyOf e.imi data downlink) else none))

/-! ## `build_arinc` -/

/-- A digit of `%02X`. -/
def hexDigit (n : ℕ) : UInt8 := UInt8.ofNat (if n < 10 then 0x30 + n else 0x41 + (n - 10))

/-- `%02X` of each octet. -/
def hexOf (data : List UInt8) : List UInt8 :=
  data.flatMap fun b => [hexDigit (b.toNat / 16), hexDigit (b.toNat % 16)]

/-- The octets of the checksum, complemented. -/
def crcOctets (imi reg data : List UInt8) : List UInt8 :=
  let crc := ~~~ crc16Arinc (imi ++ reg ++ data) 0xFFFF#16
  [⟨(crc >>> 8).setWidth 8⟩, ⟨crc.setWidth 8⟩]

/-- The text of an envelope, with the octets in any digits. -/
def envelope (gs tag reg hex : List UInt8) : List UInt8 := gs ++ (tag ++ (reg ++ hex))

/-- `build_arinc` -/
def buildArinc (gs imi reg data : List UInt8) : List UInt8 :=
  envelope gs (point :: imi) reg (hexOf data ++ hexOf (crcOctets imi reg data))

/-! ## The remainder of an envelope -/

/-- The register of the checksum has its high bit first. -/
theorem crcBit_eq : crcBit = ShiftRegister.shiftLeft 0x1021#16 := by
  funext crc
  have htop : crc &&& 0x8000#16 ≠ 0#16 ↔ crc.msb = true := by
    rw [show (0x8000#16 : BitVec 16) = BitVec.twoPow 16 15 from rfl, BitVec.and_twoPow,
      BitVec.msb_eq_getLsbD_last]
    split <;> simp_all
  unfold crcBit ShiftRegister.shiftLeft
  by_cases h : crc.msb = true
  · rw [if_pos (htop.mpr h), if_pos h]
  · rw [if_neg (mt htop.mp h), if_neg h, BitVec.xor_zero]

theorem crcOctet_eq (crc : BitVec 16) (d : UInt8) :
    crcOctet crc d = ShiftRegister.feedLeft 0x1021#16 crc d.toBitVec := by
  unfold crcOctet
  rw [crcBit_eq]
  rfl

theorem crc16Arinc_eq (d : List UInt8) (crc : BitVec 16) :
    crc16Arinc d crc = ShiftRegister.runLeft 0x1021#16 crc (d.map UInt8.toBitVec) := by
  unfold crc16Arinc ShiftRegister.runLeft
  rw [List.foldl_map]
  simp only [← crcOctet_eq]

theorem crc16Arinc_append (d e : List UInt8) (crc : BitVec 16) :
    crc16Arinc (d ++ e) crc = crc16Arinc e (crc16Arinc d crc) := List.foldl_append

/-- A number of two octets is put together again. -/
theorem join_octets (x : BitVec 16) :
    ((x >>> 8).setWidth 8).setWidth 16 <<< (16 - 8) ^^^ (x.setWidth 8).setWidth 16 <<< (16 - 16) =
      x := by
  ext i hi
  rw [← BitVec.getLsbD_eq_getElem, ← BitVec.getLsbD_eq_getElem]
  by_cases hlow : i < 8
  · simp [hi, hlow]
  · simp [hi, hlow, show i - 8 < 8 by omega, show 8 + (i - 8) = i by omega]

/-- **The remainder** of a message with its checksum is the same for all. -/
theorem crc16Arinc_crcOctets (imi reg data : List UInt8) :
    crc16Arinc (imi ++ reg ++ data ++ crcOctets imi reg data) 0xFFFF#16 = crcArincGood := by
  unfold crcOctets
  generalize imi ++ reg ++ data = m
  dsimp only
  rw [crc16Arinc_append]
  generalize crc16Arinc m 0xFFFF#16 = crc
  have hones : crc ^^^ ~~~ crc = BitVec.allOnes 16 := by
    ext i hi
    rw [BitVec.getElem_xor, BitVec.getElem_not, BitVec.getElem_allOnes, Bool.xor_not_self]
  show crcOctet (crcOctet crc _) _ = _
  rw [crcOctet_eq, crcOctet_eq, ShiftRegister.feedLeft_feedLeft _ le_rfl, join_octets, hones]
  decide

/-- One octet of a list is another one. -/
def OneChanged (xs ys : List UInt8) : Prop :=
  ∃ before a b after, xs = before ++ a :: after ∧ ys = before ++ b :: after ∧ a ≠ b

theorem OneChanged.append {xs ys : List UInt8} (h : OneChanged xs ys) (before after : List UInt8) :
    OneChanged (before ++ xs ++ after) (before ++ ys ++ after) := by
  obtain ⟨pre, a, b, post, rfl, rfl, hne⟩ := h
  exact ⟨before ++ pre, a, b, post ++ after, by simp, by simp, hne⟩

/-- **One octet that has been changed** leaves another remainder. -/
theorem crc16Arinc_ne {xs ys : List UInt8} (h : OneChanged xs ys) (crc : BitVec 16) :
    crc16Arinc xs crc ≠ crc16Arinc ys crc := by
  obtain ⟨before, a, b, after, rfl, rfl, hne⟩ := h
  rw [crc16Arinc_eq, crc16Arinc_eq, List.map_append, List.map_append, List.map_cons, List.map_cons]
  exact ShiftRegister.runLeft_ne _ (by decide) (by decide) crc
    (fun heq => hne (UInt8.toBitVec_inj.mp heq)) _ _

/-! ## Digits -/

/-- Two digits for each octet. -/
inductive Spells : List UInt8 → List UInt8 → Prop
  | nil : Spells [] []
  | cons {c d : UInt8} {hi lo : ℕ} {cs bs : List UInt8} (hc : hexval c = some hi)
      (hd : hexval d = some lo) (hcs : Spells cs bs) :
      Spells (c :: d :: cs) (UInt8.ofNat (hi <<< 4 ||| lo) :: bs)

theorem Spells.slurpHex {hex bs : List UInt8} (h : Spells hex bs) {max : ℕ}
    (hmax : bs.length ≤ max) : slurpHex max hex = bs := by
  induction h generalizing max with
  | nil => cases max <;> rfl
  | cons hc hd _ ih =>
    obtain ⟨max, rfl⟩ := Nat.exists_eq_add_of_le' (Nat.zero_lt_of_lt hmax)
    unfold Arinc.slurpHex
    rw [hc, hd]
    exact congrArg _ (ih (Nat.le_of_succ_le_succ hmax))

theorem Spells.append {hex hex' bs bs' : List UInt8} (h : Spells hex bs) (h' : Spells hex' bs') :
    Spells (hex ++ hex') (bs ++ bs') := by
  induction h with
  | nil => exact h'
  | cons hc hd _ ih => exact .cons hc hd ih

theorem Spells.length {hex bs : List UInt8} (h : Spells hex bs) :
    hex.length = 2 * bs.length := by
  induction h with
  | nil => rfl
  | cons _ _ _ ih =>
    rw [List.length_cons, List.length_cons, List.length_cons, ih]
    omega

theorem hexval_hexDigit : ∀ n < 16, hexval (hexDigit n) = some n := by decide

theorem hexval_lt {c : UInt8} {n : ℕ} (h : hexval c = some n) : n < 16 := by
  have hall : ∀ c : UInt8, ∀ n ∈ hexval c, n < 16 := by decide +kernel
  exact hall c n h

theorem spells_hexOf (bs : List UInt8) : Spells (hexOf bs) bs := by
  induction bs with
  | nil => exact .nil
  | cons b bs ih =>
    have hb := b.toNat_lt
    have hjoin : UInt8.ofNat ((b.toNat / 16) <<< 4 ||| b.toNat % 16) = b := by
      have hmod : b.toNat % 16 < 2 ^ 4 := Nat.mod_lt _ (by decide)
      rw [← Nat.shiftLeft_add_eq_or_of_lt hmod, Nat.shiftLeft_eq, Nat.div_add_mod' b.toNat 16]
      exact UInt8.ofNat_toNat
    have hcons := Spells.cons (hexval_hexDigit (b.toNat / 16) (by omega))
      (hexval_hexDigit (b.toNat % 16) (Nat.mod_lt _ (by decide))) ih
    rwa [hjoin] at hcons

/-- A digit of another value stands for another octet. -/
theorem octet_ne {hi lo hi' lo' : ℕ} (hhi : hi < 16) (hlo : lo < 16) (hhi' : hi' < 16)
    (hlo' : lo' < 16) (h : hi ≠ hi' ∨ lo ≠ lo') :
    UInt8.ofNat (hi <<< 4 ||| lo) ≠ UInt8.ofNat (hi' <<< 4 ||| lo') := by
  intro heq
  have hnat := congrArg UInt8.toNat heq
  rw [← Nat.shiftLeft_add_eq_or_of_lt (show lo < 2 ^ 4 from hlo), Nat.shiftLeft_eq,
    ← Nat.shiftLeft_add_eq_or_of_lt (show lo' < 2 ^ 4 from hlo'), Nat.shiftLeft_eq,
    UInt8.toNat_ofNat', UInt8.toNat_ofNat'] at hnat
  omega

/-- **A digit that has been changed** for one of another value. -/
def DigitChanged (xs ys : List UInt8) : Prop :=
  ∃ before c d after v, xs = before ++ c :: after ∧ ys = before ++ d :: after ∧
    hexval d = some v ∧ hexval c ≠ some v

theorem Spells.changed {xs ys bs : List UInt8} (h : Spells xs bs) (hchanged : DigitChanged xs ys) :
    ∃ bs', OneChanged bs bs' ∧ Spells ys bs' := by
  induction h generalizing ys with
  | nil =>
    obtain ⟨before, c, d, after, v, hxs, -⟩ := hchanged
    exact absurd hxs.symm (List.append_ne_nil_of_right_ne_nil _ (List.cons_ne_nil c after))
  | cons hc₁ hc₂ hcs ih =>
    obtain ⟨before, c, d, after, v, hxs, rfl, hd, hc⟩ := hchanged
    rcases before with _ | ⟨x, _ | ⟨y, before⟩⟩
    · -- the first digit of the octet
      obtain ⟨rfl, rfl⟩ := List.cons.inj hxs
      rw [hc₁] at hc
      exact ⟨_, ⟨[], _, _, _, rfl, rfl, octet_ne (hexval_lt hc₁) (hexval_lt hc₂) (hexval_lt hd)
        (hexval_lt hc₂) (.inl fun heq => hc (congrArg some heq))⟩, .cons hd hc₂ hcs⟩
    · -- the second one
      obtain ⟨rfl, htail⟩ := List.cons.inj hxs
      obtain ⟨rfl, rfl⟩ := List.cons.inj htail
      rw [hc₂] at hc
      exact ⟨_, ⟨[], _, _, _, rfl, rfl, octet_ne (hexval_lt hc₁) (hexval_lt hc₂) (hexval_lt hc₁)
        (hexval_lt hd) (.inr fun heq => hc (congrArg some heq))⟩, .cons hc₁ hd hcs⟩
    · obtain ⟨rfl, htail⟩ := List.cons.inj hxs
      obtain ⟨rfl, hrest⟩ := List.cons.inj htail
      obtain ⟨bs', ⟨pre, a, b, post, rfl, rfl, hne⟩, hspells⟩ :=
        ih ⟨before, c, d, after, v, hrest, rfl, hd, hc⟩
      exact ⟨_, ⟨_ :: pre, a, b, post, rfl, rfl, hne⟩, .cons hc₁ hc₂ hspells⟩

/-! ## The beginning of an envelope -/

/-- A ground address. -/
def Address (gs : List UInt8) : Prop := (gs.length = 4 ∨ gs.length = 7) ∧ isAddr gs = true

theorem isAddrChar_ne {c : UInt8} (h : isAddrChar c = true) :
    c ≠ point ∧ c ≠ 0x2F ∧ c ≠ 0x23 ∧ c ≠ 0x2D := by
  have hall : ∀ c : UInt8, isAddrChar c = true → c ≠ point ∧ c ≠ 0x2F ∧ c ≠ 0x23 ∧ c ≠ 0x2D := by
    decide +kernel
  exact hall c h

theorem Address.ne_nil {gs : List UInt8} (h : Address gs) : gs ≠ [] := by
  rintro rfl
  rcases h.1 with h | h <;> cases h

/-- Nothing is skipped before an address. -/
theorem skipPrefix_of_address {gs : List UInt8} (h : Address gs) (rest : List UInt8) :
    skipPrefix (gs ++ rest) = gs ++ rest := by
  obtain ⟨c, gs, rfl⟩ := List.exists_cons_of_ne_nil h.ne_nil
  obtain ⟨-, hslash, hsharp, hdash⟩ :=
    isAddrChar_ne (List.all_eq_true.mp h.2 c (List.mem_cons_self ..))
  rw [List.cons_append]
  have hskipSlash : skipSlash (c :: (gs ++ rest)) = c :: (gs ++ rest) := by
    unfold skipSlash
    split
    · rename_i heq
      exact absurd (List.cons.inj heq).1 hslash
    · rfl
  have hskipSublabel : skipSublabel (c :: (gs ++ rest)) = c :: (gs ++ rest) := by
    unfold skipSublabel
    split
    · rename_i heq
      exact absurd (List.cons.inj heq).1 hsharp
    · rename_i heq
      exact absurd (List.cons.inj heq).1 hdash
    · rfl
  have hskipMfi : skipMfi (c :: (gs ++ rest)) = c :: (gs ++ rest) := by
    unfold skipMfi
    split
    · rename_i heq
      exact absurd (List.cons.inj heq).1 hslash
    · rfl
  rw [skipPrefix, hskipSlash, hskipSublabel, hskipMfi]

/-- A tag begins with a point. -/
theorem getElem_of_tagAt {p : List UInt8} {n : ℕ} {e : ImiEntry} (he : e.tag.head? = some point)
    (h : tagAt p n e) : p[n]? = some point := by
  have hhead : ((p.drop n).take 4).head? = some point := by rw [h.2.1, he]
  rwa [List.head?_take, if_neg (by decide), List.head?_drop] at hhead

/-- The point is where the address ends. -/
theorem tagAt_iff {gs : List UInt8} (h : isAddr gs = true) (rest : List UInt8) {e : ImiEntry}
    (he : e.tag.head? = some point) (n : ℕ) :
    tagAt (gs ++ point :: rest) n e ↔ n = gs.length ∧ point :: rest.take 3 = e.tag := by
  constructor
  · intro htag
    have hpoint := getElem_of_tagAt he htag
    obtain ⟨-, htake, haddr⟩ := htag
    rcases lt_trichotomy n gs.length with hlt | rfl | hgt
    · -- a tag would begin within the address
      rw [List.getElem?_append_left hlt] at hpoint
      have hchar := List.all_eq_true.mp h point (List.mem_of_getElem? hpoint)
      exact absurd rfl (isAddrChar_ne hchar).1
    · rw [List.drop_left, List.take_succ_cons] at htake
      exact ⟨rfl, htake⟩
    · -- an address would contain the point
      have hmem : point ∈ (gs ++ point :: rest).take n := by
        obtain ⟨k, rfl⟩ := Nat.exists_eq_add_of_lt hgt
        rw [Nat.add_assoc, List.take_length_add_append, List.take_succ_cons]
        exact List.mem_append_right _ (List.mem_cons_self ..)
      exact absurd rfl (isAddrChar_ne (List.all_eq_true.mp haddr _ hmem)).1
  · rintro ⟨rfl, htag⟩
    refine ⟨?_, ?_, ?_⟩
    · rw [List.length_append, List.length_cons]
      omega
    · rw [List.drop_left, List.take_succ_cons, htag]
    · rwa [List.take_left]

theorem findImi_eq {gs : List UInt8} (h : Address gs) (rest : List UInt8) {es : List ImiEntry}
    (hes : ∀ e ∈ es, e.tag.head? = some point) :
    findImi (gs ++ point :: rest) es =
      (es.find? fun e => point :: rest.take 3 = e.tag).map fun e => (e, gs.length) := by
  induction es with
  | nil => rfl
  | cons e es ih =>
    obtain ⟨he, hes⟩ := List.forall_mem_cons.mp hes
    rw [findImi, ih hes]
    simp only [tagAt_iff h.2 rest he]
    by_cases htag : point :: rest.take 3 = e.tag
    · rw [List.find?_cons_of_pos (by exact decide_eq_true htag), Option.map_some]
      rcases h.1 with hlength | hlength
      · rw [if_neg (by omega), if_pos ⟨hlength.symm, htag⟩, hlength]
      · rw [if_pos ⟨hlength.symm, htag⟩, hlength]
    · rw [List.find?_cons_of_neg (by simpa using htag), if_neg fun hp => htag hp.2,
        if_neg fun hp => htag hp.2]

theorem head_tag : ∀ e ∈ imiMap, e.tag.head? = some point := by decide

/-- Without a point there is no tag. -/
theorem findImi_eq_none {p : List UInt8} (h4 : p[4]? ≠ some point) (h7 : p[7]? ≠ some point)
    {es : List ImiEntry} (hes : ∀ e ∈ es, e.tag.head? = some point) : findImi p es = none := by
  induction es with
  | nil => rfl
  | cons e es ih =>
    obtain ⟨he, hes⟩ := List.forall_mem_cons.mp hes
    rw [findImi, if_neg fun htag => h7 (getElem_of_tagAt he htag),
      if_neg fun htag => h4 (getElem_of_tagAt he htag), ih hes]

/-! ## Envelopes -/

/-- What is reported of an envelope that is long enough. -/
def reportOf (e : ImiEntry) (gs imi reg bin : List UInt8) (downlink : Bool) : Report :=
  .message e.desc gs (strchomp reg)
    (decide (crc16Arinc (imi ++ reg ++ bin) 0xFFFF#16 = crcArincGood))
    (if 0 < bin.length - 2 then some (bodyOf e.imi (bin.take (bin.length - 2)) downlink) else none)

/-- **An envelope** is decoded by its kind, if there is one. -/
theorem decode_envelope {gs imi reg hex bin : List UInt8} (hgs : Address gs) (himi : imi.length = 3)
    (hreg : reg.length = 7) (hhex : Spells hex bin) (hmin : 2 ≤ bin.length)
    (hmax : bin.length ≤ 512) (downlink : Bool) :
    hfdlArincDecode (envelope gs (point :: imi) reg hex) downlink =
      (imiMap.find? fun e => point :: imi = e.tag).map fun e =>
        reportOf e gs imi reg bin downlink := by
  have hpayload : (envelope gs (point :: imi) reg hex).drop (gs.length + 1) =
      imi ++ (reg ++ hex) := by
    unfold envelope
    rw [← List.drop_drop, List.drop_left]
    rfl
  have hhead : (imi ++ reg).length = 3 + 7 := by rw [List.length_append, himi, hreg]
  have htake : (imi ++ (reg ++ hex)).take 3 = imi := List.take_left' himi
  have hregTake : ((imi ++ (reg ++ hex)).drop 3).take 7 = reg := by
    rw [List.drop_left' himi, List.take_left' hreg]
  have hcover : (imi ++ (reg ++ hex)).take (3 + 7) = imi ++ reg := by
    rw [← List.append_assoc, List.take_left' hhead]
  have hbin : slurpHex 512 ((imi ++ (reg ++ hex)).drop (3 + 7)) = bin := by
    rw [← List.append_assoc, List.drop_left' hhead, hhex.slurpHex hmax]
  have hlong : ¬ (imi ++ (reg ++ hex)).length < 3 + 7 + 2 * 2 := by
    rw [← List.append_assoc, List.length_append, hhead, hhex.length]
    omega
  have hdata : (bin.take (bin.length - 2)).length = bin.length - 2 :=
    List.length_take_of_le (Nat.sub_le ..)
  have haddress : (envelope gs (point :: imi) reg hex).take gs.length = gs := List.take_left
  unfold hfdlArincDecode
  dsimp only
  rw [envelope, skipPrefix_of_address hgs, List.cons_append, findImi_eq hgs _ head_tag, htake,
    ← List.cons_append, ← envelope]
  cases imiMap.find? fun e => point :: imi = e.tag with
  | none => rfl
  | some e =>
    rw [Option.map_some, Option.map_some]
    dsimp only
    rw [hpayload, if_neg hlong, hbin, if_neg (by omega), hregTake, hcover, hdata, haddress]
    rfl

/-- Without the point of its tag, a text is no envelope. -/
theorem decode_of_ne_point {gs imi reg hex : List UInt8} (hgs : Address gs) {c : UInt8}
    (hc : c ≠ point) (hlast : imi[2]? ≠ some point) (himi : imi.length = 3) (downlink : Bool) :
    hfdlArincDecode (envelope gs (c :: imi) reg hex) downlink = none := by
  have hfirst : (envelope gs (c :: imi) reg hex)[gs.length]? ≠ some point := by
    unfold envelope
    rw [List.getElem?_append_right le_rfl, Nat.sub_self]
    exact fun h => hc (Option.some.inj h)
  have hnone : findImi (envelope gs (c :: imi) reg hex) imiMap = none := by
    rcases hgs.1 with hlength | hlength
    · refine findImi_eq_none (hlength ▸ hfirst) ?_ head_tag
      unfold envelope
      rw [List.getElem?_append_right (by omega), hlength, List.cons_append,
        List.getElem?_cons_succ, List.getElem?_append_left (by omega)]
      exact hlast
    · refine findImi_eq_none ?_ (hlength ▸ hfirst) head_tag
      unfold envelope
      rw [List.getElem?_append_left (by omega)]
      intro h
      have hchar := List.all_eq_true.mp hgs.2 point (List.mem_of_getElem? h)
      exact absurd rfl (isAddrChar_ne hchar).1
  unfold hfdlArincDecode
  dsimp only
  rw [envelope, skipPrefix_of_address hgs, ← envelope, hnone]

/-! ## An octet that has been changed -/

/-- The check fails. -/
def CrcFails (o : Option Report) : Prop :=
  ∃ desc gs reg body, o = some (.message desc gs reg false body)

theorem OneChanged.length {xs ys : List UInt8} (h : OneChanged xs ys) : ys.length = xs.length := by
  obtain ⟨before, a, b, after, rfl, rfl, -⟩ := h
  rw [List.length_append, List.length_append, List.length_cons, List.length_cons]

/-- An octet that has been changed in an envelope with a good remainder is found. -/
theorem crcFails_of_changed {gs imi reg hex bin good : List UInt8} (hgs : Address gs)
    (himi : imi.length = 3) (hreg : reg.length = 7) (hhex : Spells hex bin) (hmin : 2 ≤ bin.length)
    (hmax : bin.length ≤ 512) (hgood : crc16Arinc good 0xFFFF#16 = crcArincGood)
    (hchanged : OneChanged good (imi ++ reg ++ bin)) {e : ImiEntry}
    (he : imiMap.find? (fun e => point :: imi = e.tag) = some e) (downlink : Bool) :
    CrcFails (hfdlArincDecode (envelope gs (point :: imi) reg hex) downlink) := by
  have hbad : ¬ crc16Arinc (imi ++ reg ++ bin) 0xFFFF#16 = crcArincGood := by
    rw [← hgood]
    exact (crc16Arinc_ne hchanged _).symm
  rw [decode_envelope hgs himi hreg hhex hmin hmax, he, Option.map_some, reportOf,
    decide_eq_false hbad]
  exact ⟨_, _, _, _, rfl⟩

/-- A tag is a point and three characters, of which the last one is no point. -/
theorem tag_eq : ∀ e ∈ imiMap, ∃ imi, e.tag = point :: imi ∧ imi.length = 3 ∧
    imi[2]? ≠ some point ∧ imiMap.find? (fun f => point :: imi = f.tag) = some e := by
  intro e he
  have hall : ∀ e ∈ imiMap, e.tag = point :: e.tag.tail ∧ e.tag.tail.length = 3 ∧
      e.tag.tail[2]? ≠ some point ∧
      imiMap.find? (fun f => point :: e.tag.tail = f.tag) = some e := by decide
  exact ⟨e.tag.tail, hall e he⟩

/-- What a changed octet makes of a tag: there is no point, or there are three other characters. -/
theorem OneChanged.tag_cases {imi tag : List UInt8} (h : OneChanged (point :: imi) tag) :
    (∃ c, c ≠ point ∧ tag = c :: imi) ∨ ∃ imi', OneChanged imi imi' ∧ tag = point :: imi' := by
  obtain ⟨before, a, b, after, htag, rfl, hne⟩ := h
  rcases before with _ | ⟨c, before⟩
  · obtain ⟨rfl, rfl⟩ := List.cons.inj htag
    exact .inl ⟨b, hne.symm, rfl⟩
  · obtain ⟨rfl, rfl⟩ := List.cons.inj htag
    exact .inr ⟨before ++ b :: after, ⟨before, a, b, after, rfl, rfl, hne⟩, rfl⟩

/-- **The envelope is decoded to what it was built from**, and its registration is reported without
white space at its end; an empty payload is not handed on. If one octet of the tag is changed then
it is another tag and the check fails, or there is no such tag and the text is no envelope. If one
octet of the registration or of the payload is changed, or one digit of the payload for one of
another value, then the check fails. -/
theorem arinc_envelope {gs reg payload : List UInt8} {e : ImiEntry} (downlink : Bool)
    (hgs : Address gs) (he : e ∈ imiMap) (hreg : reg.length = 7) (hpayload : payload.length ≤ 510) :
    hfdlArincDecode (buildArinc gs e.tag.tail reg payload) downlink =
        some (.message e.desc gs (strchomp reg) true
          (if payload ≠ [] then some (bodyOf e.imi payload downlink) else none)) ∧
      (∀ tag, OneChanged e.tag tag →
        if tag ∈ imiMap.map ImiEntry.tag then
          CrcFails (hfdlArincDecode (envelope gs tag reg
            (hexOf payload ++ hexOf (crcOctets e.tag.tail reg payload))) downlink)
        else hfdlArincDecode (envelope gs tag reg
            (hexOf payload ++ hexOf (crcOctets e.tag.tail reg payload))) downlink = none) ∧
      (∀ reg', OneChanged reg reg' →
        CrcFails (hfdlArincDecode (envelope gs e.tag reg'
          (hexOf payload ++ hexOf (crcOctets e.tag.tail reg payload))) downlink)) ∧
      (∀ payload', OneChanged payload payload' →
        CrcFails (hfdlArincDecode (envelope gs e.tag reg
          (hexOf payload' ++ hexOf (crcOctets e.tag.tail reg payload))) downlink)) ∧
      ∀ hex, DigitChanged (hexOf payload) hex →
        CrcFails (hfdlArincDecode (envelope gs e.tag reg
          (hex ++ hexOf (crcOctets e.tag.tail reg payload))) downlink) := by
  obtain ⟨imi, htag, himi, hlast, hfind⟩ := tag_eq e he
  unfold buildArinc
  rw [htag, List.tail_cons]
  have hgood := crc16Arinc_crcOctets imi reg payload
  have hcrc : (crcOctets imi reg payload).length = 2 := rfl
  generalize crcOctets imi reg payload = crc at hgood hcrc ⊢
  have hlength {xs : List UInt8} (hxs : xs.length = payload.length) :
      2 ≤ (xs ++ crc).length ∧ (xs ++ crc).length ≤ 512 := by
    rw [List.length_append]
    omega
  have hspells {hex xs : List UInt8} (h : Spells hex xs) :
      Spells (hex ++ hexOf crc) (xs ++ crc) := h.append (spells_hexOf crc)
  have hsame := hspells (spells_hexOf payload)
  have hbody : 0 < payload.length ↔ payload ≠ [] := List.length_pos_iff
  refine ⟨?_, fun tag hchanged => ?_, fun reg' hchanged => ?_, fun payload' hchanged => ?_,
    fun hex hchanged => ?_⟩
  · rw [decode_envelope hgs himi hreg hsame (hlength rfl).1 (hlength rfl).2, hfind,
      Option.map_some, reportOf, ← List.append_assoc, hgood, List.length_append, hcrc,
      Nat.add_sub_cancel, List.take_left, decide_eq_true rfl]
    simp only [hbody]
  · rcases hchanged.tag_cases with ⟨c, hc, rfl⟩ | ⟨imi', hinner, rfl⟩
    · have hnot : c :: imi ∉ imiMap.map ImiEntry.tag := by
        intro hmem
        obtain ⟨f, hf, hftag⟩ := List.mem_map.mp hmem
        have hhead := head_tag f hf
        rw [hftag] at hhead
        exact hc (Option.some.inj hhead)
      rw [if_neg hnot]
      exact decode_of_ne_point hgs hc hlast himi downlink
    · have himi' : imi'.length = 3 := hinner.length.trans himi
      split_ifs with hmem
      · obtain ⟨f, hf, hftag⟩ := List.mem_map.mp hmem
        obtain ⟨imi'', htag'', -, -, hfind''⟩ := tag_eq f hf
        rw [htag''] at hftag
        rw [hftag] at hfind''
        refine crcFails_of_changed hgs himi' hreg hsame (hlength rfl).1 (hlength rfl).2 hgood ?_
          hfind'' downlink
        have happend := hinner.append [] (reg ++ (payload ++ crc))
        simpa only [List.nil_append, List.append_assoc] using happend
      · have hnone : imiMap.find? (fun f => point :: imi' = f.tag) = none := by
          refine List.find?_eq_none.mpr fun f hf heq => hmem ?_
          rw [of_decide_eq_true heq]
          exact List.mem_map_of_mem hf
        rw [decode_envelope hgs himi' hreg hsame (hlength rfl).1 (hlength rfl).2, hnone]
        rfl
  · refine crcFails_of_changed hgs himi (hchanged.length.trans hreg) hsame (hlength rfl).1
      (hlength rfl).2 hgood ?_ hfind downlink
    have happend := hchanged.append imi (payload ++ crc)
    simpa only [List.append_assoc] using happend
  · have hlength' := hlength hchanged.length
    refine crcFails_of_changed hgs himi hreg (hspells (spells_hexOf payload')) hlength'.1
      hlength'.2 hgood ?_ hfind downlink
    have happend := hchanged.append (imi ++ reg) crc
    simpa only [List.append_assoc] using happend
  · obtain ⟨payload', hchanged, hhex⟩ := (spells_hexOf payload).changed hchanged
    have hlength' := hlength hchanged.length
    refine crcFails_of_changed hgs himi hreg (hspells hhex) hlength'.1 hlength'.2 hgood ?_ hfind
      downlink
    have happend := hchanged.append (imi ++ reg) crc
    simpa only [List.append_assoc] using happend

/-- `EGGXCDA` -/
def shanwick : List UInt8 := [0x45, 0x47, 0x47, 0x58, 0x43, 0x44, 0x41]

/-- `.G-ABCD` -/
def gAbcd : List UInt8 := [0x2E, 0x47, 0x2D, 0x41, 0x42, 0x43, 0x44]

/-- The entry of `.ADS`. -/
def adsEntry : ImiEntry := ⟨[point, 0x41, 0x44, 0x53], .ads, "ADS-C message"⟩

theorem arinc_envelope_ads :
    hfdlArincDecode (buildArinc shanwick adsEntry.tag.tail gAbcd [7, 1, 2]) true =
        some (.message "ADS-C message" shanwick gAbcd true (some (.adsc [7, 1, 2]))) ∧
      CrcFails (hfdlArincDecode (envelope shanwick adsEntry.tag gAbcd
        (hexOf [7, 1, 3] ++ hexOf (crcOctets adsEntry.tag.tail gAbcd [7, 1, 2]))) true) := by
  obtain ⟨hdecode, -, -, hpayload, -⟩ := @arinc_envelope shanwick gAbcd [7, 1, 2] adsEntry true
    ⟨.inr rfl, by decide⟩ (by decide) rfl (by decide)
  exact ⟨hdecode, hpayload [7, 1, 3] ⟨[7, 1], 2, 3, [], rfl, rfl, by decide⟩⟩

/-- An empty payload is not handed on, a space at the end of a registration is not reported, and a
text whose tag is not known any more is not checked. -/
theorem not_handed_on :
    (¬ ∀ (gs reg payload : List UInt8) (e : ImiEntry), Address gs → e ∈ imiMap → reg.length = 7 →
      payload.length ≤ 510 → ∃ reg', hfdlArincDecode (buildArinc gs e.tag.tail reg payload) true =
        some (.message e.desc gs reg' true (some (bodyOf e.imi payload true)))) ∧
    (¬ ∀ (gs reg payload : List UInt8) (e : ImiEntry), Address gs → e ∈ imiMap → reg.length = 7 →
      payload.length ≤ 510 → ∃ body, hfdlArincDecode (buildArinc gs e.tag.tail reg payload) true =
        some (.message e.desc gs reg true body)) ∧
    ¬ ∀ (gs reg payload tag : List UInt8) (e : ImiEntry), Address gs → e ∈ imiMap →
      reg.length = 7 → payload.length ≤ 510 → OneChanged e.tag tag →
        CrcFails (hfdlArincDecode (envelope gs tag reg
          (hexOf payload ++ hexOf (crcOctets e.tag.tail reg payload))) true) := by
  have hgs : Address shanwick := ⟨.inr rfl, by decide⟩
  refine ⟨fun h => ?_, fun h => ?_, fun h => ?_⟩
  · obtain ⟨reg', hreg'⟩ := h shanwick gAbcd [] adsEntry hgs (by decide) rfl (by decide)
    have hdecode : hfdlArincDecode (buildArinc shanwick adsEntry.tag.tail gAbcd []) true =
        some (.message adsEntry.desc shanwick gAbcd true none) := by decide +kernel
    rw [hdecode] at hreg'
    cases hreg'
  · obtain ⟨body, hbody⟩ := h shanwick [0x4E, 0x31, 0x32, 0x33, 0x34, 0x35, 0x20] [] adsEntry hgs
      (by decide) rfl (by decide)
    have hdecode : hfdlArincDecode (buildArinc shanwick adsEntry.tag.tail
        [0x4E, 0x31, 0x32, 0x33, 0x34, 0x35, 0x20] []) true =
        some (.message adsEntry.desc shanwick [0x4E, 0x31, 0x32, 0x33, 0x34, 0x35] true none) := by
      decide +kernel
    rw [hdecode] at hbody
    cases hbody
  · obtain ⟨desc, gs, reg, body, hbody⟩ := h shanwick gAbcd [] [point, 0x42, 0x44, 0x53] adsEntry
      hgs (by decide) rfl (by decide) ⟨[point], 0x41, 0x42, [0x44, 0x53], rfl, rfl, by decide⟩
    have hdecode : hfdlArincDecode (envelope shanwick [point, 0x42, 0x44, 0x53] gAbcd
        (hexOf [] ++ hexOf (crcOctets adsEntry.tag.tail gAbcd []))) true = none := by
      decide +kernel
    rw [hdecode] at hbody
    cases hbody

end MacHPSDR.Hfdl.Arinc
