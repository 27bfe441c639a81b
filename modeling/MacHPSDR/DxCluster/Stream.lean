import MacHPSDR.Foundations.Framing
import Mathlib

/-!
# The stream from a DX cluster

The client of a DX cluster takes what `recv` gives, looks for a login prompt in it, and puts the
lines together. The lines do not depend on how the stream is cut (`lines_eq`), but the prompt is
looked for in each chunk by itself, up to a zero byte: a prompt that is cut in two is not answered.
`connection_right_iff` says when the login is sent as it should be.
-/

namespace MacHPSDR.DxCluster

open Framing

def newline : Byte := ⟨10, by decide⟩
def carriageReturn : Byte := ⟨13, by decide⟩

/-- The bytes of a literal. -/
def bytes (s : String) : List Byte :=
  s.toList.map fun c => ⟨c.toNat % 256, Nat.mod_lt _ (by decide)⟩

/-- The string that begins at a byte, up to its zero. -/
def cString (s : List Byte) : List Byte := s.takeWhile (· ≠ nul)

/-! ## The prompt -/

/-- `tolower`, in the C locale -/
def tolower (c : Byte) : Byte :=
  if 65 ≤ c.val ∧ c.val ≤ 90 then ⟨(c.val + 32) % 256, Nat.mod_lt _ (by decide)⟩ else c

/-- `str_ci_contains` -/
def strCiContains (hay needle : List Byte) : Bool :=
  if needle.length = 0 || needle.length > hay.length then false
  else
    (List.range (hay.length - needle.length + 1)).any fun i =>
      (List.range needle.length).all fun j =>
        tolower (hay.getD (i + j) nul) == tolower (needle.getD j nul)

/-- The phrases of a login prompt. -/
def prompts : List (List Byte) :=
  [bytes "login:", bytes "callsign", bytes "your call", bytes "enter your call"]

/-! ## The connection -/

/-- The line that is being put together, and whether a byte has been written past its buffer. -/
structure Carry where
  carry : List Byte
  carryLen : ℕ
  overrun : Bool

/-- `sizeof(carry)` -/
def carrySize : ℕ := 512

namespace Carry

def start : Carry := ⟨List.replicate carrySize nul, 0, false⟩

def put (s : Carry) (i : ℕ) (c : Byte) : Carry :=
  if i < carrySize then { s with carry := s.carry.set i c } else { s with overrun := true }

/-- One byte; a line that has ended is handed to `parse_spot_line`. -/
def receive (s : Carry) (c : Byte) : Carry × List (List Byte) :=
  if c = newline then
    let s := s.put s.carryLen nul
    let s :=
      if s.carryLen > 0 ∧ s.carry.getD (s.carryLen - 1) nul = carriageReturn then
        { s.put (s.carryLen - 1) nul with carryLen := s.carryLen - 1 }
      else s
    ({ s with carryLen := 0 }, [cString s.carry])
  else if s.carryLen < carrySize - 1 then
    ({ s.put s.carryLen c with carryLen := s.carryLen + 1 }, [])
  else (s, [])

end Carry

/-- A connection: the lines, whether a prompt has been answered, and how often the login has been
sent. -/
structure Connection where
  line : Carry
  sentLogin : Bool
  logins : ℕ

/-- Look for a prompt in a chunk and answer it; `login` is the call that is configured. -/
def answer (login : List Byte) (s : Connection) (buf : List Byte) : Connection :=
  if !s.sentLogin && prompts.any (strCiContains (cString buf)) then
    { s with sentLogin := true, logins := if login = [] then s.logins else s.logins + 1 }
  else s

/-- A chunk from `recv`. -/
def recv (login : List Byte) (s : Connection) (buf : List Byte) : Connection × List (List Byte) :=
  ({ answer login s buf with line := (feed Carry.receive s.line buf).1 },
    (feed Carry.receive s.line buf).2)

/-- A connection from its start, with the lines that are handed to `parse_spot_line`. -/
def connection (login : List Byte) (chunks : List (List Byte)) :
    Connection × List (List Byte) :=
  feed (recv login) ⟨Carry.start, false, 0⟩ chunks

/-! ## What the stream says -/

/-- A line as it is parsed: its first bytes, without a carriage return at their end, up to a
zero. -/
def lineText (line : List Byte) : List Byte :=
  let kept := line.take (carrySize - 1)
  cString (if kept.getLast? = some carriageReturn then kept.dropLast else kept)

/-- A phrase occurs in a text, in any letter case. -/
def Occurs (needle hay : List Byte) : Prop := needle.map tolower <:+: hay.map tolower

instance (needle hay : List Byte) : Decidable (Occurs needle hay) :=
  inferInstanceAs (Decidable (_ <:+: _))

/-- A login prompt occurs in a text. -/
def Prompts (text : List Byte) : Prop := ∃ needle ∈ prompts, Occurs needle text

instance (text : List Byte) : Decidable (Prompts text) :=
  inferInstanceAs (Decidable (∃ needle ∈ prompts, _))

/-- The lines of the stream are parsed in order, and the login is sent once if a prompt occurs in
the stream, and not otherwise. -/
structure Right (login : List Byte) (chunks : List (List Byte)) : Prop where
  lines : (connection login chunks).2 = (pieces newline chunks.flatten).map lineText
  login : (connection login chunks).1.logins =
    if Prompts chunks.flatten ∧ login ≠ [] then 1 else 0

/-! ## The search -/

theorem strCiContains_iff {hay needle : List Byte} (hne : needle ≠ []) :
    strCiContains hay needle = true ↔ Occurs needle hay := by
  have hpos : needle.length ≠ 0 := fun h => hne (List.length_eq_zero_iff.1 h)
  have hat : ∀ i, i + needle.length ≤ hay.length →
      ((∀ j < needle.length, tolower (hay.getD (i + j) nul) = tolower (needle.getD j nul)) ↔
        ((hay.map tolower).drop i).take needle.length = needle.map tolower) := by
    intro i hi
    constructor
    · intro h
      refine List.ext_getElem (by simp; omega) fun j hj hj' => ?_
      rw [List.length_map] at hj'
      have hj := h j hj'
      rw [List.getD_eq_getElem _ _ (by omega), List.getD_eq_getElem _ _ hj'] at hj
      simpa using hj
    · intro h j hj
      rw [List.getD_eq_getElem _ _ (by omega), List.getD_eq_getElem _ _ hj]
      have hget : (((hay.map tolower).drop i).take needle.length)[j]? =
          (needle.map tolower)[j]? := by rw [h]
      rw [List.getElem?_take_of_lt hj, List.getElem?_drop, List.getElem?_map, List.getElem?_map,
        List.getElem?_eq_getElem (by omega), List.getElem?_eq_getElem hj] at hget
      exact Option.some.inj hget
  unfold strCiContains Occurs
  by_cases hlong : needle.length > hay.length
  · rw [if_pos (by simp [hlong])]
    refine iff_of_false (by simp) fun h => ?_
    have := h.length_le
    rw [List.length_map, List.length_map] at this
    omega
  · rw [if_neg (by simp [hpos, hlong])]
    simp only [List.any_eq_true, List.all_eq_true, List.mem_range, beq_iff_eq]
    constructor
    · rintro ⟨i, hi, h⟩
      rw [← (hat i (by omega)).1 h]
      exact (List.take_prefix ..).isInfix.trans (List.drop_suffix ..).isInfix
    · rintro ⟨a, b, hab⟩
      have hlen := congrArg List.length hab
      simp only [List.length_append, List.length_map] at hlen
      refine ⟨a.length, by omega, (hat a.length (by omega)).2 ?_⟩
      rw [← hab, List.append_assoc, List.drop_left, List.take_left' (List.length_map _)]

theorem prompts_any_iff {text : List Byte} :
    prompts.any (strCiContains text) = true ↔ Prompts text := by
  have hne : ∀ needle ∈ prompts, needle ≠ [] := by decide +kernel
  rw [List.any_eq_true]
  exact exists_congr fun needle => and_congr_right fun hmem => strCiContains_iff (hne needle hmem)

/-- A prompt in a part of a text is one in the text. -/
theorem Prompts.of_infix {a b : List Byte} (h : Prompts a) (hab : a <:+: b) : Prompts b := by
  obtain ⟨needle, hmem, hocc⟩ := h
  exact ⟨needle, hmem, hocc.trans (hab.map tolower)⟩

/-! ## The lines -/

namespace Carry

/-- The first bytes of the open line are held. -/
structure Holds (p : List Byte) (s : Carry) : Prop where
  size : s.carry.length = carrySize
  len : s.carryLen = (p.take (carrySize - 1)).length
  bytes : s.carry.take s.carryLen = p.take (carrySize - 1)
  inBuffer : s.overrun = false

theorem Holds.len_lt {p : List Byte} {s : Carry} (h : Holds p s) : s.carryLen < carrySize := by
  have := h.len
  rw [List.length_take] at this
  have : carrySize = 512 := rfl
  omega

theorem holds_start : Holds [] start := ⟨List.length_replicate, rfl, rfl, rfl⟩

theorem put_of_lt {s : Carry} {i : ℕ} (h : i < carrySize) (c : Byte) :
    s.put i c = { s with carry := s.carry.set i c } := if_pos h

theorem cString_append_nul (a b : List Byte) : cString (a ++ nul :: b) = cString a := by
  unfold cString
  induction a with
  | nil => rfl
  | cons c a ih => rw [List.cons_append, List.takeWhile_cons, List.takeWhile_cons, ih]

theorem Holds.extend {p : List Byte} {s : Carry} (h : Holds p s) {c : Byte} (hc : c ≠ newline) :
    Holds (p ++ [c]) (s.receive c).1 ∧ (s.receive c).2 = [] := by
  obtain ⟨hsize, hlen, hbytes, hin⟩ := h
  unfold receive
  rw [if_neg hc]
  rw [List.length_take] at hlen
  split_ifs with hroom
  · have hlt : s.carryLen < carrySize := by omega
    have hp : s.carryLen = p.length := by omega
    have htake : (p ++ [c]).take (carrySize - 1) = p.take (carrySize - 1) ++ [c] := by
      rw [List.take_of_length_le (by simp; omega), List.take_of_length_le (by omega)]
    rw [put_of_lt hlt]
    refine ⟨⟨?_, ?_, ?_, hin⟩, rfl⟩
    · exact List.length_set.trans hsize
    · show s.carryLen + 1 = _
      rw [htake, List.length_append, List.length_take, List.length_singleton, hlen]
    · show (s.carry.set s.carryLen c).take (s.carryLen + 1) = _
      rw [htake, ← hbytes, List.take_add_one, List.take_set_of_le le_rfl,
        List.getElem?_set_self (by omega), Option.toList_some]
  · -- the line is too long, and the byte is dropped
    have htake : (p ++ [c]).take (carrySize - 1) = p.take (carrySize - 1) :=
      List.take_append_of_le_length (by omega)
    refine ⟨⟨hsize, ?_, ?_, hin⟩, rfl⟩
    · rw [htake, List.length_take]
      exact hlen
    · rw [htake]
      exact hbytes

theorem Holds.finish {p : List Byte} {s : Carry} (h : Holds p s) :
    Holds [] (s.receive newline).1 ∧ (s.receive newline).2 = [lineText p] := by
  have hlt := h.len_lt
  obtain ⟨hsize, hlen, hbytes, hin⟩ := h
  set kept := p.take (carrySize - 1) with hkept
  have hset : s.carry.set s.carryLen nul = kept ++ nul :: s.carry.drop (s.carryLen + 1) := by
    rw [List.set_eq_take_append_cons_drop, if_pos (by omega), hbytes]
  have hlast : (0 < s.carryLen ∧
      (s.carry.set s.carryLen nul).getD (s.carryLen - 1) nul = carriageReturn) ↔
        kept.getLast? = some carriageReturn := by
    rw [List.getLast?_eq_getElem?, ← hlen]
    constructor
    · rintro ⟨hpos, hc⟩
      rw [hset, List.getD_eq_getElem?_getD, List.getElem?_append_left (by omega),
        List.getElem?_eq_getElem (by omega)] at hc
      rw [List.getElem?_eq_getElem (by omega)]
      exact congrArg some hc
    · intro hc
      obtain ⟨hi, -⟩ := List.getElem?_eq_some_iff.1 hc
      refine ⟨by omega, ?_⟩
      rw [hset, List.getD_eq_getElem?_getD, List.getElem?_append_left hi, hc]
      rfl
  have hsize' : ∀ i (l : List Byte), l.length = carrySize → (l.set i nul).length = carrySize :=
    fun i l hl => List.length_set.trans hl
  unfold receive
  rw [if_pos rfl, put_of_lt hlt]
  unfold lineText
  rw [← hkept]
  dsimp only
  by_cases hc : kept.getLast? = some carriageReturn
  · have hpos := (hlast.2 hc).1
    rw [if_pos (hlast.2 hc), if_pos hc, put_of_lt (by omega)]
    refine ⟨⟨hsize' _ _ (hsize' _ _ hsize), rfl, rfl, hin⟩, ?_⟩
    obtain ⟨front, hfront⟩ := List.getLast?_eq_some_iff.1 hc
    have hfrontlen : s.carryLen - 1 = front.length := by
      have := congrArg List.length hfront
      rw [List.length_append, List.length_singleton] at this
      omega
    rw [hset, hfront, List.dropLast_concat, hfrontlen, List.append_assoc,
      List.set_append_right _ _ le_rfl, Nat.sub_self, List.singleton_append, List.set_cons_zero,
      cString_append_nul]
  · rw [if_neg fun h => hc (hlast.1 h), if_neg hc]
    refine ⟨⟨hsize' _ _ hsize, rfl, rfl, hin⟩, ?_⟩
    rw [hset, cString_append_nul]

theorem frames : Frames receive newline Holds lineText where
  extend := fun _ _ _ hs hc => hs.extend hc
  finish := fun _ _ hs => hs.finish

end Carry

/-! ## The connection -/

variable {login : List Byte}

/-- The chunks are cut, the lines are not. -/
theorem connection_line (s : Connection) (chunks : List (List Byte)) :
    (feed (recv login) s chunks).1.line = (feedChunks Carry.receive s.line chunks).1 ∧
      (feed (recv login) s chunks).2 = (feedChunks Carry.receive s.line chunks).2 := by
  induction chunks generalizing s with
  | nil => exact ⟨rfl, rfl⟩
  | cons buf chunks ih =>
    obtain ⟨hstate, hout⟩ := ih (recv login s buf).1
    rw [feed_cons, feedChunks]
    dsimp only
    rw [hstate, hout]
    exact ⟨rfl, rfl⟩

/-- **The lines do not depend on the cut**: they are those of the stream. -/
theorem lines_eq (login : List Byte) (chunks : List (List Byte)) :
    (connection login chunks).2 = (pieces newline chunks.flatten).map lineText := by
  rw [connection, (connection_line _ chunks).2]
  exact (Carry.frames.feedChunks Carry.holds_start chunks).2

/-- A prompt is found in a chunk. -/
def Finds (chunk : List Byte) : Prop := Prompts (cString chunk)

instance (chunk : List Byte) : Decidable (Finds chunk) := inferInstanceAs (Decidable (Prompts _))

/-- The login is sent at the first chunk with a prompt in it. -/
theorem feed_logins (s : Connection) (chunks : List (List Byte)) :
    (feed (recv login) s chunks).1.logins =
      s.logins + if s.sentLogin = false ∧ login ≠ [] ∧ ∃ buf ∈ chunks, Finds buf then 1 else 0 := by
  induction chunks generalizing s with
  | nil => simp
  | cons buf chunks ih =>
    have hfinds : prompts.any (strCiContains (cString buf)) = true ↔ Finds buf := prompts_any_iff
    rw [feed_cons]
    dsimp only
    rw [ih]
    simp only [recv, answer, List.exists_mem_cons_iff, Bool.and_eq_true, Bool.not_eq_true', hfinds]
    by_cases hs : s.sentLogin = false
    · by_cases hf : Finds buf
      · rw [if_pos ⟨hs, hf⟩]
        by_cases hl : login = []
        · simp [hl]
        · simp [hl, hs, hf]
      · rw [if_neg fun h => hf h.2]
        simp [hs, hf]
    · rw [if_neg fun h => hs h.1]
      simp [hs]

/-- **The stream is handled as it should be** exactly if a prompt that occurs in it stands in one
chunk, with no zero byte before its end there, or there is no login to send. -/
theorem connection_right_iff (login : List Byte) (chunks : List (List Byte)) :
    Right login chunks ↔
      (login ≠ [] → Prompts chunks.flatten → ∃ chunk ∈ chunks, Prompts (cString chunk)) := by
  have hlogins : (connection login chunks).1.logins =
      if login ≠ [] ∧ ∃ chunk ∈ chunks, Finds chunk then 1 else 0 := by
    rw [connection, feed_logins]
    simp
  have hinto : (∃ chunk ∈ chunks, Finds chunk) → Prompts chunks.flatten := by
    rintro ⟨chunk, hmem, h⟩
    have hpart : cString chunk <:+: chunk := (List.takeWhile_prefix _).isInfix
    obtain ⟨before, after, rfl⟩ := List.append_of_mem hmem
    have hchunk : chunk <:+: (before ++ chunk :: after).flatten :=
      ⟨before.flatten, after.flatten, by simp⟩
    exact h.of_infix (hpart.trans hchunk)
  constructor
  · rintro ⟨-, h⟩ hne hp
    by_contra hno
    have hsent : (connection login chunks).1.logins = 1 := by rw [h, if_pos ⟨hp, hne⟩]
    rw [hlogins, if_neg fun hf => hno hf.2] at hsent
    omega
  · intro h
    refine ⟨lines_eq login chunks, ?_⟩
    rw [hlogins]
    refine if_congr ?_ rfl rfl
    constructor
    · rintro ⟨hne, hf⟩
      exact ⟨hinto hf, hne⟩
    · rintro ⟨hp, hne⟩
      exact ⟨hne, h hne hp⟩

/-! ## A prompt that is cut in two -/

/-- The prompt comes in two chunks. -/
def cutPrompt : List (List Byte) := [bytes "log", bytes "in: "]

/-- The prompt is not answered, where it is in one chunk it is. -/
theorem not_connection_right : ¬Right (bytes "N0CALL") cutPrompt ∧
    cutPrompt.flatten = [bytes "login: "].flatten ∧
    (connection (bytes "N0CALL") cutPrompt).1.logins = 0 ∧
    (connection (bytes "N0CALL") [bytes "login: "]).1.logins = 1 := by
  have hnone : (connection (bytes "N0CALL") cutPrompt).1.logins = 0 := by decide +kernel
  have hsome : Prompts cutPrompt.flatten ∧ bytes "N0CALL" ≠ [] := by decide +kernel
  refine ⟨fun h => ?_, by decide +kernel, hnone, by decide +kernel⟩
  rw [h.login, if_pos hsome] at hnone
  exact absurd hnone (by decide)

end MacHPSDR.DxCluster
