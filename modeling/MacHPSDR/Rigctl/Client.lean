import MacHPSDR.Foundations.Framing
import Mathlib

/-!
# The byte stream of a CAT client

`rigctl_client` and `serial_server` read bytes from a client, collect them in a command buffer and
hand the buffer over at each ';'. An index that has come to the end of the buffer is set back to its
start, so that no byte is written past it (`client_inBuffer`). But the bytes that follow are then
taken for a command of their own: a piece that does not fit hands over its last bytes. The commands
are the pieces that fit exactly if there is no piece that does not fit, and no zero byte in one
(`commands_eq_iff`).
-/

namespace MacHPSDR.Rigctl

open Framing

/-- `MAXDATASIZE` -/
def maxDataSize : ℕ := 2000

def semicolon : Byte := ⟨59, by decide⟩

/-- The command buffer of a client, and whether a byte has been written past a buffer. -/
structure Client where
  command : List Byte
  commandIndex : ℕ
  overrun : Bool

namespace Client

/-- A new buffer, from `g_new0`. -/
def fresh : Client := ⟨List.replicate maxDataSize nul, 0, false⟩

/-- `command[command_index]=c` -/
def put (s : Client) (c : Byte) : Client :=
  if s.commandIndex < maxDataSize then { s with command := s.command.set s.commandIndex c }
  else { s with overrun := true }

/-- The string in a buffer that is handed to `parse_cmd`. -/
def text (command : List Byte) : List Byte := command.takeWhile (· ≠ nul)

/-- One byte; at a ';' the buffer is handed over. -/
def receive (s : Client) (c : Byte) : Client × List (List Byte) :=
  let s := if s.commandIndex ≥ maxDataSize - 1 then { s with commandIndex := 0 } else s
  let s := s.put c
  let s := { s with commandIndex := s.commandIndex + 1 }
  if c = semicolon then
    let s := s.put nul
    ({ fresh with overrun := s.overrun }, [text s.command])
  else (s, [])

/-- A connection: the bytes come in reads. -/
def serve (reads : List (List Byte)) : Client × List (List Byte) := feedChunks receive fresh reads

end Client

/-! ## Commands and pieces -/

/-- A piece with its ';' fits into the buffer, with the zero at its end. -/
def Fits (piece : List Byte) : Prop := piece.length ≤ maxDataSize - 1

instance (piece : List Byte) : Decidable (Fits piece) := inferInstanceAs (Decidable (_ ≤ _))

/-- The pieces of a stream that end in a ';'. -/
def commandPieces (stream : List Byte) : List (List Byte) :=
  (pieces semicolon stream).map (· ++ [semicolon])

/-- The index after a piece of `n` bytes. -/
def indexAfter (n : ℕ) : ℕ := if n = 0 then 0 else (n - 1) % (maxDataSize - 1) + 1

/-- What is in the buffer of a piece: its last bytes. -/
def kept (piece : List Byte) : List Byte := piece.drop (piece.length - indexAfter piece.length)

namespace Client

/-- The client has read `p` since the last command. -/
structure Holds (p : List Byte) (s : Client) : Prop where
  size : s.command.length = maxDataSize
  index : s.commandIndex = indexAfter p.length
  bytes : s.command.take s.commandIndex = kept p
  inBuffer : s.overrun = false

theorem indexAfter_le (n : ℕ) : indexAfter n ≤ maxDataSize - 1 := by
  unfold indexAfter maxDataSize
  split_ifs <;> omega

theorem indexAfter_of_le {n : ℕ} (h : n ≤ maxDataSize - 1) : indexAfter n = n := by
  unfold indexAfter maxDataSize at *
  split_ifs <;> omega

theorem indexAfter_succ (n : ℕ) : indexAfter (n + 1) =
    (if indexAfter n ≥ maxDataSize - 1 then 0 else indexAfter n) + 1 := by
  unfold indexAfter maxDataSize
  split_ifs <;> omega

theorem indexAfter_le_self (n : ℕ) : indexAfter n ≤ n := by
  unfold indexAfter maxDataSize
  split_ifs <;> omega

theorem kept_length (p : List Byte) : (kept p).length = indexAfter p.length := by
  unfold kept
  rw [List.length_drop]
  have := indexAfter_le_self p.length
  omega

/-- A byte more is kept after what was kept, or alone when the index has been set back. -/
theorem kept_append (p : List Byte) (c : Byte) :
    kept (p ++ [c]) = (if indexAfter p.length ≥ maxDataSize - 1 then [] else kept p) ++ [c] := by
  have hle := indexAfter_le_self p.length
  unfold kept
  rw [List.length_append, List.length_singleton, indexAfter_succ]
  split_ifs with h
  · rw [show p.length + 1 - (0 + 1) = p.length by omega, List.drop_left, List.nil_append]
  · rw [show p.length + 1 - (indexAfter p.length + 1) = p.length - indexAfter p.length by omega,
      List.drop_append_of_le_length (by omega)]

/-- The byte is put into the buffer, at its start if the index has come to the end. -/
def advance (s : Client) (c : Byte) : Client :=
  let s := if s.commandIndex ≥ maxDataSize - 1 then { s with commandIndex := 0 } else s
  let s := s.put c
  { s with commandIndex := s.commandIndex + 1 }

theorem receive_eq (s : Client) (c : Byte) : s.receive c =
    if c = semicolon then
      ({ fresh with overrun := ((s.advance c).put nul).overrun },
        [text ((s.advance c).put nul).command])
    else (s.advance c, []) := rfl

theorem holds_fresh : Holds [] fresh where
  size := List.length_replicate
  index := rfl
  bytes := rfl
  inBuffer := rfl

theorem Holds.advance {p : List Byte} {s : Client} (h : Holds p s) (c : Byte) :
    Holds (p ++ [c]) (s.advance c) := by
  obtain ⟨hsize, hindex, hbytes, hin⟩ := h
  -- where the byte goes, and what stands before it
  set i := if s.commandIndex ≥ maxDataSize - 1 then 0 else s.commandIndex with hi
  have hlt : i < maxDataSize := by
    have : maxDataSize = 2000 := rfl
    rw [hi]
    split_ifs <;> omega
  have hadvance : s.advance c = ⟨s.command.set i c, i + 1, s.overrun⟩ := by
    have hset : (if s.commandIndex ≥ maxDataSize - 1 then { s with commandIndex := 0 } else s) =
        ⟨s.command, i, s.overrun⟩ := by
      rw [hi]
      split_ifs <;> rfl
    unfold Client.advance
    rw [hset]
    simp only [put, if_pos hlt]
  have hbefore : s.command.take i =
      if indexAfter p.length ≥ maxDataSize - 1 then [] else kept p := by
    rw [hi, ← hindex]
    split_ifs
    · exact List.take_zero
    · exact hbytes
  rw [hadvance]
  refine ⟨?_, ?_, ?_, hin⟩
  · exact List.length_set.trans hsize
  · show i + 1 = indexAfter (p ++ [c]).length
    rw [List.length_append, List.length_singleton, indexAfter_succ, ← hindex]
  · show (s.command.set i c).take (i + 1) = kept (p ++ [c])
    rw [kept_append, ← hbefore, List.take_add_one, List.take_set_of_le le_rfl,
      List.getElem?_set_self (by rw [hsize]; exact hlt), Option.toList_some]

/-- A string ends at its first zero. -/
theorem text_append_nul (a b : List Byte) : text (a ++ nul :: b) = text a := by
  unfold text
  induction a with
  | nil => rfl
  | cons c a ih =>
    rw [List.cons_append, List.takeWhile_cons, List.takeWhile_cons, ih]

theorem text_eq_self_iff (a : List Byte) : text a = a ↔ nul ∉ a := by
  unfold text
  rw [List.takeWhile_eq_self_iff]
  simp only [ne_eq, decide_not, Bool.not_eq_true', decide_eq_false_iff_not]
  constructor
  · intro h hmem
    exact h nul hmem rfl
  · rintro h c hc rfl
    exact h hc

/-- The buffer that is handed over has the kept bytes of the piece and a zero after them. -/
theorem Holds.finish {p : List Byte} {s : Client} (h : Holds p s) :
    Holds [] (s.receive semicolon).1 ∧
      (s.receive semicolon).2 = [text (kept (p ++ [semicolon]))] := by
  obtain ⟨hsize, hindex, hbytes, hin⟩ := h.advance semicolon
  set t := s.advance semicolon with ht
  have hlt : t.commandIndex < maxDataSize := by
    have := indexAfter_le (p ++ [semicolon]).length
    have : maxDataSize = 2000 := rfl
    omega
  have hput : t.put nul = { t with command := t.command.set t.commandIndex nul } := if_pos hlt
  rw [receive_eq, if_pos rfl, ← ht, hput]
  refine ⟨⟨List.length_replicate, rfl, rfl, hin⟩, ?_⟩
  have hsplit : t.command.set t.commandIndex nul =
      kept (p ++ [semicolon]) ++ nul :: t.command.drop (t.commandIndex + 1) := by
    rw [List.set_eq_take_append_cons_drop, if_pos (by rw [hsize]; exact hlt), hbytes]
  show [text (t.command.set t.commandIndex nul)] = _
  rw [hsplit, text_append_nul]

theorem frames : Frames receive semicolon Holds fun p => text (kept (p ++ [semicolon])) where
  extend := by
    intro p s c hs hc
    rw [receive_eq, if_neg hc]
    exact ⟨hs.advance c, rfl⟩
  finish := fun _ _ hs => hs.finish

/-- What a connection hands over: of each complete piece what is kept of it, up to a zero. -/
theorem serve_commands (reads : List (List Byte)) :
    (serve reads).2 = (commandPieces reads.flatten).map fun q => text (kept q) := by
  unfold commandPieces
  rw [List.map_map]
  exact (frames.feedChunks holds_fresh reads).2

/-- **No byte is written past the buffer.** -/
theorem serve_inBuffer (reads : List (List Byte)) : (serve reads).1.overrun = false :=
  (frames.feedChunks holds_fresh reads).1.inBuffer

theorem kept_of_fits {q : List Byte} (h : Fits q) : kept q = q := by
  unfold kept
  rw [indexAfter_of_le h, Nat.sub_self, List.drop_zero]

end Client

open Client

/-- **The commands are the pieces that fit**, and no byte is written past the buffer, exactly if
every complete piece fits and has no zero in it. -/
theorem commands_eq_iff (reads : List (List Byte)) :
    ((serve reads).2 = (commandPieces reads.flatten).filter (Fits ·) ∧
        (serve reads).1.overrun = false) ↔
      ∀ q ∈ commandPieces reads.flatten, Fits q ∧ nul ∉ q := by
  rw [serve_commands]
  constructor
  · rintro ⟨h, -⟩
    have hlen : ((commandPieces reads.flatten).filter (Fits ·)).length =
        (commandPieces reads.flatten).length := by
      rw [← h, List.length_map]
    have hall : ∀ q ∈ commandPieces reads.flatten, Fits q := by
      simpa using List.length_filter_eq_length_iff.1 hlen
    rw [List.filter_eq_self.2 (by simpa using hall)] at h
    intro q hq
    have hself : text (kept q) = q :=
      List.map_inj_left.1 (h.trans (List.map_id _).symm) q hq
    rw [kept_of_fits (hall q hq)] at hself
    exact ⟨hall q hq, (text_eq_self_iff q).1 hself⟩
  · intro h
    refine ⟨?_, serve_inBuffer reads⟩
    rw [List.filter_eq_self.2 (by simpa using fun q hq => (h q hq).1)]
    refine (List.map_inj_left.2 fun q hq => ?_).trans (List.map_id _)
    rw [kept_of_fits (h q hq).1]
    exact (text_eq_self_iff q).2 (h q hq).2

/-! ## A piece that does not fit -/

def letterA : Byte := ⟨65, by decide⟩
def letterF : Byte := ⟨70, by decide⟩

/-- More bytes than the buffer takes, in two reads. -/
def longReads : List (List Byte) :=
  [List.replicate 1998 letterA, [letterA, letterF, letterA, semicolon]]

/-- They are one piece, which does not fit; its tail is handed over as a command. -/
theorem not_commands_eq : (∀ read ∈ longReads, read.length ≤ maxDataSize - 2) ∧
    (commandPieces longReads.flatten).filter (Fits ·) = [] ∧
    (serve longReads).2 = [[letterF, letterA, semicolon]] := by
  obtain ⟨long, hlong⟩ : ∃ long, long = List.replicate 1999 letterA := ⟨_, rfl⟩
  have hlen : long.length = 1999 := hlong ▸ List.length_replicate
  have hflat : longReads.flatten = (long ++ [letterF, letterA]) ++ [semicolon] := by
    rw [hlong, show 1999 = 1998 + 1 from rfl, List.replicate_succ']
    simp only [longReads, List.flatten_cons, List.flatten_nil, List.append_nil, List.append_assoc,
      List.cons_append, List.nil_append]
  have hsep : semicolon ∉ long ++ [letterF, letterA] := by
    rw [List.mem_append, hlong, List.mem_replicate]
    decide
  have hpieces : commandPieces longReads.flatten = [long ++ [letterF, letterA, semicolon]] := by
    rw [hflat, commandPieces, pieces_of_notMem _ hsep, List.map_singleton, List.append_assoc]
    rfl
  have hlonger : (long ++ [letterF, letterA, semicolon]).length = 2002 := by
    rw [List.length_append, hlen]
    rfl
  refine ⟨?_, ?_, ?_⟩
  · intro read hread
    rcases List.mem_cons.1 hread with rfl | hread
    · exact List.length_replicate.le
    · rw [List.mem_singleton.1 hread]
      decide
  · rw [hpieces, List.filter_eq_nil_iff]
    intro q hq
    rw [List.mem_singleton.1 hq, decide_eq_true_eq, Fits, hlonger]
    decide
  · have hkept : kept (long ++ [letterF, letterA, semicolon]) = [letterF, letterA, semicolon] := by
      rw [kept, hlonger, show 2002 - indexAfter 2002 = 1999 from rfl, List.drop_left' hlen]
    rw [serve_commands, hpieces, List.map_singleton, hkept]
    rfl

end MacHPSDR.Rigctl
