import MacHPSDR.Foundations.CString
import MacHPSDR.Tci.Subscription
import Mathlib

/-!
# TCI commands

`tci_handle_command` of `tci.c` takes one command off the wire: a name, a colon, and up to four
fields between commas, the first of which is in most commands the index of a receiver. The index
counts the visible receivers (`tci_rx_at`), so it is not the slot of the receiver.

The model has the commands that key the radio and those that change a subscription; the others have
no effect here. Its answers to the client are left out, as is what is done later in the main
thread.
-/

namespace MacHPSDR.Tci

open CString

/-! ## The command line -/

/-- A command: its name in lower case, and its fields. -/
structure Command where
  name : List Char
  args : List (List Char)
  deriving DecidableEq

/-- `g_ascii_isspace`. -/
def isAsciiSpace (c : Char) : Bool :=
  c == ' ' || c == '\t' || c == '\n' || c == '\x0c' || c == '\r'

/-- `g_strstrip`. -/
def strip (s : List Char) : List Char :=
  ((s.dropWhile isAsciiSpace).reverse.dropWhile isAsciiSpace).reverse

/-- The first `n` fields that `strtok_r` finds between commas. -/
def splitArgs : ℕ → List Char → List (List Char)
  | 0, _ => []
  | n + 1, s =>
    match strtok (· == ',') s with
    | none => []
    | some (t, s) => strip t :: splitArgs n s

/-- What follows the first colon. -/
def afterColon (token : List Char) : List Char := (token.dropWhile (· != ':')).tail

/-- The first part of `tci_handle_command`. -/
def parseCommand (token : List Char) : Command where
  name := (strlcpy 32 (token.takeWhile (· != ':'))).map Char.toLower
  args := splitArgs 4 (strlcpy 128 (afterColon token))

namespace Command

/-- The index as the client wrote it (`req_index`). -/
def reqIndex (c : Command) : ℤ :=
  match c.args with
  | a :: _ => atoi a
  | [] => 0

/-- `tci_argbool` of a field. -/
def argBool (s : List Char) : Bool := s.map Char.toLower == "true".toList || s == "1".toList

end Command

/-! ## The receivers -/

/-- What the command handler reads of the radio. -/
structure Radio where
  /-- The receiver of each slot, as its `show_rx`. -/
  receiver : Fin 8 → Option Bool
  /-- The slot of the transmitter's receiver; `none` if there is no transmitter or its receiver is
  in no slot. -/
  txSlot : Option (Fin 8)
  canTransmit : Bool

namespace Radio

variable (r : Radio)

/-- There is a receiver in the slot, and it is visible. -/
def Shown (i : Fin 8) : Prop := r.receiver i = some true

instance (i : Fin 8) : Decidable (r.Shown i) := inferInstanceAs (Decidable (_ = _))

/-- The loop of `tci_rx_at` over the slots `is`, after `n` visible receivers. -/
def rxAtLoop (idx : ℕ) : ℕ → List (Fin 8) → Option (Fin 8)
  | _, [] => none
  | n, i :: is =>
    if r.Shown i then if n = idx then some i else rxAtLoop idx (n + 1) is
    else rxAtLoop idx n is

/-- `tci_rx_at`. -/
def rxAt (idx : ℤ) : Option (Fin 8) :=
  if idx < 0 then none else r.rxAtLoop idx.toNat 0 (List.finRange 8)

/-- The loop of `tci_rx_index` over the slots `is`, after `n` visible receivers. -/
def rxIndexLoop (rx : Fin 8) : ℕ → List (Fin 8) → Option ℕ
  | _, [] => none
  | n, i :: is =>
    if r.Shown i then if i = rx then some n else rxIndexLoop rx (n + 1) is
    else rxIndexLoop rx n is

/-- `tci_rx_index`; `none` for -1. -/
def rxIndex (rx : Fin 8) : Option ℕ := r.rxIndexLoop rx 0 (List.finRange 8)

/-- `tci_tx_index`. -/
def txIndex : ℤ := (r.txSlot.bind r.rxIndex).getD 0

/-- The command addresses the receiver of the transmitter (`is_tx`). -/
def isTx (c : Command) : Bool := (r.rxAt c.reqIndex).isSome && c.reqIndex == r.txIndex

end Radio

/-! ## CW messages -/

/-- `tci_cw_append`. -/
def cwAppend (s part : List Char) : List Char :=
  match part with
  | [] => s
  | c :: _ =>
    if s ≠ [] ∧ ¬ (s.getLast?.any isAsciiSpace = true) ∧ isAsciiSpace c = false then
      s ++ ' ' :: part
    else s ++ part

/-- `tci_cw_msg_fields`: the fields before, after and text of a CW message. -/
def cwMsgFields (token : List Char) : Option (List Char × List Char × List Char) :=
  match (afterColon token).splitOnP (· == ',') with
  | _ :: before :: after :: text :: more =>
    some (before, after, List.intercalate [','] (text :: more))
  | _ => none

/-- `tci_cw_msg_text`. -/
def cwMsgText (token : List Char) : Option (List Char) :=
  match cwMsgFields token with
  | none => none
  | some (before, after, text) =>
    let msg := cwAppend (cwAppend (cwAppend [] before) text) after
    if msg = [] then none else some msg

/-! ## The handler -/

/-- What a command does. -/
inductive Effect
  /-- `dispatch_set_mox` -/
  | mox (on : Bool)
  /-- `tci_set_tx_chrono` -/
  | txChrono (on : Bool)
  /-- `TCI_OP_TUNE` -/
  | tune (on : Bool)
  /-- `tci_dispatch_cw_send` -/
  | cwSend (msg : List Char)
  /-- `client_set_iq` -/
  | setIq (rxIndex : ℤ) (on : Bool)
  /-- `client_set_audio` -/
  | setAudio (rxIndex : ℤ) (on : Bool)
  deriving DecidableEq

/-- The effects that key or unkey the radio. -/
def Effect.Keys : Effect → Prop
  | .mox _ | .tune _ | .cwSend _ => True
  | .txChrono _ | .setIq .. | .setAudio .. => False

/-- `iq_start` and `audio_start`: only for a receiver that exists. -/
def streamStart (r : Radio) (c : Command) (set : ℤ → Bool → Effect) : List Effect :=
  if (r.rxAt c.reqIndex).isSome then [set c.reqIndex true] else []

/-- `iq_stop` and `audio_stop`: every stream without a field, and none for a negative index. -/
def streamStop (c : Command) (set : ℤ → Bool → Effect) : List Effect :=
  [set (if c.args = [] then -1 else if c.reqIndex ≥ 0 then c.reqIndex else maxReceivers)
    false]

def handleTrx (r : Radio) (c : Command) : List Effect :=
  match c.args with
  | _ :: a :: rest =>
    if r.isTx c then
      let on := Command.argBool a
      let srcTci := rest.head?.any fun s => s.map Char.toLower == "tci".toList
      .txChrono (on && srcTci) :: if r.canTransmit then [.mox on] else []
    else []
  | _ => []

def handleTune (r : Radio) (c : Command) : List Effect :=
  match c.args with
  | _ :: a :: _ => if r.isTx c then [.tune (Command.argBool a)] else []
  | _ => []

def handleCwMsg (r : Radio) (c : Command) (token : List Char) : List Effect :=
  if r.isTx c then (cwMsgText token).toList.map .cwSend else []

/-- `tci_handle_command`. -/
def handleCommand (r : Radio) (token : List Char) : List Effect :=
  let c := parseCommand token
  if c.name = "trx".toList then handleTrx r c
  else if c.name = "iq_start".toList then streamStart r c .setIq
  else if c.name = "iq_stop".toList then streamStop c .setIq
  else if c.name = "audio_start".toList then streamStart r c .setAudio
  else if c.name = "audio_stop".toList then streamStop c .setAudio
  else if c.name = "cw_msg".toList then handleCwMsg r c token
  else if c.name = "tune".toList then handleTune r c
  else []

/-! ## What the index names -/

namespace Radio

variable (r : Radio)

/-- The visible receivers, in the order of their indices. -/
def visible : List (Fin 8) := (List.finRange 8).filter fun i => decide (r.Shown i)

theorem rxAtLoop_eq (idx n : ℕ) (is : List (Fin 8)) (h : n ≤ idx) :
    r.rxAtLoop idx n is = (is.filter fun i => decide (r.Shown i))[idx - n]? := by
  induction is generalizing n with
  | nil => rfl
  | cons i is ih =>
    unfold rxAtLoop
    by_cases hs : r.Shown i
    · rw [if_pos hs, List.filter_cons_of_pos (by simpa using hs)]
      by_cases hn : n = idx
      · simp [hn]
      · rw [if_neg hn, ih (n + 1) (by omega), show idx - n = idx - (n + 1) + 1 by omega,
          List.getElem?_cons_succ]
    · rw [if_neg hs, List.filter_cons_of_neg (by simpa using hs), ih n h]

/-- The TCI index of a visible receiver is its place among the visible ones. -/
theorem rxAt_natCast (n : ℕ) : r.rxAt n = r.visible[n]? := by
  rw [rxAt, if_neg (by omega), Int.toNat_natCast, rxAtLoop_eq r n 0 _ (Nat.zero_le n), Nat.sub_zero]
  rfl

theorem rxIndexLoop_some {rx : Fin 8} {n k : ℕ} {is : List (Fin 8)}
    (h : r.rxIndexLoop rx n is = some k) :
    ∃ j, k = n + j ∧ (is.filter fun i => decide (r.Shown i))[j]? = some rx := by
  induction is generalizing n with
  | nil => cases h
  | cons i is ih =>
    unfold rxIndexLoop at h
    by_cases hs : r.Shown i
    · rw [if_pos hs] at h
      rw [List.filter_cons_of_pos (by simpa using hs)]
      by_cases hi : i = rx
      · rw [if_pos hi] at h
        obtain rfl := Option.some.inj h
        exact ⟨0, rfl, by simp [hi]⟩
      · rw [if_neg hi] at h
        obtain ⟨j, rfl, hj⟩ := ih h
        exact ⟨j + 1, by omega, by simpa using hj⟩
    · rw [if_neg hs] at h
      rw [List.filter_cons_of_neg (by simpa using hs)]
      exact ih h

theorem rxIndexLoop_none {rx : Fin 8} {n : ℕ} {is : List (Fin 8)}
    (h : r.rxIndexLoop rx n is = none) (hmem : rx ∈ is) : ¬ r.Shown rx := by
  induction is generalizing n with
  | nil => cases hmem
  | cons i is ih =>
    unfold rxIndexLoop at h
    by_cases hs : r.Shown i
    · rw [if_pos hs] at h
      by_cases hi : i = rx
      · simp [hi] at h
      · rw [if_neg hi] at h
        exact ih h (List.mem_of_ne_of_mem (Ne.symm hi) hmem)
    · rw [if_neg hs] at h
      obtain rfl | hmem := List.mem_cons.1 hmem
      · exact hs
      · exact ih h hmem

/-- A receiver is found under the index that `tci_rx_index` gives for it. -/
theorem rxAt_rxIndex {rx : Fin 8} {k : ℕ} (h : r.rxIndex rx = some k) : r.rxAt k = some rx := by
  obtain ⟨j, rfl, hj⟩ := r.rxIndexLoop_some h
  rw [Nat.zero_add, rxAt_natCast]
  exact hj

/-- An index that names a receiver is not negative, and the receiver is visible. -/
theorem shown_of_rxAt {idx : ℤ} {i : Fin 8} (h : r.rxAt idx = some i) : 0 ≤ idx ∧ r.Shown i := by
  have hpos : 0 ≤ idx := by
    by_contra hneg
    simp [rxAt, Int.not_le.1 hneg] at h
  obtain ⟨n, rfl⟩ := Int.eq_ofNat_of_zero_le hpos
  rw [rxAt_natCast] at h
  have hmem := List.mem_of_getElem? h
  rw [visible, List.mem_filter] at hmem
  exact ⟨hpos, by simpa using hmem.2⟩

/-- There are at most as many indices as slots. -/
theorem lt_of_rxAt {idx : ℤ} {i : Fin 8} (h : r.rxAt idx = some i) : idx < maxReceivers := by
  obtain ⟨n, rfl⟩ := Int.eq_ofNat_of_zero_le (r.shown_of_rxAt h).1
  rw [rxAt_natCast] at h
  obtain ⟨hn, -⟩ := List.getElem?_eq_some_iff.1 h
  have hle : r.visible.length ≤ 8 := (List.length_filter_le ..).trans (by simp)
  simp only [maxReceivers]
  omega

/-- **Which receiver `is_tx` admits**: the transmitter's, or the first one where the transmitter's
is not visible. -/
theorem isTx_spec {c : Command} (h : r.isTx c = true) :
    ∃ i, r.rxAt c.reqIndex = some i ∧
      (r.txSlot = some i ∨ c.reqIndex = 0 ∧ ∀ t, r.txSlot = some t → ¬ r.Shown t) := by
  simp only [isTx, Bool.and_eq_true, beq_iff_eq, Option.isSome_iff_exists] at h
  obtain ⟨⟨i, hi⟩, hidx⟩ := h
  refine ⟨i, hi, ?_⟩
  unfold txIndex at hidx
  cases htx : r.txSlot with
  | none => exact .inr ⟨by simpa [htx] using hidx, by simp⟩
  | some t =>
    cases hk : r.rxIndex t with
    | none =>
      refine .inr ⟨by simpa [htx, hk] using hidx, fun t' ht' => ?_⟩
      obtain rfl := Option.some.inj ht'
      exact r.rxIndexLoop_none hk (List.mem_finRange t)
    | some k =>
      have hidx : c.reqIndex = k := by simpa [htx, hk] using hidx
      rw [hidx, r.rxAt_rxIndex hk] at hi
      exact .inl hi

end Radio

/-- Receivers in slots 0 and 2, the second of which may be hidden, and the transmitter's slot. -/
def Radio.twoReceivers (tx : Fin 8) (shown : Bool) : Radio where
  receiver := ![some true, none, some shown, none, none, none, none, none]
  txSlot := some tx
  canTransmit := true

end MacHPSDR.Tci
