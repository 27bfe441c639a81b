import MacHPSDR.Foundations.BitField
import MacHPSDR.Foundations.Ring
import Mathlib

/-!
# The I2C queue of the Hermes-Lite 2

Writes to the chips of the Hermes-Lite 2 go through a ring buffer, one of which the protocol thread
takes for every cycle of control words. A write is a word with the address of the chip, the register
and the value in a byte each. What does not fit into the ring is lost, and nobody is told.
-/

namespace MacHPSDR.Hl2

open BitField

/-! ## The ring buffer -/

/-- `RINGBUFFERL` -/
structure RingBuffer where
  queue : ℕ → ℕ
  queueIn : ℕ
  queueOut : ℕ
  queueSize : ℕ
  in_lt : queueIn < queueSize
  out_lt : queueOut < queueSize

namespace RingBuffer

/-- `create_long_ringbuffer` -/
def create (queueElements initVal : ℕ) : RingBuffer where
  queue := fun _ => initVal
  queueIn := 0
  queueOut := 0
  queueSize := queueElements + 1
  in_lt := Nat.succ_pos _
  out_lt := Nat.succ_pos _

variable (r : RingBuffer)

/-- The test of `queue_put`. -/
def Full : Prop := r.queueIn = (r.queueOut + r.queueSize - 1) % r.queueSize

instance : Decidable r.Full := inferInstanceAs (Decidable (_ = _))

/-- `queue_put`, and whether it had room. -/
def put (newValue : ℕ) : Bool × RingBuffer :=
  if r.Full then (false, r)
  else (true, { r with
    queue := Function.update r.queue r.queueIn newValue
    queueIn := (r.queueIn + 1) % r.queueSize
    in_lt := Nat.mod_lt _ (Nat.zero_lt_of_lt r.in_lt) })

/-- `queue_get` -/
def get : Option (ℕ × RingBuffer) :=
  if r.queueIn = r.queueOut then none
  else some (r.queue r.queueOut, { r with
    queueOut := (r.queueOut + 1) % r.queueSize
    out_lt := Nat.mod_lt _ (Nat.zero_lt_of_lt r.out_lt) })

/-- The words that wait, the next one first. -/
def waiting : List ℕ := Ring.contents r.queue r.queueSize r.queueOut r.queueIn

theorem full_iff : r.Full ↔ Ring.next r.queueSize r.queueIn = r.queueOut :=
  Ring.eq_prev_iff r.out_lt r.in_lt

/-- The ring holds one word less than it has slots. -/
theorem full_iff_length : r.Full ↔ r.waiting.length + 1 = r.queueSize := by
  unfold waiting
  rw [full_iff, Ring.next_eq_tail_iff r.out_lt r.in_lt, Ring.length_contents]

theorem put_of_full (h : r.Full) (w : ℕ) : r.put w = (false, r) := if_pos h

/-- **`queue_put`** puts the word at the end. -/
theorem waiting_put (h : ¬ r.Full) (w : ℕ) :
    (r.put w).1 = true ∧ (r.put w).2.waiting = r.waiting ++ [w] := by
  unfold put
  rw [if_neg h]
  exact ⟨rfl, Ring.contents_push r.out_lt r.in_lt (fun hnext => h (r.full_iff.2 hnext)) w⟩

/-- **`queue_get`** takes the first word. -/
theorem waiting_get : r.get = none ∧ r.waiting = [] ∨
    ∃ w t, r.get = some (w, t) ∧ r.waiting = w :: t.waiting := by
  unfold get waiting
  by_cases hempty : r.queueIn = r.queueOut
  · rw [if_pos hempty, hempty]
    exact .inl ⟨rfl, Ring.contents_self⟩
  · rw [if_neg hempty]
    exact .inr ⟨_, _, rfl, Ring.contents_pop r.out_lt r.in_lt (Ne.symm hempty)⟩

end RingBuffer

/-! ## Writes -/

/-- `HL2_I2C_QUEUESIZE` -/
def hl2I2cQueueSize : ℕ := 15

/-- `I2C1_WRITE` -/
def i2c1Write : ℕ := 0x06

/-- `ADDR_VERSA5`, the clock generator -/
def addrVersa5 : ℕ := 0xD4

/-- The word that `HL2i2cQueueWrite` puts into the queue. -/
def i2cWord (readwrite addr command value : ℕ) : ℕ :=
  (readwrite <<< 24) &&& 0xFFFFFFFF ||| ((addr ||| 0x80) <<< 16) &&& 0xFFFFFFFF |||
    (command <<< 8) &&& 0xFFFFFFFF ||| (value &&& 0xFF) &&& 0xFFFFFFFF

/-- `HL2i2cSendTargetAddr` -/
def sendTargetAddr (w : ℕ) : ℕ := w >>> 16 &&& 0xFF

/-- `HL2i2cSendCommand` -/
def sendCommand (w : ℕ) : ℕ := w >>> 8 &&& 0xFF

/-- `HL2i2cSendValue` -/
def sendValue (w : ℕ) : ℕ := w &&& 0xFF

theorem and_byte (x : ℕ) : x &&& 0xFF = x % 2 ^ 8 := Nat.and_two_pow_sub_one_eq_mod x 8

theorem and_word (x : ℕ) : x &&& 0xFFFFFFFF = x % 2 ^ 32 := Nat.and_two_pow_sub_one_eq_mod x 32

section

variable {readwrite addr command : ℕ} (value : ℕ)

/-- What a byte of the word gets from its four parts. -/
theorem field_i2cWord (off : ℕ) (hoff : off + 8 ≤ 32) :
    field off 8 (i2cWord readwrite addr command value) =
      field off 8 (readwrite <<< 24) ||| field off 8 ((addr ||| 0x80) <<< 16) |||
        field off 8 (command <<< 8) ||| field off 8 (value % 2 ^ 8) := by
  unfold i2cWord
  rw [and_word, and_word, and_word, and_word, and_byte, field_or, field_or, field_or,
    field_mod _ hoff, field_mod _ hoff, field_mod _ hoff, field_mod _ hoff]

/-- The register is in the second byte. -/
theorem sendCommand_i2cWord (hcommand : command < 2 ^ 8) :
    sendCommand (i2cWord readwrite addr command value) = command := by
  unfold sendCommand
  rw [and_byte]
  show field 8 8 _ = _
  rw [field_i2cWord value 8 (by decide), field_shiftLeft_of_le readwrite (by decide),
    field_shiftLeft_of_le _ (by decide), field_shiftLeft 8 hcommand,
    field_of_lt (Nat.mod_lt value (by decide)) le_rfl]
  simp

/-- The value is in the first byte, cut to it. -/
theorem sendValue_i2cWord : sendValue (i2cWord readwrite addr command value) = value % 2 ^ 8 := by
  have hlow (w : ℕ) : w % 2 ^ 8 = field 0 8 w := rfl
  unfold sendValue
  rw [and_byte, hlow (i2cWord ..), field_i2cWord value 0 (by decide),
    field_shiftLeft_of_le readwrite (by decide), field_shiftLeft_of_le _ (by decide),
    field_shiftLeft_of_le command (by decide),
    field_self (Nat.mod_lt value (by decide))]
  simp

end

/-- A write to a register of the clock generator. -/
def versa5Word (command value : ℕ) : ℕ := i2cWord i2c1Write (addrVersa5 >>> 1) command value

/-- The words put a value into a register: the last of them that does. -/
def registerOf (words : List ℕ) (command : ℕ) : Option ℕ :=
  (words.reverse.find? fun w =>
    sendTargetAddr w = addrVersa5 >>> 1 ||| 0x80 ∧ sendCommand w = command).map sendValue

end MacHPSDR.Hl2
