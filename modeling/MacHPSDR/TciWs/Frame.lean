import MacHPSDR.Foundations.Bytes

/-!
# WebSocket frames

The wire format of the frames a peer can send: a byte with FIN, the reserved bits and the opcode, a
byte with the MASK bit and a 7-bit length, the 16- or 64-bit length where the 7-bit one announces
it, the masking key and the masked payload. Lengths need not be in their shortest form. A `Header`
and a `Frame` carry the proof that their length fits the form it is written in.
-/

namespace MacHPSDR.TciWs

/-- `TCI_WS_MAX_MSG` -/
def maxMsg : ℕ := 262144

/-- The FIN bit of the first header byte. -/
def finBit (h0 : UInt8) : Bool := h0 &&& 0x80 != 0

/-- The opcode of the first header byte. -/
def opcodeOf (h0 : UInt8) : ℕ := (h0 &&& 0x0f).toNat

/-- The MASK bit of the second header byte. -/
def maskBit (h1 : UInt8) : Bool := h1 &&& 0x80 != 0

/-- The 7-bit length of the second header byte. -/
def lenBits (h1 : UInt8) : ℕ := (h1 &&& 0x7f).toNat

/-- Masking and unmasking: `buf[i] ^= mask[i & 3]`. -/
def applyMask (mask buf : List UInt8) : List UInt8 :=
  buf.mapIdx fun i b => b ^^^ mask.getD (i &&& 3) 0

@[simp] theorem length_applyMask (mask buf : List UInt8) :
    (applyMask mask buf).length = buf.length := by
  simp [applyMask]

/-- Masking twice with one key gives the payload back. -/
@[simp] theorem applyMask_applyMask (mask buf : List UInt8) :
    applyMask mask (applyMask mask buf) = buf := by
  refine List.ext_getElem (by simp) fun i _ _ => ?_
  simp [applyMask]

/-- The three ways to write a length. -/
inductive LengthForm
  | short
  | medium
  | long
  deriving DecidableEq

namespace LengthForm

/-- The lengths that can be written in this form. -/
def bound : LengthForm → ℕ
  | short => 126
  | medium => 2 ^ 16
  | long => 2 ^ 64

/-- The 7-bit length field. -/
def code (len : ℕ) : LengthForm → UInt8
  | short => UInt8.ofNat len
  | medium => 126
  | long => 127

/-- The extended length. -/
def extra (len : ℕ) : LengthForm → List UInt8
  | short => []
  | medium => Bytes.beBytes 2 len
  | long => Bytes.beBytes 8 len

end LengthForm

/-- The second header byte. -/
def lengthByte (masked : Bool) (code : UInt8) : UInt8 := (if masked then 0x80 else 0) ||| code

theorem lengthByte_bits (masked : Bool) (code : UInt8) (h : code < 128) :
    maskBit (lengthByte masked code) = masked ∧ lenBits (lengthByte masked code) = code.toNat := by
  obtain ⟨code⟩ := code
  revert code masked
  decide

theorem lengthByte_eq (h1 : UInt8) :
    lengthByte (maskBit h1) (UInt8.ofNat (lenBits h1)) = h1 ∧ lenBits h1 < 128 := by
  obtain ⟨h1⟩ := h1
  revert h1
  decide

/-- A frame header: everything before the masking key. -/
structure Header where
  /-- FIN, the reserved bits and the opcode. -/
  flags : UInt8
  masked : Bool
  form : LengthForm
  len : ℕ
  len_lt : len < form.bound

def Header.encode (h : Header) : List UInt8 :=
  [h.flags, lengthByte h.masked (h.form.code h.len)] ++ h.form.extra h.len

/-- A frame. -/
structure Frame where
  flags : UInt8
  form : LengthForm
  mask : Option {key : List UInt8 // key.length = 4}
  payload : List UInt8
  len_lt : payload.length < form.bound

namespace Frame

def fin (f : Frame) : Bool := finBit f.flags

def opcode (f : Frame) : ℕ := opcodeOf f.flags

def header (f : Frame) : Header := ⟨f.flags, f.mask.isSome, f.form, f.payload.length, f.len_lt⟩

/-- The masking key on the wire. -/
def key (f : Frame) : List UInt8 := f.mask.elim [] Subtype.val

/-- The payload on the wire. -/
def body (f : Frame) : List UInt8 := f.mask.elim f.payload fun key => applyMask key.val f.payload

def encode (f : Frame) : List UInt8 := f.header.encode ++ (f.key ++ f.body)

end Frame

/-- A sequence of frames on the wire. -/
def encodeAll (fs : List Frame) : List UInt8 := fs.flatMap Frame.encode

/-- The payloads of the frames, one after the other. -/
def payloads (fs : List Frame) : List UInt8 := fs.flatMap Frame.payload

@[simp] theorem encodeAll_nil : encodeAll [] = [] := rfl

@[simp] theorem encodeAll_cons (f : Frame) (fs : List Frame) :
    encodeAll (f :: fs) = f.encode ++ encodeAll fs := rfl

@[simp] theorem encodeAll_append (fs gs : List Frame) :
    encodeAll (fs ++ gs) = encodeAll fs ++ encodeAll gs := List.flatMap_append

@[simp] theorem payloads_nil : payloads [] = [] := rfl

@[simp] theorem payloads_cons (f : Frame) (fs : List Frame) :
    payloads (f :: fs) = f.payload ++ payloads fs := rfl

end MacHPSDR.TciWs
