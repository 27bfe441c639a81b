import MacHPSDR.Cw.Encoder
import MacHPSDR.Foundations.Transition

/-!
# The iambic keyer

`cw_keyer.c`: two paddle contacts, an element machine advanced by a 2 ms timer, and a straight key
that passes its contact on to the transmitter. Times are seconds of one clock, as exact rationals;
the clocks of the keyer (`read_time_now`) and of the encoder (`g_get_real_time`) are taken to run
alike. The radio is there, and the test hook is not installed.
-/

namespace MacHPSDR.Cw

/-- `radio->cw_keyer_mode`. -/
inductive KeyerMode
  | straight
  | modeA
  | modeB
  deriving DecidableEq

/-- `cw_paddle_t`. -/
inductive Paddle
  | dot
  | dash
  deriving DecidableEq

def Paddle.other : Paddle → Paddle
  | .dot => .dash
  | .dash => .dot

/-- `ELEM_DIT` and `ELEM_DAH`. -/
inductive Elem
  | dit
  | dah
  deriving DecidableEq

def Elem.other : Elem → Elem
  | .dit => .dah
  | .dah => .dit

/-- `keyer_state_t`. -/
inductive KeyerState
  | idle
  | mark
  | space
  deriving DecidableEq

/-- `CW_KEYER_STUCK_S`. -/
def cwKeyerStuckS : ℚ := 15

/-! ## Timing -/

def dotUnitMs (r : Settings) : ℚ := 1200 / (if r.cwKeyerSpeed < 1 then 1 else r.cwKeyerSpeed)

def weightScale (r : Settings) : ℚ := (if r.cwKeyerWeight ≤ 0 then 50 else r.cwKeyerWeight) / 50

/-- The length of a mark in seconds. -/
def markS (r : Settings) : Elem → ℚ
  | .dit => dotUnitMs r * weightScale r / 1000
  | .dah => 3 * dotUnitMs r * weightScale r / 1000

/-- The length of the space after a mark in seconds. -/
def spaceS (r : Settings) : ℚ := dotUnitMs r / 1000

theorem dotUnitMs_pos (r : Settings) : 0 < dotUnitMs r := by
  unfold dotUnitMs
  refine div_pos (by norm_num) ?_
  split
  · exact one_pos
  · rename_i h
    exact Int.cast_pos.2 (by omega)

theorem weightScale_pos (r : Settings) : 0 < weightScale r := by
  unfold weightScale
  refine div_pos ?_ (by norm_num)
  split
  · norm_num
  · rename_i h
    exact Int.cast_pos.2 (by omega)

theorem markS_pos (r : Settings) (e : Elem) : 0 < markS r e := by
  have h := mul_pos (dotUnitMs_pos r) (weightScale_pos r)
  cases e with
  | dit => exact div_pos h (by norm_num)
  | dah =>
    refine div_pos ?_ (by norm_num)
    rw [mul_assoc]
    exact mul_pos (by norm_num) h

/-- No mark is longer than a dah. -/
theorem markS_le_dah (r : Settings) (e : Elem) : markS r e ≤ markS r .dah := by
  have h := mul_pos (dotUnitMs_pos r) (weightScale_pos r)
  cases e with
  | dit =>
    simp only [markS]
    linarith
  | dah => exact le_rfl

/-! ## The machine -/

/-- The variables of `cw_keyer.c`, the two settings that change while a contact is held, the
clock, and the encoder. `contact` and `changed` are history: the contacts as they physically are,
and the time of the last change of one. -/
structure Keyer where
  mode : KeyerMode
  reversed : Bool
  /-- `phys_dot` and `phys_dash`. -/
  phys : Paddle → Bool
  state : KeyerState
  currentElem : Option Elem
  elemEndS : ℚ
  /-- `dit_latch` and `dah_latch`. -/
  latch : Elem → Bool
  tickId : Bool
  lastChangeS : ℚ
  now : ℚ
  encoder : Encoder
  contact : Paddle → Bool
  changed : ℚ

namespace Keyer

variable (r : Settings)

def nowMs (k : Keyer) : ℤ := (k.now * 1000).floor

/-- The contact that keys in straight mode, and that sends dits in the others. -/
def keyPaddle (k : Keyer) : Paddle := if k.reversed then .dash else .dot

/-- `dot_down` and `dash_down`. -/
def down (k : Keyer) : Elem → Bool
  | .dit => k.phys k.keyPaddle
  | .dah => k.phys k.keyPaddle.other

/-- `phys_dot || phys_dash`. -/
def paddleHeld (k : Keyer) : Bool := k.phys .dot || k.phys .dash

def key (down : Bool) (k : Keyer) : Keyer :=
  { k with encoder := k.encoder.cwTxKey r k.nowMs down }

/-- `sample_latch`. -/
def sampleLatch (k : Keyer) : Keyer :=
  { k with latch := fun e => k.latch e || k.currentElem = some e.other && k.down e }

/-- `start_mark`. -/
def startMark (elem : Elem) (startS : ℚ) (k : Keyer) : Keyer :=
  let k := { k with currentElem := some elem, latch := fun _ => false,
                    elemEndS := startS + markS r elem, state := .mark }
  (k.key r true).sampleLatch

/-- `begin_space`. -/
def beginSpace (startS : ℚ) (k : Keyer) : Keyer :=
  { k.key r false with elemEndS := startS + spaceS r, state := .space }

/-- The element opposite to the current one. -/
def opposite (k : Keyer) : Elem := if k.currentElem = some .dah then .dit else .dah

/-- The choice of `decide_next`. -/
def decideNext (k : Keyer) : Option Elem :=
  if k.latch k.opposite && (k.mode = .modeB || k.down k.opposite) then some k.opposite
  else if k.down k.opposite.other && k.currentElem.isSome then k.currentElem
  else if k.down .dit then some .dit
  else if k.down .dah then some .dah
  else none

/-- The stuck-paddle guard. -/
def stuckGuard (nowS : ℚ) (k : Keyer) : Keyer :=
  if k.paddleHeld && decide (nowS - k.lastChangeS > cwKeyerStuckS) then
    { k with phys := fun _ => false }
  else k

/-- Straight mode, reached with an element in flight. -/
def dropElement (k : Keyer) : Keyer :=
  if k.state = .idle then k
  else
    let k := if k.state = .mark then k.key r false else k
    { k with state := .idle, currentElem := none }

/-- The element machine of `cw_keyer_advance`. -/
def advanceElement (nowS : ℚ) (k : Keyer) : Keyer :=
  match k.state with
  | .idle =>
    if k.down .dit || k.down .dah then
      k.startMark r (if k.down .dit then .dit else .dah) nowS
    else k
  | .mark =>
    let k := k.sampleLatch
    if nowS ≥ k.elemEndS then k.beginSpace r k.elemEndS else k
  | .space =>
    let k := k.sampleLatch
    if nowS ≥ k.elemEndS then
      match k.decideNext with
      | none => { k with latch := fun _ => false, state := .idle, currentElem := none }
      | some next => k.startMark r next k.elemEndS
    else k

/-- `cw_keyer_advance`. -/
def cwKeyerAdvance (nowS : ℚ) (k : Keyer) : Keyer :=
  if k.mode = .straight then k.dropElement r
  else (k.stuckGuard nowS).advanceElement r nowS

/-- `keyer_tick`. -/
def keyerTick (k : Keyer) : Keyer :=
  let k := k.cwKeyerAdvance r k.now
  if k.state = .idle && !k.paddleHeld then { k with tickId := false } else k

/-- `cw_keyer_paddle`. -/
def cwKeyerPaddle (which : Paddle) (pressed : Bool) (k : Keyer) : Keyer :=
  let k := { k with phys := Function.update k.phys which pressed, lastChangeS := k.now }
  if k.mode = .straight then
    if which = k.keyPaddle then k.key r pressed else k
  else
    let k := if pressed then k.sampleLatch else k
    { k with tickId := true }

/-- A contact closes or opens; an event that repeats the state it is in changes nothing. -/
def touch (which : Paddle) (pressed : Bool) (k : Keyer) : Keyer :=
  { k with contact := Function.update k.contact which pressed,
           changed := if k.contact which = pressed then k.changed else k.now }

end Keyer

/-! ## The system -/

inductive Label
  /-- A press or release is reported by the keyboard or the MIDI controller. -/
  | paddle (which : Paddle) (pressed : Bool)
  | setMode (mode : KeyerMode)
  | toggleReversed
  | keyerTick
  | txTick
  | elapse (s : ℚ)

variable (r : Settings)

def step (k : Keyer) : Label → Option Keyer
  | .paddle which pressed => some ((k.touch which pressed).cwKeyerPaddle r which pressed)
  | .setMode mode => some { k with mode := mode }
  | .toggleReversed => some { k with reversed := !k.reversed }
  | .keyerTick => if k.tickId then some (k.keyerTick r) else none
  | .txTick =>
    if k.encoder.tickId then some { k with encoder := k.encoder.txTick r k.nowMs } else none
  | .elapse s => if s ≥ 0 then some { k with now := k.now + s } else none

/-- The keyer after the start of the program, with the saved settings; the operator may have MOX
up already. -/
def system (mode : KeyerMode) (reversed mox : Bool) : System Keyer Label where
  init :=
    { mode := mode, reversed := reversed, phys := fun _ => false, state := .idle,
      currentElem := none, elemEndS := 0, latch := fun _ => false, tickId := false,
      lastChangeS := 0, now := 0,
      encoder := ⟨mox, false, false, false, .idle, false, 0, 0, 0, 0, false⟩,
      contact := fun _ => false, changed := 0 }
  step := step r

end MacHPSDR.Cw
