import Mathlib

/-!
# The transmit side of the CW encoder

`cw_tx_key` keys and unkeys the transmitter for the keyer, and `tx_tick`, a 100 ms timer, drops the
MOX that the encoder raised itself once the key has been up for the hang time (or, for a memory
message, once the waveform has run out). Times are those of `g_get_real_time` in milliseconds. The
waveform itself and its envelope are not part of the model.
-/

namespace MacHPSDR.Cw

/-- The settings of the radio that the keyer and the encoder read. -/
structure Settings where
  cwKeyerSpeed : ℤ
  cwKeyerWeight : ℤ
  cwKeyerHangTime : ℤ
  /-- The radio can transmit and has a transmitter. -/
  canTransmit : Bool
  /-- The mode of the transmitter is CWL or CWU. -/
  txModeCw : Bool

/-- `tx_mode`. -/
inductive TxMode
  | idle
  | message
  | keyer
  deriving DecidableEq

/-- The variables of `cw_encoder.c` and the MOX of the radio. -/
structure Encoder where
  mox : Bool
  active : Bool
  /-- The encoder raised MOX. -/
  weKeyed : Bool
  /-- The timer of `tx_tick` runs. -/
  tickId : Bool
  txMode : TxMode
  keyOn : Bool
  lastKeyMs : ℤ
  waveLen : ℕ
  wavePos : ℕ
  keyTimeMs : ℤ
  /-- History: the argument of the last call of `cw_tx_key`. -/
  lastCall : Bool

/-- `CW_TX_RATE`. -/
def cwTxRate : ℤ := 48000

/-- `CW_TX_MAX_MARGIN_MS`. -/
def cwTxMaxMarginMs : ℤ := 2000

/-- `CW_KEYER_HANG_MS`. -/
def cwKeyerHangMs : ℤ := 250

/-- The hang time of `tx_tick`, at least two dot units. -/
def hangMs (r : Settings) : ℤ :=
  let cfgHang := if r.cwKeyerHangTime > 0 then r.cwKeyerHangTime else cwKeyerHangMs
  let minHang := if r.cwKeyerSpeed > 0 then 2400 / r.cwKeyerSpeed else 120
  if cfgHang > minHang then cfgHang else minHang

namespace Encoder

/-- The key goes down; the first time in a session MOX is raised unless it is up already. -/
def keyDown (nowMs : ℤ) (e : Encoder) : Encoder :=
  let e :=
    if e.txMode = .keyer then e
    else { e with txMode := .keyer, active := true, weKeyed := !e.mox, mox := true, tickId := true }
  { e with keyOn := true, lastKeyMs := nowMs }

/-- `cw_tx_key`. -/
def cwTxKey (r : Settings) (nowMs : ℤ) (down : Bool) (e : Encoder) : Encoder :=
  let e := { e with lastCall := down }
  if e.txMode = .message then e
  else if down then
    if !r.canTransmit || !r.txModeCw then e else e.keyDown nowMs
  else { e with keyOn := false, lastKeyMs := nowMs }

/-- The end of a session: the encoder drops the MOX that it raised. -/
def finish (e : Encoder) : Encoder :=
  { e with mox := e.mox && !e.weKeyed, weKeyed := false, active := false, txMode := .idle,
           tickId := false }

/-- `tx_tick`. -/
def txTick (r : Settings) (nowMs : ℤ) (e : Encoder) : Encoder :=
  if !e.active then { e with tickId := false }
  else if e.txMode = .keyer then
    if !e.keyOn && decide (nowMs - e.lastKeyMs > hangMs r) then e.finish else e
  else if e.wavePos ≥ e.waveLen then e.finish
  else if e.keyTimeMs ≠ 0 ∧
      nowMs - e.keyTimeMs > e.waveLen * 1000 / cwTxRate + cwTxMaxMarginMs then e.finish
  else e

/-- `CW_TX_MAX_SAMPLES`. -/
def cwTxMaxSamples : ℕ := 48000 * 60

/-- `cw_tx_send_text`, for a text whose waveform has `samples` samples (none, where it is empty or
cannot be encoded). -/
def cwTxSendText (r : Settings) (tune : Bool) (nowMs : ℤ) (samples : ℕ) (e : Encoder) : Encoder :=
  if e.active then e
  else if !r.canTransmit || tune || !r.txModeCw || samples == 0 then e
  else
    { e with
      waveLen := min samples cwTxMaxSamples
      wavePos := 0
      keyTimeMs := nowMs
      txMode := .message
      active := true
      weKeyed := !e.mox
      mox := true
      tickId := true }

/-- `cw_tx_abort`. -/
def cwTxAbort (e : Encoder) : Encoder :=
  { e with active := false, txMode := .idle, mox := e.mox && !e.weKeyed, weKeyed := false }

/-- The sample position after `cw_tx_next_sample`. -/
def cwTxNextSample (e : Encoder) : Encoder :=
  if e.active && e.txMode == .message && decide (e.wavePos < e.waveLen) then
    { e with wavePos := e.wavePos + 1 }
  else e

@[simp] theorem lastCall_keyDown (nowMs : ℤ) (e : Encoder) :
    (e.keyDown nowMs).lastCall = e.lastCall := by
  unfold keyDown
  split <;> rfl

@[simp] theorem lastCall_cwTxKey (r : Settings) (nowMs : ℤ) (down : Bool) (e : Encoder) :
    (e.cwTxKey r nowMs down).lastCall = down := by
  simp only [cwTxKey]
  split
  · rfl
  · split
    · split
      · rfl
      · exact lastCall_keyDown nowMs _
    · rfl

@[simp] theorem lastCall_txTick (r : Settings) (nowMs : ℤ) (e : Encoder) :
    (e.txTick r nowMs).lastCall = e.lastCall := by
  unfold txTick
  repeat' split
  all_goals rfl

/-! ## A session of the keyer

What holds of the encoder while only the keyer uses it. -/

/-- The key is only down after a call that put it down, and a MOX that the encoder raised belongs
to a session whose timer runs. -/
structure Ok (e : Encoder) : Prop where
  noMessage : e.txMode ≠ .message
  lastCall : e.keyOn = true → e.lastCall = true
  session : e.weKeyed = true → e.active = true ∧ e.txMode = .keyer ∧ e.tickId = true

theorem Ok.cwTxKey {e : Encoder} (h : e.Ok) (r : Settings) (nowMs : ℤ) (down : Bool) :
    (e.cwTxKey r nowMs down).Ok := by
  obtain ⟨hmode, hlast, hsession⟩ := h
  unfold Encoder.cwTxKey
  rw [if_neg hmode]
  split
  · rename_i hdown
    split
    · exact ⟨hmode, fun _ => hdown, hsession⟩
    · unfold keyDown
      split
      · exact ⟨hmode, fun _ => hdown, hsession⟩
      · exact ⟨nofun, fun _ => hdown, fun _ => ⟨rfl, rfl, rfl⟩⟩
  · exact ⟨hmode, nofun, hsession⟩

theorem Ok.finish {e : Encoder} (h : e.Ok) : e.finish.Ok :=
  ⟨nofun, h.lastCall, nofun⟩

theorem Ok.txTick {e : Encoder} (h : e.Ok) (r : Settings) (nowMs : ℤ) : (e.txTick r nowMs).Ok := by
  unfold Encoder.txTick
  split
  · rename_i hactive
    refine ⟨h.noMessage, h.lastCall, fun hkeyed => ?_⟩
    rw [(h.session hkeyed).1] at hactive
    exact absurd hactive nofun
  · repeat' split
    all_goals first | exact h | exact h.finish

/-- A tick later than the hang time after the last key edge drops the MOX of the session. -/
theorem Ok.txTick_drops {e : Encoder} (h : e.Ok) {r : Settings} {nowMs : ℤ}
    (hkeyed : e.weKeyed = true) (hup : e.keyOn = false) (hhang : nowMs - e.lastKeyMs > hangMs r) :
    (e.txTick r nowMs).mox = false ∧ (e.txTick r nowMs).weKeyed = false := by
  obtain ⟨hactive, hmode, -⟩ := h.session hkeyed
  have hfinish : e.txTick r nowMs = e.finish := by
    simp [Encoder.txTick, hactive, hmode, hup, hhang]
  rw [hfinish]
  exact ⟨by simp [Encoder.finish, hkeyed], rfl⟩

end Encoder

end MacHPSDR.Cw
