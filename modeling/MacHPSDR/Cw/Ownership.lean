import MacHPSDR.Cw.Encoder
import MacHPSDR.Foundations.Transition

/-!
# Who raised MOX

A memory message and the live keyer both key the radio through the encoder, which raises MOX unless
it is up already and remembers in `we_keyed` that it did. The operator changes MOX whenever they
like, and the encoder is not told.

So the flag tells the truth until the operator drops the encoder's MOX during a session and raises
it again: the encoder takes the operator's MOX for its own and drops it at the end of the session
(`steals_mox`). In every run without this second raise (`clean`) the encoder drops the MOX that it
raised, once, at the end of the session, and never the operator's (`owned_of_clean`).
-/

namespace MacHPSDR.Cw

/-- Who raised MOX. -/
inductive Party
  | cw
  | operator
  deriving DecidableEq

/-- The encoder, with the history of MOX. -/
structure Transmit where
  encoder : Encoder
  /-- Who raised the MOX that is up. -/
  owner : Option Party
  /-- How often the encoder has raised MOX. -/
  raised : ℕ
  /-- How often the encoder has dropped a MOX that it had raised. -/
  dropped : ℕ
  /-- How often the operator has dropped a MOX that the encoder had raised. -/
  preempted : ℕ
  /-- How often the encoder has dropped a MOX that the operator had raised. -/
  stolen : ℕ

namespace Transmit

/-- A step of the encoder. -/
def byCw (t : Transmit) (e : Encoder) : Transmit :=
  if !t.encoder.mox && e.mox then
    { t with encoder := e, owner := some .cw, raised := t.raised + 1 }
  else if t.encoder.mox && !e.mox then
    if t.owner = some .operator then { t with encoder := e, owner := none, stolen := t.stolen + 1 }
    else { t with encoder := e, owner := none, dropped := t.dropped + 1 }
  else { t with encoder := e }

/-- The operator's `set_mox`. -/
def byOperator (t : Transmit) (on : Bool) : Transmit :=
  let encoder := { t.encoder with mox := on }
  if !t.encoder.mox && on then { t with encoder := encoder, owner := some .operator }
  else if t.encoder.mox && !on then
    if t.owner = some .cw then
      { t with encoder := encoder, owner := none, preempted := t.preempted + 1 }
    else { t with encoder := encoder, owner := none }
  else { t with encoder := encoder }

end Transmit

/-- What can happen next. The settings are those of the moment. -/
inductive Move
  /-- `cw_tx_send_text`, for a text with this many samples. -/
  | send (r : Settings) (tune : Bool) (nowMs : ℤ) (samples : ℕ)
  /-- `cw_tx_key` -/
  | key (r : Settings) (nowMs : ℤ) (down : Bool)
  /-- `cw_tx_abort` -/
  | abort
  /-- The operator sets MOX. -/
  | mox (on : Bool)
  /-- `tx_tick`, while its timer runs. -/
  | tick (r : Settings) (nowMs : ℤ)
  /-- The audio thread takes a sample. -/
  | sample

/-- The encoder's side of a move; `none` for the operator. -/
def Move.encoder (e : Encoder) : Move → Option Encoder
  | .send r tune nowMs samples => some (e.cwTxSendText r tune nowMs samples)
  | .key r nowMs down => some (e.cwTxKey r nowMs down)
  | .abort => some e.cwTxAbort
  | .mox _ => none
  | .tick r nowMs => some (e.txTick r nowMs)
  | .sample => some e.cwTxNextSample

def Transmit.step (t : Transmit) : Move → Option Transmit
  | .mox on => some (t.byOperator on)
  | .tick r nowMs =>
    if t.encoder.tickId then some (t.byCw (t.encoder.txTick r nowMs)) else none
  | m => (m.encoder t.encoder).map t.byCw

/-- The application as it starts, with MOX as the operator left it. -/
def Transmit.start (mox : Bool) : Transmit where
  encoder := ⟨mox, false, false, false, .idle, false, 0, 0, 0, 0, false⟩
  owner := if mox then some .operator else none
  raised := 0
  dropped := 0
  preempted := 0
  stolen := 0

def transmitter (mox : Bool) : System Transmit Move := ⟨.start mox, Transmit.step⟩

/-- The operator does not raise MOX in a session whose MOX they dropped before. -/
def cleanMox (t : Transmit) : Move → Bool
  | .mox true => !(t.encoder.weKeyed && !t.encoder.mox)
  | _ => true

/-! ## What a move does to the session -/

namespace Encoder

/-- The session goes on as it was. -/
structure Keeps (e e' : Encoder) : Prop where
  mox : e'.mox = e.mox
  weKeyed : e'.weKeyed = e.weKeyed
  active : e'.active = e.active
  txMode : e'.txMode = e.txMode
  tickId : e.active = true → e'.tickId = e.tickId

/-- A session starts. -/
structure Starts (e e' : Encoder) : Prop where
  wasIdle : e.active = false
  mox : e'.mox = true
  weKeyed : e'.weKeyed = !e.mox
  active : e'.active = true
  txMode : e'.txMode ≠ .idle
  tickId : e'.tickId = true

/-- The session ends. -/
structure Ends (e e' : Encoder) : Prop where
  mox : e'.mox = (e.mox && !e.weKeyed)
  weKeyed : e'.weKeyed = false
  active : e'.active = false
  txMode : e'.txMode = .idle

theorem Keeps.refl (e : Encoder) : Keeps e e := ⟨rfl, rfl, rfl, rfl, fun _ => rfl⟩

theorem finish_ends (e : Encoder) : Ends e e.finish := ⟨rfl, rfl, rfl, rfl⟩

theorem cwTxAbort_ends (e : Encoder) : Ends e e.cwTxAbort := ⟨rfl, rfl, rfl, rfl⟩

theorem cwTxSendText_cases (r : Settings) (tune : Bool) (nowMs : ℤ) (samples : ℕ) (e : Encoder) :
    Keeps e (e.cwTxSendText r tune nowMs samples) ∨
      Starts e (e.cwTxSendText r tune nowMs samples) := by
  unfold cwTxSendText
  split
  · exact .inl (.refl e)
  · split
    · exact .inl (.refl e)
    · exact .inr ⟨by simpa using ‹¬e.active = true›, rfl, rfl, rfl, nofun, rfl⟩

theorem cwTxKey_cases (r : Settings) (nowMs : ℤ) (down : Bool) {e : Encoder}
    (h : e.txMode = .idle → e.active = false) :
    Keeps e (e.cwTxKey r nowMs down) ∨ Starts e (e.cwTxKey r nowMs down) := by
  unfold cwTxKey
  dsimp only
  split
  · exact .inl ⟨rfl, rfl, rfl, rfl, fun _ => rfl⟩
  · split
    · split
      · exact .inl ⟨rfl, rfl, rfl, rfl, fun _ => rfl⟩
      · unfold keyDown
        dsimp only
        split
        · exact .inl ⟨rfl, rfl, rfl, rfl, fun _ => rfl⟩
        · have hidle : e.txMode = .idle := by
            cases hm : e.txMode <;> simp_all
          exact .inr ⟨h hidle, rfl, rfl, rfl, nofun, rfl⟩
    · exact .inl ⟨rfl, rfl, rfl, rfl, fun _ => rfl⟩

theorem txTick_cases (r : Settings) (nowMs : ℤ) (e : Encoder) :
    Keeps e (e.txTick r nowMs) ∨ Ends e (e.txTick r nowMs) := by
  unfold txTick
  split
  · exact .inl ⟨rfl, rfl, rfl, rfl, fun h => by simp_all⟩
  · repeat' split
    all_goals first | exact .inl (.refl e) | exact .inr e.finish_ends

theorem cwTxNextSample_keeps (e : Encoder) : Keeps e e.cwTxNextSample := by
  unfold cwTxNextSample
  split <;> exact ⟨rfl, rfl, rfl, rfl, fun _ => rfl⟩

end Encoder

/-- Every move of the encoder leaves the session, starts one or ends it. -/
theorem Move.encoder_cases {e e' : Encoder} (h : e.txMode = .idle → e.active = false) {m : Move}
    (hm : m.encoder e = some e') : e.Keeps e' ∨ e.Starts e' ∨ e.Ends e' := by
  cases m with
  | mox on => cases hm
  | send r tune nowMs samples =>
    obtain rfl := Option.some.inj hm
    exact (e.cwTxSendText_cases r tune nowMs samples).imp_right .inl
  | key r nowMs down =>
    obtain rfl := Option.some.inj hm
    exact (Encoder.cwTxKey_cases r nowMs down h).imp_right .inl
  | abort =>
    obtain rfl := Option.some.inj hm
    exact .inr (.inr e.cwTxAbort_ends)
  | tick r nowMs =>
    obtain rfl := Option.some.inj hm
    exact (e.txTick_cases r nowMs).imp_right .inr
  | sample =>
    obtain rfl := Option.some.inj hm
    exact .inl e.cwTxNextSample_keeps

@[simp] theorem Transmit.byCw_encoder (t : Transmit) (e : Encoder) : (t.byCw e).encoder = e := by
  unfold byCw
  repeat' split
  all_goals rfl

/-- A move is the operator's or the encoder's. -/
theorem Transmit.step_cases {t u : Transmit} {m : Move} (h : t.step m = some u) :
    (∃ on, m = .mox on ∧ u = t.byOperator on) ∨
      ∃ e, m.encoder t.encoder = some e ∧ u = t.byCw e := by
  cases m with
  | mox on => exact .inl ⟨on, rfl, (Option.some.inj h).symm⟩
  | tick r nowMs =>
    simp only [Transmit.step] at h
    split at h
    · exact .inr ⟨_, rfl, (Option.some.inj h).symm⟩
    · cases h
  | send | key | abort | sample => exact .inr ⟨_, rfl, (Option.some.inj h).symm⟩

/-! ## The invariant -/

/-- The flag tells the truth: a MOX that is up in a session is the encoder's if and only if
`we_keyed` is set. -/
structure Transmit.Inv (t : Transmit) : Prop where
  mode : t.encoder.txMode = .idle ↔ t.encoder.active = false
  up : t.encoder.mox = true ↔ t.owner ≠ none
  keyed : t.owner = some .cw → t.encoder.weKeyed = true
  truth : t.encoder.weKeyed = true → t.encoder.active = true ∧ t.owner ≠ some .operator
  ticking : t.encoder.active = true → t.encoder.tickId = true
  balance : t.raised = t.dropped + t.preempted + if t.owner = some .cw then 1 else 0
  stolen : t.stolen = 0

namespace Transmit.Inv

theorem start (mox : Bool) : (Transmit.start mox).Inv := by
  cases mox <;> exact ⟨by decide, by decide, by decide, by decide, by decide, by decide, rfl⟩

theorem keeps {t : Transmit} {e : Encoder} (h : t.Inv) (he : t.encoder.Keeps e) :
    (t.byCw e).Inv := by
  have hby : t.byCw e = { t with encoder := e } := by
    unfold byCw
    rw [he.mox]
    cases t.encoder.mox <;> rfl
  rw [hby]
  refine ⟨?_, ?_, ?_, ?_, fun hactive => ?_, h.balance, h.stolen⟩
  · simpa only [he.txMode, he.active] using h.mode
  · simpa only [he.mox] using h.up
  · simpa only [he.weKeyed] using h.keyed
  · simpa only [he.weKeyed, he.active] using h.truth
  · have hactive := he.active ▸ hactive
    exact (he.tickId hactive).trans (h.ticking hactive)

/-- A MOX that is down belongs to nobody. -/
theorem owner_none {t : Transmit} (h : t.Inv) (hm : t.encoder.mox = false) : t.owner = none := by
  by_contra hne
  simp [h.up.2 hne] at hm

theorem starts {t : Transmit} {e : Encoder} (h : t.Inv) (he : t.encoder.Starts e) :
    (t.byCw e).Inv := by
  have hkeyed : t.encoder.weKeyed ≠ true := fun hk => by
    have := (h.truth hk).1
    simp [he.wasIdle] at this
  have hmode : e.txMode = .idle ↔ e.active = false := by simp [he.txMode, he.active]
  cases hm : t.encoder.mox
  · have howner := h.owner_none hm
    have hby : t.byCw e = { t with encoder := e, owner := some .cw, raised := t.raised + 1 } := by
      simp [byCw, hm, he.mox]
    rw [hby]
    refine ⟨hmode, by simp [he.mox], fun _ => by simp [he.weKeyed, hm],
      fun _ => ⟨he.active, by simp⟩, fun _ => he.tickId, ?_, h.stolen⟩
    have := h.balance
    simp only [howner, reduceCtorEq, if_false, if_true] at this ⊢
    omega
  · have howner : t.owner ≠ some .cw := fun hc => hkeyed (h.keyed hc)
    have hby : t.byCw e = { t with encoder := e } := by simp [byCw, hm, he.mox]
    rw [hby]
    refine ⟨hmode, ?_, fun hc => absurd hc howner, ?_, fun _ => he.tickId, h.balance, h.stolen⟩
    · simpa only [he.mox, hm] using h.up
    · exact fun hk => by simp [he.weKeyed, hm] at hk

theorem ends {t : Transmit} {e : Encoder} (h : t.Inv) (he : t.encoder.Ends e) :
    (t.byCw e).Inv := by
  have hmode : e.txMode = .idle ↔ e.active = false := by simp [he.txMode, he.active]
  have hkeyed : ¬ e.weKeyed = true := by simp [he.weKeyed]
  have hactive : ¬ e.active = true := by simp [he.active]
  cases hm : t.encoder.mox
  · have howner := h.owner_none hm
    have hem : e.mox = false := by simp [he.mox, hm]
    have hby : t.byCw e = { t with encoder := e } := by simp [byCw, hm, hem]
    rw [hby]
    exact ⟨hmode, by simp [hem, howner], by simp [howner], fun hk => absurd hk hkeyed,
      fun ha => absurd ha hactive, h.balance, h.stolen⟩
  · cases hk : t.encoder.weKeyed
    · have howner : t.owner ≠ some .cw := fun hc => by simp [h.keyed hc] at hk
      have hem : e.mox = true := by simp [he.mox, hm, hk]
      have hby : t.byCw e = { t with encoder := e } := by simp [byCw, hm, hem]
      rw [hby]
      exact ⟨hmode, by simpa only [hem, hm] using h.up, fun hc => absurd hc howner,
        fun hk => absurd hk hkeyed, fun ha => absurd ha hactive, h.balance, h.stolen⟩
    · -- the encoder drops its own MOX
      have howner : t.owner = some .cw := by
        have hne := h.up.1 hm
        have hop := (h.truth hk).2
        rcases ho : t.owner with _ | _ | _ <;> simp_all
      have hem : e.mox = false := by simp [he.mox, hk]
      have hby : t.byCw e = { t with encoder := e, owner := none, dropped := t.dropped + 1 } := by
        simp [byCw, hm, hem, howner]
      rw [hby]
      refine ⟨hmode, by simp [hem], nofun, fun hk => absurd hk hkeyed,
        fun ha => absurd ha hactive, ?_, h.stolen⟩
      have := h.balance
      simp only [howner, reduceCtorEq, if_false, if_true] at this ⊢
      omega

theorem byOperator {t : Transmit} {on : Bool} (h : t.Inv) (hclean : cleanMox t (.mox on) = true) :
    (t.byOperator on).Inv := by
  cases hm : t.encoder.mox <;> cases on
  · have howner := h.owner_none hm
    have hby : t.byOperator false = { t with encoder := { t.encoder with mox := false } } := by
      simp [Transmit.byOperator, hm]
    rw [hby]
    exact ⟨h.mode, by simp [howner], h.keyed, h.truth, h.ticking, h.balance, h.stolen⟩
  · -- the operator raises MOX: not in a session whose MOX they dropped
    have howner := h.owner_none hm
    have hkeyed : t.encoder.weKeyed = false := by simpa [cleanMox, hm] using hclean
    have hby : t.byOperator true =
        { t with encoder := { t.encoder with mox := true }, owner := some .operator } := by
      simp [Transmit.byOperator, hm]
    rw [hby]
    refine ⟨h.mode, by simp, by simp, by simp [hkeyed], h.ticking, ?_, h.stolen⟩
    simpa [howner] using h.balance
  · have hby : (t.byOperator false).encoder = { t.encoder with mox := false } ∧
        (t.byOperator false).owner = none ∧ (t.byOperator false).stolen = t.stolen ∧
        (t.byOperator false).raised =
          (t.byOperator false).dropped + (t.byOperator false).preempted := by
      have := h.balance
      by_cases hc : t.owner = some .cw <;> simp_all [Transmit.byOperator, Nat.add_assoc]
    obtain ⟨he, ho, hs, hb⟩ := hby
    refine ⟨?_, by simp [he, ho], by simp [ho], ?_, ?_, by simp [hb, ho], hs.trans h.stolen⟩
    · rw [he]
      exact h.mode
    · rw [he, ho]
      exact fun hk => ⟨(h.truth hk).1, nofun⟩
    · rw [he]
      exact h.ticking
  · have hby : t.byOperator true = { t with encoder := { t.encoder with mox := true } } := by
      simp [Transmit.byOperator, hm]
    rw [hby]
    refine ⟨h.mode, ?_, h.keyed, h.truth, h.ticking, h.balance, h.stolen⟩
    simpa only [hm] using h.up

theorem step {t u : Transmit} {m : Move} (h : t.Inv) (hclean : cleanMox t m = true)
    (hs : t.step m = some u) : u.Inv := by
  obtain ⟨on, rfl, rfl⟩ | ⟨e, hm, rfl⟩ := Transmit.step_cases hs
  · exact h.byOperator hclean
  · obtain he | he | he := Move.encoder_cases h.mode.1 hm
    · exact h.keeps he
    · exact h.starts he
    · exact h.ends he

end Transmit.Inv

/-! ## What the operator may rely on -/

/-- The encoder's MOX is up, and this tick is the end of its session: the message is through or has
stalled, or the key has been up for the hang time. -/
def Encoder.Over (r : Settings) (nowMs : ℤ) (e : Encoder) : Prop :=
  match e.txMode with
  | .keyer => e.keyOn = false ∧ nowMs - e.lastKeyMs > hangMs r
  | .message => e.wavePos ≥ e.waveLen ∨
      e.keyTimeMs ≠ 0 ∧ nowMs - e.keyTimeMs > e.waveLen * 1000 / cwTxRate + cwTxMaxMarginMs
  | .idle => False

/-- A tick ends the session exactly when it is over. -/
theorem Encoder.txTick_of_active {e : Encoder} (r : Settings) (nowMs : ℤ) (ha : e.active = true)
    (hm : e.txMode ≠ .idle) :
    (e.Over r nowMs → e.txTick r nowMs = e.finish) ∧
      (¬ e.Over r nowMs → e.txTick r nowMs = e) := by
  cases hmode : e.txMode with
  | idle => exact absurd hmode hm
  | keyer => simp +contextual [Encoder.Over, Encoder.txTick, ha, hmode]
  | message =>
    simp only [Encoder.Over, Encoder.txTick, ha, hmode]
    constructor
    · rintro (h | h)
      · simp [h]
      · simp [h]
    · intro h
      obtain ⟨h₁, h₂⟩ := not_or.1 h
      simp only [Bool.not_true, Bool.false_eq_true, if_false, reduceCtorEq, if_neg h₁, if_neg h₂]

structure OwnershipSafe (t : Transmit) : Prop where
  /-- The encoder has never dropped a MOX that the operator raised. -/
  stolen : t.stolen = 0
  /-- Every MOX that the encoder raised was dropped once, or it is up. -/
  balance : t.raised = t.dropped + t.preempted + if t.owner = some .cw then 1 else 0
  /-- It is up only in a session, whose timer runs. -/
  session : t.owner = some .cw → t.encoder.active = true ∧ t.encoder.tickId = true
  /-- The encoder drops it by an abort, … -/
  aborted : t.owner = some .cw → ∀ u, t.step .abort = some u →
    u.encoder.mox = false ∧ u.dropped = t.dropped + 1
  /-- … and by the tick that finds the session over. -/
  finished : t.owner = some .cw → ∀ r nowMs u, t.encoder.Over r nowMs →
    t.step (.tick r nowMs) = some u → u.encoder.mox = false ∧ u.dropped = t.dropped + 1
  /-- Nothing else drops it but the operator. -/
  kept : t.owner = some .cw → ∀ m u, t.step m = some u → u.owner = some .cw ∨ m = .abort ∨
    m = .mox false ∨ ∃ r nowMs, m = .tick r nowMs ∧ t.encoder.Over r nowMs
  /-- A session of the message and one of the keyer never meet. -/
  exclusive : ∀ m u, t.step m = some u → u.encoder.txMode = t.encoder.txMode ∨
    t.encoder.txMode = .idle ∨ u.encoder.txMode = .idle
  /-- The keyer has no say in a message. -/
  message : t.encoder.txMode = .message → ∀ r nowMs down u, t.step (.key r nowMs down) = some u →
    u.encoder.keyOn = t.encoder.keyOn ∧ u.encoder.mox = t.encoder.mox

namespace Transmit.Inv

/-- The end of a session in which the encoder's MOX is up. -/
theorem byCw_ends {t : Transmit} {e : Encoder} (h : t.Inv) (hc : t.owner = some .cw)
    (he : t.encoder.Ends e) :
    (t.byCw e).encoder.mox = false ∧ (t.byCw e).dropped = t.dropped + 1 := by
  have hm : t.encoder.mox = true := h.up.2 (by simp [hc])
  have hem : e.mox = false := by simp [he.mox, h.keyed hc]
  simp [byCw, hm, hem, hc]

theorem byCw_keeps {t : Transmit} {e : Encoder} (he : t.encoder.Keeps e) :
    (t.byCw e).owner = t.owner := by
  unfold byCw
  rw [he.mox]
  cases t.encoder.mox <;> rfl

theorem safe {t : Transmit} (h : t.Inv) : OwnershipSafe t where
  stolen := h.stolen
  balance := h.balance
  session hc := by
    have ha := (h.truth (h.keyed hc)).1
    exact ⟨ha, h.ticking ha⟩
  aborted hc u hu := by
    obtain rfl := Option.some.inj hu
    exact h.byCw_ends hc t.encoder.cwTxAbort_ends
  finished hc r nowMs u hover hu := by
    have ha := (h.truth (h.keyed hc)).1
    have hm : t.encoder.txMode ≠ .idle := fun hm => by simp [h.mode.1 hm] at ha
    simp only [Transmit.step, h.ticking ha, if_true] at hu
    obtain rfl := Option.some.inj hu
    rw [(Encoder.txTick_of_active r nowMs ha hm).1 hover]
    exact h.byCw_ends hc t.encoder.finish_ends
  kept hc m u hu := by
    have ha := (h.truth (h.keyed hc)).1
    have hm : t.encoder.txMode ≠ .idle := fun hm => by simp [h.mode.1 hm] at ha
    have hkeeps {e : Encoder} (he : t.encoder.Keeps e ∨ t.encoder.Starts e) :
        (t.byCw e).owner = some .cw := by
      obtain he | he := he
      · exact (byCw_keeps he).trans hc
      · simp [he.wasIdle] at ha
    obtain ⟨on, rfl, rfl⟩ | ⟨e, he, rfl⟩ := Transmit.step_cases hu
    · cases on
      · exact .inr (.inr (.inl rfl))
      · have hmox : t.encoder.mox = true := h.up.2 (by simp [hc])
        exact .inl (by simp [Transmit.byOperator, hmox, hc])
    · cases m with
      | mox on => cases he
      | abort => exact .inr (.inl rfl)
      | send r tune nowMs samples =>
        obtain rfl := Option.some.inj he
        exact .inl (hkeeps (t.encoder.cwTxSendText_cases r tune nowMs samples))
      | key r nowMs down =>
        obtain rfl := Option.some.inj he
        exact .inl (hkeeps (Encoder.cwTxKey_cases r nowMs down h.mode.1))
      | sample =>
        obtain rfl := Option.some.inj he
        exact .inl (hkeeps (.inl t.encoder.cwTxNextSample_keeps))
      | tick r nowMs =>
        obtain rfl := Option.some.inj he
        by_cases hover : t.encoder.Over r nowMs
        · exact .inr (.inr (.inr ⟨r, nowMs, rfl, hover⟩))
        · rw [(Encoder.txTick_of_active r nowMs ha hm).2 hover]
          exact .inl (hkeeps (.inl (.refl _)))
  exclusive m u hu := by
    obtain ⟨on, rfl, rfl⟩ | ⟨e, he, rfl⟩ := Transmit.step_cases hu
    · left
      unfold Transmit.byOperator
      dsimp only
      repeat' split
      all_goals rfl
    · rw [Transmit.byCw_encoder]
      obtain he | he | he := Move.encoder_cases h.mode.1 he
      · exact .inl he.txMode
      · exact .inr (.inl (h.mode.2 he.wasIdle))
      · exact .inr (.inr he.txMode)
  message hm r nowMs down u hu := by
    obtain rfl := Option.some.inj hu
    simp [Encoder.cwTxKey, hm]

end Transmit.Inv

/-- **CW drops its own MOX, once, and never the operator's**, in every run in which the operator
does not raise MOX again in a session whose MOX they dropped. -/
theorem owned_of_clean (mox : Bool) (ms : List Move) (t : Transmit)
    (hrun : (transmitter mox).exec (transmitter mox).init ms = some t)
    (hclean : (transmitter mox).Along (fun t m => cleanMox t m = true) (transmitter mox).init ms) :
    OwnershipSafe t :=
  ((transmitter mox).exec_induction_along (I := Transmit.Inv)
    (fun _ _ _ h hclean hs => h.step hclean hs) ms _ t (.start mox) hclean hrun).safe

/-- A dit at twenty words per minute. -/
def oneDit : List Move :=
  [.key ⟨20, 50, 250, true, true⟩ 1000 true, .key ⟨20, 50, 250, true, true⟩ 1060 false]

/-- After the hang time the encoder drops the MOX that it raised for it. -/
theorem owned_oneDit : ∃ t, (transmitter false).exec (transmitter false).init
    (oneDit ++ [.tick ⟨20, 50, 250, true, true⟩ 1400]) = some t ∧ t.raised = 1 ∧ t.dropped = 1 ∧
      OwnershipSafe t := by
  obtain ⟨t, ht, hd⟩ : ∃ t, (transmitter false).exec (transmitter false).init
      (oneDit ++ [.tick ⟨20, 50, 250, true, true⟩ 1400]) = some t ∧ t.raised = 1 ∧ t.dropped = 1 :=
    System.exists_exec _ (by decide)
  exact ⟨t, ht, hd.1, hd.2, owned_of_clean false _ t ht (by decide)⟩

/-- The operator drops MOX within the hang time and raises it again: the encoder takes it for its
own. -/
theorem steals_mox :
    ¬ ∀ (mox : Bool) (ms : List Move) (t : Transmit),
      (transmitter mox).exec (transmitter mox).init ms = some t → t.stolen = 0 := by
  intro h
  obtain ⟨t, ht, hs⟩ : ∃ t, (transmitter false).exec (transmitter false).init
      (oneDit ++ [.mox false, .mox true, .tick ⟨20, 50, 250, true, true⟩ 1400]) = some t ∧
      t.stolen = 1 := System.exists_exec _ (by decide)
  have := h _ _ t ht
  omega

end MacHPSDR.Cw
