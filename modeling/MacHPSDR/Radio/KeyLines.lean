import MacHPSDR.Foundations.Transition
import MacHPSDR.Radio.TransmitMode
import Mathlib

/-!
# The key lines

The radio reports its PTT, dot and dash lines with every packet. `local_ptt` is what they ask for,
and when it changes, `ext_ptt_changed` is queued, which hands it on to `mox`. Protocol 1 compares
`local_ptt` with its own last value. Protocol 2 compares it with the last value of the PTT line
alone: a radio that a paddle keyed is not unkeyed when the paddle is let go.
-/

namespace MacHPSDR.Radio

/-- The lines of a packet. -/
structure Bits where
  ptt : Bool
  dot : Bool
  dash : Bool

structure Lines where
  rx : Option TxReceiver
  cwKeyerInternal : Bool
  ptt : Bool
  dot : Bool
  dash : Bool
  localPtt : Bool
  /-- How often `ext_ptt_changed` is queued. -/
  queued : ℕ
  mox : Bool

namespace Lines

/-- `process_control_bytes` -/
def processControlBytes (s : Lines) (b : Bits) : Lines :=
  let previousPtt := s.localPtt
  let localPtt :=
    if (transmitterGetMode s.rx).isCw && s.cwKeyerInternal then b.ptt || b.dot || b.dash else b.ptt
  { s with
    ptt := b.ptt
    dot := b.dot
    dash := b.dash
    localPtt := localPtt
    queued := if previousPtt ≠ localPtt then s.queued + 1 else s.queued }

/-- `process_high_priority` -/
def processHighPriority (s : Lines) (b : Bits) : Lines :=
  let previousPtt := s.ptt
  let localPtt := if (transmitterGetMode s.rx).isCw then b.ptt || b.dot || b.dash else b.ptt
  { s with
    ptt := b.ptt
    dot := b.dot
    dash := b.dash
    localPtt := localPtt
    queued := if previousPtt ≠ localPtt then s.queued + 1 else s.queued }

end Lines

inductive KeyEvent
  | packet (b : Bits)
  /-- The mode of the transmitter changes. -/
  | mode (rx : Option TxReceiver)
  /-- `ext_ptt_changed`, and from it `set_mox`. -/
  | drain

/-- The key lines under one of the protocols. -/
def lines (receive : Lines → Bits → Lines) (rx : Option TxReceiver) (cwKeyerInternal : Bool) :
    System Lines KeyEvent where
  init := ⟨rx, cwKeyerInternal, false, false, false, false, 0, false⟩
  step s
    | .packet b => some (receive s b)
    | .mode rx => some { s with rx := rx }
    | .drain =>
      if s.queued = 0 then none else some { s with queued := s.queued - 1, mox := s.localPtt }

namespace Lines

/-- A packet that changes `local_ptt` queues `ext_ptt_changed`. -/
def Notifies (receive : Lines → Bits → Lines) (s : Lines) : KeyEvent → Prop
  | .packet b => (receive s b).localPtt ≠ s.localPtt → (receive s b).queued = s.queued + 1
  | _ => True

/-- The PTT line was all that keyed the radio, or the packet leaves it other than that line was. -/
def Clean (s : Lines) : KeyEvent → Prop
  | .packet b => s.localPtt = s.ptt ∨ (s.processHighPriority b).localPtt ≠ s.ptt
  | _ => True

/-- What is queued will bring `mox` up to date. -/
def Inv (s : Lines) : Prop := s.queued = 0 → s.mox = s.localPtt

end Lines

/-- What the lines and the modes are, without the schedule. -/
def KeyEvent.isInput : KeyEvent → Bool
  | .drain => false
  | _ => true

namespace Lines

theorem notifies_processControlBytes (s : Lines) (a : KeyEvent) :
    s.Notifies processControlBytes a := by
  cases a with
  | packet b => exact fun h => if_pos h.symm
  | mode rx => trivial
  | drain => trivial

/-- Protocol 2 notices a change if and only if the packet is clean. -/
theorem notifies_processHighPriority (s : Lines) (a : KeyEvent) :
    s.Notifies processHighPriority a ↔ s.Clean a := by
  cases a with
  | packet b =>
    have hqueued : (s.processHighPriority b).queued =
        if s.ptt ≠ (s.processHighPriority b).localPtt then s.queued + 1 else s.queued := rfl
    change (_ → _ = _) ↔ (_ ∨ _)
    rw [hqueued]
    generalize (s.processHighPriority b).localPtt = l
    cases l <;> cases s.localPtt <;> cases s.ptt <;> simp
  | mode rx => exact Iff.rfl
  | drain => exact Iff.rfl

variable {receive : Lines → Bits → Lines}

/-- What both protocols do with a packet besides the queue. -/
structure Receives (receive : Lines → Bits → Lines) : Prop where
  rx : ∀ s b, (receive s b).rx = s.rx
  cwKeyerInternal : ∀ s b, (receive s b).cwKeyerInternal = s.cwKeyerInternal
  mox : ∀ s b, (receive s b).mox = s.mox
  queued : ∀ s b, s.queued ≤ (receive s b).queued
  localPtt : ∀ s b, s.cwKeyerInternal = true → (receive s b).localPtt =
    if (transmitterGetMode s.rx).isCw then b.ptt || b.dot || b.dash else b.ptt

theorem le_counted (c : Prop) [Decidable c] (n : ℕ) : n ≤ if c then n + 1 else n := by
  split
  · exact Nat.le_succ n
  · exact le_rfl

theorem receives_processControlBytes : Receives processControlBytes where
  rx _ _ := rfl
  cwKeyerInternal _ _ := rfl
  mox _ _ := rfl
  queued _ _ := le_counted _ _
  localPtt s b h := by
    unfold processControlBytes
    rw [h, Bool.and_true]

theorem receives_processHighPriority : Receives processHighPriority where
  rx _ _ := rfl
  cwKeyerInternal _ _ := rfl
  mox _ _ := rfl
  queued _ _ := le_counted _ _
  localPtt _ _ _ := rfl

/-- **One step** that notifies keeps the invariant. -/
theorem Inv.step (hreceive : Receives receive) {rx : Option TxReceiver} {keyer : Bool}
    {s t : Lines} {a : KeyEvent} (hs : s.Inv) (ha : s.Notifies receive a)
    (h : (lines receive rx keyer).step s a = some t) : t.Inv := by
  cases a with
  | packet b =>
    obtain rfl := Option.some.inj h
    intro hzero
    have hle := hreceive.queued s b
    by_cases hchange : (receive s b).localPtt = s.localPtt
    · rw [hreceive.mox, hchange]
      exact hs (by omega)
    · have hqueued : (receive s b).queued = s.queued + 1 := ha hchange
      omega
  | mode rx =>
    obtain rfl := Option.some.inj h
    exact hs
  | drain =>
    change (if s.queued = 0 then none else some _) = some t at h
    split at h
    · cases h
    · obtain rfl := Option.some.inj h
      exact fun _ => rfl

/-- Without a schedule: the mode, and what the lines ask for with the keyer on. -/
def follow (v : Option TxReceiver × Bool) : KeyEvent → Option TxReceiver × Bool
  | .packet b =>
    (v.1, if (transmitterGetMode v.1).isCw then b.ptt || b.dot || b.dash else b.ptt)
  | .mode rx => (rx, v.2)
  | .drain => v

/-- With the keyer on, `local_ptt` follows the lines and the modes, whatever the schedule. -/
theorem follow_run (hreceive : Receives receive) {rx : Option TxReceiver} (as : List KeyEvent)
    {s t : Lines} (hkeyer : s.cwKeyerInternal = true)
    (h : (lines receive rx true).exec s as = some t) :
    (t.rx, t.localPtt) = (as.filter KeyEvent.isInput).foldl follow (s.rx, s.localPtt) := by
  induction as generalizing s with
  | nil =>
    obtain rfl := Option.some.inj h
    rfl
  | cons a as ih =>
    obtain ⟨u, hu, ht⟩ := (lines receive rx true).exec_cons.1 h
    have hstep : u.cwKeyerInternal = true ∧ (u.rx, u.localPtt) = follow (s.rx, s.localPtt) a := by
      cases a with
      | packet b =>
        obtain rfl := Option.some.inj hu
        refine ⟨(hreceive.cwKeyerInternal s b).trans hkeyer, ?_⟩
        exact Prod.ext (hreceive.rx s b) (hreceive.localPtt s b hkeyer)
      | mode rx =>
        obtain rfl := Option.some.inj hu
        exact ⟨hkeyer, rfl⟩
      | drain =>
        change (if s.queued = 0 then none else some _) = some u at hu
        split at hu
        · cases hu
        · obtain rfl := Option.some.inj hu
          exact ⟨hkeyer, rfl⟩
    rw [ih hstep.1 ht, hstep.2]
    cases a <;> rfl

end Lines

open Lines

/-- **The key lines of protocol 2**: a run notices every change of `local_ptt` if and only if its
packets are clean. In such a run `mox` is `local_ptt` whenever the queue is drained, and with the
keyer on it is what protocol 1 leaves for the same lines and modes. -/
theorem keyLines (rx : Option TxReceiver) (keyer : Bool) (as : List KeyEvent) :
    ((lines processHighPriority rx keyer).Along (Notifies processHighPriority)
        (lines processHighPriority rx keyer).init as ↔
      (lines processHighPriority rx keyer).Along Clean
        (lines processHighPriority rx keyer).init as) ∧
    ((lines processHighPriority rx keyer).Along Clean
        (lines processHighPriority rx keyer).init as →
      ∀ s, (lines processHighPriority rx keyer).exec
          (lines processHighPriority rx keyer).init as = some s → s.queued = 0 →
        s.mox = s.localPtt ∧
          (keyer = true → ∀ bs u, (lines processControlBytes rx keyer).exec
              (lines processControlBytes rx keyer).init bs = some u → u.queued = 0 →
            bs.filter KeyEvent.isInput = as.filter KeyEvent.isInput → u.mox = s.mox)) := by
  set M2 := lines processHighPriority rx keyer
  set M1 := lines processControlBytes rx keyer
  have hinit : ∀ s : Lines, s.mox = false → s.localPtt = false → s.Inv :=
    fun s hmox hptt _ => hmox.trans hptt.symm
  refine ⟨M2.along_congr (I := fun _ => True) (fun _ _ _ _ _ _ => trivial)
    (fun s a _ => s.notifies_processHighPriority a) as trivial, fun hclean s hs hzero => ?_⟩
  have hmox : s.mox = s.localPtt := M2.exec_induction_along (I := Inv)
    (fun s a t hs ha h => hs.step receives_processHighPriority
      ((s.notifies_processHighPriority a).2 ha) h) as _ s (hinit _ rfl rfl) hclean hs hzero
  refine ⟨hmox, ?_⟩
  rintro rfl bs u hu huzero hinputs
  have hu' : u.mox = u.localPtt := M1.exec_induction_along (I := Inv) (P := fun _ _ => True)
    (fun s a t hs _ h => hs.step receives_processControlBytes (s.notifies_processControlBytes a) h)
    bs _ u (hinit _ rfl rfl) (M1.along_true _ bs) hu huzero
  have h1 := follow_run receives_processControlBytes bs rfl hu
  have h2 := follow_run receives_processHighPriority as rfl hs
  rw [hu', hmox]
  exact (Prod.ext_iff.1 (h1.trans (hinputs ▸ h2.symm))).2

/-! ## A hand key and a paddle -/

instance : DecidableRel Clean := fun s a =>
  match a with
  | .packet b =>
    inferInstanceAs (Decidable (s.localPtt = s.ptt ∨ (s.processHighPriority b).localPtt ≠ s.ptt))
  | .mode _ => .isTrue trivial
  | .drain => .isTrue trivial

/-- The PTT line is pressed and let go. -/
def handKey : List KeyEvent :=
  [.packet ⟨true, false, false⟩, .drain, .packet ⟨false, false, false⟩, .drain]

theorem keyLines_handKey : ∃ s, (lines processHighPriority none true).exec
    (lines processHighPriority none true).init handKey = some s ∧ s.mox = s.localPtt :=
  ⟨_, rfl, ((keyLines none true handKey).2 (by decide) _ rfl rfl).1⟩

/-- In CW a paddle is pressed and let go. -/
def paddle : List KeyEvent :=
  [.mode (some ⟨false, .cwu, .cwu⟩), .packet ⟨false, false, true⟩, .drain,
    .packet ⟨false, false, false⟩]

/-- Nothing is queued, and the radio stays keyed; under protocol 1 it does not. -/
theorem not_keyLines :
    (∃ s, (lines processHighPriority none true).exec
        (lines processHighPriority none true).init paddle = some s ∧
      s.queued = 0 ∧ s.localPtt = false ∧ s.mox = true) ∧
    ∃ u, (lines processControlBytes none true).exec
        (lines processControlBytes none true).init (paddle ++ [.drain]) = some u ∧
      u.queued = 0 ∧ u.localPtt = false ∧ u.mox = false :=
  ⟨⟨_, rfl, rfl, rfl, rfl⟩, ⟨_, rfl, rfl, rfl, rfl⟩⟩

end MacHPSDR.Radio
