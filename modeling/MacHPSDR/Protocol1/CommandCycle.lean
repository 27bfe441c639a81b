import MacHPSDR.Foundations.Transition
import MacHPSDR.Radio.Device
import Mathlib

/-!
# The command cycle of protocol 1

Each call of `ozy_send_buffer` fills one half of a packet: the first half is a general frame, the
second a command frame. Which command it is, is kept in three counters: the half
(`metis_offset`, moved by `metis_write`), the command, and for command 2 the receiver. Together they
go round: the command frames come in a fixed order, one after the other, and each is due again after
as many command frames as there are (`visits_run`).

Two things are not as they should be. Over USB `metis_write` is not called, and every frame is a
general one. And `metis_restart` sends every command once, not twice: the first of its two loops
ends with its first call, a general frame, since `command` is still 1.
-/

namespace MacHPSDR.Protocol1

open Radio

/-! ## The model -/

structure Config where
  /-- `USBOZY` -/
  usbozy : Bool
  device : Device
  supportedReceivers : ℕ
  supported_pos : 0 < supportedReceivers

/-- The one-shot requests of the HL2, as they are at a call. -/
structure Hl2Flags where
  i2cWriteQueued : Bool
  adc2ValueToSend : Bool

/-- What command 11 asks of the HL2. -/
inductive Hl2Request
  | i2c
  | adc2Gain
  | txBuffer
  deriving DecidableEq

/-- A frame, by its kind. -/
inductive Sent
  | general
  | command (command currentRx : ℕ) (hl2 : Option Hl2Request)
  deriving DecidableEq

structure Counters where
  metisOffset : ℕ
  command : ℕ
  currentRx : ℕ
  deriving DecidableEq

namespace Hl2Flags

def request (x : Hl2Flags) : Hl2Request :=
  if x.i2cWriteQueued then .i2c else if x.adc2ValueToSend then .adc2Gain else .txBuffer

end Hl2Flags

namespace Config

variable (cfg : Config)

/-- Frames go to `ozyusb_write`. -/
def usb : Bool := cfg.usbozy && cfg.device = .ozy

/-- The highest command. -/
def lastCommand : ℕ := if cfg.device = .hermesLite2 then 11 else 10

/-- `current_rx` after command 2. -/
def nextRx (currentRx : ℕ) : ℕ :=
  let currentRx := if currentRx < cfg.supportedReceivers then currentRx + 1 else currentRx
  if currentRx ≥ cfg.supportedReceivers then 0 else currentRx

/-- `metis_write`, as far as it moves the half. -/
def metisWrite (c : Counters) : Counters :=
  if c.metisOffset = 8 then { c with metisOffset := 520 } else { c with metisOffset := 8 }

/-- The end of `ozy_send_buffer`. -/
def write (c : Counters) : Counters := if cfg.usb then c else metisWrite c

/-- `ozy_send_buffer` -/
def ozySendBuffer (c : Counters) (x : Hl2Flags) : Counters × Sent :=
  if c.metisOffset = 8 then (cfg.write c, .general)
  else
    let hl2 := if c.command = 11 ∧ cfg.device = .hermesLite2 then some x.request else none
    let sent := Sent.command c.command c.currentRx hl2
    let currentRx := if c.command = 2 then cfg.nextRx c.currentRx else c.currentRx
    let command :=
      if currentRx = 0 then
        if c.command + 1 > cfg.lastCommand then 1 else c.command + 1
      else c.command
    (cfg.write { c with command := command, currentRx := currentRx }, sent)

/-- Calls of `ozy_send_buffer`, and what they send. -/
def run : Counters → List Hl2Flags → Counters × List Sent
  | c, [] => (c, [])
  | c, x :: xs =>
    let (d, f) := cfg.ozySendBuffer c x
    let (e, fs) := run d xs
    (e, f :: fs)

/-- `do { ozy_send_buffer(); } while (command!=1);`: `none` if the calls do not suffice. -/
def sendRound : Counters → List Hl2Flags → Option (Counters × List Sent × List Hl2Flags)
  | _, [] => none
  | c, x :: xs =>
    let (d, f) := cfg.ozySendBuffer c x
    if d.command = 1 then some (d, [f], xs)
    else (sendRound d xs).map fun (e, fs, ys) => (e, f :: fs, ys)

/-- `metis_restart`, up to the start packet. -/
def metisRestart (xs : List Hl2Flags) : Option (Counters × List Sent × List Hl2Flags) :=
  (cfg.sendRound ⟨8, 1, 0⟩ xs).bind fun (d, fs, ys) =>
    (cfg.sendRound d ys).map fun (e, gs, zs) => (e, fs ++ gs, zs)

end Config

/-- What can happen to the counters. -/
inductive CycleEvent
  | send (x : Hl2Flags)
  | restart (xs : List Hl2Flags)

/-- The counters of the program. -/
def cycle (cfg : Config) : System Counters CycleEvent where
  init := ⟨8, 1, 0⟩
  step c
    | .send x => some (cfg.ozySendBuffer c x).1
    | .restart xs => (cfg.metisRestart xs).map fun r => r.1

/-! ## What is promised -/

namespace Sent

def isGeneral : Sent → Bool
  | general => true
  | command .. => false

/-- The command and the receiver of a frame. -/
def key? : Sent → Option (ℕ × ℕ)
  | general => none
  | command k i _ => some (k, i)

end Sent

namespace Config

variable (cfg : Config)

/-- The command frames that there are: one for each command, and of command 2 one for each
receiver. -/
def Due (key : ℕ × ℕ) : Prop :=
  (key.1 = 2 ∧ key.2 < cfg.supportedReceivers) ∨
    (key.1 ≠ 2 ∧ 1 ≤ key.1 ∧ key.1 ≤ cfg.lastCommand ∧ key.2 = 0)

/-- General frames alternate with command frames, and no command has to wait for more than
`2 * (n + 10)` calls. -/
def Cycles : Prop :=
  ∀ c, (cycle cfg).Reachable c → ∀ xs,
    (cfg.run c xs).2.IsChain (fun f g => f.isGeneral ≠ g.isGeneral) ∧
      (xs.length = 2 * (cfg.supportedReceivers + 10) →
        ∀ key, cfg.Due key → ∃ f ∈ (cfg.run c xs).2, f.key? = some key)

/-- "send commands twice" -/
def RestartsTwice : Prop :=
  ∃ bound, ∀ xs : List Hl2Flags, bound ≤ xs.length → ∃ d sent ys,
    cfg.metisRestart xs = some (d, sent, ys) ∧
      ∀ key, cfg.Due key → 2 ≤ (sent.filterMap Sent.key?).count key

end Config

/-! ## The order of the command frames -/

namespace Config

variable (cfg : Config)

/-- The number of command frames. -/
def period : ℕ := cfg.lastCommand - 1 + cfg.supportedReceivers

/-- The command frame of a phase. -/
def keyAt (p : ℕ) : ℕ × ℕ :=
  if p = 0 then (1, 0)
  else if p ≤ cfg.supportedReceivers then (2, p - 1)
  else (p - cfg.supportedReceivers + 2, 0)

/-- The counters of a phase. -/
def counters (metisOffset p : ℕ) : Counters := ⟨metisOffset, (cfg.keyAt p).1, (cfg.keyAt p).2⟩

theorem lastCommand_bounds : 10 ≤ cfg.lastCommand ∧ cfg.lastCommand ≤ 11 := by
  unfold lastCommand
  split <;> omega

theorem period_bounds : 1 < cfg.period ∧ cfg.period ≤ cfg.supportedReceivers + 10 := by
  have hlast := cfg.lastCommand_bounds
  unfold period
  omega

theorem keyAt_zero : cfg.keyAt 0 = (1, 0) := rfl

theorem keyAt_rx {p : ℕ} (h0 : 0 < p) (h : p ≤ cfg.supportedReceivers) :
    cfg.keyAt p = (2, p - 1) := by
  unfold keyAt
  rw [if_neg h0.ne', if_pos h]

theorem keyAt_late {p : ℕ} (h : cfg.supportedReceivers < p) :
    cfg.keyAt p = (p - cfg.supportedReceivers + 2, 0) := by
  unfold keyAt
  rw [if_neg (Nat.ne_zero_of_lt h), if_neg h.not_ge]

/-- Command 1, command 2 for one of the receivers, or one of the others. -/
theorem phase_cases (p : ℕ) :
    p = 0 ∨ (0 < p ∧ p ≤ cfg.supportedReceivers) ∨ cfg.supportedReceivers < p := by
  omega

/-- The commands that are due are those of the phases. -/
theorem due_iff (key : ℕ × ℕ) : cfg.Due key ↔ ∃ p < cfg.period, cfg.keyAt p = key := by
  have hlast := cfg.lastCommand_bounds
  have hn := cfg.supported_pos
  unfold Due period
  constructor
  · obtain ⟨k, i⟩ := key
    dsimp only
    rintro (⟨rfl, hi⟩ | ⟨hk, h1, hle, rfl⟩)
    · exact ⟨i + 1, by omega, cfg.keyAt_rx (Nat.succ_pos i) hi⟩
    · obtain rfl | hone := eq_or_ne k 1
      · exact ⟨0, by omega, rfl⟩
      · refine ⟨k + cfg.supportedReceivers - 2, by omega, ?_⟩
        rw [cfg.keyAt_late (by omega)]
        exact Prod.ext (show _ + 2 = k by omega) rfl
  · rintro ⟨p, hp, rfl⟩
    obtain rfl | ⟨h0, hle⟩ | hlt := cfg.phase_cases p
    · rw [keyAt_zero]
      dsimp only
      omega
    · rw [cfg.keyAt_rx h0 hle]
      dsimp only
      omega
    · rw [cfg.keyAt_late hlt]
      dsimp only
      omega

theorem keyAt_injective : Function.Injective cfg.keyAt := by
  intro p q h
  obtain rfl | ⟨hp0, hp⟩ | hp := cfg.phase_cases p <;>
    obtain rfl | ⟨hq0, hq⟩ | hq := cfg.phase_cases q <;>
    simp only [keyAt_zero, keyAt_rx, keyAt_late, Prod.mk.injEq, *] at h <;> omega

/-- Only the first phase is that of command 1. -/
theorem keyAt_command_ne {p : ℕ} (h0 : 0 < p) : (cfg.keyAt p).1 ≠ 1 := by
  obtain rfl | ⟨-, hle⟩ | hlt := cfg.phase_cases p
  · exact absurd rfl h0.ne
  · rw [cfg.keyAt_rx h0 hle]
    exact show 2 ≠ 1 by decide
  · rw [cfg.keyAt_late hlt]
    exact show p - _ + 2 ≠ 1 by omega

/-- A general frame: the half is filled, no counter moves. -/
theorem ozySendBuffer_general (p : ℕ) (x : Hl2Flags) :
    cfg.ozySendBuffer (cfg.counters 8 p) x =
      (cfg.counters (if cfg.usb then 8 else 520) p, .general) := by
  unfold ozySendBuffer write
  split
  · split <;> rfl
  · rename_i h
    exact absurd rfl h

/-- **A command frame**: the one of the phase is sent, and the next phase begins. -/
theorem ozySendBuffer_command (husb : cfg.usb = false) (p : ℕ) (hp : p < cfg.period)
    (x : Hl2Flags) :
    ∃ f, cfg.ozySendBuffer (cfg.counters 520 p) x =
        (cfg.counters 8 ((p + 1) % cfg.period), f) ∧ f.key? = some (cfg.keyAt p) ∧
      f.isGeneral = false := by
  have hlast := cfg.lastCommand_bounds
  have hn := cfg.supported_pos
  have hnext : (p + 1) % cfg.period = if p + 1 = cfg.period then 0 else p + 1 := by
    split
    · rename_i h
      rw [h, Nat.mod_self]
    · exact Nat.mod_eq_of_lt (by omega)
  have hsend (k i : ℕ) : (cfg.ozySendBuffer ⟨520, k, i⟩ x).1 =
      let currentRx := if k = 2 then cfg.nextRx i else i
      ⟨8, if currentRx = 0 then if k + 1 > cfg.lastCommand then 1 else k + 1 else k,
        currentRx⟩ := by
    unfold ozySendBuffer write
    rw [husb]
    rfl
  refine ⟨_, Prod.ext ?_ rfl, rfl, rfl⟩
  rw [hnext]
  refine (hsend _ _).trans ?_
  unfold counters
  dsimp only
  obtain rfl | ⟨h0, hle⟩ | hlt := cfg.phase_cases p
  · have hmore : 0 + 1 ≠ cfg.period := cfg.period_bounds.1.ne
    have hlow : ¬ 1 + 1 > cfg.lastCommand := by omega
    rw [if_neg hmore, cfg.keyAt_zero, cfg.keyAt_rx Nat.one_pos hn]
    simp [hlow]
  · have hmore : p + 1 ≠ cfg.period := by
      unfold period
      omega
    have hlow : ¬ 2 + 1 > cfg.lastCommand := by omega
    have hrx : cfg.nextRx (p - 1) = if p = cfg.supportedReceivers then 0 else p := by
      have hback : p - 1 + 1 = p := by omega
      have hend : p ≥ cfg.supportedReceivers ↔ p = cfg.supportedReceivers := by omega
      unfold nextRx
      rw [if_pos (show p - 1 < _ by omega), hback]
      simp only [hend]
    rw [if_neg hmore, cfg.keyAt_rx h0 hle]
    simp only [if_true, hrx]
    by_cases hp' : p = cfg.supportedReceivers
    · rw [cfg.keyAt_late (show _ < p + 1 by omega), if_pos hp', if_pos rfl, if_neg hlow, hp',
        Nat.add_sub_cancel_left]
    · rw [cfg.keyAt_rx (Nat.succ_pos p) (by omega), if_neg hp', if_neg h0.ne']
      rfl
  · have htwo : p - cfg.supportedReceivers + 2 ≠ 2 := by omega
    rw [cfg.keyAt_late hlt]
    simp only [if_neg htwo, if_true]
    by_cases hend : p + 1 = cfg.period
    · have hhigh : p - cfg.supportedReceivers + 2 + 1 > cfg.lastCommand := by
        unfold period at hend
        omega
      rw [if_pos hend, if_pos hhigh, keyAt_zero]
    · have hlow : ¬ p - cfg.supportedReceivers + 2 + 1 > cfg.lastCommand := by
        unfold period at hend hp
        omega
      have hsucc : p + 1 - cfg.supportedReceivers = p - cfg.supportedReceivers + 1 := by omega
      rw [if_neg hend, if_neg hlow, cfg.keyAt_late (show _ < p + 1 by omega), hsucc]

/-- The counters are those of a phase. -/
def InCycle (c : Counters) : Prop :=
  ∃ half p, (half = 8 ∨ half = 520) ∧ p < cfg.period ∧ c = cfg.counters half p

theorem inCycle_ozySendBuffer (husb : cfg.usb = false) {c : Counters} (hc : cfg.InCycle c)
    (x : Hl2Flags) : cfg.InCycle (cfg.ozySendBuffer c x).1 := by
  obtain ⟨half, p, rfl | rfl, hp, rfl⟩ := hc
  · rw [ozySendBuffer_general, husb]
    exact ⟨520, p, .inr rfl, hp, rfl⟩
  · obtain ⟨f, hsend, -⟩ := cfg.ozySendBuffer_command husb p hp x
    rw [hsend]
    exact ⟨8, _, .inl rfl, Nat.mod_lt _ (Nat.zero_lt_of_lt hp), rfl⟩

/-! ## Runs -/

theorem run_cons (c : Counters) (x : Hl2Flags) (xs : List Hl2Flags) :
    cfg.run c (x :: xs) =
      ((cfg.run (cfg.ozySendBuffer c x).1 xs).1,
        (cfg.ozySendBuffer c x).2 :: (cfg.run (cfg.ozySendBuffer c x).1 xs).2) := rfl

/-- **Alternation.** -/
theorem alternates_run (husb : cfg.usb = false) (xs : List Hl2Flags) (c : Counters)
    (hc : cfg.InCycle c) :
    (cfg.run c xs).2.IsChain (fun f g => f.isGeneral ≠ g.isGeneral) ∧
      ∀ f ∈ (cfg.run c xs).2.head?, f.isGeneral = decide (c.metisOffset = 8) := by
  induction xs generalizing c with
  | nil => exact ⟨.nil, fun f hf => by cases hf⟩
  | cons x xs ih =>
    obtain ⟨hchain, hhead⟩ := ih _ (cfg.inCycle_ozySendBuffer husb hc x)
    have hfirst : (cfg.ozySendBuffer c x).2.isGeneral = decide (c.metisOffset = 8) ∧
        decide ((cfg.ozySendBuffer c x).1.metisOffset = 8) ≠ decide (c.metisOffset = 8) := by
      obtain ⟨half, p, rfl | rfl, hp, rfl⟩ := hc
      · rw [ozySendBuffer_general, husb]
        exact ⟨rfl, Bool.false_ne_true⟩
      · obtain ⟨f, hsend, -, hf⟩ := cfg.ozySendBuffer_command husb p hp x
        rw [hsend]
        exact ⟨hf, Bool.false_ne_true.symm⟩
    rw [run_cons]
    refine ⟨List.isChain_cons.2 ⟨fun g hg => ?_, hchain⟩, fun f hf => ?_⟩
    · rw [hfirst.1, hhead g hg]
      exact hfirst.2.symm
    · obtain rfl := Option.some.inj hf
      exact hfirst.1

/-- **The wait for a command**: it is sent within two calls for each phase before its own. The
induction is on these phases. -/
theorem visits_command (husb : cfg.usb = false) (d : ℕ) {p : ℕ} (hp : p < cfg.period)
    (xs : List Hl2Flags) (hlen : 2 * d + 1 ≤ xs.length) :
    ∃ f ∈ (cfg.run (cfg.counters 520 p) xs).2,
      f.key? = some (cfg.keyAt ((p + d) % cfg.period)) := by
  induction d generalizing p xs with
  | zero =>
    obtain ⟨x, xs, rfl⟩ := List.exists_cons_of_length_pos hlen
    obtain ⟨f, hsend, hkey, -⟩ := cfg.ozySendBuffer_command husb p hp x
    have hphase : (p + 0) % cfg.period = p := Nat.mod_eq_of_lt hp
    rw [run_cons, hsend, hphase]
    exact ⟨f, List.mem_cons_self, hkey⟩
  | succ d ih =>
    obtain ⟨x, xs, rfl⟩ := List.exists_cons_of_length_pos (Nat.zero_lt_of_lt hlen)
    rw [List.length_cons] at hlen
    obtain ⟨y, ys, rfl⟩ := List.exists_cons_of_length_pos (show 0 < xs.length by omega)
    rw [List.length_cons] at hlen
    obtain ⟨f, hsend, -⟩ := cfg.ozySendBuffer_command husb p hp x
    have hnext : (p + 1) % cfg.period < cfg.period := Nat.mod_lt _ (Nat.zero_lt_of_lt hp)
    obtain ⟨g, hg, hkey⟩ := ih hnext ys (by omega)
    have hphase : ((p + 1) % cfg.period + d) % cfg.period = (p + (d + 1)) % cfg.period := by
      rw [Nat.mod_add_mod, Nat.add_assoc, Nat.add_comm 1 d]
    rw [run_cons, hsend, run_cons, ozySendBuffer_general, husb]
    exact ⟨g, List.mem_cons_of_mem _ (List.mem_cons_of_mem _ hg), hphase ▸ hkey⟩

theorem visits_run (husb : cfg.usb = false) {c : Counters} (hc : cfg.InCycle c)
    (xs : List Hl2Flags) (hlen : 2 * cfg.period ≤ xs.length) (key : ℕ × ℕ) (hkey : cfg.Due key) :
    ∃ f ∈ (cfg.run c xs).2, f.key? = some key := by
  obtain ⟨half, p, hhalf, hp, rfl⟩ := hc
  obtain ⟨q, hq, rfl⟩ := (cfg.due_iff key).1 hkey
  -- the phases from `p` on to `q`
  obtain ⟨d, hd, hphase⟩ : ∃ d < cfg.period, (p + d) % cfg.period = q := by
    obtain hle | hlt := Nat.lt_or_ge q p
    · refine ⟨q + cfg.period - p, by omega, ?_⟩
      rw [show p + (q + cfg.period - p) = q + cfg.period by omega, Nat.add_mod_right,
        Nat.mod_eq_of_lt hq]
    · refine ⟨q - p, by omega, ?_⟩
      rw [Nat.add_sub_of_le hlt, Nat.mod_eq_of_lt hq]
  rw [← hphase]
  obtain rfl | rfl := hhalf
  · obtain ⟨x, xs, rfl⟩ := List.exists_cons_of_length_pos (show 0 < xs.length by omega)
    rw [List.length_cons] at hlen
    rw [run_cons, ozySendBuffer_general, husb]
    obtain ⟨f, hf, hfkey⟩ := cfg.visits_command husb d hp xs (by omega)
    exact ⟨f, List.mem_cons_of_mem _ hf, hfkey⟩
  · exact cfg.visits_command husb d hp xs (by omega)

/-! ## The restart -/

theorem sendRound_cons (c : Counters) (x : Hl2Flags) (xs : List Hl2Flags) :
    cfg.sendRound c (x :: xs) =
      if (cfg.ozySendBuffer c x).1.command = 1 then
        some ((cfg.ozySendBuffer c x).1, [(cfg.ozySendBuffer c x).2], xs)
      else (cfg.sendRound (cfg.ozySendBuffer c x).1 xs).map fun r =>
        (r.1, (cfg.ozySendBuffer c x).2 :: r.2.1, r.2.2) := rfl

/-- **A whole round** is sent from the phase of the first command on. The induction is on the
phases that are left. -/
theorem sendRound_phase (husb : cfg.usb = false) (m : ℕ) {p : ℕ} (hp : p + m + 1 = cfg.period)
    (xs : List Hl2Flags) (hlen : 2 * m + 1 ≤ xs.length) :
    ∃ sent, cfg.sendRound (cfg.counters 520 p) xs =
        some (cfg.counters 8 0, sent, xs.drop (2 * m + 1)) ∧
      sent.filterMap Sent.key? = (List.range' p (m + 1)).map cfg.keyAt := by
  induction m generalizing p xs with
  | zero =>
    obtain ⟨x, xs, rfl⟩ := List.exists_cons_of_length_pos hlen
    obtain ⟨f, hsend, hkey, -⟩ := cfg.ozySendBuffer_command husb p (by omega) x
    have hwrap : (p + 1) % cfg.period = 0 := by rw [← hp, Nat.add_zero, Nat.mod_self]
    rw [hwrap] at hsend
    rw [sendRound_cons, hsend, if_pos (by rfl)]
    refine ⟨[f], rfl, ?_⟩
    simp [hkey]
  | succ m ih =>
    obtain ⟨x, xs, rfl⟩ := List.exists_cons_of_length_pos (Nat.zero_lt_of_lt hlen)
    rw [List.length_cons] at hlen
    obtain ⟨y, ys, rfl⟩ := List.exists_cons_of_length_pos (show 0 < xs.length by omega)
    rw [List.length_cons] at hlen
    obtain ⟨f, hsend, hkey, -⟩ := cfg.ozySendBuffer_command husb p (by omega) x
    have hnext : (p + 1) % cfg.period = p + 1 := Nat.mod_eq_of_lt (by omega)
    rw [hnext] at hsend
    have hgo (half : ℕ) : (cfg.counters half (p + 1)).command ≠ 1 :=
      cfg.keyAt_command_ne (Nat.succ_pos p)
    obtain ⟨sent, hround, hkeys⟩ := ih (p := p + 1) (by omega) ys (by omega)
    rw [sendRound_cons, hsend, if_neg (hgo 8), sendRound_cons, ozySendBuffer_general, husb,
      if_neg (hgo _)]
    refine ⟨f :: .general :: sent, ?_, ?_⟩
    · exact congrArg (Option.map _) (congrArg (Option.map _) hround)
    · rw [List.filterMap_cons, hkey, List.filterMap_cons]
      exact congrArg (_ :: ·) hkeys

/-- **The restart**: a general frame, and one round. -/
theorem metisRestart_eq (husb : cfg.usb = false) (xs : List Hl2Flags)
    (hlen : 2 * cfg.period ≤ xs.length) :
    ∃ sent ys, cfg.metisRestart xs = some (cfg.counters 8 0, sent, ys) ∧
      sent.filterMap Sent.key? = (List.range cfg.period).map cfg.keyAt := by
  have hperiod := cfg.period_bounds
  obtain ⟨x, xs, rfl⟩ := List.exists_cons_of_length_pos (show 0 < xs.length by omega)
  rw [List.length_cons] at hlen
  obtain ⟨sent, hround, hkeys⟩ :=
    cfg.sendRound_phase husb (cfg.period - 1) (p := 0) (by omega) xs (by omega)
  have hfirst : cfg.sendRound ⟨8, 1, 0⟩ (x :: xs) =
      some (cfg.counters 520 0, [.general], xs) := by
    have hstart : (⟨8, 1, 0⟩ : Counters) = cfg.counters 8 0 := rfl
    rw [hstart, sendRound_cons, ozySendBuffer_general, husb]
    rfl
  refine ⟨.general :: sent, xs.drop (2 * (cfg.period - 1) + 1), ?_, ?_⟩
  · unfold metisRestart
    rw [hfirst]
    exact congrArg (Option.map _) hround
  · rw [List.range_eq_range', show cfg.period = cfg.period - 1 + 1 by omega]
    exact hkeys

/-- Over USB the restart sends two general frames. -/
theorem metisRestart_usb (husb : cfg.usb = true) (x y : Hl2Flags) (xs : List Hl2Flags) :
    cfg.metisRestart (x :: y :: xs) = some (cfg.counters 8 0, [.general, .general], xs) := by
  have hround (x : Hl2Flags) (xs : List Hl2Flags) :
      cfg.sendRound (cfg.counters 8 0) (x :: xs) = some (cfg.counters 8 0, [.general], xs) := by
    rw [sendRound_cons, ozySendBuffer_general, husb]
    rfl
  have hstart : (⟨8, 1, 0⟩ : Counters) = cfg.counters 8 0 := rfl
  unfold metisRestart
  rw [hstart, hround]
  exact congrArg (Option.map _) (hround y xs)

/-! ## What the program does -/

theorem inCycle_sendRound (husb : cfg.usb = false) (xs : List Hl2Flags) {c : Counters}
    (hc : cfg.InCycle c) : ∀ r ∈ cfg.sendRound c xs, cfg.InCycle r.1 := by
  induction xs generalizing c with
  | nil => exact fun r hr => by cases hr
  | cons x xs ih =>
    have hnext := cfg.inCycle_ozySendBuffer husb hc x
    intro r hr
    rw [sendRound_cons] at hr
    split at hr
    · obtain rfl := Option.some.inj hr
      exact hnext
    · obtain ⟨q, hq, rfl⟩ := Option.map_eq_some_iff.1 hr
      exact ih hnext q hq

theorem reachable_inCycle (husb : cfg.usb = false) {c : Counters}
    (hc : (cycle cfg).Reachable c) : cfg.InCycle c := by
  have hperiod := cfg.period_bounds
  have hstart : cfg.InCycle (cfg.counters 8 0) := ⟨8, 0, .inl rfl, by omega, rfl⟩
  refine hc.induction _ hstart fun s a t hs h => ?_
  cases a with
  | send x =>
    obtain rfl := Option.some.inj h
    exact cfg.inCycle_ozySendBuffer husb hs x
  | restart xs =>
    obtain ⟨r, hr, rfl⟩ := Option.map_eq_some_iff.1 h
    obtain ⟨d, hd, hr⟩ := Option.bind_eq_some_iff.1 hr
    obtain ⟨e, he, rfl⟩ := Option.map_eq_some_iff.1 hr
    exact cfg.inCycle_sendRound husb _ (cfg.inCycle_sendRound husb _ hstart d hd) e he

theorem run_usb (husb : cfg.usb = true) (xs : List Hl2Flags) :
    ∀ f ∈ (cfg.run (cfg.counters 8 0) xs).2, f = .general := by
  induction xs with
  | nil => exact fun f hf => absurd hf List.not_mem_nil
  | cons x xs ih =>
    rw [run_cons, ozySendBuffer_general, husb]
    intro f hf
    obtain rfl | hf := List.mem_cons.1 hf
    · rfl
    · exact ih f hf

/-- Command 1 is due. -/
theorem due_first : cfg.Due (1, 0) := by
  have hlast := cfg.lastCommand_bounds
  exact .inr ⟨by decide, le_rfl, show 1 ≤ cfg.lastCommand by omega, rfl⟩

/-- How often the restart sends a command: once, and never over USB. -/
theorem count_metisRestart (xs : List Hl2Flags)
    (hlen : 2 * (cfg.supportedReceivers + 10) ≤ xs.length) :
    ∃ d sent ys, cfg.metisRestart xs = some (d, sent, ys) ∧
      ∀ key, cfg.Due key →
        (sent.filterMap Sent.key?).count key = if cfg.usb then 0 else 1 := by
  have hperiod := cfg.period_bounds
  obtain husb | husb := Bool.eq_false_or_eq_true cfg.usb
  · obtain ⟨x, xs, rfl⟩ := List.exists_cons_of_length_pos (show 0 < xs.length by omega)
    rw [List.length_cons] at hlen
    obtain ⟨y, ys, rfl⟩ := List.exists_cons_of_length_pos (show 0 < xs.length by omega)
    refine ⟨_, _, _, cfg.metisRestart_usb husb x y ys, fun key _ => ?_⟩
    rw [if_pos husb]
    rfl
  · obtain ⟨sent, ys, hrestart, hkeys⟩ := cfg.metisRestart_eq husb xs (by omega)
    refine ⟨_, sent, ys, hrestart, fun key hkey => ?_⟩
    obtain ⟨p, hp, rfl⟩ := (cfg.due_iff key).1 hkey
    rw [hkeys, husb, List.count_map_of_injective _ _ cfg.keyAt_injective]
    exact List.count_eq_one_of_mem List.nodup_range (List.mem_range.2 hp)

theorem not_cycles_of_usb (husb : cfg.usb = true) : ¬ cfg.Cycles := by
  intro h
  obtain ⟨f, hf, hkey⟩ := (h _ ⟨[], rfl⟩ (List.replicate (2 * (cfg.supportedReceivers + 10))
    ⟨false, false⟩)).2 List.length_replicate (1, 0) cfg.due_first
  obtain rfl := cfg.run_usb husb _ f hf
  cases hkey

theorem not_restartsTwice : ¬ cfg.RestartsTwice := by
  rintro ⟨bound, h⟩
  set xs := List.replicate (max bound (2 * (cfg.supportedReceivers + 10)))
    (⟨false, false⟩ : Hl2Flags)
  have hlen : xs.length = max bound (2 * (cfg.supportedReceivers + 10)) := List.length_replicate
  obtain ⟨d, sent, ys, hrestart, htwice⟩ := h xs (by omega)
  obtain ⟨d', sent', ys', hrestart', honce⟩ := cfg.count_metisRestart xs (by omega)
  obtain ⟨-, rfl, -⟩ : d = d' ∧ sent = sent' ∧ ys = ys' := by
    simpa using hrestart.symm.trans hrestart'
  have htwo := htwice _ cfg.due_first
  rw [honce _ cfg.due_first] at htwo
  split at htwo <;> omega

end Config

/-- **The command cycle** goes round on every transport but USB; the restart comes to an end and
has sent each command once, or over USB never, so that it keeps its promise on no device. -/
theorem commandCycle (cfg : Config) :
    (cfg.Cycles ↔ cfg.usb = false) ∧
      (∀ xs : List Hl2Flags, 2 * (cfg.supportedReceivers + 10) ≤ xs.length →
        ∃ d sent ys, cfg.metisRestart xs = some (d, sent, ys) ∧
          ∀ key, cfg.Due key →
            (sent.filterMap Sent.key?).count key = if cfg.usb then 0 else 1) ∧
      ¬ cfg.RestartsTwice := by
  have hperiod := cfg.period_bounds
  refine ⟨⟨fun h => ?_, fun husb c hc xs => ?_⟩, cfg.count_metisRestart, cfg.not_restartsTwice⟩
  · exact Bool.eq_false_of_not_eq_true fun husb => cfg.not_cycles_of_usb husb h
  · have hin := cfg.reachable_inCycle husb hc
    exact ⟨(cfg.alternates_run husb xs c hin).1,
      fun hlen => cfg.visits_run husb hin xs (by omega)⟩

/-- A Hermes with one receiver, and an Ozy. -/
def hermes : Config := ⟨false, .hermes, 1, Nat.one_pos⟩

def usbOzy : Config := ⟨true, .ozy, 1, Nat.one_pos⟩

/-- The restart of the Hermes does not send its commands twice, and the Ozy does not get them. -/
theorem not_commandCycle : ¬ hermes.RestartsTwice ∧ ¬ usbOzy.Cycles :=
  ⟨hermes.not_restartsTwice, usbOzy.not_cycles_of_usb rfl⟩

end MacHPSDR.Protocol1
