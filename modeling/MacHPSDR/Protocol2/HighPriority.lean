import MacHPSDR.Foundations.BitField
import MacHPSDR.Radio.Device
import MacHPSDR.Radio.TransmitMode
import Mathlib

/-!
# The high-priority packet of protocol 2

The packet has the PTT bit and a word of 32 bits for the Alex board: the low-pass filters, the
filters of the receive front end, and the antenna relays each have their own bits in it. What is
wrong with it (`sound_iff`):

* the mode that decides about the PTT bit is that of the other VFO;
* the switch of the low-pass filters falls through from `AUTOMATIC` into `MANUAL`, so that the
  operator's filter is switched on beside the automatic one;
* the automatic low-pass filters of the boards other than Orion 2 have bits of the front end, and
  on the Orion 2 the range from 11 MHz to 22 MHz has the filter of the 6 m band.
-/

namespace MacHPSDR.Protocol2

open Radio BitField

/-! ## The packet -/

structure PriorityState where
  running : Bool
  transmitting : Bool
  tune : Bool
  /-- Tuning is transmitting. -/
  tune_transmitting : tune = true → transmitting = true
  puresignal : Bool
  device : Device
  /-- `transmitter->rx` -/
  rx : TxReceiver
  /-- `frequency_a-lo_a` of the receiver. -/
  rxFrequency : ℤ
  /-- `transmitter_get_frequency` -/
  transmitterFrequency : ℤ
  cwKeyerSidetoneFrequency : ℤ
  filters : Filters
  hpf : Hpf
  lpf : Lpf
  /-- `ANTENNA_1`, `ANTENNA_2`, `ANTENNA_3`, `ANTENNA_XVTR`, `ANTENNA_EXT1`, `ANTENNA_EXT2` -/
  antenna : ℤ
  antenna_bounds : 0 ≤ antenna ∧ antenna ≤ 5
  alexTxAntenna : ℤ
  alexTxAntenna_bounds : 0 ≤ alexTxAntenna ∧ alexTxAntenna ≤ 2

/-- The bytes of the packet: 4, and 1432 to 1435. -/
structure Priority where
  control : UInt8
  alex0 : UInt8
  alex1 : UInt8
  alex2 : UInt8
  alex3 : UInt8

/-- `ALEX_TX_ANTENNA_...`, without the default -/
def antRelay (antenna : ℤ) : ℕ :=
  if antenna = 0 then 0x01000000 else if antenna = 1 then 0x02000000
  else if antenna = 2 then 0x04000000 else 0

/-- `ALEX_..._HPF` -/
def hpfBit : Hpf → ℕ
  | .bypass => 0x1000
  | .hpf1_5 => 0x40
  | .hpf6_5 => 0x20
  | .hpf9_5 => 0x10
  | .hpf13 => 0x02
  | .hpf20 => 0x04

/-- `ALEX_..._LPF` -/
def lpfBit : Lpf → ℕ
  | .lpf160 => 0x800000
  | .lpf80 => 0x400000
  | .lpf60_40 => 0x200000
  | .lpf30_20 => 0x100000
  | .lpf17_15 => 0x80000000
  | .lpf12_10 => 0x40000000
  | .lpf6 => 0x20000000

namespace PriorityState

variable (s : PriorityState)

/-- The mode that the packet looks at. -/
def mode : Mode := if s.rx.split then s.rx.modeA else s.rx.modeB

/-- Byte 4. -/
def control : ℕ :=
  flag s.running 0x01 ||| if s.mode.isCw then flag s.tune 0x02 else flag s.transmitting 0x02

def txFrequency : ℤ :=
  match s.rx.modeA with
  | .cwu => s.transmitterFrequency + s.cwKeyerSidetoneFrequency
  | .cwl => s.transmitterFrequency - s.cwKeyerSidetoneFrequency
  | _ => s.transmitterFrequency

/-- The switch of the front end. -/
def frontEnd : ℕ :=
  match s.filters with
  | .automatic =>
    if s.device = .orion2 then
      if s.rxFrequency < 1500000 then 0x1000
      else if s.rxFrequency < 2100000 then 0x40
      else if s.rxFrequency < 5500000 then 0x20
      else if s.rxFrequency < 11000000 then 0x10
      else if s.rxFrequency < 22000000 then 0x02
      else if s.rxFrequency < 35000000 then 0x04
      else 0x08
    else
      if s.rxFrequency < 1500000 then 0x1000
      else if s.rxFrequency < 6500000 then 0x40
      else if s.rxFrequency < 9500000 then 0x20
      else if s.rxFrequency < 13000000 then 0x10
      else if s.rxFrequency < 20000000 then 0x02
      else if s.rxFrequency < 50000000 then 0x04
      else 0x80
  | .manual => hpfBit s.hpf

/-- The automatic low-pass filter. -/
def automaticLpf : ℕ :=
  if s.device = .orion2 then
    if s.txFrequency > 32000000 then 0x20000000
    else if s.txFrequency > 22000000 then 0x40000000
    else if s.txFrequency > 11000000 then 0x20000000
    else if s.txFrequency > 5500000 then 0x100000
    else if s.txFrequency > 2100000 then 0x200000
    else if s.txFrequency > 1500000 then 0x400000
    else 0x800000
  else
    if s.txFrequency > 35600000 then 0x08
    else if s.txFrequency > 24000000 then 0x04
    else if s.txFrequency > 16500000 then 0x02
    else if s.txFrequency > 8000000 then 0x10
    else if s.txFrequency > 5000000 then 0x20
    else if s.txFrequency > 2500000 then 0x40
    else 0x40

/-- The switch of the low-pass filters; there is no `break` behind the automatic ones. -/
def lowPass : ℕ :=
  match s.filters with
  | .automatic => s.automaticLpf ||| lpfBit s.lpf
  | .manual => lpfBit s.lpf

/-- `ALEX_RX_ANTENNA_...` -/
def rxAntenna : ℕ :=
  if s.antenna = 3 then 0x0C00 else if s.antenna = 4 then 0x0A00
  else if s.antenna = 5 then 0x0900 else 0

/-- The switch of the relays. -/
def relay : ℕ :=
  if s.transmitting then
    if s.alexTxAntenna = 0 ∨ s.alexTxAntenna = 1 ∨ s.alexTxAntenna = 2 then antRelay s.alexTxAntenna
    else 0x01000000
  else if s.antenna = 0 ∨ s.antenna = 1 ∨ s.antenna = 2 then antRelay s.antenna
  else if s.antenna = 3 ∨ s.antenna = 4 ∨ s.antenna = 5 then antRelay s.alexTxAntenna
  else 0

/-- The word of the Alex board. -/
def filterWord : ℕ :=
  flag s.transmitting 0x08000000 ||| flag (s.transmitting && s.puresignal) 0x00040000 |||
    s.frontEnd ||| s.lowPass ||| s.rxAntenna ||| s.relay

/-- `protocol2_high_priority` -/
def highPriority : Priority where
  control := byte s.control
  alex0 := byte (s.filterWord >>> 24 &&& 0xFF)
  alex1 := byte (s.filterWord >>> 16 &&& 0xFF)
  alex2 := byte (s.filterWord >>> 8 &&& 0xFF)
  alex3 := byte (s.filterWord &&& 0xFF)

end PriorityState

/-! ## What the packet should say -/

namespace Priority

variable (p : Priority)

def ptt : Bool := field 1 1 p.control.toNat = 1

/-- The word in the packet. -/
def word : ℕ :=
  p.alex0.toNat <<< 24 ||| p.alex1.toNat <<< 16 ||| p.alex2.toNat <<< 8 ||| p.alex3.toNat

end Priority

/-- The bits of the low-pass filters. -/
def lpfMask : ℕ := 0xE0F00000

/-- The bits of the front end: the high-pass filters, their bypass and the preamplifier. -/
def frontEndMask : ℕ := 0x107E

/-- The bits of the ANT relays. -/
def antMask : ℕ := 0x07000000

/-- The steps from one low-pass filter to the next, from the highest. -/
def steps (d : Device) : List ℤ :=
  if d = .orion2 then [32000000, 22000000, 11000000, 5500000, 2100000, 1500000]
  else [35600000, 24000000, 16500000, 8000000, 5000000, 2500000]

/-- The filters between the steps. -/
def ladder : List Lpf := [.lpf6, .lpf12_10, .lpf17_15, .lpf30_20, .lpf60_40, .lpf80, .lpf160]

/-- The low-pass filter of a frequency. -/
def lpfFor (d : Device) (f : ℤ) : Lpf :=
  (ladder[((steps d).takeWhile fun step => f ≤ step).length]?).getD .lpf160

namespace PriorityState

variable (s : PriorityState)

/-- The filter that should be on. -/
def wantedLpf : Lpf :=
  match s.filters with
  | .automatic => lpfFor s.device s.txFrequency
  | .manual => s.lpf

/-- What the packet should say. -/
structure Sound : Prop where
  ptt : s.highPriority.ptt =
    if (transmitterGetMode (some s.rx)).isCw then s.tune else s.transmitting
  lowPass : s.highPriority.word &&& lpfMask = lpfBit s.wantedLpf
  frontEnd : ∃ k, s.highPriority.word &&& frontEndMask = 2 ^ k
  /-- No filter has a bit of the other field. -/
  apart : s.lowPass &&& frontEndMask = 0 ∧ s.frontEnd &&& lpfMask = 0
  relay : ∃ antenna, 0 ≤ antenna ∧ antenna ≤ 2 ∧
    s.highPriority.word &&& antMask = antRelay antenna ∧
    (s.transmitting → antenna = s.alexTxAntenna)

/-! ## When it does -/

theorem ptt_iff :
    s.highPriority.ptt =
        (if (transmitterGetMode (some s.rx)).isCw then s.tune else s.transmitting) ↔
      s.rx.modeA.isCw = s.rx.modeB.isCw ∨ s.transmitting = s.tune := by
  have hptt : s.highPriority.ptt = if s.mode.isCw then s.tune else s.transmitting := by
    unfold Priority.ptt highPriority control
    rw [field_byte _ (by decide), field_or, field_flag]
    cases s.mode.isCw <;> cases s.tune <;> cases s.transmitting <;> cases s.running <;> rfl
  have htune := s.tune_transmitting
  rw [hptt]
  unfold mode transmitterGetMode
  dsimp only
  rw [apply_ite Mode.isCw, apply_ite Mode.isCw]
  generalize s.rx.split = split, s.rx.modeA.isCw = cwA, s.rx.modeB.isCw = cwB
  generalize s.tune = tune, s.transmitting = transmitting at htune ⊢
  revert split cwA cwB tune transmitting
  decide

/-- The values of the front end. -/
def frontEnds : List ℕ := [0x1000, 0x40, 0x20, 0x10, 0x02, 0x04, 0x08]

theorem hpfBit_mem (h : Hpf) : hpfBit h ∈ frontEnds := by cases h <;> decide

/-- One of the filters is on; it is 50 MHz on the other boards that none of them covers. -/
theorem frontEnd_mem (h : s.filters = .manual ∨ s.device = .orion2) : s.frontEnd ∈ frontEnds := by
  unfold frontEnd
  cases hfilters : s.filters with
  | manual => exact hpfBit_mem _
  | automatic =>
    have hdevice : s.device = .orion2 := h.resolve_left (by simp [hfilters])
    dsimp only
    rw [if_pos hdevice]
    split_ifs <;> decide

theorem frontEnds_masks : ∀ x ∈ frontEnds,
    x &&& frontEndMask = 2 ^ x.log2 ∧ x &&& lpfMask = 0 ∧ x &&& antMask = 0 := by
  decide

theorem antRelay_mem (antenna : ℤ) :
    antRelay antenna ∈ [0, 0x01000000, 0x02000000, 0x04000000] := by
  unfold antRelay
  split_ifs <;> decide

theorem relay_eq : ∃ antenna, 0 ≤ antenna ∧ antenna ≤ 2 ∧ s.relay = antRelay antenna ∧
    (s.transmitting → antenna = s.alexTxAntenna) := by
  obtain ⟨h0, h5⟩ := s.antenna_bounds
  obtain ⟨ht0, ht2⟩ := s.alexTxAntenna_bounds
  unfold relay
  split_ifs with htransmitting htx hrx hext
  · exact ⟨s.alexTxAntenna, ht0, ht2, rfl, fun _ => rfl⟩
  · omega
  · exact ⟨s.antenna, by omega, by omega, rfl, fun h => absurd h htransmitting⟩
  · exact ⟨s.alexTxAntenna, ht0, ht2, rfl, fun h => absurd h htransmitting⟩
  · omega

theorem rxAntenna_mem : s.rxAntenna ∈ [0, 0x0C00, 0x0A00, 0x0900] := by
  unfold rxAntenna
  split_ifs <;> decide

theorem lpfBit_mem (l : Lpf) : lpfBit l ∈ [0x800000, 0x400000, 0x200000, 0x100000, 0x80000000,
    0x40000000, 0x20000000] := by
  cases l <;> decide

theorem lpfBit_injective : Function.Injective lpfBit := by
  intro l m h
  cases l <;> cases m <;> first | rfl | exact absurd h (by decide)

/-- The automatic filter of an Orion 2 is that of its range, but for one range. -/
theorem automaticLpf_orion2 (h : s.device = .orion2) :
    s.automaticLpf = if lpfFor .orion2 s.txFrequency = .lpf17_15 then lpfBit .lpf6
      else lpfBit (lpfFor .orion2 s.txFrequency) := by
  unfold automaticLpf lpfFor steps ladder
  rw [if_pos h, if_pos rfl]
  split_ifs <;> simp_all <;> rfl

/-- On the other boards it is a bit of the front end. -/
theorem automaticLpf_frontEnd (h : s.device ≠ .orion2) :
    s.automaticLpf ∈ [0x08, 0x04, 0x02, 0x10, 0x20, 0x40] := by
  unfold automaticLpf
  rw [if_neg h]
  split_ifs <;> decide

/-- The parts of the word beside the two filters have no bit of them. -/
theorem rest_masks : s.filterWord &&& lpfMask = (s.frontEnd ||| s.lowPass) &&& lpfMask ∧
    s.filterWord &&& frontEndMask = (s.frontEnd ||| s.lowPass) &&& frontEndMask ∧
    s.filterWord &&& antMask = ((s.frontEnd ||| s.lowPass) &&& antMask) ||| s.relay := by
  have hrx : ∀ x ∈ [0, 0x0C00, 0x0A00, 0x0900],
      x &&& lpfMask = 0 ∧ x &&& frontEndMask = 0 ∧ x &&& antMask = 0 := by decide
  have hrelay : ∀ x ∈ [0, 0x01000000, 0x02000000, 0x04000000],
      x &&& lpfMask = 0 ∧ x &&& frontEndMask = 0 ∧ x &&& antMask = x := by decide
  obtain ⟨antenna, -, -, hantenna, -⟩ := s.relay_eq
  obtain ⟨hrx₁, hrx₂, hrx₃⟩ := hrx _ s.rxAntenna_mem
  obtain ⟨hr₁, hr₂, hr₃⟩ := hrelay _ (hantenna ▸ antRelay_mem antenna)
  have hflag (b : Bool) (bits mask : ℕ) (h : bits &&& mask = 0) : flag b bits &&& mask = 0 := by
    cases b <;> simp [flag, h]
  unfold filterWord
  simp only [Nat.and_or_distrib_right, hrx₁, hrx₂, hrx₃, hr₁, hr₂, hr₃,
    hflag _ 0x08000000 lpfMask rfl, hflag _ 0x08000000 frontEndMask rfl,
    hflag _ 0x08000000 antMask rfl, hflag _ 0x00040000 lpfMask rfl,
    hflag _ 0x00040000 frontEndMask rfl, hflag _ 0x00040000 antMask rfl, Nat.or_zero, Nat.zero_or]
  exact ⟨trivial, trivial, trivial⟩

theorem frontEnd_lt : s.frontEnd < 2 ^ 32 := by
  have hbit : ∀ x ∈ frontEnds, x < 2 ^ 32 := by decide
  unfold frontEnd
  cases s.filters with
  | automatic => dsimp only; split_ifs <;> decide
  | manual => exact hbit _ (hpfBit_mem _)

theorem lowPass_lt : s.lowPass < 2 ^ 32 := by
  have hbit : ∀ l, lpfBit l < 2 ^ 32 := by intro l; cases l <;> decide
  unfold lowPass
  cases s.filters with
  | automatic =>
    apply Nat.or_lt_two_pow _ (hbit _)
    unfold automaticLpf
    split_ifs <;> decide
  | manual => exact hbit _

/-- The four bytes have the whole word. -/
theorem word_eq : s.highPriority.word = s.filterWord := by
  have hflag (b : Bool) {bits : ℕ} (h : bits < 2 ^ 32) : flag b bits < 2 ^ 32 := by
    cases b
    · exact Nat.two_pow_pos 32
    · exact h
  have hrx : ∀ x ∈ [0, 0x0C00, 0x0A00, 0x0900], x < 2 ^ 32 := by decide
  have hrelay : ∀ x ∈ [0, 0x01000000, 0x02000000, 0x04000000], x < 2 ^ 32 := by decide
  obtain ⟨antenna, -, -, hantenna, -⟩ := s.relay_eq
  have hlt : s.filterWord < 2 ^ 32 := by
    unfold filterWord
    refine Nat.or_lt_two_pow (Nat.or_lt_two_pow (Nat.or_lt_two_pow (Nat.or_lt_two_pow
      (Nat.or_lt_two_pow ?_ ?_) ?_) ?_) ?_) ?_
    · exact hflag _ (by decide)
    · exact hflag _ (by decide)
    · exact s.frontEnd_lt
    · exact s.lowPass_lt
    · exact hrx _ s.rxAntenna_mem
    · exact hrelay _ (hantenna ▸ antRelay_mem antenna)
  exact word_bytes hlt

/-- Where the automatic filters are low-pass filters, nothing of them is in the front end. -/
theorem lowPass_masks (h : s.filters = .manual ∨ s.device = .orion2) :
    s.lowPass &&& lpfMask = s.lowPass ∧ s.lowPass &&& frontEndMask = 0 ∧
      s.lowPass &&& antMask = 0 := by
  have hbit : ∀ l, lpfBit l &&& lpfMask = lpfBit l ∧ lpfBit l &&& frontEndMask = 0 ∧
      lpfBit l &&& antMask = 0 := by intro l; cases l <;> decide
  obtain ⟨h₁, h₂, h₃⟩ := hbit s.lpf
  unfold lowPass
  cases hfilters : s.filters with
  | manual => exact hbit s.lpf
  | automatic =>
    have hdevice : s.device = .orion2 := h.resolve_left (by simp [hfilters])
    obtain ⟨l, hl⟩ : ∃ l, s.automaticLpf = lpfBit l := by
      rw [s.automaticLpf_orion2 hdevice]
      split_ifs
      exacts [⟨_, rfl⟩, ⟨_, rfl⟩]
    obtain ⟨ha₁, ha₂, ha₃⟩ := hbit l
    dsimp only
    rw [hl]
    simp only [Nat.and_or_distrib_right, h₁, h₂, h₃, ha₁, ha₂, ha₃, Nat.or_zero]
    exact ⟨trivial, trivial, trivial⟩

/-- Two filters are on, unless the operator's is the automatic one. -/
theorem lowPass_eq_iff (h : s.filters = .manual ∨ s.device = .orion2) :
    s.lowPass = lpfBit s.wantedLpf ↔ s.filters = .manual ∨
      (s.device = .orion2 ∧ s.lpf = lpfFor .orion2 s.txFrequency ∧
        lpfFor .orion2 s.txFrequency ≠ .lpf17_15) := by
  unfold lowPass wantedLpf
  cases hfilters : s.filters with
  | manual => simp
  | automatic =>
    have hdevice : s.device = .orion2 := h.resolve_left (by simp [hfilters])
    have hjoin : ∀ l m : Lpf, (if l = .lpf17_15 then lpfBit .lpf6 else lpfBit l) ||| lpfBit m =
        lpfBit l ↔ m = l ∧ l ≠ .lpf17_15 := by
      intro l m
      cases l <;> cases m <;> decide
    dsimp only
    rw [s.automaticLpf_orion2 hdevice, hdevice, hjoin]
    simp

/-- The packet says what it should when the modes of the two VFOs do not differ in being CW, or
that makes no difference, and there is one filter of the operator's or the automatic one is the
same. -/
theorem sound_iff : s.Sound ↔
    (s.rx.modeA.isCw = s.rx.modeB.isCw ∨ s.transmitting = s.tune) ∧
    (s.filters = .manual ∨ (s.device = .orion2 ∧ s.lpf = lpfFor .orion2 s.txFrequency ∧
      lpfFor .orion2 s.txFrequency ≠ .lpf17_15)) := by
  obtain ⟨hlpf, hfront, hant⟩ := s.rest_masks
  constructor
  · intro sound
    have hdevice : s.filters = .manual ∨ s.device = .orion2 := by
      by_contra hno
      push Not at hno
      have hautomatic : s.filters = .automatic := by
        cases hfilters : s.filters
        · rfl
        · exact absurd hfilters hno.1
      have hbit : ∀ x ∈ [0x08, 0x04, 0x02, 0x10, 0x20, 0x40], x &&& frontEndMask ≠ 0 := by decide
      have hapart := sound.apart.1
      unfold lowPass at hapart
      rw [hautomatic] at hapart
      dsimp only at hapart
      rw [Nat.and_or_distrib_right, Nat.or_eq_zero_iff] at hapart
      exact hbit _ (s.automaticLpf_frontEnd hno.2) hapart.1
    have hlow := sound.lowPass
    obtain ⟨hkeep, -, -⟩ := s.lowPass_masks hdevice
    rw [s.word_eq, hlpf, Nat.and_or_distrib_right, sound.apart.2, Nat.zero_or, hkeep] at hlow
    exact ⟨s.ptt_iff.mp sound.ptt, (s.lowPass_eq_iff hdevice).mp hlow⟩
  · rintro ⟨hptt, hfilters⟩
    have hdevice : s.filters = .manual ∨ s.device = .orion2 := hfilters.imp_right And.left
    obtain ⟨hkeep, happart, hrelay⟩ := s.lowPass_masks hdevice
    obtain ⟨hpow, hfrontLpf, hfrontAnt⟩ := frontEnds_masks _ (s.frontEnd_mem hdevice)
    obtain ⟨antenna, h0, h2, hantenna, htransmitting⟩ := s.relay_eq
    refine ⟨s.ptt_iff.mpr hptt, ?_, ⟨s.frontEnd.log2, ?_⟩, ⟨happart, hfrontLpf⟩,
      ⟨antenna, h0, h2, ?_, htransmitting⟩⟩
    · rw [s.word_eq, hlpf, Nat.and_or_distrib_right, hfrontLpf, Nat.zero_or, hkeep]
      exact (s.lowPass_eq_iff hdevice).mpr hfilters
    · rw [s.word_eq, hfront, Nat.and_or_distrib_right, happart, Nat.or_zero, hpow]
    · rw [s.word_eq, hant, Nat.and_or_distrib_right, hfrontAnt, hrelay, Nat.zero_or, Nat.zero_or,
        hantenna]

/-- An Orion 2 on 14 MHz, where the two VFOs are in USB and CWU and the radio transmits. -/
def mixedVfos : PriorityState where
  running := true
  transmitting := true
  tune := false
  tune_transmitting := fun _ => rfl
  puresignal := false
  device := .orion2
  rx := ⟨false, .usb, .cwu⟩
  rxFrequency := 14200000
  transmitterFrequency := 14200000
  cwKeyerSidetoneFrequency := 400
  filters := .automatic
  hpf := .bypass
  lpf := .lpf160
  antenna := 0
  antenna_bounds := ⟨le_rfl, by omega⟩
  alexTxAntenna := 0
  alexTxAntenna_bounds := ⟨le_rfl, by omega⟩

/-- There is no PTT bit. -/
theorem not_sound : ¬ ∀ s : PriorityState, s.Sound := by
  intro h
  have hptt := (h mixedVfos).ptt
  exact absurd hptt (by decide)

end PriorityState

end MacHPSDR.Protocol2
