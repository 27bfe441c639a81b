import MacHPSDR.Foundations.BlockBuffer
import Mathlib

/-!
# The two receivers of a diversity mixer

`add_iq_samples` fills the buffer of a receiver. When the buffer of one of the two is full the
mixer takes the visual receiver's, and when the buffer of the other is full it takes the hidden
receiver's and mixes. Which of them mixes depends on the channels alone: the one with the higher
channel. So if the visual receiver has the higher channel, one of the two buffers is taken before
its last sample has come.
-/

namespace MacHPSDR.Receiver

open BlockBuffer

/-- The two receivers of a mixer. -/
inductive Role
  | visual
  | hidden
  deriving DecidableEq

/-- What a mixer sees of a receiver; `samples` counts those of the present block. -/
structure DivReceiver (n : ℕ) (α : Type*) where
  channel : ℤ
  samples : Fin n
  iqInputBuffer : Fin n → α

/-- `DIVMIXER` -/
structure DivMixer (n : ℕ) (α : Type*) where
  rx : Role → DivReceiver n α
  calibrateGain : Bool
  iqInput : Role → Fin n → α

/-- What is done with a block: it goes to the receiver, or two of them to the WDSP mixer. -/
inductive Fed (n : ℕ) (α : Type*)
  | fullRxBuffer (rx : Role) (block : Fin n → α)
  | xdiv (iqInput : Role → Fin n → α)

variable {n : ℕ} {α : Type*}

namespace Role

def other : Role → Role
  | visual => hidden
  | hidden => visual

/-- What the visual and the hidden receiver have. -/
def pair {β : Type*} (v h : β) : Role → β
  | visual => v
  | hidden => h

end Role

/-- `create_diversity_mixer` -/
def createDiversityMixer [NeZero n] [Zero α] (rxa rxb : DivReceiver n α) : DivMixer n α where
  rx := Role.pair { rxa with samples := 0 } { rxb with samples := 0 }
  calibrateGain := false
  iqInput _ _ := 0

namespace DivMixer

variable (d : DivMixer n α)

/-- `diversity_add_buffer` -/
def addBuffer : DivMixer n α :=
  { d with iqInput := Function.update d.iqInput .visual (d.rx .visual).iqInputBuffer }

/-- `diversity_mix_full_buffers` -/
def mixFullBuffers : DivMixer n α :=
  { d with iqInput := Function.update d.iqInput .hidden (d.rx .hidden).iqInputBuffer }

/-- The buffer of `rx` is full. -/
def passOn (rx : Role) : DivMixer n α × Option (Fed n α) :=
  if d.calibrateGain then (d, some (.fullRxBuffer rx (d.rx rx).iqInputBuffer))
  else if (d.rx .visual).channel < (d.rx .hidden).channel then
    if rx = .hidden then (d.mixFullBuffers, some (.xdiv d.mixFullBuffers.iqInput))
    else (d.addBuffer, none)
  else if rx = .visual then (d.mixFullBuffers, some (.xdiv d.mixFullBuffers.iqInput))
  else (d.addBuffer, none)

/-- `add_iq_samples` -/
def addIqSamples [NeZero n] (rx : Role) (sample : α) : DivMixer n α × Option (Fed n α) :=
  let r := d.rx rx
  let r := { r with iqInputBuffer := Function.update r.iqInputBuffer r.samples sample }
  if h : r.samples + 1 < n then
    let r := { r with samples := ⟨r.samples + 1, h⟩ }
    ({ d with rx := Function.update d.rx rx r }, none)
  else
    -- nothing that a full buffer sets off reads the count
    let r := { r with samples := 0 }
    { d with rx := Function.update d.rx rx r }.passOn rx

end DivMixer

/-- How the pairs come: in the order of the channels, or the visual receiver's sample first, as
`process_div_iq_data` does it. -/
inductive PairOrder
  | channels
  | visualFirst

namespace DivMixer

variable (d : DivMixer n α)

/-- The receiver that gets the first sample of a pair. -/
def first : PairOrder → Role
  | .channels => if (d.rx .hidden).channel < (d.rx .visual).channel then .hidden else .visual
  | .visualFirst => .visual

/-- A pair of samples, and what is done with the blocks that they fill. -/
def addPair [NeZero n] (first : Role) (sample : Role → α) : DivMixer n α × List (Fed n α) :=
  let (e, fed₁) := d.addIqSamples first (sample first)
  let (e, fed₂) := e.addIqSamples first.other (sample first.other)
  (e, fed₁.toList ++ fed₂.toList)

/-- The mixer and all that has been done, after `m` pairs. -/
def deliver [NeZero n] (first : Role) (xs : Role → ℕ → α) : ℕ → DivMixer n α × List (Fed n α)
  | 0 => (d, [])
  | m + 1 =>
    let (e, fed) := deliver first xs m
    let (e, more) := e.addPair first fun r => xs r m
    (e, fed ++ more)

end DivMixer

section Run

variable [NeZero n] (c : Role → ℤ) (b : Role → Fin n → α) (xs : Role → ℕ → α)

/-- A mixer whose receivers have had `m` samples. -/
def mixerAt (m : Role → ℕ) (iqInput : Role → Fin n → α) : DivMixer n α where
  rx r := ⟨c r, Fin.ofNat n (m r), written (b r) (xs r) (m r)⟩
  calibrateGain := false
  iqInput := iqInput

variable (m : Role → ℕ) (iqInput : Role → Fin n → α)

/-- The mixer takes one block and, for one of the receivers, mixes. -/
theorem passOn_mixerAt (rx : Role) : (mixerAt c b xs m iqInput).passOn rx =
    if rx = .hidden ↔ c .visual < c .hidden then
      let t := Function.update iqInput .hidden (written (b .hidden) (xs .hidden) (m .hidden))
      (mixerAt c b xs m t, some (.xdiv t))
    else
      let t := Function.update iqInput .visual (written (b .visual) (xs .visual) (m .visual))
      (mixerAt c b xs m t, none) := by
  unfold DivMixer.passOn
  rw [if_neg (by simp [mixerAt])]
  by_cases hc : c .visual < c .hidden
  · have hc' : ((mixerAt c b xs m iqInput).rx .visual).channel <
        ((mixerAt c b xs m iqInput).rx .hidden).channel := hc
    rw [if_pos hc']
    cases rx with
    | visual =>
      rw [if_neg (by simp), if_neg (by simp [hc])]
      rfl
    | hidden =>
      rw [if_pos rfl, if_pos (by simp [hc])]
      rfl
  · have hc' : ¬ ((mixerAt c b xs m iqInput).rx .visual).channel <
        ((mixerAt c b xs m iqInput).rx .hidden).channel := hc
    rw [if_neg hc']
    cases rx with
    | visual =>
      rw [if_pos rfl, if_pos (by simp [hc])]
      rfl
    | hidden =>
      rw [if_neg (by simp), if_neg (by simp [hc])]
      rfl

/-- The next sample of a receiver; with the last one of a block, the block is passed on. -/
theorem addIqSamples_mixerAt (rx : Role) :
    (mixerAt c b xs m iqInput).addIqSamples rx (xs rx (m rx)) =
      if n ∣ m rx + 1 then
        (mixerAt c b xs (Function.update m rx (m rx + 1)) iqInput).passOn rx
      else (mixerAt c b xs (Function.update m rx (m rx + 1)) iqInput, none) := by
  have hsamples : (((mixerAt c b xs m iqInput).rx rx).samples : ℕ) = m rx % n := Fin.val_ofNat ..
  have hlast := dvd_succ_iff (NeZero.pos n) (m rx)
  have hstored (q : Fin n) (hq : q = Fin.ofNat n (m rx + 1)) :
      (⟨Function.update (mixerAt c b xs m iqInput).rx rx
          ⟨c rx, q, written (b rx) (xs rx) (m rx + 1)⟩, false, iqInput⟩ : DivMixer n α) =
        mixerAt c b xs (Function.update m rx (m rx + 1)) iqInput := by
    subst hq
    unfold mixerAt
    congr 1
    funext r
    by_cases hr : r = rx
    · subst hr
      simp only [Function.update_self]
    · simp only [Function.update_of_ne hr]
  by_cases hend : n ∣ m rx + 1
  · have hfull : ¬ (((mixerAt c b xs m iqInput).rx rx).samples : ℕ) + 1 < n := by
      rw [hsamples, hlast.mp hend]
      exact lt_irrefl n
    have hzero : (0 : Fin n) = Fin.ofNat n (m rx + 1) := by
      ext
      rw [Fin.val_ofNat, Nat.mod_eq_zero_of_dvd hend]
      rfl
    unfold DivMixer.addIqSamples
    dsimp only
    rw [dif_neg hfull, if_pos hend, ← hstored 0 hzero]
    rfl
  · have hlt : m rx % n + 1 < n :=
      lt_of_le_of_ne (Nat.mod_lt (m rx) (NeZero.pos n)) (mt hlast.mpr hend)
    have hlt' : (((mixerAt c b xs m iqInput).rx rx).samples : ℕ) + 1 < n := by
      rwa [hsamples]
    have hnext : (⟨((mixerAt c b xs m iqInput).rx rx).samples + 1, hlt'⟩ : Fin n) =
        Fin.ofNat n (m rx + 1) := by
      ext
      rw [Fin.val_ofNat]
      dsimp only
      rw [hsamples, ← Nat.mod_add_mod, Nat.mod_eq_of_lt hlt]
    unfold DivMixer.addIqSamples
    dsimp only
    rw [dif_pos hlt', if_neg hend, ← hstored _ hnext]
    rfl

/-! ## Pairs -/

/-- What the buffer of a receiver holds before the last sample of a block comes. -/
def late (k : ℕ) (r : Role) : Fin n → α := written (b r) (xs r) (n * k + (n - 1))

/-- What the mixer has taken when a block of pairs is complete. -/
def taken (first : Role) (k : ℕ) (r : Role) : Fin n → α :=
  if c .visual < c .hidden ∨ r = first then block n (xs r) k else late b xs k r

theorem update_pair {β : Type*} (f g : Role → β) :
    Function.update (Function.update f .visual (g .visual)) .hidden (g .hidden) = g := by
  funext r
  cases r with
  | visual => rw [Function.update_of_ne (by simp), Function.update_self]
  | hidden => rw [Function.update_self]

theorem update_pair' {β : Type*} (f g : Role → β) :
    Function.update (Function.update f .hidden (g .hidden)) .visual (g .visual) = g := by
  rw [Function.update_comm (by simp), update_pair]

/-- The counts while a pair comes. -/
theorem update_counts (first : Role) (p q : ℕ) :
    Function.update (Function.update (fun _ => p) first q) first.other q = fun _ => q := by
  funext r
  cases r <;> cases first <;> rfl

/-- The second sample of a pair. -/
theorem addIqSamples_second (first : Role) (p : ℕ) :
    (mixerAt c b xs (Function.update (fun _ => p) first (p + 1)) iqInput).addIqSamples first.other
        (xs first.other p) =
      if n ∣ p + 1 then (mixerAt c b xs (fun _ => p + 1) iqInput).passOn first.other
      else (mixerAt c b xs (fun _ => p + 1) iqInput, none) := by
  have hsecond := addIqSamples_mixerAt c b xs (Function.update (fun _ => p) first (p + 1)) iqInput
    first.other
  have hother : Function.update (fun _ => p) first (p + 1) first.other = p :=
    Function.update_of_ne (by cases first <;> simp [Role.other]) ..
  rwa [hother, update_counts] at hsecond

/-- A pair that ends no block. -/
theorem addPair_mixerAt_of_not_dvd (first : Role) {p : ℕ} (h : ¬ n ∣ p + 1) :
    (mixerAt c b xs (fun _ => p) iqInput).addPair first (fun r => xs r p) =
      (mixerAt c b xs (fun _ => p + 1) iqInput, []) := by
  have hfirst := addIqSamples_mixerAt c b xs (fun _ => p) iqInput first
  have hsecond := addIqSamples_second c b xs iqInput first p
  rw [if_neg h] at hfirst hsecond
  unfold DivMixer.addPair
  rw [hfirst]
  dsimp only
  rw [hsecond]
  rfl

/-- The pair that ends a block. -/
theorem addPair_mixerAt_of_dvd {first : Role} (hfirst : c .visual < c .hidden → first = .visual)
    (k : ℕ) :
    (mixerAt c b xs (fun _ => n * k + (n - 1)) iqInput).addPair first
        (fun r => xs r (n * k + (n - 1))) =
      (mixerAt c b xs (fun _ => n * (k + 1)) (taken c b xs first k),
        [.xdiv (if c .visual < c .hidden ∨ first = .hidden then taken c b xs first k
          else Function.update iqInput .hidden (late b xs k .hidden))]) := by
  have hend : n * k + (n - 1) + 1 = n * (k + 1) := by
    have := NeZero.pos n
    rw [Nat.add_assoc, Nat.sub_add_cancel this, Nat.mul_succ]
  have hdvd : n ∣ n * (k + 1) := Nat.dvd_mul_right n (k + 1)
  have hwhole (r : Role) : written (b r) (xs r) (n * (k + 1)) = block n (xs r) k :=
    written_block (b r) (xs r) k
  -- the first sample of the pair, and then the second
  have hone := addIqSamples_mixerAt c b xs (fun _ => n * k + (n - 1)) iqInput first
  have htwo (iq : Role → Fin n → α) := addIqSamples_second c b xs iq first (n * k + (n - 1))
  simp only [hend, if_pos hdvd, passOn_mixerAt, hwhole] at hone htwo
  unfold DivMixer.addPair
  rw [hone]
  by_cases hc : c .visual < c .hidden
  · obtain rfl := hfirst hc
    have htaken : taken c b xs .visual k = fun r => block n (xs r) k := by
      funext r
      exact if_pos (.inl hc)
    rw [if_neg (by simp [hc])]
    dsimp only
    rw [htwo, if_pos (by simp [Role.other, hc]), Function.update_self, hwhole,
      if_pos (.inl hc), htaken, update_pair iqInput fun r => block n (xs r) k]
    rfl
  · cases first with
    | visual =>
      have htaken : taken c b xs .visual k =
          Role.pair (block n (xs .visual) k) (late b xs k .hidden) := by
        funext r
        cases r with
        | visual => exact if_pos (.inr rfl)
        | hidden => exact if_neg (by simp [hc])
      rw [if_pos (by simp [hc])]
      dsimp only
      rw [htwo, if_neg (by simp [Role.other, hc]),
        if_neg (by simp [hc]), htaken, Function.update_of_ne (by simp)]
      have hboth := update_pair' iqInput
        (Role.pair (block n (xs .visual) k) (late b xs k .hidden))
      exact congrArg (fun t => (mixerAt c b xs (fun _ => n * (k + 1)) t,
        [Fed.xdiv (Function.update iqInput .hidden (late b xs k .hidden))])) hboth
    | hidden =>
      have htaken : taken c b xs .hidden k =
          Role.pair (late b xs k .visual) (block n (xs .hidden) k) := by
        funext r
        cases r with
        | visual => exact if_neg (by simp [hc])
        | hidden => exact if_pos (.inr rfl)
      rw [if_neg (by simp [hc])]
      dsimp only
      rw [htwo, if_pos (by simp [Role.other, hc]),
        if_pos (.inr rfl), htaken, Function.update_of_ne (by simp)]
      have hboth := update_pair iqInput
        (Role.pair (late b xs k .visual) (block n (xs .hidden) k))
      exact congrArg (fun t => (mixerAt c b xs (fun _ => n * (k + 1)) t, [Fed.xdiv t])) hboth

/-! ## Runs -/

variable [Zero α]

/-- What the mixer has taken after `q` blocks. -/
def held (first : Role) : ℕ → Role → Fin n → α
  | 0 => fun _ _ => 0
  | q + 1 => taken c b xs first q

/-- What is mixed when the `k`-th block is complete. -/
def mixed (first : Role) (k : ℕ) : Role → Fin n → α :=
  if c .visual < c .hidden ∨ first = .hidden then taken c b xs first k
  else Function.update (held c b xs first k) .hidden (late b xs k .hidden)

/-- **A run**: with every block of pairs there is one mix. -/
theorem deliver_mixerAt {first : Role} (hfirst : c .visual < c .hidden → first = .visual) (p : ℕ) :
    (mixerAt c b xs (fun _ => 0) fun _ _ => 0).deliver first xs p =
      (mixerAt c b xs (fun _ => p) (held c b xs first (p / n)),
        (List.range (p / n)).map fun k => .xdiv (mixed c b xs first k)) := by
  induction p with
  | zero =>
    rw [Nat.zero_div]
    rfl
  | succ p ih =>
    unfold DivMixer.deliver
    rw [ih]
    dsimp only
    by_cases hend : n ∣ p + 1
    · have hblock : n * (p / n) + (n - 1) = p := by
        have hlast := (dvd_succ_iff (NeZero.pos n) p).mp hend
        have hdiv := Nat.div_add_mod p n
        omega
      have hpair := addPair_mixerAt_of_dvd c b xs (held c b xs first (p / n)) hfirst (p / n)
      have hnext : n * (p / n + 1) = p + 1 := by
        have := NeZero.pos n
        rw [Nat.mul_succ]
        omega
      rw [hblock, hnext] at hpair
      rw [hpair, Nat.succ_div_of_dvd hend, List.range_succ, List.map_append]
      rfl
    · rw [addPair_mixerAt_of_not_dvd c b xs _ first hend, Nat.succ_div_of_not_dvd hend,
        List.append_nil]

end Run

section Pairing

variable [NeZero n] [Zero α] (rxa rxb : DivReceiver n α) (o : PairOrder) (xs : Role → ℕ → α)

theorem createDiversityMixer_eq : createDiversityMixer rxa rxb =
    mixerAt (Role.pair rxa.channel rxb.channel)
      (Role.pair rxa.iqInputBuffer rxb.iqInputBuffer) xs (fun _ => 0) fun _ _ => 0 := by
  unfold createDiversityMixer mixerAt
  congr 1
  funext r
  cases r <;> rfl

theorem forall_role {P : Role → Prop} : (∀ r, P r) ↔ P .visual ∧ P .hidden :=
  ⟨fun h => ⟨h _, h _⟩, fun h r => by cases r <;> [exact h.1; exact h.2]⟩

/-- A block that comes one block late is right all along when all of it is silence. -/
theorem shifted_eq_iff {β : Type*} (z : β) (f : ℕ → β) (K : ℕ) :
    (∀ k < K, (if k = 0 then z else f (k - 1)) = f k) ↔ ∀ k < K, f k = z := by
  refine ⟨fun h k hk => ?_, fun h k hk => ?_⟩
  · induction k with
    | zero => exact (h 0 hk).symm
    | succ k ih => exact (h (k + 1) hk).symm.trans (ih (by omega))
  · rw [h k hk]
    split
    · rfl
    · exact h (k - 1) (by omega)

/-- No sample that is taken too early, or a block too late, can be told from the right one. -/
def Unskewed (m : ℕ) : Role → Prop
  | .hidden => ∀ k < m / n, block n (xs .visual) k (last n) = rxa.iqInputBuffer (last n)
  | .visual => (∀ k < m / n, block n (xs .visual) k = 0) ∧
      ∀ k < m / n, block n (xs .hidden) k (last n) = rxb.iqInputBuffer (last n)

/-- **Diversity pairing.** After any number of pairs, the mixer has been given exactly the blocks of
the two streams, each once and side by side, if and only if the visual receiver has the lower
channel or the samples happen to hide the skew. -/
theorem diversity_paired_iff (m : ℕ) :
    ((createDiversityMixer rxa rxb).deliver ((createDiversityMixer rxa rxb).first o) xs m).2 =
        (List.range (m / n)).map (fun k => .xdiv fun r => block n (xs r) k) ↔
      rxa.channel < rxb.channel ∨
        Unskewed rxa rxb xs m ((createDiversityMixer rxa rxb).first o) := by
  set first := (createDiversityMixer rxa rxb).first o with hset
  set c := Role.pair rxa.channel rxb.channel with hc
  set b := Role.pair rxa.iqInputBuffer rxb.iqInputBuffer with hb
  have hfirst : c .visual < c .hidden → first = .visual := by
    intro hlt
    cases o with
    | channels => exact if_neg (not_lt.mpr hlt.le)
    | visualFirst => rfl
  rw [createDiversityMixer_eq rxa rxb xs, deliver_mixerAt c b xs hfirst, List.map_inj_left]
  simp only [List.mem_range, Fed.xdiv.injEq]
  by_cases hlt : rxa.channel < rxb.channel
  · refine iff_of_true (fun k _ => ?_) (.inl hlt)
    unfold mixed
    rw [if_pos (.inl hlt)]
    funext r
    exact if_pos (.inl hlt)
  · rw [or_iff_right hlt]
    have hlt' : ¬ c .visual < c .hidden := hlt
    clear_value first
    cases first with
    | hidden =>
      rw [Unskewed, ← written_before_eq_block_iff rxa.iqInputBuffer (xs .visual)]
      refine forall₂_congr fun k _ => ?_
      have hmixed : mixed c b xs .hidden k = taken c b xs .hidden k := if_pos (.inr rfl)
      have hvisual : taken c b xs .hidden k .visual = late b xs k .visual :=
        if_neg (by simp [hlt'])
      have hhidden : taken c b xs .hidden k .hidden = block n (xs .hidden) k := if_pos (.inr rfl)
      rw [hmixed, funext_iff, forall_role, hvisual, hhidden]
      exact and_iff_left rfl
    | visual =>
      have hheld (k : ℕ) : held c b xs .visual k .visual =
          if k = 0 then 0 else block n (xs .visual) (k - 1) := by
        cases k with
        | zero => rfl
        | succ k => exact if_pos (.inr rfl)
      have hmixed (k : ℕ) : mixed c b xs .visual k = (fun r => block n (xs r) k) ↔
          (if k = 0 then 0 else block n (xs .visual) (k - 1)) = block n (xs .visual) k ∧
            late b xs k .hidden = block n (xs .hidden) k := by
        have hmixed : mixed c b xs .visual k =
            Function.update (held c b xs .visual k) .hidden (late b xs k .hidden) :=
          if_neg (by simp [hlt'])
        rw [hmixed, funext_iff, forall_role, Function.update_self, Function.update_of_ne (by simp),
          hheld]
      rw [Unskewed, ← shifted_eq_iff, ← written_before_eq_block_iff rxb.iqInputBuffer (xs .hidden)]
      simp only [hmixed]
      exact ⟨fun h => ⟨fun k hk => (h k hk).1, fun k hk => (h k hk).2⟩,
        fun h k hk => ⟨h.1 k hk, h.2 k hk⟩⟩

end Pairing

/-! ## Two receivers -/

/-- A receiver with a silent buffer of two samples. -/
def silentReceiver (channel : ℤ) : DivReceiver 2 ℤ :=
  ⟨channel, ⟨0, Nat.two_pos⟩, fun _ => 0⟩

theorem diversity_paired_iff_lowVisual :
    ((createDiversityMixer (silentReceiver 0) (silentReceiver 1)).deliver
      ((createDiversityMixer (silentReceiver 0) (silentReceiver 1)).first .channels)
      (Role.pair (fun j => j) fun j => -j) 5).2 =
    (List.range 2).map fun k => .xdiv fun r => block 2 (Role.pair (fun j => j) (fun j => -j) r) k :=
  (diversity_paired_iff (silentReceiver 0) (silentReceiver 1) .channels
    (Role.pair (fun j => j) fun j => -j) 5).mpr (.inl (by decide))

/-- What the mixer of two receivers is given by their first `m` pairs of samples. -/
def fedBy [NeZero n] [Zero α] (rxa rxb : DivReceiver n α) (o : PairOrder) (xs : Role → ℕ → α)
    (m : ℕ) : List (Fed n α) :=
  ((createDiversityMixer rxa rxb).deliver ((createDiversityMixer rxa rxb).first o) xs m).2

/-- The last visual sample of a block, as the mixer is given it. -/
def lastVisual : Fed 2 ℤ → ℤ
  | .xdiv iqInput => iqInput .visual ⟨1, Nat.one_lt_two⟩
  | .fullRxBuffer _ block => block ⟨1, Nat.one_lt_two⟩

/-- The first mix lacks the last sample of a visual receiver with the higher channel, in either
order. -/
theorem not_diversity_paired :
    fedBy (silentReceiver 1) (silentReceiver 0) .channels
        (Role.pair (fun j => j + 1) fun j => -(j + 1)) 2 ≠
      [.xdiv fun r => block 2 (Role.pair (fun j => j + 1) (fun j => -(j + 1)) r) 0] ∧
    fedBy (silentReceiver 1) (silentReceiver 0) .visualFirst
        (Role.pair (fun j => j + 1) fun j => -(j + 1)) 2 ≠
      [.xdiv fun r => block 2 (Role.pair (fun j => j + 1) (fun j => -(j + 1)) r) 0] :=
  ⟨fun h => absurd (congrArg (List.map lastVisual) h) (by decide),
    fun h => absurd (congrArg (List.map lastVisual) h) (by decide)⟩

end MacHPSDR.Receiver
