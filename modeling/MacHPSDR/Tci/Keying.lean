import MacHPSDR.Tci.Command
import Mathlib

/-!
# Which receiver a keying command must name

`trx`, `tune` and `cw_msg` key the one transmitter, so they are refused unless the index of the
command is that of the transmitter's receiver. There is one way around it by design: where that
receiver is hidden or absent, the first visible receiver stands in for it (`tci_tx_index`).

The index is what `atoi` makes of the first field. For a number that an `int` holds that is the
number itself, so one that is negative or names no receiver keys nothing (`handleCommand_keys`).
-/

namespace MacHPSDR.Tci

open CString

variable {r : Radio} {token : List Char} {e : Effect}

/-! ## The handlers -/

theorem isTx_of_mem_handleTrx {c : Command} (he : e ∈ handleTrx r c) : r.isTx c = true := by
  unfold handleTrx at he
  split at he
  · split at he
    · assumption
    · cases he
  · cases he

theorem isTx_of_mem_handleTune {c : Command} (he : e ∈ handleTune r c) : r.isTx c = true := by
  unfold handleTune at he
  split at he
  · split at he
    · assumption
    · cases he
  · cases he

theorem isTx_of_mem_handleCwMsg {c : Command} (he : e ∈ handleCwMsg r c token) :
    r.isTx c = true := by
  unfold handleCwMsg at he
  split at he
  · assumption
  · cases he

/-- Starting a stream has one effect, which keys nothing. -/
theorem not_keys_of_mem_streamStart {c : Command} {set : ℤ → Bool → Effect}
    (hset : ∀ idx on, ¬ (set idx on).Keys) (he : e ∈ streamStart r c set) : ¬ e.Keys := by
  unfold streamStart at he
  split at he
  · rw [List.mem_singleton.1 he]
    exact hset _ _
  · cases he

theorem not_keys_of_mem_streamStop {c : Command} {set : ℤ → Bool → Effect}
    (hset : ∀ idx on, ¬ (set idx on).Keys) (he : e ∈ streamStop c set) : ¬ e.Keys := by
  rw [List.mem_singleton.1 he]
  exact hset _ _

/-- Whatever keys the radio has passed the check of the index. -/
theorem isTx_of_keys (he : e ∈ handleCommand r token) (hk : e.Keys) :
    r.isTx (parseCommand token) = true := by
  have hiq : ∀ idx on, ¬ (Effect.setIq idx on).Keys := fun _ _ h => h
  have haudio : ∀ idx on, ¬ (Effect.setAudio idx on).Keys := fun _ _ h => h
  unfold handleCommand at he
  dsimp only at he
  split at he
  · exact isTx_of_mem_handleTrx he
  · split at he
    · exact absurd hk (not_keys_of_mem_streamStart hiq he)
    · split at he
      · exact absurd hk (not_keys_of_mem_streamStop hiq he)
      · split at he
        · exact absurd hk (not_keys_of_mem_streamStart haudio he)
        · split at he
          · exact absurd hk (not_keys_of_mem_streamStop haudio he)
          · split at he
            · exact isTx_of_mem_handleCwMsg he
            · split at he
              · exact isTx_of_mem_handleTune he
              · cases he

/-- The first field of a command is the number `v`, and an `int` holds it. -/
def Command.Names (c : Command) (v : ℤ) : Prop :=
  ∃ a rest, c.args = a :: rest ∧ Spells a v ∧ -2 ^ 31 ≤ v ∧ v < 2 ^ 31

theorem Command.Names.reqIndex {c : Command} {v : ℤ} (h : c.Names v) : c.reqIndex = v := by
  obtain ⟨a, rest, hargs, hv, hlo, hhi⟩ := h
  simp only [Command.reqIndex, hargs]
  exact atoi_of_spells hv hlo hhi

/-- **Keying is addressed to the transmitter's receiver**: whatever keys the radio, the index that
the command names is that of a visible receiver, and this is the transmitter's, or the first one
where the transmitter's is hidden or absent. -/
theorem handleCommand_keys (r : Radio) (token : List Char) (e : Effect)
    (he : e ∈ handleCommand r token) (hk : e.Keys) (v : ℤ) (hv : (parseCommand token).Names v) :
    ∃ i, 0 ≤ v ∧ r.rxAt v = some i ∧ r.Shown i ∧
      (r.txSlot = some i ∨ v = 0 ∧ ∀ t, r.txSlot = some t → ¬ r.Shown t) := by
  obtain ⟨i, hi, htx⟩ := r.isTx_spec (isTx_of_keys he hk)
  rw [hv.reqIndex] at hi htx
  obtain ⟨hpos, hshown⟩ := r.shown_of_rxAt hi
  exact ⟨i, hpos, hi, hshown, htx⟩

theorem handleCommand_keys_twoReceivers :
    ∃ i, (0 : ℤ) ≤ 1 ∧ (Radio.twoReceivers 2 true).rxAt 1 = some i ∧
      (Radio.twoReceivers 2 true).Shown i ∧ ((Radio.twoReceivers 2 true).txSlot = some i ∨
        (1 : ℤ) = 0 ∧ ∀ t, (Radio.twoReceivers 2 true).txSlot = some t →
          ¬ (Radio.twoReceivers 2 true).Shown t) :=
  handleCommand_keys (.twoReceivers 2 true) "trx:1,true".toList (.mox true) (by decide) trivial 1
    ⟨"1".toList, ["true".toList], by decide,
      ⟨['1'], by simp, by simp, .inl ⟨rfl, by simp [digitsValue]⟩⟩, by decide, by decide⟩

/-- With the transmitter's receiver hidden, the first one keys the radio. -/
theorem not_keys_only_tx :
    ¬ ∀ (r : Radio) (token : List Char) (e : Effect), e ∈ handleCommand r token → e.Keys →
      ∃ v i, (parseCommand token).Names v ∧ r.rxAt v = some i ∧ r.txSlot = some i := by
  intro h
  obtain ⟨v, i, hv, hi, htx⟩ :=
    h (.twoReceivers 2 false) "trx:0,true".toList (.mox true) (by decide) trivial
  obtain rfl : v = 0 := by
    rw [← hv.reqIndex]
    decide
  obtain rfl : (2 : Fin 8) = i := by simpa [Radio.twoReceivers] using htx
  revert hi
  decide

end MacHPSDR.Tci
