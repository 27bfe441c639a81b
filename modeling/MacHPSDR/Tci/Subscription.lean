import Mathlib

/-!
# Stream subscriptions of a TCI client

Each client of the TCI server has one bit mask for the receivers whose IQ it streams and one for
the receivers whose audio it streams (`iq_mask`, `audio_mask`, both `gint`). The two setters
`client_set_iq` and `client_set_audio` compute the new mask and the change of the global
subscription count in the same way; what they do with the result differs.
-/

namespace MacHPSDR.Tci

/-- `MAX_RECEIVERS`: the bound on the receiver index of a subscription. -/
def maxReceivers : ℤ := 8

/-- The bits that a subscription for `rxIndex` names: all of them for a negative index. -/
def subscriptionBits (rxIndex : ℤ) : BitVec 32 :=
  if rxIndex < 0 then ~~~0#32 else 1#32 <<< rxIndex.toNat

/-- The new mask (`nw` in the source) for the old one. -/
def subscriptionMask (old : BitVec 32) (rxIndex : ℤ) (on : Bool) : BitVec 32 :=
  if on then old ||| subscriptionBits rxIndex else old &&& ~~~subscriptionBits rxIndex

/-- The change of the subscription count that goes with a change of the mask. -/
def subscriptionDelta (nw old : BitVec 32) (on : Bool) : ℤ :=
  (nw ^^^ old).cpop.toNat * (if on then 1 else -1)

/-- Stopping "every stream" leaves no bit. -/
theorem subscriptionMask_stop_all (old : BitVec 32) {rxIndex : ℤ} (h : rxIndex < 0) :
    subscriptionMask old rxIndex false = 0#32 := by
  simp [subscriptionMask, subscriptionBits, h]

end MacHPSDR.Tci
