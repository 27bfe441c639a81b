import MacHPSDR.Foundations.Shares
import Mathlib

/-!
# Spectrum rows in bytes

`web_spectrum_quantize` reduces the bins of a spectrum to the bytes of a row. Each byte is the
strongest of the bins of its own bucket, scaled to the span that is shown. The limits of the buckets
are computed with products of 64 bits, which do not overflow, and the buckets share out the bins
(`spectrum_quantize`).

A `float` is taken by its value; `round` is the rounding of its arithmetic.
-/

namespace MacHPSDR.WebServer

/-- The values of a `float`. -/
inductive FloatValue
  | finite (x : ℚ)
  | posInf
  | negInf
  | nan
  deriving DecidableEq

namespace FloatValue

/-- `>` -/
def Gt : FloatValue → FloatValue → Prop
  | .finite x, .finite y => y < x
  | .finite _, .negInf => True
  | .posInf, .finite _ => True
  | .posInf, .negInf => True
  | _, _ => False

instance : ∀ a b, Decidable (Gt a b)
  | .finite x, .finite y => inferInstanceAs (Decidable (y < x))
  | .finite _, .negInf => isTrue trivial
  | .posInf, .finite _ => isTrue trivial
  | .posInf, .negInf => isTrue trivial
  | .finite _, .posInf | .finite _, .nan | .posInf, .posInf | .posInf, .nan => isFalse id
  | .negInf, _ | .nan, _ => isFalse id

/-- `isfinite` -/
def isFinite : FloatValue → Bool
  | .finite _ => true
  | _ => false

/-- An operation with a positive constant keeps what is not finite. -/
def map (f : ℚ → FloatValue) : FloatValue → FloatValue
  | .finite x => f x
  | v => v

end FloatValue

open FloatValue

/-- `lrintf`: to the nearest integer, the even one of two. -/
def lrint (x : ℚ) : ℤ :=
  if x - ⌊x⌋ < 1 / 2 then ⌊x⌋
  else if 1 / 2 < x - ⌊x⌋ then ⌊x⌋ + 1
  else if ⌊x⌋ % 2 = 0 then ⌊x⌋ else ⌊x⌋ + 1

/-- The first bin of bucket `i`. -/
def bucketFirst (inputCount outputCount i : ℕ) : ℕ :=
  i * inputCount % 2 ^ 64 / outputCount % 2 ^ 32

/-- The bin after the last one of bucket `i`. -/
def bucketLast (inputCount outputCount i : ℕ) : ℕ :=
  let last := (i + 1) % 2 ^ 32 * inputCount % 2 ^ 64 / outputCount % 2 ^ 32
  if last ≤ bucketFirst inputCount outputCount i then
    (bucketFirst inputCount outputCount i + 1) % 2 ^ 32
  else last

/-- The inner loop: the strongest of these bins. -/
def peakOf (input : ℕ → FloatValue) (bins : List ℕ) : FloatValue :=
  bins.foldl (fun peak j =>
    if (input j).isFinite ∧ Gt (input j) peak then input j else peak) .negInf

/-- The byte for a peak. -/
def quantize (round : ℚ → FloatValue) (floorDb spanDb peak : ℚ) : ℕ :=
  let scaled := ((round (peak - floorDb)).map fun x => round (x * 255)).map fun x =>
    round (x / spanDb)
  let scaled := if Gt (.finite 0) scaled then .finite 0 else scaled
  let scaled := if Gt scaled (.finite 255) then .finite 255 else scaled
  match scaled with
  | .finite x => (lrint x).toNat % 256
  | _ => 0

/-- `web_spectrum_quantize`: the bytes of the row, unless it returns `FALSE`. -/
def webSpectrumQuantize (round : ℚ → FloatValue) (input : Option (ℕ → FloatValue))
    (inputCount : ℕ) (output : Option (ℕ → ℕ)) (outputCount : ℕ) (floorDb spanDb : FloatValue) :
    Option (ℕ → ℕ) :=
  match input, output, floorDb, spanDb with
  | some input, some output, .finite floorDb, .finite spanDb =>
    if inputCount = 0 ∨ outputCount = 0 ∨ inputCount < outputCount ∨ spanDb ≤ 0 then none
    else
      some fun i =>
        if i < outputCount then
          let first := bucketFirst inputCount outputCount i
          let peak := peakOf input (List.range' first (bucketLast inputCount outputCount i - first))
          quantize round floorDb spanDb (match peak with | .finite x => x | _ => floorDb)
        else output i
  | _, _, _, _ => none

/-! ## Buckets -/

variable {inputCount outputCount i : ℕ}

theorem product_lt (hcount : outputCount ≤ inputCount) (hguint : inputCount < 2 ^ 32)
    (hi : i ≤ outputCount) : i * inputCount < 2 ^ 64 :=
  calc i * inputCount ≤ inputCount * inputCount := Nat.mul_le_mul_right _ (hi.trans hcount)
    _ < 2 ^ 64 := by nlinarith

theorem bucketFirst_eq (hpos : 1 ≤ outputCount) (hcount : outputCount ≤ inputCount)
    (hguint : inputCount < 2 ^ 32) (hi : i < outputCount) :
    bucketFirst inputCount outputCount i = Shares.cut inputCount outputCount i := by
  rw [bucketFirst, Nat.mod_eq_of_lt (product_lt hcount hguint hi.le)]
  exact Nat.mod_eq_of_lt ((Shares.cut_le hpos hi.le).trans_lt hguint)

theorem bucketLast_eq (hpos : 1 ≤ outputCount) (hcount : outputCount ≤ inputCount)
    (hguint : inputCount < 2 ^ 32) (hi : i < outputCount) :
    bucketLast inputCount outputCount i = Shares.cut inputCount outputCount (i + 1) := by
  have hlast : (i + 1) % 2 ^ 32 * inputCount % 2 ^ 64 / outputCount % 2 ^ 32 =
      Shares.cut inputCount outputCount (i + 1) := by
    rw [Nat.mod_eq_of_lt (by omega : i + 1 < 2 ^ 32),
      Nat.mod_eq_of_lt (product_lt hcount hguint hi)]
    exact Nat.mod_eq_of_lt ((Shares.cut_le hpos hi).trans_lt hguint)
  rw [bucketLast, hlast, bucketFirst_eq hpos hcount hguint hi]
  exact if_neg (not_le.2 (Shares.cut_lt_cut_succ hpos hcount i))

/-! ## Peaks -/

/-- What the loop over the bins is left with: the greatest of the finite inputs, if there is one. -/
def IsPeak (input : ℕ → FloatValue) (bins : List ℕ) (peak : FloatValue) : Prop :=
  peak = .negInf ∧ (∀ j ∈ bins, (input j).isFinite = false) ∨
  ∃ x, peak = .finite x ∧ IsGreatest {y | ∃ j ∈ bins, input j = .finite y} x

theorem isFinite_iff {v : FloatValue} : v.isFinite = true ↔ ∃ x, v = .finite x := by
  cases v <;> simp [FloatValue.isFinite]

theorem isPeak_peakOf (input : ℕ → FloatValue) (bins : List ℕ) :
    IsPeak input bins (peakOf input bins) := by
  induction bins using List.reverseRecOn with
  | nil => exact .inl ⟨rfl, nofun⟩
  | append_singleton bins j ih =>
    have hloop : peakOf input (bins ++ [j]) =
        if (input j).isFinite ∧ Gt (input j) (peakOf input bins) then input j
        else peakOf input bins := by
      rw [peakOf, List.foldl_append]
      rfl
    rw [hloop]
    by_cases hfinite : (input j).isFinite = true
    swap
    · rw [if_neg fun h => hfinite h.1]
      have hne : ∀ y, input j ≠ .finite y := fun y hy => hfinite (isFinite_iff.2 ⟨y, hy⟩)
      rcases ih with ⟨hpeak, hnone⟩ | ⟨x, hpeak, ⟨k, hk, hx⟩, hgreatest⟩
      · refine .inl ⟨hpeak, fun k hk => ?_⟩
        rcases List.mem_append.1 hk with hk | hk
        · exact hnone k hk
        · rw [List.mem_singleton.1 hk]
          exact Bool.not_eq_true _ ▸ hfinite
      · refine .inr ⟨x, hpeak, ⟨k, List.mem_append_left _ hk, hx⟩, ?_⟩
        rintro y ⟨k', hk', hy⟩
        rcases List.mem_append.1 hk' with hk' | hk'
        · exact hgreatest ⟨k', hk', hy⟩
        · exact absurd (List.mem_singleton.1 hk' ▸ hy) (hne y)
    obtain ⟨z, hz⟩ := isFinite_iff.1 hfinite
    have hj : j ∈ bins ++ [j] := List.mem_append_right _ (List.mem_singleton_self j)
    rcases ih with ⟨hpeak, hnone⟩ | ⟨x, hpeak, ⟨k, hk, hx⟩, hgreatest⟩
    · -- the first finite one
      rw [hpeak, hz, if_pos ⟨rfl, trivial⟩]
      refine .inr ⟨z, rfl, ⟨j, hj, hz⟩, ?_⟩
      rintro y ⟨k, hk, hy⟩
      rcases List.mem_append.1 hk with hk | hk
      · exact absurd (hnone k hk) (by simp [hy, FloatValue.isFinite])
      · rw [List.mem_singleton.1 hk, hz] at hy
        exact (FloatValue.finite.inj hy).ge
    · rw [hpeak, hz]
      by_cases hgt : x < z
      · rw [if_pos ⟨rfl, hgt⟩]
        refine .inr ⟨z, rfl, ⟨j, hj, hz⟩, ?_⟩
        rintro y ⟨k', hk', hy⟩
        rcases List.mem_append.1 hk' with hk' | hk'
        · exact (hgreatest ⟨k', hk', hy⟩).trans hgt.le
        · rw [List.mem_singleton.1 hk', hz] at hy
          exact (FloatValue.finite.inj hy).ge
      · rw [if_neg fun h => hgt h.2]
        refine .inr ⟨x, rfl, ⟨k, List.mem_append_left _ hk, hx⟩, ?_⟩
        rintro y ⟨k', hk', hy⟩
        rcases List.mem_append.1 hk' with hk' | hk'
        · exact hgreatest ⟨k', hk', hy⟩
        · rw [List.mem_singleton.1 hk', hz] at hy
          exact (FloatValue.finite.inj hy).ge.trans (not_lt.1 hgt)

/-! ## Rows -/

/-- The finite inputs of a bucket. -/
def bucketInputs (input : ℕ → FloatValue) (inputCount outputCount i : ℕ) : Set ℚ :=
  {x | ∃ j, bucketFirst inputCount outputCount i ≤ j ∧ j < bucketLast inputCount outputCount i ∧
    input j = .finite x}

/-- The value that stands for a bucket: the floor of the display if no input of it is finite. -/
theorem isGreatest_bucket (input : ℕ → FloatValue) (inputCount outputCount i : ℕ) (floorDb : ℚ) :
    ∃ peak, (match peakOf input (List.range' (bucketFirst inputCount outputCount i)
        (bucketLast inputCount outputCount i - bucketFirst inputCount outputCount i)) with
      | .finite x => x
      | _ => floorDb) = peak ∧
      (IsGreatest (bucketInputs input inputCount outputCount i) peak ∨
        bucketInputs input inputCount outputCount i = ∅ ∧ peak = floorDb) := by
  have hset : {y | ∃ j ∈ List.range' (bucketFirst inputCount outputCount i)
        (bucketLast inputCount outputCount i - bucketFirst inputCount outputCount i),
        input j = .finite y} = bucketInputs input inputCount outputCount i := by
    ext y
    simp only [bucketInputs, List.mem_range'_1, Set.mem_ofPred_eq]
    refine exists_congr fun j => ?_
    rw [← and_assoc]
    exact and_congr_left fun _ => by omega
  rcases isPeak_peakOf input (List.range' (bucketFirst inputCount outputCount i)
      (bucketLast inputCount outputCount i - bucketFirst inputCount outputCount i)) with
    ⟨hpeak, hnone⟩ | ⟨x, hpeak, hgreatest⟩
  · rw [hpeak]
    refine ⟨floorDb, rfl, .inr ⟨?_, rfl⟩⟩
    rw [← hset, Set.eq_empty_iff_forall_notMem]
    rintro y ⟨j, hj, hy⟩
    exact absurd (hnone j hj) (by simp [hy, FloatValue.isFinite])
  · rw [hpeak]
    exact ⟨x, rfl, .inl (hset ▸ hgreatest)⟩

/-- **The buckets share out the bins.** The products do not overflow, no bucket is empty, each
begins where the last one ended, and every bin is in just one of them; a byte of the row is the
scaled maximum of the finite inputs of its bucket. -/
theorem spectrum_quantize (inputCount outputCount : ℕ) (hpos : 1 ≤ outputCount)
    (hcount : outputCount ≤ inputCount) (hguint : inputCount < 2 ^ 32) :
    (∀ i < outputCount, (i + 1) * inputCount < 2 ^ 64 ∧
      bucketFirst inputCount outputCount i < bucketLast inputCount outputCount i) ∧
    bucketFirst inputCount outputCount 0 = 0 ∧
    (∀ i, i + 1 < outputCount →
      bucketLast inputCount outputCount i = bucketFirst inputCount outputCount (i + 1)) ∧
    bucketLast inputCount outputCount (outputCount - 1) = inputCount ∧
    (∀ j < inputCount, ∃! i, i < outputCount ∧ bucketFirst inputCount outputCount i ≤ j ∧
      j < bucketLast inputCount outputCount i) ∧
    ∀ (round : ℚ → FloatValue) (input : ℕ → FloatValue) (output : ℕ → ℕ) (floorDb spanDb : ℚ),
      0 < spanDb → ∃ row, webSpectrumQuantize round (some input) inputCount (some output)
          outputCount (.finite floorDb) (.finite spanDb) = some row ∧
        ∀ i < outputCount, ∃ peak, row i = quantize round floorDb spanDb peak ∧
          (IsGreatest (bucketInputs input inputCount outputCount i) peak ∨
            bucketInputs input inputCount outputCount i = ∅ ∧ peak = floorDb) := by
  have hfirst : ∀ i < outputCount, bucketFirst inputCount outputCount i =
      Shares.cut inputCount outputCount i := fun i hi => bucketFirst_eq hpos hcount hguint hi
  have hlast : ∀ i < outputCount, bucketLast inputCount outputCount i =
      Shares.cut inputCount outputCount (i + 1) := fun i hi => bucketLast_eq hpos hcount hguint hi
  refine ⟨fun i hi => ⟨product_lt hcount hguint hi, ?_⟩, ?_, fun i hi => ?_, ?_, fun j hj => ?_,
    fun round input output floorDb spanDb hspan => ?_⟩
  · rw [hfirst i hi, hlast i hi]
    exact Shares.cut_lt_cut_succ hpos hcount i
  · rw [hfirst 0 hpos, Shares.cut_zero]
  · rw [hlast i (Nat.lt_of_succ_lt hi), hfirst (i + 1) hi]
  · rw [hlast _ (by omega), Nat.sub_add_cancel hpos, Shares.cut_self hpos]
  · obtain ⟨i, ⟨hi, hshare⟩, hunique⟩ := Shares.existsUnique_share hpos hj
    refine ⟨i, ⟨hi, (hfirst i hi).symm ▸ (hlast i hi).symm ▸ hshare⟩, fun k ⟨hk, hbucket⟩ => ?_⟩
    exact hunique k ⟨hk, hfirst k hk ▸ hlast k hk ▸ hbucket⟩
  · refine ⟨_, if_neg ?_, fun i hi => ?_⟩
    · rintro (h | h | h | h)
      · omega
      · omega
      · omega
      · exact absurd h (not_le.2 hspan)
    · obtain ⟨peak, hpeak, hgreatest⟩ :=
        isGreatest_bucket input inputCount outputCount i floorDb
      refine ⟨peak, ?_, hgreatest⟩
      rw [if_pos hi]
      exact congrArg (quantize round floorDb spanDb) hpeak

theorem spectrum_quantize_five : ∃! i, i < 2 ∧ bucketFirst 5 2 i ≤ 2 ∧ 2 < bucketLast 5 2 i :=
  (spectrum_quantize 5 2 (by decide) (by decide) (by decide)).2.2.2.2.1 2 (by decide)

end MacHPSDR.WebServer
