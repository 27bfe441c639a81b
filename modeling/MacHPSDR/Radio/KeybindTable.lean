import Mathlib

/-!
# The table of keyboard shortcuts

A row of the table binds an action to a key and its modifiers. `keybind_set` takes a key from the
row that has it, so that no two rows hold the same one; the key is stored in lower case, for Caps
Lock. What changes a row clears its `held`, and runs nothing.
-/

namespace MacHPSDR.Radio.Keybind

structure KeybindAction where
  id : String
  hold : Bool

def keybindActions : List KeybindAction :=
  [⟨"zoom_in", false⟩, ⟨"zoom_out", false⟩, ⟨"zoom_reset", false⟩, ⟨"pan_left", false⟩,
    ⟨"pan_right", false⟩, ⟨"ptt", true⟩, ⟨"mox", false⟩, ⟨"tune", false⟩, ⟨"sideband", false⟩,
    ⟨"mode_next", false⟩, ⟨"mode_prev", false⟩, ⟨"band_up", false⟩, ⟨"band_down", false⟩,
    ⟨"filter_up", false⟩, ⟨"filter_down", false⟩, ⟨"freq_up", false⟩, ⟨"freq_down", false⟩,
    ⟨"lock", false⟩, ⟨"a_to_b", false⟩, ⟨"b_to_a", false⟩, ⟨"a_swap_b", false⟩, ⟨"split", false⟩,
    ⟨"ctun", false⟩, ⟨"rit", false⟩, ⟨"rit_clear", false⟩, ⟨"xit", false⟩, ⟨"xit_clear", false⟩,
    ⟨"mute", false⟩, ⟨"volume_up", false⟩, ⟨"volume_down", false⟩, ⟨"agc_gain_up", false⟩,
    ⟨"agc_gain_down", false⟩, ⟨"squelch_up", false⟩, ⟨"squelch_down", false⟩,
    ⟨"squelch_toggle", false⟩, ⟨"agc", false⟩, ⟨"nb", false⟩, ⟨"nr", false⟩, ⟨"anf", false⟩,
    ⟨"snb", false⟩, ⟨"mode_lsb", false⟩, ⟨"mode_usb", false⟩, ⟨"mode_dsb", false⟩,
    ⟨"mode_cwl", false⟩, ⟨"mode_cwu", false⟩, ⟨"mode_fmn", false⟩, ⟨"mode_am", false⟩,
    ⟨"mode_digu", false⟩, ⟨"mode_spec", false⟩, ⟨"mode_digl", false⟩, ⟨"mode_sam", false⟩,
    ⟨"mode_drm", false⟩, ⟨"mode_wfm", false⟩]

def keybindActionCount : ℕ := keybindActions.length

/-- `keybind_actions[i]` -/
def actionAt (i : ℕ) : KeybindAction := keybindActions.getD i ⟨"", false⟩

/-- What GTK and the display tell about the keyboard. -/
structure Keyboard where
  /-- `gdk_keyval_to_lower` -/
  keyvalToLower : ℕ → ℕ
  lower_lower : ∀ v, keyvalToLower (keyvalToLower v) = keyvalToLower v
  /-- `gtk_accelerator_get_default_mod_mask` -/
  defaultModMask : ℕ
  /-- `gdk_display_map_keycode`; nothing without a display. -/
  mapKeycode : ℕ → List ℕ
  /-- `gtk_accelerator_parse` -/
  acceleratorParse : String → Option (ℕ × ℕ)

structure Binding where
  keyval : ℕ
  mods : ℕ
  /-- A hold action whose press was consumed. -/
  held : Bool

/-- `bindings`, indexed like the actions -/
abbrev Bindings := ℕ → Binding

namespace Keyboard

variable (kb : Keyboard)

def modMask (state : ℕ) : ℕ := state &&& kb.defaultModMask

/-! ## The table -/

/-- The row is bound to the key and the modifiers. -/
def holds (b : Bindings) (keyval mods i : ℕ) : Bool :=
  (b i).keyval != 0 && (b i).keyval == kb.keyvalToLower keyval && (b i).mods == kb.modMask mods

def keybindFind (b : Bindings) (keyval mods : ℕ) : Option ℕ :=
  (List.range keybindActionCount).find? (kb.holds b keyval mods)

end Keyboard

/-- The rows an index may name. -/
def InTable (index : ℤ) : Prop := 0 ≤ index ∧ index < keybindActionCount

instance (index : ℤ) : Decidable (InTable index) := inferInstanceAs (Decidable (_ ∧ _))

def keybindClear (b : Bindings) (index : ℤ) : Bindings :=
  if InTable index then Function.update b index.toNat ⟨0, 0, false⟩ else b

def keybindClearAll (b : Bindings) : Bindings :=
  (List.range keybindActionCount).foldl (fun b i => keybindClear b i) b

namespace Keyboard

variable (kb : Keyboard)

/-- The loop of `keybind_set`. -/
def evict (keyval mods index : ℕ) : ℕ → Bindings → Bindings
  | 0, b => b
  | fuel + 1, b =>
    match kb.keybindFind b keyval mods with
    | some other => if other ≠ index then evict keyval mods index fuel (keybindClear b other) else b
    | none => b

def keybindSet (b : Bindings) (index : ℤ) (keyval mods : ℕ) : Bindings :=
  if ¬ InTable index then b
  else if keyval = 0 then keybindClear b index
  else
    let mods := kb.modMask mods
    let keyval := kb.keyvalToLower keyval
    let b := kb.evict keyval mods index.toNat keybindActionCount b
    Function.update b index.toNat ⟨keyval, mods, false⟩

/-- One row of `keybind_restore_state`. -/
def restoreRow (getProperty : String → Option String) (b : Bindings) (i : ℕ) : Bindings :=
  match getProperty ("keybind." ++ (actionAt i).id) with
  | none => b
  | some value =>
    if value = "" then b
    else
      match kb.acceleratorParse value with
      | none => b
      | some (keyval, mods) => if keyval = 0 then b else kb.keybindSet b i keyval mods

def keybindRestoreState (getProperty : String → Option String) (b : Bindings) : Bindings :=
  (List.range keybindActionCount).foldl (kb.restoreRow getProperty) (keybindClearAll b)

end Keyboard

/-! ## One key, one row -/

/-- No two rows hold the same key and modifiers, up to letter case. -/
def Distinct (kb : Keyboard) (b : Bindings) : Prop :=
  ∀ i < keybindActionCount, ∀ j < keybindActionCount, (b i).keyval ≠ 0 → (b j).keyval ≠ 0 →
    kb.keyvalToLower (b i).keyval = kb.keyvalToLower (b j).keyval → (b i).mods = (b j).mods → i = j

/-- The keys are stored in lower case, each with its modifiers once. -/
structure Tidy (kb : Keyboard) (b : Bindings) : Prop where
  lower : ∀ i, (b i).keyval ≠ 0 → kb.keyvalToLower (b i).keyval = (b i).keyval
  once : ∀ i < keybindActionCount, ∀ j < keybindActionCount, (b i).keyval ≠ 0 →
    (b i).keyval = (b j).keyval → (b i).mods = (b j).mods → i = j

variable {kb : Keyboard} {b : Bindings}

theorem Tidy.distinct (h : Tidy kb b) : Distinct kb b := by
  intro i hi j hj hbi hbj hkeyval hmods
  rw [h.lower i hbi, h.lower j hbj] at hkeyval
  exact h.once i hi j hj hbi hkeyval hmods

/-- `held` is no part of it. -/
theorem Tidy.congr {b' : Bindings} (h : Tidy kb b)
    (hrow : ∀ i, (b' i).keyval = (b i).keyval ∧ (b' i).mods = (b i).mods) : Tidy kb b' where
  lower i hi := by
    rw [(hrow i).1] at hi ⊢
    exact h.lower i hi
  once i hi j hj hbi hkeyval hmods := by
    rw [(hrow i).1] at hbi hkeyval
    rw [(hrow j).1] at hkeyval
    rw [(hrow i).2, (hrow j).2] at hmods
    exact h.once i hi j hj hbi hkeyval hmods

theorem holds_iff {keyval mods i : ℕ} : kb.holds b keyval mods i = true ↔
    (b i).keyval ≠ 0 ∧ (b i).keyval = kb.keyvalToLower keyval ∧ (b i).mods = kb.modMask mods := by
  simp [Keyboard.holds, and_assoc]

theorem modMask_modMask (mods : ℕ) : kb.modMask (kb.modMask mods) = kb.modMask mods := by
  unfold Keyboard.modMask
  rw [Nat.and_assoc, Nat.and_self]

/-- `keybind_find` lowers and masks once more what `keybind_set` gives it. -/
theorem holds_lower (keyval mods i : ℕ) :
    kb.holds b (kb.keyvalToLower keyval) (kb.modMask mods) i = kb.holds b keyval mods i := by
  unfold Keyboard.holds
  rw [kb.lower_lower, modMask_modMask]

theorem keybindFind_some {keyval mods i : ℕ} (h : kb.keybindFind b keyval mods = some i) :
    i < keybindActionCount ∧ kb.holds b keyval mods i = true :=
  ⟨List.mem_range.1 (List.mem_of_find?_eq_some h), List.find?_some h⟩

theorem keybindFind_none {keyval mods : ℕ} (h : kb.keybindFind b keyval mods = none) (i : ℕ)
    (hi : i < keybindActionCount) : ¬ kb.holds b keyval mods i = true :=
  List.find?_eq_none.1 h i (List.mem_range.2 hi)

theorem keybindClear_of_ne (b : Bindings) {index : ℤ} {i : ℕ} (h : (i : ℤ) ≠ index) :
    keybindClear b index i = b i := by
  unfold keybindClear
  split
  · next hindex =>
    obtain ⟨hindex, -⟩ := hindex
    exact Function.update_of_ne (by omega) _ _
  · rfl

theorem keybindClear_self (b : Bindings) {i : ℕ} (hi : i < keybindActionCount) :
    keybindClear b i i = ⟨0, 0, false⟩ := by
  unfold keybindClear
  rw [if_pos ⟨by omega, by omega⟩, Int.toNat_natCast, Function.update_self]

/-- A row is cleared or as it was. -/
theorem keybindClear_or (b : Bindings) (index : ℤ) (i : ℕ) :
    keybindClear b index i = b i ∨ keybindClear b index i = ⟨0, 0, false⟩ := by
  unfold keybindClear
  split
  · rcases eq_or_ne i index.toNat with rfl | hi
    · exact .inr (Function.update_self ..)
    · exact .inl (Function.update_of_ne hi _ _)
  · exact .inl rfl

theorem Tidy.clear (h : Tidy kb b) (index : ℤ) : Tidy kb (keybindClear b index) where
  lower i hi := by
    rcases keybindClear_or b index i with hrow | hrow
    · rw [hrow] at hi ⊢
      exact h.lower i hi
    · rw [hrow] at hi
      exact absurd rfl hi
  once i hi j hj hbi hkeyval hmods := by
    rcases keybindClear_or b index i with hrow | hrow
    · rcases keybindClear_or b index j with hrow' | hrow'
      · rw [hrow] at hbi hkeyval hmods
        rw [hrow'] at hkeyval hmods
        exact h.once i hi j hj hbi hkeyval hmods
      · rw [hkeyval, hrow'] at hbi
        exact absurd rfl hbi
    · rw [hrow] at hbi
      exact absurd rfl hbi

theorem Tidy.evict {keyval mods index : ℕ} (fuel : ℕ) :
    ∀ {b : Bindings}, Tidy kb b → Tidy kb (kb.evict keyval mods index fuel b) := by
  induction fuel with
  | zero => exact fun h => h
  | succ fuel ih =>
    intro b h
    unfold Keyboard.evict
    split
    · split
      · exact ih (h.clear _)
      · exact h
    · exact h

/-- Only rows bound to the key are evicted. -/
theorem evict_of_not_holds {keyval mods index i : ℕ} (fuel : ℕ) : ∀ {b : Bindings},
    ¬ kb.holds b keyval mods i = true → kb.evict keyval mods index fuel b i = b i := by
  induction fuel with
  | zero => exact fun _ => rfl
  | succ fuel ih =>
    intro b hi
    unfold Keyboard.evict
    cases hfind : kb.keybindFind b keyval mods with
    | none => rfl
    | some other =>
      have hne : i ≠ other := fun h => hi (h ▸ (keybindFind_some hfind).2)
      have hrow : keybindClear b other i = b i := keybindClear_of_ne b (by omega)
      change (if other ≠ index then _ else b) i = b i
      split
      · rw [ih (by rwa [Keyboard.holds, hrow]), hrow]
      · rfl

/-- In a tidy table the loop leaves the key to no other row. -/
theorem evict_holds {keyval mods index i : ℕ} (hb : Tidy kb b) (hi : i < keybindActionCount)
    (fuel : ℕ) (h : kb.holds (kb.evict keyval mods index (fuel + 1) b) keyval mods i = true) :
    i = index := by
  unfold Keyboard.evict at h
  split at h
  · next other hother =>
    obtain ⟨hlt, hholds⟩ := keybindFind_some hother
    have honly (j : ℕ) (hj : j < keybindActionCount) (hbj : kb.holds b keyval mods j = true) :
        j = other := by
      obtain ⟨h0, h1, h2⟩ := holds_iff.1 hbj
      obtain ⟨-, h1', h2'⟩ := holds_iff.1 hholds
      exact hb.once j hj other hlt h0 (h1.trans h1'.symm) (h2.trans h2'.symm)
    split at h
    · -- what held the key is cleared, and nothing else holds it
      have hclear : ¬ kb.holds (keybindClear b other) keyval mods i = true := by
        intro hholds'
        rcases eq_or_ne i other with rfl | hne
        · rw [holds_iff, keybindClear_self b hi] at hholds'
          exact hholds'.1 rfl
        · rw [Keyboard.holds, keybindClear_of_ne b (by omega)] at hholds'
          exact hne (honly i hi hholds')
      rw [Keyboard.holds, evict_of_not_holds fuel hclear] at h
      exact absurd h hclear
    · next hindex => exact (honly i hi h).trans (not_not.1 hindex)
  · next hnone => exact absurd h (keybindFind_none hnone i hi)

theorem Tidy.set (h : Tidy kb b) (index : ℤ) (keyval mods : ℕ) :
    Tidy kb (kb.keybindSet b index keyval mods) := by
  unfold Keyboard.keybindSet
  split
  · exact h
  · split
    · exact h.clear index
    · set b' := kb.evict (kb.keyvalToLower keyval) (kb.modMask mods) index.toNat
        keybindActionCount b with hb'
      have htidy : Tidy kb b' := Tidy.evict _ h
      have hother (i : ℕ) (hi : i < keybindActionCount) (h0 : (b' i).keyval ≠ 0)
          (h1 : (b' i).keyval = kb.keyvalToLower keyval) (h2 : (b' i).mods = kb.modMask mods) :
          i = index.toNat := by
        refine evict_holds h hi (keybindActionCount - 1) (holds_iff.2 ⟨h0, ?_, ?_⟩)
        · exact h1.trans (kb.lower_lower keyval).symm
        · exact h2.trans (modMask_modMask mods).symm
      constructor
      · intro i hi
        rcases eq_or_ne i index.toNat with rfl | hne
        · rw [Function.update_self] at hi ⊢
          exact kb.lower_lower keyval
        · rw [Function.update_of_ne hne] at hi ⊢
          exact htidy.lower i hi
      · intro i hi j hj hbi hkeyval hmods
        rcases eq_or_ne i index.toNat with rfl | hne
        · rcases eq_or_ne j index.toNat with rfl | hne'
          · rfl
          · rw [Function.update_self] at hbi hkeyval hmods
            rw [Function.update_of_ne hne'] at hkeyval hmods
            exact (hother j hj (hkeyval ▸ hbi) hkeyval.symm hmods.symm).symm
        · rw [Function.update_of_ne hne] at hbi hkeyval hmods
          rcases eq_or_ne j index.toNat with rfl | hne'
          · rw [Function.update_self] at hkeyval hmods
            exact hother i hi hbi hkeyval hmods
          · rw [Function.update_of_ne hne'] at hkeyval hmods
            exact htidy.once i hi j hj hbi hkeyval hmods

theorem Tidy.clearAll (h : Tidy kb b) : Tidy kb (keybindClearAll b) :=
  List.foldlRecOn _ _ h fun _ hb i _ => hb.clear i

theorem Tidy.restoreRow (h : Tidy kb b) (getProperty : String → Option String) (i : ℕ) :
    Tidy kb (kb.restoreRow getProperty b i) := by
  unfold Keyboard.restoreRow
  split
  · exact h
  · split
    · exact h
    · split
      · exact h
      · split
        · exact h
        · exact h.set ..

theorem Tidy.restoreState (h : Tidy kb b) (getProperty : String → Option String) :
    Tidy kb (kb.keybindRestoreState getProperty b) :=
  List.foldlRecOn _ _ h.clearAll fun _ hb i _ => hb.restoreRow getProperty i

/-! ## Rows that are held -/

theorem held_of_clear {index : ℤ} {i : ℕ} (h : (keybindClear b index i).held = true) :
    (b i).held = true := by
  rcases keybindClear_or b index i with hrow | hrow
  · rwa [hrow] at h
  · rw [hrow] at h
    exact absurd h Bool.false_ne_true

theorem held_of_evict {keyval mods index i : ℕ} (fuel : ℕ) : ∀ {b : Bindings},
    (kb.evict keyval mods index fuel b i).held = true → (b i).held = true := by
  induction fuel with
  | zero => exact fun h => h
  | succ fuel ih =>
    intro b h
    unfold Keyboard.evict at h
    cases hfind : kb.keybindFind b keyval mods with
    | none =>
      rw [hfind] at h
      exact h
    | some other =>
      rw [hfind] at h
      change ((if other ≠ index then _ else b) i).held = true at h
      split at h
      · exact held_of_clear (ih h)
      · exact h

theorem held_of_set {index : ℤ} {keyval mods i : ℕ}
    (h : (kb.keybindSet b index keyval mods i).held = true) : (b i).held = true := by
  unfold Keyboard.keybindSet at h
  split at h
  · exact h
  · split at h
    · exact held_of_clear h
    · dsimp only at h
      rcases eq_or_ne i index.toNat with rfl | hne
      · rw [Function.update_self] at h
        exact absurd h Bool.false_ne_true
      · rw [Function.update_of_ne hne] at h
        exact held_of_evict _ h

theorem held_of_clearAll {i : ℕ} (h : (keybindClearAll b i).held = true) : (b i).held = true := by
  revert h
  unfold keybindClearAll
  exact List.foldlRecOn (motive := fun b' : Bindings => (b' i).held = true → (b i).held = true) _ _
    id fun _ ih _ _ h => ih (held_of_clear h)

theorem held_of_restoreRow {getProperty : String → Option String} {i j : ℕ}
    (h : (kb.restoreRow getProperty b j i).held = true) : (b i).held = true := by
  unfold Keyboard.restoreRow at h
  cases hvalue : getProperty ("keybind." ++ (actionAt j).id) with
  | none =>
    rw [hvalue] at h
    exact h
  | some value =>
    rw [hvalue] at h
    dsimp only at h
    split at h
    · exact h
    · cases hparse : kb.acceleratorParse value with
      | none =>
        rw [hparse] at h
        exact h
      | some accel =>
        rw [hparse] at h
        dsimp only at h
        split at h
        · exact h
        · exact held_of_set h

theorem held_of_restoreState {getProperty : String → Option String} {i : ℕ}
    (h : (kb.keybindRestoreState getProperty b i).held = true) : (b i).held = true := by
  revert h
  unfold Keyboard.keybindRestoreState
  exact List.foldlRecOn (motive := fun b' : Bindings => (b' i).held = true → (b i).held = true) _ _
    held_of_clearAll fun _ ih _ _ h => ih (held_of_restoreRow h)

end MacHPSDR.Radio.Keybind
