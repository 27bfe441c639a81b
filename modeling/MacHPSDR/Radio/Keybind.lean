import MacHPSDR.Foundations.Transition
import MacHPSDR.Radio.KeybindTable
import Mathlib

/-!
# The keyboard shortcuts

A row of the table binds an action to a key and its modifiers. `keybind_key_pressed` runs the first
row that matches, and a hold action (PTT) marks its row as held. `keybind_key_released` runs every
held row that the key matches once more, with FALSE; the modifiers are not compared. What the
settings page and the properties file do to a row clears `held` too, and runs nothing.
-/

namespace MacHPSDR.Radio.Keybind

/-! ## Matching -/

/-- A key of the keyboard moves. -/
structure KeyEvent where
  /-- Which key it is. -/
  key : ℕ
  keyval : ℕ
  keycode : ℕ
  state : ℕ

def kbMaxCandidates : ℕ := 8

namespace Keyboard

variable (kb : Keyboard)

def candidatesAdd (c : List ℕ) (keyval : ℕ) : List ℕ :=
  let keyval := kb.keyvalToLower keyval
  if keyval = 0 then c
  else if keyval ∈ c then c
  else if c.length < kbMaxCandidates then c ++ [keyval]
  else c

def candidatesBuild (keyval keycode : ℕ) : List ℕ :=
  let c := kb.candidatesAdd [] keyval
  if keycode = 0 then c else (kb.mapKeycode keycode).foldl kb.candidatesAdd c

def candidatesHave (c : List ℕ) (keyval : ℕ) : Bool := c.contains (kb.keyvalToLower keyval)

/-- The key compares equal, or one of its candidates does. -/
def matchesKey (keyval : ℕ) (e : KeyEvent) : Bool :=
  kb.keyvalToLower keyval == kb.keyvalToLower e.keyval ||
    kb.candidatesHave (kb.candidatesBuild e.keyval e.keycode) keyval

end Keyboard

/-! ## The runs -/

structure State where
  bindings : Bindings
  /-- The keys that are down. -/
  down : ℕ → Bool
  /-- What the last `keybind_run` of the row's action was with. -/
  lastRun : ℕ → Option Bool
  /-- The key that ran the row last. -/
  presser : ℕ → ℕ

def State.init : State := ⟨fun _ => ⟨0, 0, false⟩, fun _ => false, fun _ => none, fun _ => 0⟩

/-- `keybind_run` with `TRUE`, for the row `i` -/
def State.runPressed (s : State) (i key : ℕ) : State where
  bindings := if (actionAt i).hold then
      Function.update s.bindings i { s.bindings i with held := true }
    else s.bindings
  down := s.down
  lastRun := Function.update s.lastRun i (some true)
  presser := Function.update s.presser i key

/-- `keybind_run` with `FALSE`, for the row `i` -/
def State.runReleased (s : State) (i : ℕ) : State :=
  { s with
    bindings := Function.update s.bindings i { s.bindings i with held := false }
    lastRun := Function.update s.lastRun i (some false) }

namespace Keyboard

variable (kb : Keyboard)

def keybindKeyPressed (s : State) (e : KeyEvent) : State :=
  match (List.range keybindActionCount).find? (fun i =>
      (s.bindings i).keyval != 0 && (s.bindings i).mods == kb.modMask e.state &&
        kb.matchesKey (s.bindings i).keyval e) with
  | some i => s.runPressed i e.key
  | none => s

def releaseRow (e : KeyEvent) (s : State) (i : ℕ) : State :=
  if (s.bindings i).held && kb.matchesKey (s.bindings i).keyval e then s.runReleased i else s

def keybindKeyReleased (s : State) (e : KeyEvent) : State :=
  (List.range keybindActionCount).foldl (kb.releaseRow e) s

end Keyboard

inductive Op
  /-- A press, or one more of it while the key is down. -/
  | pressed (e : KeyEvent)
  | released (e : KeyEvent)
  | set (index : ℤ) (keyval mods : ℕ)
  | clear (index : ℤ)
  | clearAll
  | restoreState (getProperty : String → Option String)

def shortcuts (kb : Keyboard) : System State Op where
  init := State.init
  step s
    | .pressed e =>
      some { kb.keybindKeyPressed s e with down := Function.update s.down e.key true }
    | .released e =>
      some { kb.keybindKeyReleased s e with down := Function.update s.down e.key false }
    | .set index keyval mods =>
      some { s with bindings := kb.keybindSet s.bindings index keyval mods }
    | .clear index => some { s with bindings := keybindClear s.bindings index }
    | .clearAll => some { s with bindings := keybindClearAll s.bindings }
    | .restoreState getProperty =>
      some { s with bindings := kb.keybindRestoreState getProperty s.bindings }

/-! ## Presses and releases -/

variable {kb : Keyboard}

/-- Running a row touches neither its key nor its modifiers. -/
theorem runPressed_binding (s : State) (i key j : ℕ) :
    ((s.runPressed i key).bindings j).keyval = (s.bindings j).keyval ∧
      ((s.runPressed i key).bindings j).mods = (s.bindings j).mods := by
  unfold State.runPressed
  rcases eq_or_ne j i with rfl | hne
  · by_cases hhold : (actionAt j).hold <;> simp [hhold]
  · by_cases hhold : (actionAt i).hold <;> simp [hhold, Function.update_of_ne hne]

/-- A press runs one row, or none. -/
theorem keybindKeyPressed_cases (kb : Keyboard) (s : State) (e : KeyEvent) :
    kb.keybindKeyPressed s e = s ∨ ∃ i < keybindActionCount, (s.bindings i).keyval ≠ 0 ∧
      kb.matchesKey (s.bindings i).keyval e = true ∧
        kb.keybindKeyPressed s e = s.runPressed i e.key := by
  unfold Keyboard.keybindKeyPressed
  split
  · next i hfind =>
    have hi := List.mem_range.1 (List.mem_of_find?_eq_some hfind)
    have hmatch := List.find?_some hfind
    rw [Bool.and_eq_true, Bool.and_eq_true, bne_iff_ne] at hmatch
    exact .inr ⟨i, hi, hmatch.1.1, hmatch.2, rfl⟩
  · exact .inl rfl

/-- The row is held and the key matches it. -/
def Drops (kb : Keyboard) (e : KeyEvent) (s : State) (i : ℕ) : Prop :=
  (s.bindings i).held = true ∧ kb.matchesKey (s.bindings i).keyval e = true

theorem releaseRow_of_drops {e : KeyEvent} {s : State} {i : ℕ} (h : Drops kb e s i) :
    kb.releaseRow e s i = s.runReleased i :=
  if_pos (Bool.and_eq_true_iff.2 h)

theorem releaseRow_of_not_drops {e : KeyEvent} {s : State} {i : ℕ} (h : ¬ Drops kb e s i) :
    kb.releaseRow e s i = s :=
  if_neg fun h' => h (Bool.and_eq_true_iff.1 h')

/-- What a release leaves alone. -/
theorem keybindKeyReleased_frame (kb : Keyboard) (s : State) (e : KeyEvent) :
    (kb.keybindKeyReleased s e).down = s.down ∧
      (kb.keybindKeyReleased s e).presser = s.presser := by
  unfold Keyboard.keybindKeyReleased
  refine List.foldlRecOn (motive := fun t : State => t.down = s.down ∧ t.presser = s.presser) _ _
    ⟨rfl, rfl⟩ fun t ht i _ => ?_
  by_cases h : Drops kb e t i
  · rwa [releaseRow_of_drops h]
  · rwa [releaseRow_of_not_drops h]

theorem foldl_releaseRow_of_not_drops {e : KeyEvent} {i : ℕ} (rows : List ℕ) :
    ∀ {s : State}, ¬ Drops kb e s i → (rows.foldl (kb.releaseRow e) s).bindings i = s.bindings i ∧
      (rows.foldl (kb.releaseRow e) s).lastRun i = s.lastRun i := by
  induction rows with
  | nil => exact fun _ => ⟨rfl, rfl⟩
  | cons j rows ih =>
    intro s hi
    rw [List.foldl_cons]
    by_cases hj : Drops kb e s j
    · have hne : i ≠ j := fun h => hi (h ▸ hj)
      have hrow : (s.runReleased j).bindings i = s.bindings i := Function.update_of_ne hne _ _
      have hrun : (s.runReleased j).lastRun i = s.lastRun i := Function.update_of_ne hne _ _
      rw [releaseRow_of_drops hj]
      obtain ⟨h1, h2⟩ := ih (s := s.runReleased j) (by rwa [Drops, hrow])
      exact ⟨h1.trans hrow, h2.trans hrun⟩
    · rw [releaseRow_of_not_drops hj]
      exact ih hi

theorem foldl_releaseRow_of_drops {e : KeyEvent} {i : ℕ} (rows : List ℕ) :
    ∀ {s : State}, Drops kb e s i → i ∈ rows →
      (rows.foldl (kb.releaseRow e) s).bindings i = { s.bindings i with held := false } ∧
        (rows.foldl (kb.releaseRow e) s).lastRun i = some false := by
  induction rows with
  | nil => exact fun _ hi => absurd hi List.not_mem_nil
  | cons j rows ih =>
    intro s hi hmem
    rw [List.foldl_cons]
    rcases eq_or_ne i j with rfl | hne
    · -- it drops here, and no later row touches it
      have hrow : (s.runReleased i).bindings i = { s.bindings i with held := false } :=
        Function.update_self ..
      have hrun : (s.runReleased i).lastRun i = some false := Function.update_self ..
      have hdone : ¬ Drops kb e (s.runReleased i) i := by
        rw [Drops, hrow]
        exact fun h => absurd h.1 Bool.false_ne_true
      rw [releaseRow_of_drops hi]
      obtain ⟨h1, h2⟩ := foldl_releaseRow_of_not_drops rows hdone
      exact ⟨h1.trans hrow, h2.trans hrun⟩
    · have hmem' : i ∈ rows := (List.mem_cons.1 hmem).resolve_left hne
      by_cases hj : Drops kb e s j
      · have hrow : (s.runReleased j).bindings i = s.bindings i := Function.update_of_ne hne _ _
        rw [releaseRow_of_drops hj, ← hrow]
        exact ih (by rwa [Drops, hrow]) hmem'
      · rw [releaseRow_of_not_drops hj]
        exact ih hi hmem'

/-- A release runs every row that it drops with FALSE. -/
theorem keybindKeyReleased_of_drops {e : KeyEvent} {s : State} {i : ℕ}
    (hi : i < keybindActionCount) (h : Drops kb e s i) :
    (kb.keybindKeyReleased s e).bindings i = { s.bindings i with held := false } ∧
      (kb.keybindKeyReleased s e).lastRun i = some false := by
  unfold Keyboard.keybindKeyReleased
  exact foldl_releaseRow_of_drops _ h (List.mem_range.2 hi)

theorem keybindKeyReleased_of_not_drops {e : KeyEvent} {s : State} {i : ℕ}
    (h : ¬ Drops kb e s i) : (kb.keybindKeyReleased s e).bindings i = s.bindings i ∧
      (kb.keybindKeyReleased s e).lastRun i = s.lastRun i := by
  unfold Keyboard.keybindKeyReleased
  exact foldl_releaseRow_of_not_drops _ h

theorem keybindKeyReleased_binding (kb : Keyboard) (s : State) (e : KeyEvent) (i : ℕ) :
    ((kb.keybindKeyReleased s e).bindings i).keyval = (s.bindings i).keyval ∧
      ((kb.keybindKeyReleased s e).bindings i).mods = (s.bindings i).mods := by
  unfold Keyboard.keybindKeyReleased
  refine List.foldlRecOn (motive := fun t : State => (t.bindings i).keyval = (s.bindings i).keyval ∧
    (t.bindings i).mods = (s.bindings i).mods) _ _ ⟨rfl, rfl⟩ fun t ht j _ => ?_
  by_cases h : Drops kb e t j
  · rw [releaseRow_of_drops h, State.runReleased]
    rcases eq_or_ne i j with rfl | hne
    · simpa using ht
    · simpa [Function.update_of_ne hne] using ht
  · rwa [releaseRow_of_not_drops h]

/-- **One step** keeps the table tidy. -/
theorem Tidy.step {s t : State} {op : Op} (hs : Tidy kb s.bindings)
    (h : (shortcuts kb).step s op = some t) : Tidy kb t.bindings := by
  cases op with
  | pressed e =>
    obtain rfl := Option.some.inj h
    refine hs.congr fun j => ?_
    change ((kb.keybindKeyPressed s e).bindings j).keyval = _ ∧
      ((kb.keybindKeyPressed s e).bindings j).mods = _
    rcases keybindKeyPressed_cases kb s e with hnone | ⟨i, -, -, -, hi⟩
    · rw [hnone]
      exact ⟨rfl, rfl⟩
    · rw [hi]
      exact runPressed_binding s i e.key j
  | released e =>
    obtain rfl := Option.some.inj h
    refine hs.congr fun j => ?_
    dsimp only
    exact keybindKeyReleased_binding kb s e j
  | set index keyval mods => exact Option.some.inj h ▸ hs.set index keyval mods
  | clear index => exact Option.some.inj h ▸ hs.clear index
  | clearAll => exact Option.some.inj h ▸ hs.clearAll
  | restoreState getProperty => exact Option.some.inj h ▸ hs.restoreState getProperty

theorem Tidy.init : Tidy kb State.init.bindings where
  lower _ h := absurd rfl h
  once _ _ _ _ h _ _ := absurd rfl h

/-- In every run no two rows hold the same key. -/
theorem distinct_of_exec {ops : List Op} {s : State}
    (h : (shortcuts kb).exec (shortcuts kb).init ops = some s) : Distinct kb s.bindings :=
  ((shortcuts kb).exec_induction (I := fun s => Tidy kb s.bindings) (fun _ _ _ hs h => hs.step h)
    Tidy.init h).distinct

/-! ## A key that is let go -/

/-- With every key up, what ran last for a hold action was `FALSE`. -/
def Released (s : State) : Prop :=
  (∀ k, s.down k = false) → ∀ i, (actionAt i).hold = true → s.lastRun i ≠ some true

/-- The settings page or the properties file takes `held` from the row. -/
def Resets (kb : Keyboard) (s : State) (i : ℕ) : Op → Prop
  | .pressed _ => False
  | .released _ => False
  | .set index keyval mods =>
    InTable index ∧ ((i : ℤ) = index ∨ keyval ≠ 0 ∧ kb.holds s.bindings keyval mods i = true)
  | .clear index => InTable index ∧ (i : ℤ) = index
  | .clearAll => True
  | .restoreState _ => True

/-- No row is reset while it is held, and the key that ran a held row matches it when let go. -/
def Clean (kb : Keyboard) (s : State) (op : Op) : Prop :=
  ∀ i < keybindActionCount, (s.bindings i).held = true → ¬ Resets kb s i op ∧
    match op with
    | .released e => s.presser i = e.key → kb.matchesKey (s.bindings i).keyval e = true
    | _ => True

/-- A hold action that runs is held, by a key that is down. -/
def Keyed (s : State) : Prop :=
  ∀ i, (actionAt i).hold = true → s.lastRun i = some true →
    (s.bindings i).held = true ∧ s.down (s.presser i) = true

theorem lt_of_hold {i : ℕ} (h : (actionAt i).hold = true) : i < keybindActionCount := by
  by_contra hle
  rw [actionAt, List.getD_eq_default _ _ (not_lt.1 hle)] at h
  exact absurd h Bool.false_ne_true

theorem keybindSet_of_not_resets {s : State} {i : ℕ} {index : ℤ} {keyval mods : ℕ}
    (h : ¬ Resets kb s i (.set index keyval mods)) :
    kb.keybindSet s.bindings index keyval mods i = s.bindings i := by
  by_cases hindex : InTable index
  · obtain ⟨hne, hholds⟩ := not_or.1 (not_and.1 h hindex)
    by_cases hkeyval : keyval = 0
    · rw [Keyboard.keybindSet, if_neg (not_not.2 hindex), if_pos hkeyval, keybindClear_of_ne _ hne]
    · have hevict : ¬ kb.holds s.bindings (kb.keyvalToLower keyval) (kb.modMask mods) i = true := by
        rw [holds_lower]
        exact fun hi => hholds ⟨hkeyval, hi⟩
      have hne' : i ≠ index.toNat := by
        obtain ⟨h0, -⟩ := hindex
        omega
      rw [Keyboard.keybindSet, if_neg (not_not.2 hindex), if_neg hkeyval]
      exact (Function.update_of_ne hne' _ _).trans (evict_of_not_holds _ hevict)
  · rw [Keyboard.keybindSet, if_pos hindex]

/-- What is not reset stays as it was. -/
theorem step_of_not_resets {s t : State} {op : Op} {i : ℕ} (h : (shortcuts kb).step s op = some t)
    (hpressed : ∀ e, op ≠ .pressed e) (hreleased : ∀ e, op ≠ .released e)
    (hi : ¬ Resets kb s i op) : t.bindings i = s.bindings i ∧ t.lastRun = s.lastRun ∧
      t.presser = s.presser ∧ t.down = s.down := by
  cases op with
  | pressed e => exact absurd rfl (hpressed e)
  | released e => exact absurd rfl (hreleased e)
  | set index keyval mods =>
    obtain rfl := Option.some.inj h
    exact ⟨keybindSet_of_not_resets hi, rfl, rfl, rfl⟩
  | clear index =>
    obtain rfl := Option.some.inj h
    refine ⟨?_, rfl, rfl, rfl⟩
    by_cases hindex : InTable index
    · exact keybindClear_of_ne _ fun h => hi ⟨hindex, h⟩
    · exact congrFun (if_neg hindex) i
  | clearAll => exact absurd trivial hi
  | restoreState getProperty => exact absurd trivial hi

theorem Keyed.pressed {s : State} (hs : Keyed s) (e : KeyEvent) :
    Keyed { kb.keybindKeyPressed s e with down := Function.update s.down e.key true } := by
  have hdown (k : ℕ) (hk : s.down k = true) : Function.update s.down e.key true k = true := by
    rcases eq_or_ne k e.key with rfl | hne
    · exact Function.update_self ..
    · rwa [Function.update_of_ne hne]
  intro i hhold hrun
  dsimp only at hrun ⊢
  rcases keybindKeyPressed_cases kb s e with hnone | ⟨j, -, -, -, hj⟩
  · rw [hnone] at hrun ⊢
    obtain ⟨hheld, hk⟩ := hs i hhold hrun
    exact ⟨hheld, hdown _ hk⟩
  · rw [hj] at hrun ⊢
    unfold State.runPressed at hrun ⊢
    dsimp only at hrun ⊢
    rcases eq_or_ne i j with rfl | hne
    · rw [if_pos hhold, Function.update_self, Function.update_self]
      exact ⟨rfl, Function.update_self ..⟩
    · rw [Function.update_of_ne hne] at hrun ⊢
      obtain ⟨hheld, hk⟩ := hs i hhold hrun
      refine ⟨?_, hdown _ hk⟩
      split
      · rwa [Function.update_of_ne hne]
      · exact hheld

theorem Keyed.released {s : State} (hs : Keyed s) {e : KeyEvent}
    (hclean : Clean kb s (.released e)) :
    Keyed { kb.keybindKeyReleased s e with down := Function.update s.down e.key false } := by
  intro i hhold hrun
  have hlt := lt_of_hold hhold
  dsimp only at hrun ⊢
  by_cases hdrops : Drops kb e s i
  · rw [(keybindKeyReleased_of_drops hlt hdrops).2] at hrun
    cases hrun
  · obtain ⟨hbinding, hlast⟩ := keybindKeyReleased_of_not_drops hdrops
    rw [hlast] at hrun
    obtain ⟨hheld, hk⟩ := hs i hhold hrun
    -- its own key would have matched
    have hne : s.presser i ≠ e.key := fun h => hdrops ⟨hheld, (hclean i hlt hheld).2 h⟩
    rw [hbinding, (keybindKeyReleased_frame kb s e).2, Function.update_of_ne hne]
    exact ⟨hheld, hk⟩

/-- **One step** that is clean leaves no hold action running without a key. -/
theorem Keyed.step {s t : State} {op : Op} (hs : Keyed s) (hclean : Clean kb s op)
    (h : (shortcuts kb).step s op = some t) : Keyed t := by
  by_cases hkey : ∃ e, op = .pressed e ∨ op = .released e
  · obtain ⟨e, rfl | rfl⟩ := hkey
    · exact Option.some.inj h ▸ hs.pressed e
    · exact Option.some.inj h ▸ hs.released hclean
  · intro i hhold hrun
    have hpressed (e : KeyEvent) : op ≠ .pressed e := fun he => hkey ⟨e, .inl he⟩
    have hreleased (e : KeyEvent) : op ≠ .released e := fun he => hkey ⟨e, .inr he⟩
    have hlast : t.lastRun = s.lastRun := by
      cases op with
      | pressed e => exact absurd rfl (hpressed e)
      | released e => exact absurd rfl (hreleased e)
      | _ => exact Option.some.inj h ▸ rfl
    obtain ⟨hheld, hk⟩ := hs i hhold (hlast ▸ hrun)
    obtain ⟨hreset, -⟩ := hclean i (lt_of_hold hhold) hheld
    obtain ⟨hbinding, -, hpresser, hdown⟩ := step_of_not_resets h hpressed hreleased hreset
    rw [hbinding, hpresser, hdown]
    exact ⟨hheld, hk⟩

theorem Keyed.released_of {s : State} (h : Keyed s) : Released s := by
  intro hup i hhold hrun
  obtain ⟨-, hdown⟩ := h i hhold hrun
  rw [hup] at hdown
  exact absurd hdown Bool.false_ne_true

theorem Keyed.init : Keyed State.init := fun _ _ h => absurd h (Option.some_ne_none true).symm

/-- **A held key is always released**, in a run that resets no held row and whose releases match
what their keys ran; and no two rows hold the same key. -/
theorem keysUp_released (kb : Keyboard) (ops : List Op) (s : State)
    (hclean : (shortcuts kb).Along (Clean kb) (shortcuts kb).init ops)
    (h : (shortcuts kb).exec (shortcuts kb).init ops = some s) :
    Released s ∧ Distinct kb s.bindings := by
  refine ⟨Keyed.released_of ?_, distinct_of_exec h⟩
  exact (shortcuts kb).exec_induction_along (fun _ _ _ hs ha hstep => Keyed.step hs ha hstep)
    ops _ _ Keyed.init hclean h

/-! ## F1 for PTT -/

instance (kb : Keyboard) (s : State) (i : ℕ) : DecidablePred (Resets kb s i)
  | .pressed _ => .isFalse not_false
  | .released _ => .isFalse not_false
  | .set _ _ _ => inferInstanceAs (Decidable (_ ∧ (_ ∨ _ ∧ _)))
  | .clear _ => inferInstanceAs (Decidable (_ ∧ _))
  | .clearAll => .isTrue trivial
  | .restoreState _ => .isTrue trivial

instance (kb : Keyboard) : DecidableRel (Clean kb) := fun s op =>
  match op with
  | .released e => inferInstanceAs (Decidable (∀ i < keybindActionCount,
      (s.bindings i).held = true → ¬ Resets kb s i (.released e) ∧
        (s.presser i = e.key → kb.matchesKey (s.bindings i).keyval e = true)))
  | .pressed _ | .set _ _ _ | .clear _ | .clearAll | .restoreState _ =>
    inferInstanceAs (Decidable (∀ i < keybindActionCount,
      (s.bindings i).held = true → ¬ Resets kb s i _ ∧ True))

/-- A keyboard with one layout, without letters. -/
def functionKeys : Keyboard where
  keyvalToLower v := v
  lower_lower _ := rfl
  defaultModMask := 0x1C00000D
  mapKeycode keycode := if keycode = 0x7A then [0xFFBE] else []
  acceleratorParse _ := none

def f1 : KeyEvent := ⟨0, 0xFFBE, 0x7A, 0⟩

/-- The row of `ptt` -/
def pttRow : ℕ := 5

def pressAndRelease : List Op :=
  [.set pttRow 0xFFBE 0, .pressed f1, .pressed f1, .released f1]

theorem keysUp_released_f1 : ∃ s, (shortcuts functionKeys).exec (shortcuts functionKeys).init
    pressAndRelease = some s ∧ Released s ∧ Distinct functionKeys s.bindings :=
  ⟨_, rfl, keysUp_released functionKeys pressAndRelease _ (by decide +kernel) rfl⟩

/-- The row of `ptt` is cleared while its key is down. -/
def clearedWhileHeld : List Op :=
  [.set pttRow 0xFFBE 0, .pressed f1, .clear pttRow, .released f1]

theorem not_keysUp_released : ¬ ∀ (kb : Keyboard) (ops : List Op) (s : State),
    (shortcuts kb).exec (shortcuts kb).init ops = some s → Released s ∧ Distinct kb s.bindings := by
  intro h
  obtain ⟨hreleased, -⟩ := h functionKeys clearedWhileHeld _ rfl
  refine hreleased (fun k => ?_) pttRow (by decide +kernel) (by decide +kernel)
  change Function.update (Function.update (fun _ => false) 0 true) 0 false k = false
  rw [Function.update_idem, Function.update_eq_self]

/-! ## Without a press -/

theorem held_of_release {s : State} {e : KeyEvent} {i : ℕ} (hi : i < keybindActionCount)
    (h : ((kb.keybindKeyReleased s e).bindings i).held = true) : ¬ Drops kb e s i ∧
      (s.bindings i).held = true := by
  by_cases hdrops : Drops kb e s i
  · rw [(keybindKeyReleased_of_drops hi hdrops).1] at h
    exact absurd h Bool.false_ne_true
  · rw [(keybindKeyReleased_of_not_drops hdrops).1] at h
    exact ⟨hdrops, h⟩

/-- Only a press makes a row held. -/
theorem held_of_step {s t : State} {op : Op} {i : ℕ} (hi : i < keybindActionCount)
    (hpressed : ∀ e, op ≠ .pressed e) (h : (shortcuts kb).step s op = some t)
    (hheld : (t.bindings i).held = true) : (s.bindings i).held = true := by
  cases op with
  | pressed e => exact absurd rfl (hpressed e)
  | released e =>
    obtain rfl := Option.some.inj h
    dsimp only at hheld
    exact (held_of_release hi hheld).2
  | set index keyval mods =>
    obtain rfl := Option.some.inj h
    exact held_of_set hheld
  | clear index =>
    obtain rfl := Option.some.inj h
    exact held_of_clear hheld
  | clearAll =>
    obtain rfl := Option.some.inj h
    exact held_of_clearAll hheld
  | restoreState getProperty =>
    obtain rfl := Option.some.inj h
    exact held_of_restoreState hheld

/-- A hold action runs and its row is not held. -/
def Stuck (i : ℕ) (s : State) : Prop := s.lastRun i = some true ∧ (s.bindings i).held = false

theorem Stuck.step {s t : State} {op : Op} {i : ℕ} (hi : i < keybindActionCount) (hs : Stuck i s)
    (hpressed : ∀ e, op ≠ .pressed e) (h : (shortcuts kb).step s op = some t) : Stuck i t := by
  obtain ⟨hrun, hheld⟩ := hs
  refine ⟨?_, Bool.eq_false_iff.2 fun ht => ?_⟩
  · cases op with
    | pressed e => exact absurd rfl (hpressed e)
    | released e =>
      obtain rfl := Option.some.inj h
      have hdrops : ¬ Drops kb e s i := fun hd => Bool.eq_false_iff.1 hheld hd.1
      dsimp only
      rw [(keybindKeyReleased_of_not_drops hdrops).2, hrun]
    | _ => exact Option.some.inj h ▸ hrun
  · exact Bool.eq_false_iff.1 hheld (held_of_step hi hpressed h ht)

/-- **What a reset leaves running**, no release and no call of the settings page stops: only another
press of a shortcut of the row can. -/
theorem Stuck.run {ops : List Op} {s t : State} {i : ℕ} (hi : i < keybindActionCount)
    (hs : Stuck i s) (hpressed : ∀ op ∈ ops, ∀ e, op ≠ .pressed e)
    (h : (shortcuts kb).exec s ops = some t) : Stuck i t := by
  induction ops generalizing s with
  | nil => exact Option.some.inj h ▸ hs
  | cons op ops ih =>
    obtain ⟨u, hu, ht⟩ := (shortcuts kb).exec_cons.1 h
    have hstuck : Stuck i u := hs.step hi (hpressed op List.mem_cons_self) hu
    exact ih hstuck (fun op' hop' => hpressed op' (List.mem_cons_of_mem op hop')) ht

/-! ## Keys with few symbols -/

/-- The symbols of a hardware key, in lower case. -/
def symbols (kb : Keyboard) (keycode : ℕ) : Finset ℕ :=
  ((kb.mapKeycode keycode).map kb.keyvalToLower).toFinset

/-- The candidates so far are symbols of a key that has few. -/
structure Candidates (symbols : Finset ℕ) (c : List ℕ) : Prop where
  nodup : c.Nodup
  subset : ∀ v ∈ c, v ∈ symbols

/-- Where the symbols are few, none is left out. -/
theorem Candidates.add {S : Finset ℕ} {c : List ℕ} (hc : Candidates S c)
    (hS : S.card ≤ kbMaxCandidates) {keyval : ℕ} (hkeyval : kb.keyvalToLower keyval ∈ S) :
    Candidates S (kb.candidatesAdd c keyval) ∧ (∀ v ∈ c, v ∈ kb.candidatesAdd c keyval) ∧
      (kb.keyvalToLower keyval ≠ 0 → kb.keyvalToLower keyval ∈ kb.candidatesAdd c keyval) := by
  unfold Keyboard.candidatesAdd
  dsimp only
  split
  · next hzero => exact ⟨hc, fun _ h => h, fun h => absurd hzero h⟩
  · split
    · next hmem => exact ⟨hc, fun _ h => h, fun _ => hmem⟩
    · next hmem =>
      split
      · refine ⟨⟨?_, ?_⟩, fun v hv => List.mem_append_left _ hv, fun _ => by simp⟩
        · exact List.nodup_append.2 ⟨hc.nodup, List.nodup_singleton _, by
            rintro v hv w hw rfl
            exact hmem (List.mem_singleton.1 hw ▸ hv)⟩
        · intro v hv
          rcases List.mem_append.1 hv with hv | hv
          · exact hc.subset v hv
          · exact List.mem_singleton.1 hv ▸ hkeyval
      · next hfull =>
        -- the candidates are all the symbols there are
        have hsub : c.toFinset ⊆ S := fun v hv => hc.subset v (List.mem_toFinset.1 hv)
        have hcard : c.toFinset.card = c.length := List.toFinset_card_of_nodup hc.nodup
        have heq : c.toFinset = S := Finset.eq_of_subset_of_card_le hsub (by omega)
        exact absurd (List.mem_toFinset.1 (heq ▸ hkeyval)) hmem

theorem Candidates.foldl {S : Finset ℕ} (hS : S.card ≤ kbMaxCandidates) (keyvals : List ℕ) :
    ∀ {c : List ℕ}, Candidates S c → (∀ v ∈ keyvals, kb.keyvalToLower v ∈ S) →
      Candidates S (keyvals.foldl kb.candidatesAdd c) ∧
        (∀ v ∈ c, v ∈ keyvals.foldl kb.candidatesAdd c) ∧
        ∀ v ∈ keyvals, kb.keyvalToLower v ≠ 0 →
          kb.keyvalToLower v ∈ keyvals.foldl kb.candidatesAdd c := by
  induction keyvals with
  | nil => exact fun hc _ => ⟨hc, fun _ h => h, fun _ h => absurd h List.not_mem_nil⟩
  | cons keyval keyvals ih =>
    intro c hc hmem
    obtain ⟨hadd, hold, hnew⟩ := hc.add hS (hmem keyval List.mem_cons_self)
    obtain ⟨hfold, hkeep, hrest⟩ := ih hadd fun v hv => hmem v (List.mem_cons_of_mem keyval hv)
    refine ⟨hfold, fun v hv => hkeep v (hold v hv), fun v hv hzero => ?_⟩
    rcases List.mem_cons.1 hv with rfl | hv
    · exact hkeep _ (hnew hzero)
    · exact hrest v hv hzero

/-- The event comes from a key that the display knows, with symbols that all fit. -/
structure Genuine (kb : Keyboard) (code : ℕ → ℕ) (e : KeyEvent) : Prop where
  keycode : e.keycode = code e.key
  known : e.keycode ≠ 0
  keyval : e.keyval ∈ kb.mapKeycode e.keycode
  few : (symbols kb e.keycode).card ≤ kbMaxCandidates

/-- Such a key matches what is bound to one of its symbols, whatever layout is in use. -/
theorem Genuine.matchesKey_iff {code : ℕ → ℕ} {e : KeyEvent} (he : Genuine kb code e) {keyval : ℕ}
    (hzero : keyval ≠ 0) (hlower : kb.keyvalToLower keyval = keyval) :
    kb.matchesKey keyval e = true ↔ keyval ∈ symbols kb e.keycode := by
  have hsymbol (v : ℕ) (hv : v ∈ kb.mapKeycode e.keycode) :
      kb.keyvalToLower v ∈ symbols kb e.keycode :=
    List.mem_toFinset.2 (List.mem_map_of_mem hv)
  have hnil : Candidates (symbols kb e.keycode) [] :=
    ⟨List.nodup_nil, fun v hv => absurd hv List.not_mem_nil⟩
  obtain ⟨hfirst, -, -⟩ := hnil.add he.few (hsymbol _ he.keyval)
  obtain ⟨hall, -, hevery⟩ := Candidates.foldl he.few _ hfirst hsymbol
  have hbuild : kb.candidatesBuild e.keyval e.keycode =
      (kb.mapKeycode e.keycode).foldl kb.candidatesAdd (kb.candidatesAdd [] e.keyval) :=
    if_neg he.known
  rw [Keyboard.matchesKey, Keyboard.candidatesHave, hbuild, hlower, Bool.or_eq_true, beq_iff_eq,
    List.contains_iff_mem]
  constructor
  · rintro (rfl | hmem)
    · exact hsymbol _ he.keyval
    · exact hall.subset keyval hmem
  · intro hmem
    obtain ⟨v, hv, rfl⟩ := List.mem_map.1 (List.mem_toFinset.1 hmem)
    exact .inr (hevery v hv hzero)

/-- What is held is bound to a symbol of the key that ran it. -/
def FromKey (kb : Keyboard) (code : ℕ → ℕ) (s : State) : Prop :=
  ∀ i < keybindActionCount, (s.bindings i).held = true → (s.bindings i).keyval ≠ 0 ∧
    (s.bindings i).keyval ∈ symbols kb (code (s.presser i))

/-- No held row is reset, and the keys are genuine. -/
def CleanKeys (kb : Keyboard) (code : ℕ → ℕ) (s : State) (op : Op) : Prop :=
  (∀ i < keybindActionCount, (s.bindings i).held = true → ¬ Resets kb s i op) ∧
    ∀ e, op = .pressed e ∨ op = .released e → Genuine kb code e

/-- The keys match what they ran: the other half of a clean step comes by itself. -/
theorem CleanKeys.clean {code : ℕ → ℕ} {s : State} {op : Op} (h : CleanKeys kb code s op)
    (htidy : Tidy kb s.bindings) (hs : FromKey kb code s) : Clean kb s op := by
  intro i hi hheld
  refine ⟨h.1 i hi hheld, ?_⟩
  cases op with
  | released e =>
    intro hpresser
    have he : Genuine kb code e := h.2 e (.inr rfl)
    obtain ⟨hzero, hsymbol⟩ := hs i hi hheld
    rw [hpresser, ← he.keycode] at hsymbol
    exact (he.matchesKey_iff hzero (htidy.lower i hzero)).2 hsymbol
  | _ => trivial

theorem FromKey.step {code : ℕ → ℕ} {s t : State} {op : Op} (hs : FromKey kb code s)
    (htidy : Tidy kb s.bindings) (hclean : CleanKeys kb code s op)
    (h : (shortcuts kb).step s op = some t) : FromKey kb code t := by
  intro i hi hheld
  by_cases hpressed : ∃ e, op = .pressed e
  · obtain ⟨e, rfl⟩ := hpressed
    have he : Genuine kb code e := hclean.2 e (.inl rfl)
    obtain rfl := Option.some.inj h
    dsimp only at hheld ⊢
    rcases keybindKeyPressed_cases kb s e with hnone | ⟨j, -, hzero, hmatch, hj⟩
    · rw [hnone] at hheld ⊢
      exact hs i hi hheld
    · rw [hj] at hheld ⊢
      rw [(runPressed_binding s j e.key i).1]
      unfold State.runPressed at hheld ⊢
      dsimp only at hheld ⊢
      rcases eq_or_ne i j with rfl | hne
      · rw [Function.update_self, ← he.keycode]
        exact ⟨hzero, (he.matchesKey_iff hzero (htidy.lower i hzero)).1 hmatch⟩
      · rw [Function.update_of_ne hne]
        refine hs i hi ?_
        split at hheld
        · rwa [Function.update_of_ne hne] at hheld
        · exact hheld
  · have hpressed' (e : KeyEvent) : op ≠ .pressed e := fun he => hpressed ⟨e, he⟩
    have hheld' := held_of_step hi hpressed' h hheld
    obtain ⟨hzero, hsymbol⟩ := hs i hi hheld'
    by_cases hreleased : ∃ e, op = .released e
    · obtain ⟨e, rfl⟩ := hreleased
      obtain rfl := Option.some.inj h
      dsimp only at hheld ⊢
      rw [(keybindKeyReleased_binding kb s e i).1, (keybindKeyReleased_frame kb s e).2]
      exact ⟨hzero, hsymbol⟩
    · have hreleased' (e : KeyEvent) : op ≠ .released e := fun he => hreleased ⟨e, he⟩
      obtain ⟨hbinding, -, hpresser, -⟩ :=
        step_of_not_resets h hpressed' hreleased' (hclean.1 i hi hheld')
      rw [hbinding, hpresser]
      exact ⟨hzero, hsymbol⟩

/-- **With genuine keys** it is enough that no held row is reset. -/
theorem released_of_genuine {code : ℕ → ℕ} {ops : List Op} {s : State}
    (hclean : (shortcuts kb).Along (CleanKeys kb code) (shortcuts kb).init ops)
    (h : (shortcuts kb).exec (shortcuts kb).init ops = some s) : Released s := by
  have hinv := (shortcuts kb).exec_induction_along
    (I := fun s => Tidy kb s.bindings ∧ FromKey kb code s ∧ Keyed s)
    (fun _ _ _ ⟨htidy, hs, hkeyed⟩ ha hstep => ⟨htidy.step hstep, hs.step htidy ha hstep,
      hkeyed.step (ha.clean htidy hs) hstep⟩) ops _ _
    ⟨Tidy.init, fun _ _ h => absurd h Bool.false_ne_true, Keyed.init⟩ hclean h
  exact hinv.2.2.released_of

end MacHPSDR.Radio.Keybind
