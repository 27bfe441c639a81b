import MacHPSDR.Property.RoundTrip

/-!
# What a save leaves behind

Every operation of `saveProperties` may fail and the program may stop between any two of them. The
files it can leave behind are listed in `Left` (the temporary file is never read and is left out),
and `saveProperties_left` shows that nothing else is possible.

A later load gives what it would have given before the save or the new store, whatever happens, if
and only if an empty settings file did not stand beside a backup with settings, and the new store
can be read back (`save_atomic_iff`): with an empty settings file the save removes the backup that
the loader would have used and has nothing to put in its place.
-/

namespace MacHPSDR.Property

open CString FileSystem

/-! ## The operations -/

/-- The settings file and the backup that a save of the text `new` can leave behind, with the
result if it has returned. -/
inductive Left (d : Files) (new : CStr) (d' : Files) : Option Bool → Prop
  /-- Nothing has changed. -/
  | unchanged {r : Option Bool} (hr : r ≠ some true) (hmain : d' .main = d .main)
      (hbak : d' .bak = d .bak) : Left d new d' r
  /-- The backup of an existing settings file is gone. -/
  | unlinked {r : Option Bool} (hr : r ≠ some true) (hsome : (d .main).isSome = true)
      (hmain : d' .main = d .main) (hbak : d' .bak = none) : Left d new d' r
  /-- The settings file has become the backup. -/
  | moved {r : Option Bool} (hr : r ≠ some true) (hsome : (d .main).isSome = true)
      (hmain : d' .main = none) (hbak : d' .bak = d .main) : Left d new d' r
  /-- The new file is in place. -/
  | installed (hmain : d' .main = some new) : Left d new d' (some true)

variable {d e : Files} {new : CStr}

/-- The temporary file holds the text that has been written. -/
def Writing (d : Files) (text : CStr) (e : Files) : Prop :=
  e .main = d .main ∧ e .bak = d .bak ∧ e .tmp = some text

theorem install_safe_of_moved (hsome : (d .main).isSome = true) (hmain : e .main = none)
    (hbak : e .bak = d .main) (htmp : e .tmp = some new) :
    (install true).Safe (Left d new) e := by
  obtain ⟨t, ht⟩ := Option.isSome_iff_exists.1 hsome
  have hmoved : ∀ e' : Files, e' .main = e .main → e' .bak = e .bak →
      ∀ r, r ≠ some true → Left d new e' r := fun e' h₁ h₂ r hr =>
    Left.moved hr hsome (h₁.trans hmain) (h₂.trans hbak)
  -- After the new file could not be moved into place, the old one is put back.
  have hrestore : ∀ e' : Files, e' .main = e .main → e' .bak = e .bak →
      (Prog.op (.rename .bak .main) fun _ => .done false : Program).Safe (Left d new) e' := by
    intro e' h₁ h₂
    refine ⟨hmoved e' h₁ h₂ none (by simp), fun _ => hmoved _ h₁ h₂ _ (by simp), ?_⟩
    have hb : e' .bak = some t := h₂.trans (hbak.trans ht)
    simp only [Op.apply, hb, Option.map_some, Prog.Safe]
    refine Left.unlinked (by simp) hsome ?_ ?_
    · simp [ht]
    · simp
  refine ⟨hmoved e rfl rfl none (by simp), fun _ => ?_, ?_⟩
  · refine ⟨hmoved e rfl rfl none (by simp), fun _ => hrestore e rfl rfl, ?_⟩
    simp only [Op.failed, Op.apply, htmp, Option.map_some]
    exact hrestore _ (by simp) (by simp)
  · simp only [Op.apply, htmp, Option.map_some, if_true, Prog.Safe]
    exact Left.installed (by simp)

/-- Without a file to put back, a failed move changes nothing. -/
theorem install_safe_of_kept (hkept : ∀ e' : Files, e' .main = e .main → e' .bak = e .bak →
      ∀ r, r ≠ some true → Left d new e' r) (htmp : e .tmp = some new) :
    (install false).Safe (Left d new) e := by
  refine ⟨hkept e rfl rfl none (by simp), fun _ => ?_, ?_⟩
  · refine ⟨hkept e rfl rfl none (by simp), fun _ => hkept e rfl rfl _ (by simp), ?_⟩
    simp only [Op.failed, Op.apply, htmp, Option.map_some]
    exact hkept _ (by simp) (by simp) _ (by simp)
  · simp only [Op.apply, htmp, Option.map_some, if_true, Prog.Safe]
    exact Left.installed (by simp)

theorem publish_safe (h : Writing d new e) : publish.Safe (Left d new) e := by
  obtain ⟨hmain, hbak, htmp⟩ := h
  have hunch : ∀ e' : Files, e' .main = e .main → e' .bak = e .bak →
      ∀ r, r ≠ some true → Left d new e' r := fun e' h₁ h₂ r hr =>
    Left.unchanged hr (h₁.trans hmain) (h₂.trans hbak)
  cases hm : d .main with
  | none =>
    have hm' : e .main = none := hmain.trans hm
    simp only [publish, Prog.Safe, hm', Option.isSome_none]
    exact install_safe_of_kept hunch htmp
  | some t =>
    have hsome : (d .main).isSome = true := by simp [hm]
    have hm' : e .main = some t := hmain.trans hm
    -- The move of the settings file to the backup, with or without the old backup.
    have hmove : ∀ e' : Files, e' .main = some t → e' .tmp = some new →
        (∀ e'' : Files, e'' .main = e' .main → e'' .bak = e' .bak →
          ∀ r, r ≠ some true → Left d new e'' r) →
        (Prog.op (.rename .main .bak) install : Program).Safe (Left d new) e' := by
      intro e' h₁ h₂ hk
      refine ⟨hk e' rfl rfl none (by simp), fun _ => install_safe_of_kept hk h₂, ?_⟩
      simp only [Op.apply, h₁, Option.map_some]
      exact install_safe_of_moved hsome (by simp) (by simp [hm]) (by simpa using h₂)
    simp only [publish, Prog.Safe, hm', Option.isSome_some, if_true]
    refine ⟨hunch e rfl rfl none (by simp), fun _ => hmove e hm' htmp hunch, ?_⟩
    cases hb : e .bak with
    | none =>
      simp only [Op.apply, hb, Option.map_none]
      exact hmove e hm' htmp hunch
    | some b =>
      simp only [Op.apply, hb, Option.map_some]
      refine hmove _ (by simpa using hm') (by simpa using htmp) fun e'' h₁ h₂ r hr => ?_
      exact Left.unlinked hr hsome (by rw [h₁]; simpa using hmain) (by rw [h₂]; simp)

/-- Giving up removes the temporary file and touches nothing else. -/
theorem giveUp_safe (hmain : e .main = d .main) (hbak : e .bak = d .bak) :
    (Prog.op (.unlink .tmp) fun _ => .done false : Program).Safe (Left d new) e := by
  have hunch : ∀ e' : Files, e' .main = e .main → e' .bak = e .bak →
      ∀ r, r ≠ some true → Left d new e' r := fun e' h₁ h₂ r hr =>
    Left.unchanged hr (h₁.trans hmain) (h₂.trans hbak)
  refine ⟨hunch e rfl rfl none (by simp), fun _ => hunch e rfl rfl _ (by simp), ?_⟩
  cases ht : e .tmp with
  | none =>
    simp only [Op.apply, ht, Option.map_none, Prog.Safe]
    exact hunch e rfl rfl _ (by simp)
  | some t =>
    simp only [Op.apply, ht, Option.map_some, Prog.Safe]
    exact hunch _ (by simp) (by simp) _ (by simp)

theorem closeTmp_safe {ok : Bool} (hmain : e .main = d .main) (hbak : e .bak = d .bak)
    (htmp : ok = true → e .tmp = some new) : (closeTmp ok).Safe (Left d new) e := by
  refine ⟨Left.unchanged (by simp) hmain hbak, fun _ => ?_, ?_⟩
  · simp only [Bool.and_false, Bool.false_eq_true, if_false, Op.failed]
    exact giveUp_safe hmain hbak
  · simp only [Op.apply, Bool.and_true]
    cases ok with
    | false => exact giveUp_safe hmain hbak
    | true => exact publish_safe ⟨hmain, hbak, htmp rfl⟩

theorem writeLines_safe {ls : List CStr} {text : CStr} {k : Bool → Program}
    (h : Writing d text e)
    (hok : ∀ e', Writing d (text ++ ls.flatten) e' → (k true).Safe (Left d new) e')
    (hfail : ∀ e' : Files, e' .main = d .main → e' .bak = d .bak →
      (k false).Safe (Left d new) e') : (writeLines ls k).Safe (Left d new) e := by
  induction ls generalizing text e with
  | nil => exact hok e (by simpa using h)
  | cons l ls ih =>
    obtain ⟨hmain, hbak, htmp⟩ := h
    refine ⟨Left.unchanged (by simp) hmain hbak, fun m => ?_, ?_⟩
    · simp only [Op.failed, htmp, Option.map_some, Option.getD_some]
      exact hfail _ (by simpa using hmain) (by simpa using hbak)
    · simp only [Op.apply, htmp, Option.map_some, if_true]
      have hnext : Writing d (text ++ l) (Function.update e .tmp (some (text ++ l))) :=
        ⟨by simpa using hmain, by simpa using hbak, by simp⟩
      refine ih hnext fun e' he' => hok e' ?_
      rwa [List.append_assoc] at he'

/-- **The files that a save can leave behind**, after any failures and wherever it stops. -/
theorem saveProperties_left (s : Store) (d : Files) (os : List Outcome) :
    Left d (savedText (markVersion s)) ((saveProperties s).run os d).1
      ((saveProperties s).run os d).2 := by
  revert os
  rw [← Prog.safe_iff (Left d (savedText (markVersion s)))]
  refine ⟨Left.unchanged (by simp) rfl rfl, fun _ => Left.unchanged (by simp) rfl rfl, ?_⟩
  simp only [Op.apply, if_true]
  have hcreated : Writing d [] (Function.update d .tmp (some [])) :=
    ⟨by simp, by simp, by simp⟩
  refine writeLines_safe hcreated (fun e he => ?_) fun e hmain hbak =>
    closeTmp_safe hmain hbak (by simp)
  obtain ⟨hmain, hbak, htmp⟩ := he
  rw [List.nil_append] at htmp
  refine ⟨Left.unchanged (by simp) hmain hbak, fun _ => closeTmp_safe hmain hbak (by simp), ?_⟩
  exact closeTmp_safe hmain hbak fun _ => htmp

/-! ## Saving without a failure -/

theorem run_writeLines_ok {ls : List CStr} {text : CStr} {k : Bool → Program}
    (os : List Outcome) (htmp : e .tmp = some text) :
    (writeLines ls k).run (List.replicate ls.length .ok ++ os) e =
      (k true).run os (Function.update e .tmp (some (text ++ ls.flatten))) := by
  induction ls generalizing text e with
  | nil => simp [writeLines, ← htmp]
  | cons l ls ih =>
    simp only [writeLines, List.length_cons, List.replicate_succ, List.cons_append, Prog.run,
      Op.apply, htmp, Option.map_some, if_true]
    rw [ih (Function.update_self ..)]
    simp

/-- The outcomes of a save that fails nowhere, up to the point where the new file is complete. -/
def writtenOk (s : Store) : List Outcome :=
  .ok :: (List.replicate (savedLines (markVersion s)).length .ok ++ [.ok, .ok])

theorem run_writtenOk (s : Store) (d : Files) (os : List Outcome) :
    (saveProperties s).run (writtenOk s ++ os) d =
      publish.run os (Function.update d .tmp (some (savedText (markVersion s)))) := by
  simp only [saveProperties, writtenOk, List.cons_append, List.append_assoc, Prog.run, Op.apply,
    if_true]
  rw [run_writeLines_ok _ (Function.update_self ..)]
  simp [Prog.run, Op.apply, closeTmp, savedText]

/-- A save that stops after it has removed the old backup. -/
theorem run_unlinked (s : Store) {t : CStr} (hmain : d .main = some t) :
    ((saveProperties s).run (writtenOk s ++ [.ok]) d).1 .main = d .main ∧
      ((saveProperties s).run (writtenOk s ++ [.ok]) d).1 .bak = none := by
  rw [run_writtenOk]
  cases hbak : d .bak <;> simp [publish, Prog.run, Op.apply, hmain, hbak]

/-- A save in which nothing fails. -/
theorem run_ok (s : Store) (d : Files) :
    ((saveProperties s).run (writtenOk s ++ [.ok, .ok, .ok]) d).2 = some true := by
  rw [run_writtenOk]
  cases hmain : d .main <;> cases hbak : d .bak <;>
    simp [publish, install, Prog.run, Op.apply, hmain, hbak]

/-- A save that reports success has put the new text in place. -/
theorem main_of_saved {s : Store} {d d' : Files} {os : List Outcome}
    (h : (saveProperties s).run os d = (d', some true)) :
    d' .main = some (savedText (markVersion s)) := by
  have hleft := saveProperties_left s d os
  rw [h] at hleft
  cases hleft with
  | unchanged hr | unlinked hr | moved hr => exact (hr rfl).elim
  | installed hmain => exact hmain

/-! ## Round trip -/

/-- Names that are not empty, contain no `=` and no newline and do not start with `#`, and values
that contain no newline. -/
structure Storable (s : Store) : Prop where
  name_ne_nil : ∀ {name value}, s.lookup name = some value → name ≠ []
  equals_not_mem : ∀ {name value}, s.lookup name = some value → equals ∉ name
  newline_not_mem : ∀ {name value}, s.lookup name = some value → newline ∉ name
  head_ne : ∀ {name value}, s.lookup name = some value → name.head? ≠ some hash
  value_newline : ∀ {name value}, s.lookup name = some value → newline ∉ value

/-- The store with one property. -/
def single (name value : CStr) : Store := setProperty ∅ name value

theorem lookup_single {name value n v : CStr} (h : (single name value).lookup n = some v) :
    n = name ∧ v = value := by
  by_cases hn : n = name
  · subst hn
    rw [single, setProperty, Finmap.lookup_insert, Option.some.injEq] at h
    exact ⟨rfl, h.symm⟩
  · rw [single, setProperty, Finmap.lookup_insert_of_ne _ hn, Finmap.lookup_empty] at h
    cases h

theorem storable_single {name value : CStr} (hne : name ≠ []) (heq : equals ∉ name)
    (hnl : newline ∉ name) (hhead : name.head? ≠ some hash) (hvalue : newline ∉ value) :
    Storable (single name value) := by
  constructor <;> intro n v h <;> obtain ⟨rfl, rfl⟩ := lookup_single h <;> assumption

theorem fits_version : Fits versionName (lit "2.00") := ⟨readable_version, by decide⟩

/-- In a store free of separators an entry fits when its value is not empty and its line is short
enough. -/
theorem Storable.fits_iff {s : Store} (h : Storable s) {name value : CStr}
    (hl : (markVersion s).lookup name = some value) :
    Fits name value ↔ value ≠ [] ∧ name.length + 1 + value.length ≤ 255 := by
  refine ⟨fun hf => ⟨hf.value_ne_nil, hf.length_le⟩, fun ⟨hne, hlen⟩ => ?_⟩
  by_cases hv : name = versionName
  · subst hv
    obtain rfl : lit "2.00" = value := Option.some.inj ((lookup_markVersion s).symm.trans hl)
    exact fits_version
  · have hl' : s.lookup name = some value := by
      rwa [markVersion, setProperty, Finmap.lookup_insert_of_ne _ hv] at hl
    exact ⟨⟨h.name_ne_nil hl', h.equals_not_mem hl', h.newline_not_mem hl', hne,
      h.value_newline hl', hlen⟩, h.head_ne hl'⟩

def digits (t : CStr) : ℕ := t.foldl (fun n c => 10 * n + (c.val.val - 48)) 0

/-- A decimal number without sign and exponent. -/
def decimal (value : CStr) : ℚ :=
  let whole := value.takeWhile fun c => !c == dot
  let frac := (value.dropWhile fun c => !c == dot).tail
  mkRat (digits (whole ++ frac)) (10 ^ frac.length)

/-- The reader of floating-point numbers, as far as plain decimals go. -/
def decimalAscii : Ascii ℚ where
  zero := 0
  propertyVersion := 2
  strtod := decimal
  strtod_version := by decide

variable {D : Type*} (A : Ascii D) [DecidableEq D]

/-- **The round trip.** A store whose names and values are free of separators is read back as it
was exactly when no value is empty and no line is longer than 255 characters without its
newline. -/
theorem roundTrip_iff {s : Store} (hs : Storable s) {d d' : Files} {os : List Outcome}
    (hrun : (saveProperties s).run os d = (d', some true)) :
    loadProperties A d' = markVersion s ↔
      ∀ name value, (markVersion s).lookup name = some value →
        value ≠ [] ∧ name.length + 1 + value.length ≤ 255 := by
  rw [loadProperties_saved_iff A (main_of_saved hrun)]
  refine forall_congr' fun name => forall_congr' fun value => ?_
  exact ⟨fun h hl => (hs.fits_iff hl).1 (h hl), fun h hl => (hs.fits_iff hl).2 (h hl)⟩

theorem markVersion_single {name value n v : CStr}
    (h : (markVersion (single name value)).lookup n = some v) :
    n = versionName ∧ v = lit "2.00" ∨ n = name ∧ v = value := by
  by_cases hn : n = versionName
  · subst hn
    exact Or.inl ⟨rfl, (Option.some.inj ((lookup_markVersion _).symm.trans h)).symm⟩
  · rw [markVersion, setProperty, Finmap.lookup_insert_of_ne _ hn] at h
    exact Or.inr (lookup_single h)

/-- A store with one short property is read back. -/
theorem roundTrip_single :
    loadProperties decimalAscii
        ((saveProperties (single (lit "a") (lit "=b"))).run
          (writtenOk (single (lit "a") (lit "=b")) ++ [.ok, .ok, .ok]) fun _ => none).1 =
      markVersion (single (lit "a") (lit "=b")) := by
  have hs : Storable (single (lit "a") (lit "=b")) :=
    storable_single (by decide) (by decide) (by decide) (by decide) (by decide)
  refine (roundTrip_iff decimalAscii hs (Prod.ext rfl (run_ok _ _))).2 fun n v h => ?_
  rcases markVersion_single h with ⟨rfl, rfl⟩ | ⟨rfl, rfl⟩ <;> decide

/-- A property with an empty value is lost. -/
theorem roundTrip_empty_value :
    Storable (single (lit "a") []) ∧
    ((saveProperties (single (lit "a") [])).run
      (writtenOk (single (lit "a") []) ++ [.ok, .ok, .ok]) fun _ => none).2 = some true ∧
    loadProperties decimalAscii
        ((saveProperties (single (lit "a") [])).run
          (writtenOk (single (lit "a") []) ++ [.ok, .ok, .ok]) fun _ => none).1 ≠
      markVersion (single (lit "a") []) := by
  refine ⟨storable_single (by decide) (by decide) (by decide) (by decide) (by decide),
    run_ok _ _, fun h => ?_⟩
  have hmain := main_of_saved (Prod.ext rfl (run_ok (single (lit "a") []) fun _ => none))
  have hfits := (loadProperties_saved_iff decimalAscii hmain).1 h (lit "a") []
  have hl : (markVersion (single (lit "a") [])).lookup (lit "a") = some [] := by
    rw [markVersion, setProperty, Finmap.lookup_insert_of_ne _ (by decide), single, setProperty,
      Finmap.lookup_insert]
  exact (hfits hl).value_ne_nil rfl

/-! ## Atomicity -/

/-- A file as the program itself can have left it: absent, empty, or a complete saved store. -/
def WellFormed (t : Option CStr) : Prop :=
  t = none ∨ t = some [] ∨ ∃ s, t = some (savedText (markVersion s))

/-- What one file alone gives. -/
def readFile (t : Option CStr) : Store :=
  let st := (loadOne A ⟨∅, A.zero⟩ t).1
  if st.version = A.propertyVersion then st.store else ∅

theorem readFile_none : readFile A none = ∅ := by
  simp only [readFile, loadOne]
  exact ite_self _

theorem readFile_nil : readFile A (some []) = ∅ := readFile_none A

theorem loadProperties_of_saved {d : Files} {s : Store}
    (h : d .main = some (savedText (markVersion s))) :
    loadProperties A d = readFile A (some (savedText (markVersion s))) := by
  simp only [loadProperties, readFile, h, loadOne_saved, if_true]

theorem loadProperties_of_empty {d : Files} (h : d .main = none ∨ d .main = some []) :
    loadProperties A d = readFile A (d .bak) := by
  have hread : loadOne A ⟨∅, A.zero⟩ (d .main) = (⟨∅, A.zero⟩, false) := by
    rcases h with h | h <;> rw [h] <;> rfl
  simp only [loadProperties, hread, Bool.false_eq_true, if_false]
  rfl

theorem loadProperties_congr {d d' : Files} (hmain : d' .main = d .main)
    (hbak : d' .bak = d .bak) : loadProperties A d' = loadProperties A d := by
  simp only [loadProperties, hmain, hbak]

/-- **When a save is atomic.** Whatever fails and wherever the save stops, a later load gives what
it would have given before or the new store, if and only if an empty settings file did not hide a
backup with settings, and the new store can be read back (or reads as what was there before). -/
theorem save_atomic_iff {d : Files} (hd : ∀ f, WellFormed (d f)) (s : Store) :
    (∀ os, loadProperties A ((saveProperties s).run os d).1 = loadProperties A d ∨
      loadProperties A ((saveProperties s).run os d).1 = markVersion s) ↔
    (d .main = some [] → loadProperties A d = ∅) ∧
      ((∀ name value, (markVersion s).lookup name = some value → Fits name value) ∨
        loadProperties A (Function.update d .main (some (savedText (markVersion s)))) =
          loadProperties A d) := by
  have hnew : ∀ d' : Files, d' .main = some (savedText (markVersion s)) → loadProperties A d' =
      loadProperties A (Function.update d .main (some (savedText (markVersion s)))) := by
    intro d' h
    rw [loadProperties_of_saved A h, loadProperties_of_saved A (Function.update_self ..)]
  constructor
  · intro h
    refine ⟨fun hempty => ?_, ?_⟩
    · -- The save may stop right after the backup is removed.
      obtain ⟨hmain, hbak⟩ := run_unlinked s hempty
      have hload : loadProperties A ((saveProperties s).run (writtenOk s ++ [.ok]) d).1 = ∅ := by
        rw [loadProperties_of_empty A (Or.inr (hmain.trans hempty)), hbak, readFile_none]
      rcases h (writtenOk s ++ [.ok]) with hold | hnew
      · rw [← hold, hload]
      · exact absurd (hnew.symm.trans hload) (markVersion_ne_empty s)
    · have hmain := main_of_saved (Prod.ext rfl (run_ok s d))
      rcases h (writtenOk s ++ [.ok, .ok, .ok]) with hold | hread
      · rw [hnew _ hmain] at hold
        exact Or.inr hold
      · exact Or.inl ((loadProperties_saved_iff A hmain).1 hread)
  · rintro ⟨hempty, hread⟩ os
    have hleft := saveProperties_left s d os
    revert hleft
    generalize (saveProperties s).run os d = r
    obtain ⟨d', result⟩ := r
    intro hleft
    dsimp only at hleft ⊢
    cases hleft with
    | unchanged _ hmain hbak => exact Or.inl (loadProperties_congr A hmain hbak)
    | unlinked _ hsome hmain hbak =>
      left
      rcases hd .main with h | h | ⟨s₀, h⟩
      · simp [h] at hsome
      · rw [loadProperties_of_empty A (Or.inr (hmain.trans h)), hbak, readFile_none, hempty h]
      · rw [loadProperties_of_saved A (hmain.trans h), loadProperties_of_saved A h]
    | moved _ hsome hmain hbak =>
      left
      rw [loadProperties_of_empty A (Or.inl hmain), hbak]
      rcases hd .main with h | h | ⟨s₀, h⟩
      · simp [h] at hsome
      · rw [h, readFile_nil, hempty h]
      · rw [h, loadProperties_of_saved A h]
    | installed hmain =>
      rcases hread with hfits | hold
      · exact Or.inr ((loadProperties_saved_iff A hmain).2 hfits)
      · exact Or.inl ((hnew d' hmain).trans hold)

/-- The disk with no settings at all. -/
def noFiles : Files := fun _ => none

/-- An empty settings file beside a good backup. -/
def emptyMain : Files
  | .main => some []
  | .bak => some (savedText (markVersion ∅))
  | .tmp => none

theorem markVersion_empty_fits {n v : CStr} (h : (markVersion ∅).lookup n = some v) :
    Fits n v := by
  by_cases hn : n = versionName
  · subst hn
    obtain rfl : lit "2.00" = v := Option.some.inj ((lookup_markVersion ∅).symm.trans h)
    exact fits_version
  · rw [markVersion, setProperty, Finmap.lookup_insert_of_ne _ hn, Finmap.lookup_empty] at h
    cases h

/-- A first save whose first line is only half written. -/
theorem save_atomic_first :
    loadProperties decimalAscii
        ((saveProperties (single (lit "a") (lit "b"))).run [.ok, .fail 2] noFiles).1 =
      loadProperties decimalAscii noFiles ∨
    loadProperties decimalAscii
        ((saveProperties (single (lit "a") (lit "b"))).run [.ok, .fail 2] noFiles).1 =
      markVersion (single (lit "a") (lit "b")) := by
  refine (save_atomic_iff decimalAscii (fun _ => Or.inl rfl) (single (lit "a") (lit "b"))).2
    ⟨(nomatch ·), Or.inl fun n v h => ?_⟩ [.ok, .fail 2]
  rcases markVersion_single h with ⟨rfl, rfl⟩ | ⟨rfl, rfl⟩
  · exact fits_version
  · refine ⟨?_, by decide⟩
    constructor <;> decide

/-- A save that stops after it has removed the backup of an empty settings file loses the settings
of the backup and does not have the new ones in place. -/
theorem save_not_atomic :
    (∀ f, WellFormed (emptyMain f)) ∧
    loadProperties decimalAscii emptyMain = markVersion ∅ ∧
    loadProperties decimalAscii
      ((saveProperties (single (lit "a") (lit "b"))).run
        (writtenOk (single (lit "a") (lit "b")) ++ [.ok]) emptyMain).1 = ∅ ∧
    (markVersion ∅ : Store) ≠ ∅ ∧ markVersion (single (lit "a") (lit "b")) ≠ ∅ := by
  refine ⟨fun f => ?_, ?_, ?_, markVersion_ne_empty _, markVersion_ne_empty _⟩
  · cases f
    · exact Or.inr (Or.inl rfl)
    · exact Or.inr (Or.inr ⟨∅, rfl⟩)
    · exact Or.inl rfl
  · have hmain : (Function.update noFiles .main (some (savedText (markVersion ∅)))) .main =
        some (savedText (markVersion ∅)) := Function.update_self ..
    have hsaved := (loadProperties_saved_iff decimalAscii hmain).2 fun _ _ =>
      markVersion_empty_fits
    rw [loadProperties_of_empty decimalAscii (Or.inr rfl), ← hsaved,
      loadProperties_of_saved decimalAscii hmain]
    rfl
  · obtain ⟨hmain, hbak⟩ := run_unlinked (single (lit "a") (lit "b"))
      (rfl : emptyMain .main = some [])
    rw [loadProperties_of_empty decimalAscii (Or.inr hmain), hbak, readFile_none]

end MacHPSDR.Property
