import MacHPSDR.Property.Store

/-!
# Reading back a saved store

The writer puts no bound on its lines and the reader has a buffer of 256 characters, and `strtok`
finds no empty token. An entry survives when its name and its value are not empty, its line without
the newline has at most 255 characters, its name contains no `=` and no newline and does not start
with `#`, and its value contains no newline (`Fits`). A saved store is read back as it was exactly
when all its entries are of this kind (`loadProperties_saved_iff`); for the stores whose names
and values are free of separators this is `roundTrip_iff`.
-/

namespace MacHPSDR.Property

open CString FileSystem

/-- An entry that a line of the reader can hold. -/
structure Readable (name value : CStr) : Prop where
  name_ne_nil : name ≠ []
  equals_not_mem : equals ∉ name
  newline_not_mem : newline ∉ name
  value_ne_nil : value ≠ []
  value_newline : newline ∉ value
  length_le : name.length + 1 + value.length ≤ 255

/-- An entry that is read back from the line it is written in. -/
structure Fits (name value : CStr) : Prop extends Readable name value where
  head_ne : name.head? ≠ some hash

/-! ## One line -/

theorem mem_dropLast_of_append {α : Type*} {c : α} {s p t q : List α} (h : s = p ++ (t ++ q))
    (hc : c ∈ t) (hq : q ≠ []) : c ∈ s.dropLast := by
  rw [h, List.dropLast_append_of_ne_nil (by simp [hq]), List.dropLast_append_of_ne_nil hq]
  exact List.mem_append_right _ (List.mem_append_left _ hc)

/-- Whatever is read from a piece could stand on a line of its own. -/
theorem parseLine_some {string name value : CStr} (hlen : string.length < lineBuffer)
    (hnl : newline ∉ string.dropLast) (h : parseLine string = some (name, value)) :
    Readable name value := by
  simp only [parseLine] at h
  split at h
  · cases h
  · simp only [Option.bind_eq_some_iff, Option.map_eq_some_iff, Prod.exists, Prod.mk.injEq] at h
    obtain ⟨name, rest, hname, value, rest', hvalue, rfl, rfl⟩ := h
    obtain ⟨hne, heq, p, q, hs, hq⟩ := strtok_some hname
    obtain ⟨hne', heq', p', q', hs', _⟩ := strtok_some hvalue
    have hrest : rest ≠ [] := by
      rw [hs']
      simp [hne']
    obtain ⟨e, rfl⟩ : ∃ e, q = e :: rest := hq.resolve_left fun h => hrest h.2
    refine ⟨hne, fun hc => ?_, fun hc => ?_, hne', fun hc => ?_, ?_⟩
    · simpa using heq _ hc
    · exact hnl (mem_dropLast_of_append hs hc (by simp))
    · simpa using heq' _ hc
    · rw [hs, hs'] at hlen
      simp only [lineBuffer, List.length_append, List.length_cons] at hlen
      omega

theorem parseLine_newline : parseLine [newline] = none := by decide

/-- What is read from a line depends on its first character. -/
theorem parseLine_line {name value tail : CStr} (h : Readable name value)
    (htail : tail = [] ∨ tail = [newline]) :
    parseLine (name ++ equals :: (value ++ tail)) =
      if name.head? = some hash then none else some (name, value) := by
  have hhead : (name ++ equals :: (value ++ tail)).head? = name.head? := by
    rw [List.head?_append, Option.or_of_isSome (by simp [h.name_ne_nil])]
  have hname : strtok (· == equals) (name ++ equals :: (value ++ tail)) =
      some (name, value ++ tail) := by
    refine strtok_append h.name_ne_nil (fun c hc => ?_) (by simp) _
    exact beq_eq_false_iff_ne.2 fun heq => h.equals_not_mem (heq ▸ hc)
  have hclean : ∀ c ∈ value, (c == newline) = false := fun c hc =>
    beq_eq_false_iff_ne.2 fun heq => h.value_newline (heq ▸ hc)
  have hvalue : strtok (· == newline) (value ++ tail) = some (value, []) := by
    rcases htail with rfl | rfl
    · rw [List.append_nil]
      exact strtok_end h.value_ne_nil hclean
    · exact strtok_append h.value_ne_nil hclean (by simp) []
  simp only [parseLine, hhead, hname, hvalue, Option.bind_some, Option.map_some]

/-- The entries that `load_one` reads from a text. -/
def entriesIn (text : CStr) : List (CStr × CStr) :=
  (lines newline lineBuffer text).filterMap parseLine

theorem readable_of_mem {text name value : CStr} (h : (name, value) ∈ entriesIn text) :
    Readable name value := by
  obtain ⟨l, hl, hp⟩ := List.mem_filterMap.1 h
  obtain ⟨hlen, hnl⟩ := mem_lines (by decide) hl
  exact parseLine_some hlen hnl hp

theorem entriesIn_append {t : CStr} (ht : t.getLast? = some newline) (r : CStr) :
    entriesIn (t ++ r) = entriesIn t ++ entriesIn r := by
  rw [entriesIn, lines_append (by decide) ht, List.filterMap_append]
  rfl

theorem getLast?_line (name value : CStr) : (line name value).getLast? = some newline := by
  have : line name value = (name ++ equals :: value) ++ [newline] := by simp [line]
  rw [this, List.getLast?_concat]

/-- A line that fits is read whole, whether its newline still fits or not. -/
theorem entriesIn_line {name value : CStr} (h : Readable name value) :
    entriesIn (line name value) = if name.head? = some hash then [] else [(name, value)] := by
  have hline : line name value = (name ++ equals :: value) ++ [newline] := by simp [line]
  have hclean : newline ∉ name ++ equals :: value := by
    simp only [List.mem_append, List.mem_cons, not_or]
    exact ⟨h.newline_not_mem, by decide, h.value_newline⟩
  have hlen := h.length_le
  have hlen' : (name ++ equals :: value).length = name.length + 1 + value.length := by
    simp only [List.length_append, List.length_cons]
    omega
  have hparse := parseLine_line h (Or.inr rfl)
  have hparse' := parseLine_line h (Or.inl rfl)
  rw [List.append_nil] at hparse'
  rw [entriesIn]
  by_cases hfull : (name ++ equals :: value).length + 1 = lineBuffer
  · rw [hline, lines_full_line (by decide) hclean hfull]
    by_cases hh : name.head? = some hash <;> simp [hparse', parseLine_newline, hh]
  · have hroom : (name ++ equals :: value).length + 1 < lineBuffer := by
      simp only [lineBuffer] at hfull ⊢
      omega
    rw [hline, lines_line (by decide) hclean hroom, ← hline]
    by_cases hh : name.head? = some hash <;> simp [line, hparse, hh]

/-! ## The whole file -/

variable {D : Type*} (A : Ascii D)

theorem foldl_loadLine (st : Loaded D × Bool) (ls : List CStr) :
    ls.foldl (loadLine A) st =
      ((ls.filterMap parseLine).foldl (Loaded.set A) st.1,
        st.2 || !(ls.filterMap parseLine).isEmpty) := by
  induction ls generalizing st with
  | nil => simp
  | cons l ls ih =>
    rw [List.foldl_cons, ih]
    cases hp : parseLine l <;> simp [loadLine, hp]

theorem loadOne_some (st : Loaded D) (text : CStr) :
    loadOne A st (some text) =
      ((entriesIn text).foldl (Loaded.set A) st, !(entriesIn text).isEmpty) := by
  rw [loadOne, foldl_loadLine, Bool.false_or]
  rfl

/-- Everything in the store comes from an entry, or was there before. -/
theorem lookup_foldl_set {es : List (CStr × CStr)} {st : Loaded D} {name value : CStr}
    (h : (es.foldl (Loaded.set A) st).store.lookup name = some value) :
    (name, value) ∈ es ∨ st.store.lookup name = some value := by
  induction es generalizing st with
  | nil => exact Or.inr h
  | cons e es ih =>
    rcases ih h with hmem | hst
    · exact Or.inl (List.mem_cons_of_mem _ hmem)
    · simp only [Loaded.set, setProperty] at hst
      by_cases hne : name = e.1
      · subst hne
        rw [Finmap.lookup_insert, Option.some.injEq] at hst
        exact Or.inl (List.mem_cons.2 (Or.inl (by rw [← hst])))
      · rw [Finmap.lookup_insert_of_ne _ hne] at hst
        exact Or.inr hst

theorem lookup_foldl_set_of_not_mem {es : List (CStr × CStr)} {st : Loaded D} {name : CStr}
    (h : name ∉ es.map Prod.fst) :
    (es.foldl (Loaded.set A) st).store.lookup name = st.store.lookup name := by
  induction es generalizing st with
  | nil => rfl
  | cons e es ih =>
    obtain ⟨hne, h⟩ := List.ne_and_not_mem_of_not_mem_cons h
    rw [List.foldl_cons, ih h]
    exact Finmap.lookup_insert_of_ne _ hne

theorem version_foldl_set_of_not_mem {es : List (CStr × CStr)} {st : Loaded D}
    (h : versionName ∉ es.map Prod.fst) : (es.foldl (Loaded.set A) st).version = st.version := by
  induction es generalizing st with
  | nil => rfl
  | cons e es ih =>
    obtain ⟨hne, h⟩ := List.ne_and_not_mem_of_not_mem_cons h
    rw [List.foldl_cons, ih h]
    simp [Loaded.set, hne.symm]

/-- With every name on one line only, each line counts. -/
theorem lookup_foldl_set_of_mem {es : List (CStr × CStr)} {st : Loaded D} {name value : CStr}
    (hnodup : (es.map Prod.fst).Nodup) (h : (name, value) ∈ es) :
    (es.foldl (Loaded.set A) st).store.lookup name = some value := by
  induction es generalizing st with
  | nil => cases h
  | cons e es ih =>
    rw [List.map_cons, List.nodup_cons] at hnodup
    rcases List.mem_cons.1 h with rfl | h
    · rw [List.foldl_cons, lookup_foldl_set_of_not_mem A hnodup.1]
      exact Finmap.lookup_insert _
    · exact ih hnodup.2 h

theorem version_foldl_set_of_mem {es : List (CStr × CStr)} {st : Loaded D} {value : CStr}
    (hnodup : (es.map Prod.fst).Nodup) (h : (versionName, value) ∈ es) :
    (es.foldl (Loaded.set A) st).version = propToDouble A value := by
  induction es generalizing st with
  | nil => cases h
  | cons e es ih =>
    rw [List.map_cons, List.nodup_cons] at hnodup
    rcases List.mem_cons.1 h with rfl | h
    · rw [List.foldl_cons, version_foldl_set_of_not_mem A hnodup.1]
      simp [Loaded.set]
    · exact ih hnodup.2 h

/-! ## A saved store -/

theorem mem_sortedEntries {s : Store} {name value : CStr} :
    (name, value) ∈ sortedEntries s ↔ s.lookup name = some value := by
  simp only [sortedEntries, List.mem_map, Finset.mem_sort, Finmap.mem_keys, Finmap.mem_iff,
    Prod.mk.injEq]
  constructor
  · rintro ⟨_, ⟨v, hv⟩, rfl, rfl⟩
    rw [hv, Option.getD_some]
  · intro h
    exact ⟨name, ⟨value, h⟩, rfl, by rw [h, Option.getD_some]⟩

theorem nodup_sortedEntries (s : Store) : ((sortedEntries s).map Prod.fst).Nodup := by
  have : (sortedEntries s).map Prod.fst = s.keys.sort := by
    simp [sortedEntries, Function.comp_def]
  rw [this]
  exact Finset.sort_nodup _ _

theorem savedText_eq (s : Store) :
    savedText s = (sortedEntries s).flatMap fun e => line e.1 e.2 := by
  simp [savedText, savedLines, List.flatMap_def]

theorem getLast?_flatMap_line (es : List (CStr × CStr)) :
    (es.flatMap fun e => line e.1 e.2) = [] ∨
      (es.flatMap fun e => line e.1 e.2).getLast? = some newline := by
  induction es with
  | nil => exact Or.inl rfl
  | cons e es ih =>
    right
    rw [List.flatMap_cons]
    rcases ih with h | h
    · rw [h, List.append_nil, getLast?_line]
    · rw [List.getLast?_append, h, Option.some_or]

/-- Lines that can be read give their entries, except those that look like comments. -/
theorem entriesIn_flatMap_line {es : List (CStr × CStr)} (h : ∀ e ∈ es, Readable e.1 e.2) :
    entriesIn (es.flatMap fun e => line e.1 e.2) =
      es.filter fun e => e.1.head? ≠ some hash := by
  induction es with
  | nil => rfl
  | cons e es ih =>
    obtain ⟨he, h⟩ := List.forall_mem_cons.1 h
    rw [List.flatMap_cons, entriesIn_append (getLast?_line ..), entriesIn_line he, ih h]
    by_cases hh : e.1.head? = some hash <;> simp [hh]

theorem readable_version : Readable versionName (lit "2.00") := by
  constructor <;> decide

theorem lookup_markVersion (s : Store) :
    (markVersion s).lookup versionName = some (lit "2.00") := Finmap.lookup_insert _

/-- The version line is read, whatever the other lines look like. -/
theorem version_mem_entriesIn (s : Store) :
    (versionName, lit "2.00") ∈ entriesIn (savedText (markVersion s)) := by
  obtain ⟨pre, post, hsplit⟩ := List.append_of_mem
    (mem_sortedEntries.2 (lookup_markVersion s))
  have hline : entriesIn (line versionName (lit "2.00")) = [(versionName, lit "2.00")] := by
    rw [entriesIn_line readable_version, if_neg (by decide)]
  have hpost : (versionName, lit "2.00") ∈
      entriesIn (line versionName (lit "2.00") ++ post.flatMap fun e => line e.1 e.2) := by
    rw [entriesIn_append (getLast?_line ..), hline]
    exact List.mem_append_left _ (List.mem_singleton_self _)
  rw [savedText_eq, hsplit, List.flatMap_append, List.flatMap_cons]
  rcases getLast?_flatMap_line pre with h | h
  · rwa [h, List.nil_append]
  · rw [entriesIn_append h]
    exact List.mem_append_right _ hpost

/-- Something is read from every saved file. -/
theorem loadOne_saved (st : Loaded D) (s : Store) :
    loadOne A st (some (savedText (markVersion s))) =
      ((entriesIn (savedText (markVersion s))).foldl (Loaded.set A) st, true) := by
  have hne : (entriesIn (savedText (markVersion s))).isEmpty = false := by
    rw [List.isEmpty_eq_false_iff]
    exact List.ne_nil_of_mem (version_mem_entriesIn s)
  rw [loadOne_some, hne, Bool.not_false]

theorem markVersion_ne_empty (s : Store) : markVersion s ≠ ∅ := by
  intro h
  have := lookup_markVersion s
  rw [h, Finmap.lookup_empty] at this
  cases this

variable [DecidableEq D]

/-- Loading a saved file: the backup plays no part. -/
theorem loadProperties_main {d : Files} {s : Store}
    (h : d .main = some (savedText (markVersion s))) :
    loadProperties A d =
      let st := (entriesIn (savedText (markVersion s))).foldl (Loaded.set A) ⟨∅, A.zero⟩
      if st.version = A.propertyVersion then st.store else ∅ := by
  simp only [loadProperties, h, loadOne_saved, if_true]

/-- **A saved store is read back as it was exactly when all its entries fit.** -/
theorem loadProperties_saved_iff {d : Files} {s : Store}
    (h : d .main = some (savedText (markVersion s))) :
    loadProperties A d = markVersion s ↔
      ∀ name value, (markVersion s).lookup name = some value → Fits name value := by
  rw [loadProperties_main A h]
  dsimp only
  constructor
  · intro heq
    split at heq
    · -- Everything in the store was read, so it was readable, and no line was a comment.
      have hmem : ∀ name value, (markVersion s).lookup name = some value →
          (name, value) ∈ entriesIn (savedText (markVersion s)) := by
        intro name value hl
        rw [← heq] at hl
        refine (lookup_foldl_set A hl).resolve_right fun h0 => ?_
        rw [Finmap.lookup_empty] at h0
        cases h0
      have hread : ∀ e ∈ sortedEntries (markVersion s), Readable e.1 e.2 := fun e he =>
        readable_of_mem (hmem _ _ (mem_sortedEntries.1 he))
      intro name value hl
      have hin := hmem name value hl
      rw [savedText_eq, entriesIn_flatMap_line hread, List.mem_filter] at hin
      exact ⟨hread _ hin.1, by simpa using hin.2⟩
    · exact absurd heq.symm (markVersion_ne_empty s)
  · intro hfits
    have hfit : ∀ e ∈ sortedEntries (markVersion s), Fits e.1 e.2 := fun e he =>
      hfits _ _ (mem_sortedEntries.1 he)
    have hentries : entriesIn (savedText (markVersion s)) = sortedEntries (markVersion s) := by
      rw [savedText_eq, entriesIn_flatMap_line fun e he => (hfit e he).toReadable,
        List.filter_eq_self]
      exact fun e he => by simpa using (hfit e he).head_ne
    have hnodup := nodup_sortedEntries (markVersion s)
    have hversion : propToDouble A (lit "2.00") = A.propertyVersion := by
      rw [← A.strtod_version]
      exact congrArg A.strtod (by decide)
    rw [hentries, if_pos]
    · refine Finmap.ext_lookup fun name => ?_
      cases hl : (markVersion s).lookup name with
      | some value => exact lookup_foldl_set_of_mem A hnodup (mem_sortedEntries.2 hl)
      | none =>
        rw [lookup_foldl_set_of_not_mem, Finmap.lookup_empty]
        intro hin
        obtain ⟨e, he, rfl⟩ := List.mem_map.1 hin
        rw [mem_sortedEntries.1 he] at hl
        cases hl
    · rw [version_foldl_set_of_mem A hnodup (mem_sortedEntries.2 (lookup_markVersion s)), hversion]

end MacHPSDR.Property
