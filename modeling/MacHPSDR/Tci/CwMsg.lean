import MacHPSDR.Tci.Command

/-!
# The text of a CW message

`cw_msg:<rx>,<before>,<after>,<text>` is split at its first three commas, whatever else is empty or
holds commas (`scanFields_eq_some_iff`). What goes on the air are the words before, text and after,
those of them that are not empty, with a space between two of them unless there is white space at
the junction (`foldl_cwAppend`).
-/

namespace MacHPSDR.Tci

/-! ## The fields -/

/-- The loop of `tci_cw_msg_fields` from position `q` on, with the commas it has met: the positions
of the first three. -/
def scanCommas : List Char → ℕ → Option ℕ → Option ℕ → Option (ℕ × ℕ × ℕ)
  | [], _, _, _ => none
  | ch :: rest, q, c1, c2 =>
    if ch ≠ ',' then scanCommas rest (q + 1) c1 c2
    else
      match c1, c2 with
      | none, _ => scanCommas rest (q + 1) (some q) c2
      | some c1, none => scanCommas rest (q + 1) (some c1) (some q)
      | some c1, some c2 => some (c1, c2, q)

/-- `g_strndup`: at most `n` characters from position `i` on. -/
def strndup (s : List Char) (i n : ℕ) : List Char := (s.drop i).take n

/-- `tci_cw_msg_fields`, as it walks over the token. -/
def scanFields (token : List Char) : Option (List Char × List Char × List Char) :=
  if ':' ∈ token then
    (scanCommas (afterColon token) 0 none none).map fun (c1, c2, c3) =>
      (strndup (afterColon token) (c1 + 1) (c2 - c1 - 1),
        strndup (afterColon token) (c2 + 1) (c3 - c2 - 1), (afterColon token).drop (c3 + 1))
  else none

/-- The fields of the token are delimited by its first three commas after the colon. -/
def Splits (token before after text : List Char) : Prop :=
  ∃ name rx, token = name ++ ':' :: (rx ++ ',' :: (before ++ ',' :: (after ++ ',' :: text))) ∧
    ':' ∉ name ∧ ',' ∉ rx ∧ ',' ∉ before ∧ ',' ∉ after

theorem scanCommas_cons_ne {ch : Char} (h : ch ≠ ',') (rest : List Char) (q : ℕ)
    (c1 c2 : Option ℕ) : scanCommas (ch :: rest) q c1 c2 = scanCommas rest (q + 1) c1 c2 :=
  if_pos h

theorem scanCommas_append {x : List Char} (hx : ',' ∉ x) (s : List Char) (q : ℕ)
    (c1 c2 : Option ℕ) : scanCommas (x ++ s) q c1 c2 = scanCommas s (q + x.length) c1 c2 := by
  induction x generalizing q with
  | nil => rfl
  | cons ch x ih =>
    rw [List.mem_cons, not_or] at hx
    rw [List.cons_append, scanCommas_cons_ne (Ne.symm hx.1), ih hx.2, List.length_cons,
      Nat.add_assoc, Nat.add_comm 1]

theorem scanCommas_of_notMem {x : List Char} (hx : ',' ∉ x) (q : ℕ) (c1 c2 : Option ℕ) :
    scanCommas x q c1 c2 = none := by
  rw [← List.append_nil x, scanCommas_append hx]
  rfl

theorem scanCommas_three {rx before after text : List Char} (hrx : ',' ∉ rx)
    (hbefore : ',' ∉ before) (hafter : ',' ∉ after) :
    scanCommas (rx ++ ',' :: (before ++ ',' :: (after ++ ',' :: text))) 0 none none =
      some (rx.length, rx.length + 1 + before.length,
        rx.length + 1 + before.length + 1 + after.length) := by
  rw [scanCommas_append hrx, scanCommas, if_neg (by simp), scanCommas_append hbefore, scanCommas,
    if_neg (by simp), scanCommas_append hafter, scanCommas, if_neg (by simp), Nat.zero_add]

/-- Up to its third comma. -/
theorem commas_cases (s : List Char) :
    ',' ∉ s ∨
    (∃ x y, s = x ++ ',' :: y ∧ ',' ∉ x ∧ ',' ∉ y) ∨
    (∃ x y z, s = x ++ ',' :: (y ++ ',' :: z) ∧ ',' ∉ x ∧ ',' ∉ y ∧ ',' ∉ z) ∨
    ∃ x y z w, s = x ++ ',' :: (y ++ ',' :: (z ++ ',' :: w)) ∧ ',' ∉ x ∧ ',' ∉ y ∧ ',' ∉ z := by
  by_cases h₁ : ',' ∈ s
  swap
  · exact .inl h₁
  obtain ⟨x, s₁, rfl, hx⟩ := List.eq_append_cons_of_mem h₁
  by_cases h₂ : ',' ∈ s₁
  swap
  · exact .inr (.inl ⟨x, s₁, rfl, hx, h₂⟩)
  obtain ⟨y, s₂, rfl, hy⟩ := List.eq_append_cons_of_mem h₂
  by_cases h₃ : ',' ∈ s₂
  swap
  · exact .inr (.inr (.inl ⟨x, y, s₂, rfl, hx, hy, h₃⟩))
  obtain ⟨z, w, rfl, hz⟩ := List.eq_append_cons_of_mem h₃
  exact .inr (.inr (.inr ⟨x, y, z, w, rfl, hx, hy, hz⟩))

theorem afterColon_append {name : List Char} (h : ':' ∉ name) (rest : List Char) :
    afterColon (name ++ ':' :: rest) = rest := by
  have hname : ∀ ch ∈ name, (ch != ':') = true := fun ch hch => by
    simpa using ne_of_mem_of_not_mem hch h
  rw [afterColon, List.dropWhile_append_of_pos hname]
  rfl

theorem drop_past (a rest : List Char) (ch : Char) :
    (a ++ ch :: rest).drop (a.length + 1) = rest := by
  simp [List.drop_append]

theorem scanFields_of_splits {token before after text : List Char}
    (h : Splits token before after text) : scanFields token = some (before, after, text) := by
  obtain ⟨name, rx, rfl, hname, hrx, hbefore, hafter⟩ := h
  rw [scanFields, if_pos (by simp), afterColon_append hname,
    scanCommas_three hrx hbefore hafter, Option.map_some]
  have hfirst : rx.length + 1 + before.length - rx.length - 1 = before.length := by omega
  have hsecond : rx.length + 1 + before.length + 1 + after.length - (rx.length + 1 + before.length)
      - 1 = after.length := by omega
  have hdrop₁ := drop_past rx (before ++ ',' :: (after ++ ',' :: text)) ','
  have hdrop₂ : (rx ++ ',' :: (before ++ ',' :: (after ++ ',' :: text))).drop
      (rx.length + 1 + before.length + 1) = after ++ ',' :: text := by
    rw [Nat.add_assoc (rx.length + 1), ← List.drop_drop, hdrop₁, drop_past]
  have hdrop₃ : (rx ++ ',' :: (before ++ ',' :: (after ++ ',' :: text))).drop
      (rx.length + 1 + before.length + 1 + after.length + 1) = text := by
    rw [Nat.add_assoc (rx.length + 1 + before.length + 1), ← List.drop_drop, hdrop₂, drop_past]
  simp only [strndup, hfirst, hsecond, hdrop₁, hdrop₂, hdrop₃, List.take_left]

theorem splitOnP_comma {x : List Char} (hx : ',' ∉ x) (s : List Char) :
    (x ++ ',' :: s).splitOnP (· == ',') = x :: s.splitOnP (· == ',') :=
  List.splitOnP_append_cons_of_forall_mem
    (fun ch hch => by simpa using ne_of_mem_of_not_mem hch hx) ',' rfl s

/-- Everything from the fourth field on is text. -/
theorem intercalate_splitOnP (s : List Char) :
    List.intercalate [','] (s.splitOnP (· == ',')) = s :=
  List.intercalate_splitOn ','

theorem splitOnP_of_notMem {x : List Char} (hx : ',' ∉ x) : x.splitOnP (· == ',') = [x] :=
  List.splitOnP_eq_singleton fun ch hch => by simpa using ne_of_mem_of_not_mem hch hx

theorem cwMsgFields_of_splits {token before after text : List Char}
    (h : Splits token before after text) : cwMsgFields token = some (before, after, text) := by
  obtain ⟨name, rx, rfl, hname, hrx, hbefore, hafter⟩ := h
  have hne : text.splitOnP (· == ',') ≠ [] := List.splitOnP_ne_nil _ _
  obtain ⟨first, more, hmore⟩ := List.exists_cons_of_ne_nil hne
  rw [cwMsgFields, afterColon_append hname, splitOnP_comma hrx, splitOnP_comma hbefore,
    splitOnP_comma hafter, hmore]
  simp only
  rw [← hmore, intercalate_splitOnP]

/-- A token is split, or it has no fields. -/
theorem splits_or (token : List Char) :
    (∃ before after text, Splits token before after text) ∨
      scanFields token = none ∧ cwMsgFields token = none := by
  by_cases hcolon : ':' ∈ token
  swap
  · have hall : ∀ ch ∈ token, (ch != ':') = true := fun ch hch => by
      simpa using ne_of_mem_of_not_mem hch hcolon
    have hnil : afterColon token = [] := by
      rw [afterColon, ← List.append_nil token, List.dropWhile_append_of_pos hall]
      rfl
    rw [scanFields, if_neg hcolon, cwMsgFields, hnil]
    exact .inr ⟨rfl, rfl⟩
  obtain ⟨name, rest, rfl, hname⟩ := List.eq_append_cons_of_mem hcolon
  rw [scanFields, if_pos hcolon, cwMsgFields, afterColon_append hname]
  rcases commas_cases rest with hx | ⟨x, y, rfl, hx, hy⟩ | ⟨x, y, z, rfl, hx, hy, hz⟩ |
    ⟨rx, before, after, text, rfl, hrx, hbefore, hafter⟩
  · rw [scanCommas_of_notMem hx, splitOnP_of_notMem hx]
    exact .inr ⟨rfl, rfl⟩
  · rw [scanCommas_append hx, scanCommas, if_neg (by simp), scanCommas_of_notMem hy,
      splitOnP_comma hx, splitOnP_of_notMem hy]
    exact .inr ⟨rfl, rfl⟩
  · rw [scanCommas_append hx, scanCommas, if_neg (by simp), scanCommas_append hy, scanCommas,
      if_neg (by simp), scanCommas_of_notMem hz, splitOnP_comma hx, splitOnP_comma hy,
      splitOnP_of_notMem hz]
    exact .inr ⟨rfl, rfl⟩
  · exact .inl ⟨before, after, text, name, rx, rfl, hname, hrx, hbefore, hafter⟩

/-- The command handler takes the fields that the loop finds. -/
theorem cwMsgFields_eq_scanFields (token : List Char) : cwMsgFields token = scanFields token := by
  rcases splits_or token with ⟨before, after, text, h⟩ | ⟨hscan, hfields⟩
  · rw [cwMsgFields_of_splits h, scanFields_of_splits h]
  · rw [hscan, hfields]

/-- **The split.** -/
theorem scanFields_eq_some_iff {token before after text : List Char} :
    scanFields token = some (before, after, text) ↔ Splits token before after text := by
  refine ⟨fun h => ?_, scanFields_of_splits⟩
  rcases splits_or token with ⟨before', after', text', hsplits⟩ | ⟨hscan, -⟩
  · rw [scanFields_of_splits hsplits] at h
    cases h
    exact hsplits
  · rw [hscan] at h
    cases h

/-! ## The words -/

/-- What stands between two words. -/
def gap (p q : List Char) : List Char :=
  if p.getLast?.any isAsciiSpace ∨ q.head?.any isAsciiSpace then [] else [' ']

/-- The words one after the other. -/
def joinWords : List (List Char) → List Char
  | [] => []
  | [p] => p
  | p :: q :: rest => p ++ gap p q ++ joinWords (q :: rest)

@[simp] theorem joinWords_singleton (p : List Char) : joinWords [p] = p := rfl

theorem cwAppend_nil (part : List Char) : cwAppend [] part = part := by
  cases part <;> rfl

theorem cwAppend_of_ne_nil {s part : List Char} (hs : s ≠ []) (hpart : part ≠ []) :
    cwAppend s part = s ++ gap s part ++ part := by
  obtain ⟨ch, rest, rfl⟩ := List.exists_cons_of_ne_nil hpart
  cases hlast : s.getLast?.any isAsciiSpace <;> cases hhead : isAsciiSpace ch <;>
    simp [cwAppend, gap, hlast, hhead, hs]

/-- What stands behind a word depends on the end of it. -/
theorem gap_append {p : List Char} (hp : p ≠ []) (s q : List Char) : gap (s ++ p) q = gap p q := by
  rw [gap, gap, List.getLast?_append_of_ne_nil _ hp]

theorem joinWords_ne_nil {ps : List (List Char)} (hne : ps ≠ []) (hps : ∀ p ∈ ps, p ≠ []) :
    joinWords ps ≠ [] := by
  obtain ⟨p, rest, rfl⟩ := List.exists_cons_of_ne_nil hne
  have hp := hps p List.mem_cons_self
  cases rest with
  | nil => exact hp
  | cons q rest => simp [joinWords, hp]

/-- A word is put at the end. -/
theorem joinWords_concat {ps : List (List Char)} (hne : ps ≠ []) (hps : ∀ p ∈ ps, p ≠ [])
    (q : List Char) : joinWords (ps ++ [q]) = joinWords ps ++ gap (joinWords ps) q ++ q := by
  induction ps with
  | nil => exact absurd rfl hne
  | cons p rest ih =>
    cases rest with
    | nil => rfl
    | cons p' rest =>
      have hrest : ∀ x ∈ p' :: rest, x ≠ [] := fun x hx => hps x (List.mem_cons_of_mem _ hx)
      have htail := joinWords_ne_nil (List.cons_ne_nil p' rest) hrest
      rw [joinWords, gap_append htail, List.cons_append, List.cons_append, joinWords,
        ← List.cons_append, ih (List.cons_ne_nil p' rest) hrest]
      simp only [List.append_assoc]

/-- **The join.** -/
theorem foldl_cwAppend (parts : List (List Char)) :
    parts.foldl cwAppend [] = joinWords (parts.filter (· ≠ [])) := by
  induction parts using List.reverseRecOn with
  | nil => rfl
  | append_singleton parts part ih =>
    rw [List.foldl_append, List.foldl_cons, List.foldl_nil, ih, List.filter_append]
    have hwords : ∀ p ∈ parts.filter (· ≠ []), p ≠ [] := fun p hp => by
      simpa using List.of_mem_filter hp
    by_cases hpart : part = []
    · rw [hpart]
      simp [cwAppend]
    · have hone : [part].filter (· ≠ []) = [part] := by simp [hpart]
      rw [hone]
      by_cases hnone : parts.filter (· ≠ []) = []
      · rw [hnone]
        exact cwAppend_nil part
      · rw [joinWords_concat hnone hwords,
          cwAppend_of_ne_nil (joinWords_ne_nil hnone hwords) hpart]

/-- The words of a message, in the order in which they are sent. -/
def words (before after text : List Char) : List (List Char) :=
  [before, text, after].filter (· ≠ [])

/-- **What a `cw_msg` sends.** The token is split at its first three commas after the colon, so that
the text keeps the others; nothing is sent just when all of the fields are empty, and otherwise the
words that are not empty, with a space between two of them unless there is white space at the
junction. -/
theorem cw_msg_split_join (token : List Char) :
    (∀ before after text, scanFields token = some (before, after, text) ↔
      Splits token before after text) ∧
    ∀ before after text, Splits token before after text →
      (cwMsgText token = none ↔ before = [] ∧ text = [] ∧ after = []) ∧
      (∀ msg, cwMsgText token = some msg → msg = joinWords (words before after text)) ∧
      ∀ part, words before after text = [part] → cwMsgText token = some part := by
  refine ⟨fun before after text => scanFields_eq_some_iff, fun before after text h => ?_⟩
  have hwords : ∀ p ∈ words before after text, p ≠ [] := fun p hp => by
    simpa using List.of_mem_filter hp
  have hnil : joinWords (words before after text) = [] ↔ words before after text = [] :=
    ⟨fun hjoin => by_contra fun hne => joinWords_ne_nil hne hwords hjoin, fun hnone => by
      rw [hnone, joinWords]⟩
  have htext : cwMsgText token = if joinWords (words before after text) = [] then none
      else some (joinWords (words before after text)) := by
    rw [cwMsgText, cwMsgFields_of_splits h, words, ← foldl_cwAppend]
    rfl
  rw [htext]
  refine ⟨?_, fun msg hmsg => ?_, fun part hpart => ?_⟩
  · have hall : words before after text = [] ↔ before = [] ∧ text = [] ∧ after = [] := by
      simp [words]
    rw [← hall, ← hnil]
    split
    · rename_i hempty
      exact iff_of_true rfl hempty
    · rename_i hsome
      exact iff_of_false (Option.some_ne_none _) hsome
  · split at hmsg
    · cases hmsg
    · exact (Option.some.inj hmsg).symm
  · have hne : part ≠ [] := hwords part (hpart ▸ List.mem_singleton_self part)
    rw [hpart, joinWords_singleton, if_neg hne]

theorem cw_msg_split_join_commas :
    Splits "cw_msg:0,G0ORX,K,RST 599,599".toList "G0ORX".toList "K".toList "RST 599,599".toList ∧
      (cwMsgText "cw_msg:0,G0ORX,K,RST 599,599".toList = none ↔
        "G0ORX".toList = [] ∧ "RST 599,599".toList = [] ∧ "K".toList = []) :=
  have h : Splits "cw_msg:0,G0ORX,K,RST 599,599".toList "G0ORX".toList "K".toList
      "RST 599,599".toList := ⟨"cw_msg".toList, "0".toList, by decide⟩
  ⟨h, ((cw_msg_split_join _).2 _ _ _ h).1⟩

end MacHPSDR.Tci
