import Mathlib

/-!
# The waveform of a CW message

`cw_encode_to_audio` turns a text into a list of marks and gaps and lays them out in samples. The
marks and gaps of a message take turns, and they say what the text says once it is in upper case
and without the characters that have no code, with single spaces between its words: it can be read
back from them (`cw_segments`).

Times are exact here; the source has them in `double`. The waveform of a mark is left out.
-/

namespace MacHPSDR.Cw

/-! ## Codes -/

/-- `CW_CODE_TABLE` -/
def cwCodeTable : List (Char × List Char) :=
  [('A', ['.', '-']), ('B', ['-', '.', '.', '.']), ('C', ['-', '.', '-', '.']),
    ('D', ['-', '.', '.']), ('E', ['.']), ('F', ['.', '.', '-', '.']), ('G', ['-', '-', '.']),
    ('H', ['.', '.', '.', '.']), ('I', ['.', '.']), ('J', ['.', '-', '-', '-']),
    ('K', ['-', '.', '-']), ('L', ['.', '-', '.', '.']), ('M', ['-', '-']), ('N', ['-', '.']),
    ('O', ['-', '-', '-']), ('P', ['.', '-', '-', '.']), ('Q', ['-', '-', '.', '-']),
    ('R', ['.', '-', '.']), ('S', ['.', '.', '.']), ('T', ['-']), ('U', ['.', '.', '-']),
    ('V', ['.', '.', '.', '-']), ('W', ['.', '-', '-']), ('X', ['-', '.', '.', '-']),
    ('Y', ['-', '.', '-', '-']), ('Z', ['-', '-', '.', '.']), ('0', ['-', '-', '-', '-', '-']),
    ('1', ['.', '-', '-', '-', '-']), ('2', ['.', '.', '-', '-', '-']),
    ('3', ['.', '.', '.', '-', '-']), ('4', ['.', '.', '.', '.', '-']),
    ('5', ['.', '.', '.', '.', '.']), ('6', ['-', '.', '.', '.', '.']),
    ('7', ['-', '-', '.', '.', '.']), ('8', ['-', '-', '-', '.', '.']),
    ('9', ['-', '-', '-', '-', '.']), ('.', ['.', '-', '.', '-', '.', '-']),
    (',', ['-', '-', '.', '.', '-', '-']), ('?', ['.', '.', '-', '-', '.', '.']),
    ('/', ['-', '.', '.', '-', '.']), ('=', ['-', '.', '.', '.', '-']),
    ('+', ['.', '-', '.', '-', '.']), ('-', ['-', '.', '.', '.', '.', '-']),
    ('@', ['.', '-', '-', '.', '-', '.']), ('(', ['-', '.', '-', '-', '.']),
    (')', ['-', '.', '-', '-', '.', '-'])]

/-- `char_to_code` -/
def charToCode (c : Char) : Option (List Char) :=
  (cwCodeTable.find? fun entry => entry.1 = c).map Prod.snd

/-- The character that has the code. -/
def codeToChar (code : List Char) : Option Char :=
  (cwCodeTable.find? fun entry => entry.2 = code).map Prod.fst

/-- No two characters have one code, and a code is made of dots and dashes. -/
theorem table_codes : ∀ entry ∈ cwCodeTable,
    codeToChar entry.2 = some entry.1 ∧ entry.2 ≠ [] ∧ entry.2 ⊆ ['.', '-'] := by
  decide +kernel

theorem charToCode_ok {c : Char} {code : List Char} (h : charToCode c = some code) :
    codeToChar code = some c ∧ code ≠ [] ∧ code ⊆ ['.', '-'] := by
  obtain ⟨entry, hentry, rfl⟩ := Option.map_eq_some_iff.1 h
  obtain rfl : entry.1 = c := by simpa using List.find?_some hentry
  exact table_codes entry (List.mem_of_find?_eq_some hentry)

theorem charToCode_space : charToCode ' ' = none := by decide +kernel

/-! ## The encoder -/

/-- `cw_seg_t` -/
structure CwSeg where
  on : Bool
  durMs : ℚ
  deriving DecidableEq

/-- `seg_push` -/
def segPush (segs : List CwSeg) (on : Bool) (durMs : ℚ) : List CwSeg :=
  if durMs ≤ 0 then segs else segs ++ [⟨on, durMs⟩]

/-- The lengths that the speed and the weight give. -/
structure Timing where
  dotMs : ℚ
  wscale : ℚ
  elemGapMs : ℚ

def timing (wpm weight : ℤ) : Timing :=
  let wpm := if wpm < 1 then 1 else wpm
  let dotMs : ℚ := 1200 / wpm
  let wscale : ℚ := weight / 50
  let wscale := if wscale < 3 / 10 then 3 / 10 else wscale
  let wscale := if wscale > 5 / 2 then 5 / 2 else wscale
  let elemGapMs := (2 - wscale) * dotMs
  { dotMs, wscale
    elemGapMs := if elemGapMs < 1 / 4 * dotMs then 1 / 4 * dotMs else elemGapMs }

/-- The length of the mark for a character of a code. -/
def Timing.markMs (t : Timing) (e : Char) : ℚ := (if e = '-' then 3 else 1) * t.dotMs * t.wscale

/-- The variables of the loop over the text. -/
structure Encoding where
  segs : List CwSeg
  totalMs : ℚ
  nextGapDots : ℚ
  firstChar : Bool
  haveOutput : Bool

namespace Encoding

def start : Encoding := ⟨[], 0, 0, true, false⟩

/-- A segment is put at the end, and its length added to the total. -/
def push (s : Encoding) (on : Bool) (durMs : ℚ) : Encoding :=
  { s with segs := segPush s.segs on durMs, totalMs := s.totalMs + durMs }

/-- The loop over a code; `k` is the index of the next character. -/
def sendCode (t : Timing) : ℕ → List Char → Encoding → Encoding
  | _, [], s => s
  | k, e :: es, s =>
    let s := if k > 0 then s.push false t.elemGapMs else s
    sendCode t (k + 1) es (s.push true (t.markMs e))

/-- What the loop does with a character in upper case. -/
def send (t : Timing) (s : Encoding) (c : Char) : Encoding :=
  if c = ' ' then
    if !s.firstChar ∧ s.nextGapDots < 7 then { s with nextGapDots := 7 } else s
  else
    match charToCode c with
    | none => s
    | some code =>
      let s := if !s.firstChar then s.push false (s.nextGapDots * t.dotMs) else s
      { sendCode t 0 code s with nextGapDots := 3, firstChar := false, haveOutput := true }

/-- The loop over the text. -/
def sendText (t : Timing) (text : List Char) : Encoding :=
  (text.map Char.toUpper).foldl (send t) start

end Encoding

/-- The conversion of a `double` to a `long`. -/
def truncate (x : ℚ) : ℤ := if 0 ≤ x then ⌊x⌋ else ⌈x⌉

/-- The sample at which a time is rounded. -/
def sampleAt (sampleRate : ℤ) (ms : ℚ) : ℤ := truncate (ms * sampleRate / 1000 + 1 / 2)

/-- The loop over the segments: the first sample of each, and the one after its last. -/
def sampleRanges (sampleRate total : ℤ) : List CwSeg → ℚ → ℤ → List (ℤ × ℤ)
  | [], _, _ => []
  | seg :: segs, cumMs, startIdx =>
    let cumMs := cumMs + seg.durMs
    let endIdx := if sampleAt sampleRate cumMs > total then total else sampleAt sampleRate cumMs
    (startIdx, endIdx) :: sampleRanges sampleRate total segs cumMs endIdx

/-- The segments of a text. -/
def cwSegments (text : List Char) (wpm weight : ℤ) : List CwSeg :=
  (Encoding.sendText (timing wpm weight) text).segs

/-- `cw_encode_to_audio`: the number of samples, and those of each segment. -/
def cwEncodeToAudio (text : List Char) (wpm weight sampleRate : ℤ) : Option (ℤ × List (ℤ × ℤ)) :=
  if text = [] then none
  else
    let s := Encoding.sendText (timing wpm weight) text
    if !s.haveOutput ∨ s.segs = [] then none
    else
      let total := sampleAt sampleRate s.totalMs
      if total ≤ 0 then none else some (total, sampleRanges sampleRate total s.segs 0 0)

/-! ## The lengths -/

/-- The lengths are apart from each other. -/
structure Timing.Ok (t : Timing) : Prop where
  dot : 0 < t.dotMs
  wscale : 0 < t.wscale
  elemGap : 0 < t.elemGapMs
  elemGap_lt : t.elemGapMs < 3 * t.dotMs

theorem timing_ok (wpm weight : ℤ) : (timing wpm weight).Ok := by
  have hwpm : (0 : ℚ) < ((if wpm < 1 then 1 else wpm : ℤ) : ℚ) := by
    rw [Int.cast_pos]
    split <;> omega
  have hdot : (0 : ℚ) < 1200 / ((if wpm < 1 then 1 else wpm : ℤ) : ℚ) := by positivity
  unfold timing
  dsimp only
  generalize (1200 : ℚ) / ((if wpm < 1 then 1 else wpm : ℤ) : ℚ) = dot at hdot
  generalize hscale : (if (if (weight : ℚ) / 50 < 3 / 10 then (3 / 10 : ℚ) else weight / 50) > 5 / 2
    then (5 / 2 : ℚ) else if (weight : ℚ) / 50 < 3 / 10 then 3 / 10 else weight / 50) = wscale
  have hlow : 3 / 10 ≤ wscale := by
    rw [← hscale]
    split_ifs <;> linarith
  refine ⟨hdot, by linarith, ?_, ?_⟩
  · dsimp only
    split_ifs <;> nlinarith
  · dsimp only
    split_ifs <;> nlinarith

namespace Timing.Ok

variable {t : Timing} (h : t.Ok)
include h

theorem markMs_pos (e : Char) : 0 < t.markMs e := by
  unfold Timing.markMs
  have := h.dot
  have := h.wscale
  split <;> positivity

theorem dit_lt_dah : t.markMs '.' < t.markMs '-' := by
  have hpos : 0 < t.dotMs * t.wscale := mul_pos h.dot h.wscale
  have hdit : t.markMs '.' = 1 * t.dotMs * t.wscale := rfl
  have hdah : t.markMs '-' = 3 * t.dotMs * t.wscale := rfl
  rw [hdit, hdah]
  linarith

end Timing.Ok

/-! ## The segments of a text -/

/-- The gaps and marks of the rest of a code. -/
def restSegs (t : Timing) (code : List Char) : List CwSeg :=
  code.flatMap fun e => [⟨false, t.elemGapMs⟩, ⟨true, t.markMs e⟩]

/-- The marks of a code, with gaps between them. -/
def codeSegs (t : Timing) : List Char → List CwSeg
  | [] => []
  | e :: es => ⟨true, t.markMs e⟩ :: restSegs t es

/-- The segments of what comes behind a character, with the gap in dots that is due. -/
def tailSegs (t : Timing) : ℚ → List Char → List CwSeg
  | _, [] => []
  | gap, c :: cs =>
    if c = ' ' then tailSegs t 7 cs
    else ⟨false, gap * t.dotMs⟩ :: (codeSegs t ((charToCode c).getD []) ++ tailSegs t 3 cs)

/-- The segments of a text of characters that have codes, and spaces. -/
def headSegs (t : Timing) : List Char → List CwSeg
  | [] => []
  | c :: cs =>
    if c = ' ' then headSegs t cs
    else codeSegs t ((charToCode c).getD []) ++ tailSegs t 3 cs

/-- A character that is sent, or a space. -/
def Kept (c : Char) : Prop := c = ' ' ∨ (charToCode c).isSome = true

instance (c : Char) : Decidable (Kept c) := inferInstanceAs (Decidable (_ ∨ _))

/-- The text in upper case, without the characters that have no code. -/
def kept (text : List Char) : List Char := (text.map Char.toUpper).filter fun c => Kept c

theorem kept_all (text : List Char) : ∀ c ∈ kept text, Kept c := fun c hc => by
  simpa using List.of_mem_filter hc

namespace Encoding

/-- The total is that of the segments. -/
def Totals (s : Encoding) : Prop := s.totalMs = (s.segs.map CwSeg.durMs).sum

theorem segs_push (s : Encoding) (on : Bool) {durMs : ℚ} (h : 0 < durMs) :
    (s.push on durMs).segs = s.segs ++ [⟨on, durMs⟩] := if_neg (not_le.2 h)

theorem Totals.push {s : Encoding} (hs : s.Totals) (on : Bool) {durMs : ℚ} (h : 0 < durMs) :
    (s.push on durMs).Totals := by
  rw [Totals, segs_push s on h, List.map_append, List.sum_append, ← hs]
  simp [Encoding.push]

variable {t : Timing} (ht : t.Ok)
include ht

theorem sendCode_succ (code : List Char) (k : ℕ) {s : Encoding} (hs : s.Totals) :
    (sendCode t (k + 1) code s).segs = s.segs ++ restSegs t code ∧
      (sendCode t (k + 1) code s).Totals := by
  induction code generalizing k s with
  | nil => exact ⟨(List.append_nil _).symm, hs⟩
  | cons e es ih =>
    have hgap := ht.elemGap
    have hmark := ht.markMs_pos e
    obtain ⟨hsegs, htotals⟩ := ih (k + 1) ((hs.push false hgap).push true hmark)
    rw [sendCode, if_pos k.succ_pos]
    refine ⟨?_, htotals⟩
    rw [hsegs, segs_push _ _ hmark, segs_push _ _ hgap]
    simp [restSegs]

theorem sendCode_zero {code : List Char} (hcode : code ≠ []) {s : Encoding} (hs : s.Totals) :
    (sendCode t 0 code s).segs = s.segs ++ codeSegs t code ∧ (sendCode t 0 code s).Totals := by
  obtain ⟨e, es, rfl⟩ := List.exists_cons_of_ne_nil hcode
  have hmark := ht.markMs_pos e
  obtain ⟨hsegs, htotals⟩ := sendCode_succ ht es 0 (hs.push true hmark)
  rw [sendCode, if_neg (lt_irrefl 0)]
  refine ⟨?_, htotals⟩
  rw [hsegs, segs_push _ _ hmark]
  simp [codeSegs]

theorem gap_pos {gap : ℚ} (hgap : gap = 3 ∨ gap = 7) : 0 < gap * t.dotMs := by
  have := ht.dot
  rcases hgap with rfl | rfl <;> positivity

omit ht in
theorem send_space {s : Encoding} (hfirst : s.firstChar = false)
    (hgap : s.nextGapDots = 3 ∨ s.nextGapDots = 7) :
    send t s ' ' = { s with nextGapDots := 7 } := by
  obtain ⟨segs, totalMs, gap, first, output⟩ := s
  obtain rfl : first = false := hfirst
  rw [send, if_pos rfl]
  rcases hgap with rfl | rfl
  · exact if_pos ⟨rfl, by norm_num⟩
  · exact if_neg fun h => absurd h.2 (lt_irrefl _)

omit ht in
theorem send_of_code {c : Char} {code : List Char} (hc : charToCode c = some code) (s : Encoding) :
    send t s c = { sendCode t 0 code
      (if !s.firstChar then s.push false (s.nextGapDots * t.dotMs) else s) with
        nextGapDots := 3, firstChar := false, haveOutput := true } := by
  have hne : c ≠ ' ' := fun h => by
    rw [h, charToCode_space] at hc
    cases hc
  rw [send, if_neg hne, hc]

/-- What holds when a character has been sent, and these are the segments. -/
structure Sent (s : Encoding) (segs : List CwSeg) : Prop where
  segs : s.segs = segs
  totals : s.Totals
  gap : s.nextGapDots = 3
  first : s.firstChar = false

theorem send_first {c : Char} {code : List Char} (hc : charToCode c = some code) {s : Encoding}
    (hs : s.Totals) (hfirst : s.firstChar = true) :
    Sent (send t s c) (s.segs ++ codeSegs t code) := by
  obtain ⟨hsegs, htotals⟩ := sendCode_zero ht (charToCode_ok hc).2.1 hs
  rw [send_of_code hc, hfirst]
  exact ⟨hsegs, htotals, rfl, rfl⟩

theorem send_next {c : Char} {code : List Char} (hc : charToCode c = some code) {s : Encoding}
    (hs : s.Totals) (hfirst : s.firstChar = false)
    (hgap : s.nextGapDots = 3 ∨ s.nextGapDots = 7) :
    Sent (send t s c)
      (s.segs ++ ⟨false, s.nextGapDots * t.dotMs⟩ :: codeSegs t code) := by
  have hpos := gap_pos ht hgap
  obtain ⟨hsegs, htotals⟩ := sendCode_zero ht (charToCode_ok hc).2.1 (hs.push false hpos)
  rw [send_of_code hc, hfirst]
  refine ⟨hsegs.trans ?_, htotals, rfl, rfl⟩
  rw [segs_push s _ hpos, List.append_assoc]
  rfl

omit ht in
theorem charToCode_of_kept {c : Char} (h : Kept c) (hne : c ≠ ' ') :
    ∃ code, charToCode c = some code :=
  Option.isSome_iff_exists.1 (h.resolve_left hne)

/-- The loop once a character has been sent. -/
theorem foldl_send_tail (cs : List Char) (hcs : ∀ c ∈ cs, Kept c) {s : Encoding} (hs : s.Totals)
    (hfirst : s.firstChar = false) (hgap : s.nextGapDots = 3 ∨ s.nextGapDots = 7) :
    (cs.foldl (send t) s).segs = s.segs ++ tailSegs t s.nextGapDots cs ∧
      (cs.foldl (send t) s).Totals := by
  induction cs generalizing s with
  | nil => exact ⟨(List.append_nil _).symm, hs⟩
  | cons c cs ih =>
    have hcs' : ∀ d ∈ cs, Kept d := fun d hd => hcs d (List.mem_cons_of_mem _ hd)
    rw [List.foldl_cons]
    by_cases hc : c = ' '
    · rw [hc, send_space hfirst hgap, tailSegs, if_pos rfl]
      exact ih hcs' (s := { s with nextGapDots := 7 }) hs hfirst (.inr rfl)
    · obtain ⟨code, hcode⟩ := charToCode_of_kept (hcs c List.mem_cons_self) hc
      obtain ⟨hsegs, htotals, hgap', hfirst'⟩ := send_next ht hcode hs hfirst hgap
      obtain ⟨hrest, htotals'⟩ := ih hcs' htotals hfirst' (.inl hgap')
      refine ⟨?_, htotals'⟩
      rw [hrest, hsegs, hgap', tailSegs, if_neg hc, hcode, List.append_assoc]
      rfl

/-- The loop before. -/
theorem foldl_send_head (cs : List Char) (hcs : ∀ c ∈ cs, Kept c) {s : Encoding} (hs : s.Totals)
    (hfirst : s.firstChar = true) :
    (cs.foldl (send t) s).segs = s.segs ++ headSegs t cs ∧ (cs.foldl (send t) s).Totals := by
  induction cs generalizing s with
  | nil => exact ⟨(List.append_nil _).symm, hs⟩
  | cons c cs ih =>
    have hcs' : ∀ d ∈ cs, Kept d := fun d hd => hcs d (List.mem_cons_of_mem _ hd)
    rw [List.foldl_cons]
    by_cases hc : c = ' '
    · have hsame : send t s c = s := by
        rw [send, if_pos hc, hfirst]
        exact if_neg fun h => Bool.false_ne_true h.1
      rw [hsame, headSegs, if_pos hc]
      exact ih hcs' hs hfirst
    · obtain ⟨code, hcode⟩ := charToCode_of_kept (hcs c List.mem_cons_self) hc
      obtain ⟨hsegs, htotals, hgap, hfirst'⟩ := send_first ht hcode hs hfirst
      obtain ⟨hrest, htotals'⟩ := foldl_send_tail ht cs hcs' htotals hfirst' (.inl hgap)
      refine ⟨?_, htotals'⟩
      rw [hrest, hsegs, hgap, headSegs, if_neg hc, hcode, List.append_assoc]
      rfl

omit ht in
/-- What has no code changes nothing. -/
theorem sendText_eq (t : Timing) (text : List Char) :
    sendText t text = (kept text).foldl (send t) start := by
  rw [sendText, kept, List.foldl_filter]
  congr 1
  funext s c
  split
  · rfl
  · rename_i hkept
    rw [decide_eq_true_iff, Kept, not_or, Option.not_isSome_iff_eq_none] at hkept
    rw [send, if_neg hkept.1, hkept.2]

theorem sendText_segs (text : List Char) : (sendText t text).segs = headSegs t (kept text) ∧
    (sendText t text).Totals := by
  rw [sendText_eq]
  exact foldl_send_head ht (kept text) (kept_all text) (s := start) rfl rfl

end Encoding

theorem cwSegments_eq (text : List Char) (wpm weight : ℤ) :
    cwSegments text wpm weight = headSegs (timing wpm weight) (kept text) :=
  (Encoding.sendText_segs (timing_ok wpm weight) text).1

/-! ## Marks and gaps -/

/-- A mark has the length of a dot or a dash. -/
def IsMark (t : Timing) (seg : CwSeg) : Prop :=
  seg.on = true ∧ (seg.durMs = t.markMs '.' ∨ seg.durMs = t.markMs '-')

/-- A gap stands between elements, letters or words. -/
def IsGap (t : Timing) (seg : CwSeg) : Prop :=
  seg.on = false ∧
    (seg.durMs = t.elemGapMs ∨ seg.durMs = 3 * t.dotMs ∨ seg.durMs = 7 * t.dotMs)

/-- A gap and a mark, so many times. -/
inductive Pairs (t : Timing) : List CwSeg → Prop
  | nil : Pairs t []
  | cons {gap mark : CwSeg} {rest : List CwSeg} (hgap : IsGap t gap) (hmark : IsMark t mark)
    (hrest : Pairs t rest) : Pairs t (gap :: mark :: rest)

variable {t : Timing}

theorem Pairs.append {xs ys : List CwSeg} (hx : Pairs t xs) (hy : Pairs t ys) :
    Pairs t (xs ++ ys) := by
  induction hx with
  | nil => exact hy
  | cons hgap hmark _ ih => exact .cons hgap hmark ih

theorem isMark_markMs (t : Timing) (e : Char) : IsMark t ⟨true, t.markMs e⟩ := by
  refine ⟨rfl, ?_⟩
  by_cases h : e = '-'
  · rw [h]
    exact .inr rfl
  · refine .inl ?_
    rw [Timing.markMs, Timing.markMs, if_neg h, if_neg (by decide)]

theorem pairs_restSegs (t : Timing) (code : List Char) : Pairs t (restSegs t code) := by
  induction code with
  | nil => exact .nil
  | cons e es ih => exact .cons ⟨rfl, .inl rfl⟩ (isMark_markMs t e) ih

/-- A gap, and the code behind it. -/
theorem pairs_code {gap : ℚ} (hgap : gap = 3 ∨ gap = 7) {code : List Char} (hcode : code ≠ []) :
    Pairs t (⟨false, gap * t.dotMs⟩ :: codeSegs t code) := by
  obtain ⟨e, es, rfl⟩ := List.exists_cons_of_ne_nil hcode
  refine .cons ⟨rfl, ?_⟩ (isMark_markMs t e) (pairs_restSegs t es)
  rcases hgap with rfl | rfl
  · exact .inr (.inl rfl)
  · exact .inr (.inr rfl)

theorem pairs_tailSegs (cs : List Char) (hcs : ∀ c ∈ cs, Kept c) {gap : ℚ}
    (hgap : gap = 3 ∨ gap = 7) : Pairs t (tailSegs t gap cs) := by
  induction cs generalizing gap with
  | nil => exact .nil
  | cons c cs ih =>
    have hcs' : ∀ d ∈ cs, Kept d := fun d hd => hcs d (List.mem_cons_of_mem _ hd)
    by_cases hc : c = ' '
    · rw [tailSegs, if_pos hc]
      exact ih hcs' (.inr rfl)
    · obtain ⟨code, hcode⟩ := Encoding.charToCode_of_kept (hcs c List.mem_cons_self) hc
      rw [tailSegs, if_neg hc, hcode]
      exact (pairs_code hgap (charToCode_ok hcode).2.1).append (ih hcs' (.inl rfl))

/-- Marks and gaps take turns, with a mark at either end. -/
structure Keyed (t : Timing) (segs : List CwSeg) : Prop where
  alternate : segs.IsChain fun a b => a.on ≠ b.on
  head : ∀ seg ∈ segs.head?, seg.on = true
  last : ∀ seg ∈ segs.getLast?, seg.on = true
  lengths : ∀ seg ∈ segs, IsMark t seg ∨ IsGap t seg

theorem Pairs.keyed {mark : CwSeg} (hmark : IsMark t mark) {rest : List CwSeg}
    (h : Pairs t rest) : Keyed t (mark :: rest) := by
  induction h generalizing mark with
  | nil =>
    refine ⟨List.isChain_singleton _, ?_, ?_, ?_⟩
    · simpa using hmark.1
    · simpa using hmark.1
    · simpa using Or.inl hmark
  | cons hgap hmark' _ ih =>
    obtain ⟨halternate, -, hlast, hlengths⟩ := ih hmark'
    refine ⟨?_, ?_, ?_, ?_⟩
    · rw [List.isChain_cons_cons, List.isChain_cons_cons, hmark.1, hgap.1, hmark'.1]
      exact ⟨by decide, by decide, halternate⟩
    · simpa using hmark.1
    · rw [List.getLast?_cons_cons, List.getLast?_cons_cons]
      exact hlast
    · rw [List.forall_mem_cons, List.forall_mem_cons]
      exact ⟨.inl hmark, .inr hgap, hlengths⟩

theorem keyed_headSegs (cs : List Char) (hcs : ∀ c ∈ cs, Kept c) : Keyed t (headSegs t cs) := by
  induction cs with
  | nil => exact ⟨List.isChain_nil, nofun, nofun, nofun⟩
  | cons c cs ih =>
    have hcs' : ∀ d ∈ cs, Kept d := fun d hd => hcs d (List.mem_cons_of_mem _ hd)
    by_cases hc : c = ' '
    · rw [headSegs, if_pos hc]
      exact ih hcs'
    · obtain ⟨code, hcode⟩ := Encoding.charToCode_of_kept (hcs c List.mem_cons_self) hc
      obtain ⟨e, es, hes⟩ := List.exists_cons_of_ne_nil (charToCode_ok hcode).2.1
      rw [headSegs, if_neg hc, hcode, Option.getD_some, hes]
      exact ((pairs_restSegs t es).append (pairs_tailSegs cs hcs' (.inl rfl))).keyed
        (isMark_markMs t e)

/-! ## Reading a text back -/

/-- The text that the segments spell, after the elements of the current character. -/
def readSegs (t : Timing) : List CwSeg → List Char → List Char
  | [], code => (codeToChar code).toList
  | seg :: segs, code =>
    if seg.on then readSegs t segs (code ++ [if seg.durMs = t.markMs '-' then '-' else '.'])
    else if seg.durMs = t.elemGapMs then readSegs t segs code
    else if seg.durMs = 3 * t.dotMs then (codeToChar code).toList ++ readSegs t segs []
    else (codeToChar code).toList ++ ' ' :: readSegs t segs []

/-- The text that the segments of a message spell. -/
def recover (t : Timing) (segs : List CwSeg) : List Char :=
  if segs = [] then [] else readSegs t segs []

/-- The words of a text. -/
def wordsOf (cs : List Char) : List (List Char) := (cs.splitOnP (· == ' ')).filter (· ≠ [])

/-- **The normal form of a text**: in upper case, without the characters that have no code, and with
one space between its words. -/
def normalize (text : List Char) : List Char := List.intercalate [' '] (wordsOf (kept text))

/-- What is left of the normal form behind a character; `word` says that a new word begins. -/
def tailText : Bool → List Char → List Char
  | _, [] => []
  | word, c :: cs =>
    if c = ' ' then tailText true cs
    else if word then ' ' :: c :: tailText false cs else c :: tailText false cs

def headText : List Char → List Char
  | [] => []
  | c :: cs => if c = ' ' then headText cs else c :: tailText false cs

theorem splitOnP_space (cs : List Char) :
    (' ' :: cs).splitOnP (· == ' ') = [] :: cs.splitOnP (· == ' ') :=
  List.splitOnP_append_cons_of_forall_mem (List.forall_mem_nil _) ' ' rfl cs

theorem splitOnP_cons_of_ne {c : Char} (hc : c ≠ ' ') {cs w : List Char} {ws : List (List Char)}
    (h : cs.splitOnP (· == ' ') = w :: ws) :
    (c :: cs).splitOnP (· == ' ') = (c :: w) :: ws := by
  rw [List.splitOnP_cons_eq_if_modifyHead, if_neg (by simpa using hc), h, List.modifyHead_cons]

theorem tailText_eq (cs : List Char) : ∃ w ws, cs.splitOnP (· == ' ') = w :: ws ∧
    tailText false cs = w ++ (ws.filter (· ≠ [])).flatMap (' ' :: ·) ∧
    tailText true cs = ((w :: ws).filter (· ≠ [])).flatMap (' ' :: ·) := by
  induction cs with
  | nil => exact ⟨[], [], List.splitOnP_nil, rfl, rfl⟩
  | cons c cs ih =>
    obtain ⟨w, ws, hsplit, hfalse, htrue⟩ := ih
    by_cases hc : c = ' '
    · refine ⟨[], w :: ws, ?_, ?_, ?_⟩
      · rw [hc, splitOnP_space, hsplit]
      · rw [tailText, if_pos hc, htrue]
        rfl
      · rw [tailText, if_pos hc, htrue]
        rfl
    · refine ⟨c :: w, ws, splitOnP_cons_of_ne hc hsplit, ?_, ?_⟩
      · rw [tailText, if_neg hc, if_neg Bool.false_ne_true, hfalse]
        rfl
      · rw [tailText, if_neg hc, if_pos rfl, hfalse]
        rfl

theorem intercalate_space (w : List Char) (ws : List (List Char)) :
    List.intercalate [' '] (w :: ws) = w ++ ws.flatMap (' ' :: ·) := by
  induction ws generalizing w with
  | nil => simp
  | cons v ws ih => simp [List.intercalate_cons_cons, ih]

theorem headText_eq (cs : List Char) : headText cs = List.intercalate [' '] (wordsOf cs) := by
  induction cs with
  | nil => rfl
  | cons c cs ih =>
    by_cases hc : c = ' '
    · rw [headText, if_pos hc, ih, wordsOf, wordsOf, hc, splitOnP_space]
      rfl
    · obtain ⟨w, ws, hsplit, hfalse, -⟩ := tailText_eq cs
      have hwords : wordsOf (c :: cs) = (c :: w) :: ws.filter (· ≠ []) := by
        rw [wordsOf, splitOnP_cons_of_ne hc hsplit]
        rfl
      rw [headText, if_neg hc, hfalse, hwords, intercalate_space]
      rfl

/-! ## The message comes back -/

/-- A mark says which element it is. -/
theorem element_of_markMs (ht : t.Ok) {e : Char} (he : e ∈ ['.', '-']) :
    (if t.markMs e = t.markMs '-' then '-' else '.') = e := by
  rcases List.mem_pair.1 he with rfl | rfl
  · exact if_neg ht.dit_lt_dah.ne
  · exact if_pos rfl

theorem readSegs_mark (ht : t.Ok) {e : Char} (he : e ∈ ['.', '-']) (segs : List CwSeg)
    (code : List Char) :
    readSegs t (⟨true, t.markMs e⟩ :: segs) code = readSegs t segs (code ++ [e]) := by
  rw [readSegs, if_pos rfl, element_of_markMs ht he]

theorem readSegs_elemGap (segs : List CwSeg) (code : List Char) :
    readSegs t (⟨false, t.elemGapMs⟩ :: segs) code = readSegs t segs code := by
  rw [readSegs, if_neg Bool.false_ne_true, if_pos rfl]

theorem readSegs_letterGap (ht : t.Ok) (segs : List CwSeg) (code : List Char) :
    readSegs t (⟨false, 3 * t.dotMs⟩ :: segs) code =
      (codeToChar code).toList ++ readSegs t segs [] := by
  rw [readSegs, if_neg Bool.false_ne_true, if_neg ht.elemGap_lt.ne', if_pos rfl]

theorem readSegs_wordGap (ht : t.Ok) (segs : List CwSeg) (code : List Char) :
    readSegs t (⟨false, 7 * t.dotMs⟩ :: segs) code =
      (codeToChar code).toList ++ ' ' :: readSegs t segs [] := by
  have hdot := ht.dot
  have hlt := ht.elemGap_lt
  have helem : 7 * t.dotMs ≠ t.elemGapMs := by linarith
  have hletter : 7 * t.dotMs ≠ 3 * t.dotMs := by linarith
  rw [readSegs, if_neg Bool.false_ne_true, if_neg helem, if_neg hletter]

theorem readSegs_restSegs (ht : t.Ok) {es : List Char} (hes : es ⊆ ['.', '-'])
    (segs : List CwSeg) (code : List Char) :
    readSegs t (restSegs t es ++ segs) code = readSegs t segs (code ++ es) := by
  induction es generalizing code with
  | nil => rw [List.append_nil, restSegs, List.flatMap_nil, List.nil_append]
  | cons e es ih =>
    obtain ⟨he, hes⟩ := List.cons_subset.1 hes
    have hcons : restSegs t (e :: es) ++ segs =
        ⟨false, t.elemGapMs⟩ :: ⟨true, t.markMs e⟩ :: (restSegs t es ++ segs) := rfl
    rw [hcons, readSegs_elemGap, readSegs_mark ht he, ih hes, List.append_assoc,
      List.singleton_append]

/-- The elements of a code are read one after the other. -/
theorem readSegs_codeSegs (ht : t.Ok) {c : Char} {code : List Char}
    (hc : charToCode c = some code) (segs : List CwSeg) :
    readSegs t (codeSegs t code ++ segs) [] = readSegs t segs code := by
  obtain ⟨-, hne, hcode⟩ := charToCode_ok hc
  obtain ⟨e, es, rfl⟩ := List.exists_cons_of_ne_nil hne
  obtain ⟨he, hes⟩ := List.cons_subset.1 hcode
  rw [codeSegs, List.cons_append, readSegs_mark ht he, readSegs_restSegs ht hes]
  rfl

theorem readSegs_tailSegs (ht : t.Ok) (cs : List Char) (hcs : ∀ c ∈ cs, Kept c) {c : Char}
    {code : List Char} (hcode : charToCode c = some code) :
    readSegs t (tailSegs t 3 cs) code = c :: tailText false cs ∧
      readSegs t (tailSegs t 7 cs) code = c :: tailText true cs := by
  have hback : (codeToChar code).toList = [c] := by rw [(charToCode_ok hcode).1, Option.toList_some]
  induction cs generalizing c code with
  | nil => exact ⟨hback, hback⟩
  | cons d cs ih =>
    have hcs' : ∀ d ∈ cs, Kept d := fun d hd => hcs d (List.mem_cons_of_mem _ hd)
    by_cases hd : d = ' '
    · rw [tailSegs, tailSegs, if_pos hd, if_pos hd, tailText, tailText, if_pos hd, if_pos hd]
      have hword := (ih hcs' hcode hback).2
      exact ⟨hword, hword⟩
    · obtain ⟨code', hcode'⟩ := Encoding.charToCode_of_kept (hcs d List.mem_cons_self) hd
      have hback' : (codeToChar code').toList = [d] := by
        rw [(charToCode_ok hcode').1, Option.toList_some]
      have hletter := (ih hcs' hcode' hback').1
      rw [tailSegs, tailSegs, if_neg hd, if_neg hd, tailText, tailText, if_neg hd, if_neg hd,
        hcode', Option.getD_some]
      refine ⟨?_, ?_⟩
      · rw [readSegs_letterGap ht, readSegs_codeSegs ht hcode', hletter, hback]
        rfl
      · rw [readSegs_wordGap ht, readSegs_codeSegs ht hcode', hletter, hback]
        rfl

/-- A message says the text that was sent. -/
theorem recover_headSegs (ht : t.Ok) (cs : List Char) (hcs : ∀ c ∈ cs, Kept c) :
    recover t (headSegs t cs) = headText cs := by
  induction cs with
  | nil => rfl
  | cons c cs ih =>
    have hcs' : ∀ d ∈ cs, Kept d := fun d hd => hcs d (List.mem_cons_of_mem _ hd)
    by_cases hc : c = ' '
    · rw [headSegs, if_pos hc, headText, if_pos hc]
      exact ih hcs'
    · obtain ⟨code, hcode⟩ := Encoding.charToCode_of_kept (hcs c List.mem_cons_self) hc
      obtain ⟨e, es, hes⟩ := List.exists_cons_of_ne_nil (charToCode_ok hcode).2.1
      have hne : codeSegs t code ++ tailSegs t 3 cs ≠ [] := by
        rw [hes, codeSegs, List.cons_append]
        exact List.cons_ne_nil _ _
      rw [headSegs, if_neg hc, headText, if_neg hc, hcode, Option.getD_some, recover, if_neg hne,
        readSegs_codeSegs ht hcode]
      exact (readSegs_tailSegs ht cs hcs' hcode).1

theorem recover_cwSegments (text : List Char) (wpm weight : ℤ) :
    recover (timing wpm weight) (cwSegments text wpm weight) = normalize text := by
  rw [cwSegments_eq, recover_headSegs (timing_ok wpm weight) _ (kept_all text), headText_eq,
    normalize]

/-! ## The samples -/

/-- The ranges lie one behind the other from `a` to `b`. -/
def Partitions : ℤ → ℤ → List (ℤ × ℤ) → Prop
  | a, b, [] => a = b
  | a, b, r :: rs => r.1 = a ∧ a ≤ r.2 ∧ Partitions r.2 b rs

/-- The range at the place holds the sample. -/
def Covers (rs : List (ℤ × ℤ)) (k : ℤ) (i : ℕ) : Prop := ∃ r, rs[i]? = some r ∧ r.1 ≤ k ∧ k < r.2

theorem Partitions.le_of_covers {a b : ℤ} {rs : List (ℤ × ℤ)} (h : Partitions a b rs) {k : ℤ}
    {i : ℕ} (hi : Covers rs k i) : a ≤ k := by
  obtain ⟨r, hr, hle, -⟩ := hi
  induction rs generalizing a i with
  | nil => cases hr
  | cons r' rs ih =>
    obtain ⟨hfirst, hne, hrest⟩ := h
    cases i with
    | zero =>
      obtain rfl : r' = r := Option.some.inj hr
      exact hfirst.ge.trans hle
    | succ i => exact hne.trans (ih hrest hr)

theorem covers_succ {r : ℤ × ℤ} {rs : List (ℤ × ℤ)} {k : ℤ} {i : ℕ} :
    Covers (r :: rs) k (i + 1) ↔ Covers rs k i := Iff.rfl

/-- A sample of the whole lies in one range and no other. -/
theorem Partitions.existsUnique {a b : ℤ} {rs : List (ℤ × ℤ)} (h : Partitions a b rs) {k : ℤ}
    (hak : a ≤ k) (hkb : k < b) : ∃! i, Covers rs k i := by
  induction rs generalizing a with
  | nil =>
    obtain rfl : a = b := h
    exact absurd hkb (not_lt.2 hak)
  | cons r rs ih =>
    obtain ⟨rfl, hle, hrest⟩ := h
    rcases lt_or_ge k r.2 with hk | hk
    · refine ⟨0, ⟨r, rfl, hak, hk⟩, fun i hi => ?_⟩
      cases i with
      | zero => rfl
      | succ i => exact absurd (hrest.le_of_covers (covers_succ.1 hi)) (not_le.2 hk)
    · obtain ⟨i, hi, hunique⟩ := ih hrest hk
      refine ⟨i + 1, covers_succ.2 hi, fun j hj => ?_⟩
      cases j with
      | zero =>
        obtain ⟨r', hr', -, hlt⟩ := hj
        obtain rfl : r = r' := Option.some.inj hr'
        exact absurd hlt (not_lt.2 hk)
      | succ j => exact congrArg Nat.succ (hunique j (covers_succ.1 hj))

theorem truncate_mono {x y : ℚ} (h : x ≤ y) : truncate x ≤ truncate y := by
  unfold truncate
  split_ifs with hx hy hy
  · exact Int.floor_mono h
  · exact absurd (hx.trans h) hy
  · have hceil : ⌈x⌉ ≤ 0 := Int.ceil_le.2 (by exact_mod_cast (not_le.1 hx).le)
    exact hceil.trans (Int.floor_nonneg.2 hy)
  · exact Int.ceil_mono h

theorem sampleAt_mono {sampleRate : ℤ} (hrate : 0 ≤ sampleRate) {x y : ℚ} (h : x ≤ y) :
    sampleAt sampleRate x ≤ sampleAt sampleRate y := by
  have hrate' : (0 : ℚ) ≤ sampleRate := Int.cast_nonneg hrate
  have hmul := mul_le_mul_of_nonneg_right h hrate'
  apply truncate_mono
  linarith

theorem sampleAt_zero (sampleRate : ℤ) : sampleAt sampleRate 0 = 0 := by
  have hhalf : (0 : ℚ) * sampleRate / 1000 + 1 / 2 = 1 / 2 := by ring
  rw [sampleAt, hhalf, truncate, if_pos (by norm_num), Int.floor_eq_iff]
  norm_num

/-- No sound comes out at a rate below one. -/
theorem rate_pos {sampleRate : ℤ} {ms : ℚ} (hms : 0 ≤ ms) (h : 0 < sampleAt sampleRate ms) :
    0 < sampleRate := by
  by_contra hrate
  have hrate' : (sampleRate : ℚ) ≤ 0 := Int.cast_nonpos.2 (not_lt.1 hrate)
  have hmul := mul_nonpos_of_nonneg_of_nonpos hms hrate'
  have hle : sampleAt sampleRate ms ≤ sampleAt sampleRate 0 := by
    apply truncate_mono
    linarith
  rw [sampleAt_zero] at hle
  exact absurd h (not_lt.2 hle)

theorem length_sampleRanges (sampleRate total : ℤ) (segs : List CwSeg) (cumMs : ℚ) (a : ℤ) :
    (sampleRanges sampleRate total segs cumMs a).length = segs.length := by
  induction segs generalizing cumMs a with
  | nil => rfl
  | cons seg segs ih => exact congrArg Nat.succ (ih _ _)

/-- The loop goes on from the sample at which the time is rounded, to the total. -/
theorem partitions_sampleRanges {sampleRate : ℤ} (hrate : 0 ≤ sampleRate) (segs : List CwSeg)
    (hsegs : ∀ seg ∈ segs, 0 ≤ seg.durMs) (cumMs : ℚ) :
    Partitions (sampleAt sampleRate cumMs)
      (sampleAt sampleRate (cumMs + (segs.map CwSeg.durMs).sum))
      (sampleRanges sampleRate (sampleAt sampleRate (cumMs + (segs.map CwSeg.durMs).sum)) segs cumMs
        (sampleAt sampleRate cumMs)) := by
  induction segs generalizing cumMs with
  | nil => simp [sampleRanges, Partitions]
  | cons seg segs ih =>
    have hseg := hsegs seg List.mem_cons_self
    have hsegs' : ∀ seg ∈ segs, 0 ≤ seg.durMs := fun s hs => hsegs s (List.mem_cons_of_mem _ hs)
    have hsum : 0 ≤ (segs.map CwSeg.durMs).sum := List.sum_nonneg (by simpa using hsegs')
    have hnot : ¬ sampleAt sampleRate (cumMs + seg.durMs) >
        sampleAt sampleRate (cumMs + seg.durMs + (segs.map CwSeg.durMs).sum) :=
      not_lt.2 (sampleAt_mono hrate (le_add_of_nonneg_right hsum))
    rw [List.map_cons, List.sum_cons, ← add_assoc, sampleRanges,
      if_neg hnot]
    exact ⟨rfl, sampleAt_mono hrate (le_add_of_nonneg_right hseg), ih hsegs' _⟩

theorem IsMark.durMs_pos (ht : t.Ok) {seg : CwSeg} (h : IsMark t seg) : 0 < seg.durMs := by
  rcases h.2 with h | h
  · rw [h]
    exact ht.markMs_pos '.'
  · rw [h]
    exact ht.markMs_pos '-'

theorem IsGap.durMs_pos (ht : t.Ok) {seg : CwSeg} (h : IsGap t seg) : 0 < seg.durMs := by
  rcases h.2 with h | h | h
  · rw [h]
    exact ht.elemGap
  · rw [h]
    exact Encoding.gap_pos ht (.inl rfl)
  · rw [h]
    exact Encoding.gap_pos ht (.inr rfl)

theorem Keyed.durMs_nonneg (ht : t.Ok) {segs : List CwSeg} (h : Keyed t segs) :
    ∀ seg ∈ segs, 0 ≤ seg.durMs := by
  intro seg hseg
  rcases h.lengths seg hseg with hmark | hgap
  · exact (hmark.durMs_pos ht).le
  · exact (hgap.durMs_pos ht).le

theorem keyed_cwSegments (text : List Char) (wpm weight : ℤ) :
    Keyed (timing wpm weight) (cwSegments text wpm weight) := by
  rw [cwSegments_eq]
  exact keyed_headSegs (kept text) (kept_all text)

/-- What is laid out is the list of segments, and it fills the samples. -/
theorem partitions_cwEncodeToAudio {text : List Char} {wpm weight sampleRate total : ℤ}
    {ranges : List (ℤ × ℤ)}
    (h : cwEncodeToAudio text wpm weight sampleRate = some (total, ranges)) :
    Partitions 0 total ranges ∧ ranges.length = (cwSegments text wpm weight).length := by
  unfold cwEncodeToAudio at h
  split at h
  · cases h
  · dsimp only at h
    split at h
    · cases h
    · split at h
      · cases h
      · rename_i hpos
        obtain ⟨rfl, rfl⟩ := Prod.mk.inj (Option.some.inj h)
        have htotals := (Encoding.sendText_segs (timing_ok wpm weight) text).2
        have hdur := (keyed_cwSegments text wpm weight).durMs_nonneg (timing_ok wpm weight)
        have hsum : 0 ≤ ((cwSegments text wpm weight).map CwSeg.durMs).sum :=
          List.sum_nonneg (by simpa using hdur)
        rw [htotals] at hpos ⊢
        have hrate := rate_pos hsum (not_le.1 hpos)
        have hparts := partitions_sampleRanges hrate.le _ hdur 0
        rw [sampleAt_zero, zero_add] at hparts
        exact ⟨hparts, length_sampleRanges _ _ _ _ _⟩

end MacHPSDR.Cw
