import Mathlib

/-!
# Pieces of a stream

A stream is cut into pieces at a separator. A machine that takes the stream symbol by symbol and
gives something at each separator is described by what its state holds of the open piece
(`Frames`); what it gives for a stream follows (`Frames.feed`), and it does not matter how the
stream arrives in chunks (`feedChunks_eq`).
-/

namespace MacHPSDR.Framing

variable {α σ ω : Type*}

/-! ## Bytes -/

/-- A byte of a stream. -/
abbrev Byte := Fin 256

def nul : Byte := ⟨0, by decide⟩

/-! ## Feeding a machine -/

/-- Feed a stream, symbol by symbol, and collect what the machine gives. -/
def feed (step : σ → α → σ × List ω) : σ → List α → σ × List ω
  | s, [] => (s, [])
  | s, c :: t => ((feed step (step s c).1 t).1, (step s c).2 ++ (feed step (step s c).1 t).2)

variable (step : σ → α → σ × List ω)

@[simp] theorem feed_nil (s : σ) : feed step s [] = (s, []) := rfl

theorem feed_cons (s : σ) (c : α) (t : List α) :
    feed step s (c :: t) =
      ((feed step (step s c).1 t).1, (step s c).2 ++ (feed step (step s c).1 t).2) := rfl

theorem feed_append (s : σ) (t u : List α) :
    feed step s (t ++ u) =
      ((feed step (feed step s t).1 u).1,
        (feed step s t).2 ++ (feed step (feed step s t).1 u).2) := by
  induction t generalizing s with
  | nil => rfl
  | cons c t ih =>
    rw [List.cons_append, feed_cons, ih, feed_cons]
    simp only [List.append_assoc]

/-- Feed a stream that arrives in chunks. -/
def feedChunks : σ → List (List α) → σ × List ω
  | s, [] => (s, [])
  | s, c :: cs =>
    ((feedChunks (feed step s c).1 cs).1, (feed step s c).2 ++ (feedChunks (feed step s c).1 cs).2)

/-- **It does not matter how a stream is cut into chunks.** -/
theorem feedChunks_eq (s : σ) (chunks : List (List α)) :
    feedChunks step s chunks = feed step s chunks.flatten := by
  induction chunks generalizing s with
  | nil => rfl
  | cons c cs ih => rw [List.flatten_cons, feed_append, feedChunks, ih]

/-! ## Pieces -/

variable [DecidableEq α] (sep : α)

/-- The complete pieces of a stream after an open piece, each without its separator. -/
def piecesFrom : List α → List α → List (List α)
  | _, [] => []
  | p, c :: t => if c = sep then p :: piecesFrom [] t else piecesFrom (p ++ [c]) t

/-- What is left open. -/
def openFrom : List α → List α → List α
  | p, [] => p
  | p, c :: t => if c = sep then openFrom [] t else openFrom (p ++ [c]) t

/-- The complete pieces of a stream. -/
def pieces (t : List α) : List (List α) := piecesFrom sep [] t

/-- The pieces with their separators and what is left open make up the stream. -/
theorem flatten_piecesFrom (p t : List α) :
    ((piecesFrom sep p t).map (· ++ [sep])).flatten ++ openFrom sep p t = p ++ t := by
  induction t generalizing p with
  | nil => simp [piecesFrom, openFrom]
  | cons c t ih =>
    unfold piecesFrom openFrom
    split_ifs with hc
    · rw [List.map_cons, List.flatten_cons, List.append_assoc, ih, List.nil_append, hc,
        List.append_assoc, List.singleton_append]
    · rw [ih, List.append_assoc, List.singleton_append]

theorem flatten_pieces (t : List α) :
    ((pieces sep t).map (· ++ [sep])).flatten ++ openFrom sep [] t = t :=
  flatten_piecesFrom sep [] t

/-- There is no separator within a piece. -/
theorem sep_notMem_of_mem_piecesFrom {p t q : List α} (hp : sep ∉ p)
    (hq : q ∈ piecesFrom sep p t) : sep ∉ q := by
  induction t generalizing p with
  | nil => exact absurd hq List.not_mem_nil
  | cons c t ih =>
    unfold piecesFrom at hq
    split_ifs at hq with hc
    · rcases List.mem_cons.1 hq with rfl | hq
      · exact hp
      · exact ih List.not_mem_nil hq
    · refine ih ?_ hq
      rw [List.mem_append, List.mem_singleton]
      rintro (h | h)
      · exact hp h
      · exact hc h.symm

theorem sep_notMem_of_mem_pieces {t q : List α} (hq : q ∈ pieces sep t) : sep ∉ q :=
  sep_notMem_of_mem_piecesFrom sep List.not_mem_nil hq

/-- A stream whose only separator is its last symbol is one piece. -/
theorem piecesFrom_of_notMem (p : List α) {q : List α} (hq : sep ∉ q) :
    piecesFrom sep p (q ++ [sep]) = [p ++ q] := by
  induction q generalizing p with
  | nil => simp [piecesFrom]
  | cons c q ih =>
    rw [List.mem_cons, not_or] at hq
    rw [List.cons_append, piecesFrom, if_neg (Ne.symm hq.1), ih _ hq.2, List.append_assoc,
      List.singleton_append]

theorem pieces_of_notMem {q : List α} (hq : sep ∉ q) : pieces sep (q ++ [sep]) = [q] :=
  piecesFrom_of_notMem sep [] hq

/-- The machine holds of the open piece what `R` says, and gives `out` of it at a separator. -/
structure Frames (R : List α → σ → Prop) (out : List α → ω) : Prop where
  extend : ∀ p s c, R p s → c ≠ sep → R (p ++ [c]) (step s c).1 ∧ (step s c).2 = []
  finish : ∀ p s, R p s → R [] (step s sep).1 ∧ (step s sep).2 = [out p]

variable {step sep} {R : List α → σ → Prop} {out : List α → ω}

/-- **What a machine gives for a stream**: one thing for each complete piece. -/
theorem Frames.feedFrom (h : Frames step sep R out) {p : List α} {s : σ} (hs : R p s)
    (t : List α) : R (openFrom sep p t) (feed step s t).1 ∧
      (feed step s t).2 = (piecesFrom sep p t).map out := by
  induction t generalizing p s with
  | nil => exact ⟨hs, rfl⟩
  | cons c t ih =>
    unfold openFrom piecesFrom
    rw [feed_cons]
    split_ifs with hc
    · subst hc
      obtain ⟨hnext, hout⟩ := h.finish p s hs
      obtain ⟨hrest, houts⟩ := ih hnext
      refine ⟨hrest, ?_⟩
      rw [hout, houts, List.map_cons, List.singleton_append]
    · obtain ⟨hnext, hout⟩ := h.extend p s c hs hc
      obtain ⟨hrest, houts⟩ := ih hnext
      refine ⟨hrest, ?_⟩
      rw [hout, houts, List.nil_append]

/-- From a state with nothing open, however the stream arrives. -/
theorem Frames.feedChunks (h : Frames step sep R out) {s : σ} (hs : R [] s)
    (chunks : List (List α)) :
    R (openFrom sep [] chunks.flatten) (feedChunks step s chunks).1 ∧
      (Framing.feedChunks step s chunks).2 = (pieces sep chunks.flatten).map out := by
  rw [feedChunks_eq]
  exact h.feedFrom hs chunks.flatten

end MacHPSDR.Framing
