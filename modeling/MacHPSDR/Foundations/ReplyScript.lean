import Mathlib

/-!
# Scripts that answer a command

The body of a command in a text protocol: it may send frames, do things, and end by saying whether
the command is implemented, and it decides what to do by looking at the text of the command and at
the state. A `Script` is such a body, `Script.run` its answer.

A body is fair to a head (`Script.FairAt`) when it sends at most one frame, one that starts with
the head; when it refuses, it has neither sent a frame nor done anything; and when it sends a frame
in some other state, it sends one here too, unless it refuses. That a body is fair in all states
can be seen on the script (`Script.fairFor`, sound by `Script.fairAt_of_fairFor`): there is no
refusal next to an effect or a frame, there are no two frames in a row, and no test of the state
decides between a frame and silence.
-/

namespace MacHPSDR.ReplyScript

variable {τ σ ε : Type*}

/-- What a body leaves: the frames it sent, what it did, and whether it is implemented. -/
structure Answer (ε : Type*) where
  frames : List (List Char)
  effects : List ε
  implemented : Bool

/-- The body of a command with texts in `τ`, states in `σ` and effects in `ε`. -/
inductive Script (τ σ ε : Type*)
  /-- do nothing -/
  | accept
  /-- `implemented=FALSE` -/
  | refuse
  /-- send the head, then what the text and the state give -/
  | reply (head : List Char) (tail : τ → σ → List Char)
  | apply (effects : τ → σ → List ε)
  | onText (p : τ → Bool) (yes no : Script τ σ ε)
  | onState (p : σ → Bool) (yes no : Script τ σ ε)
  | seq (first second : Script τ σ ε)

namespace Script

/-- The answer of a body. -/
def run : Script τ σ ε → τ → σ → Answer ε
  | accept, _, _ => ⟨[], [], true⟩
  | refuse, _, _ => ⟨[], [], false⟩
  | reply head tail, c, s => ⟨[head ++ tail c s], [], true⟩
  | apply effects, c, s => ⟨[], effects c s, true⟩
  | onText p yes no, c, s => if p c then yes.run c s else no.run c s
  | onState p yes no, c, s => if p s then yes.run c s else no.run c s
  | seq first second, c, s =>
    ⟨(first.run c s).frames ++ (second.run c s).frames,
      (first.run c s).effects ++ (second.run c s).effects,
      (first.run c s).implemented && (second.run c s).implemented⟩

section Run

variable (c : τ) (s : σ)

@[simp] theorem run_refuse : (refuse : Script τ σ ε).run c s = ⟨[], [], false⟩ := rfl

@[simp] theorem run_reply (head : List Char) (tail : τ → σ → List Char) :
    (reply head tail : Script τ σ ε).run c s = ⟨[head ++ tail c s], [], true⟩ := rfl

@[simp] theorem run_apply (effects : τ → σ → List ε) :
    (apply effects).run c s = ⟨[], effects c s, true⟩ := rfl

@[simp] theorem run_onText (p : τ → Bool) (yes no : Script τ σ ε) :
    (onText p yes no).run c s = if p c then yes.run c s else no.run c s := rfl

@[simp] theorem run_onState (p : σ → Bool) (yes no : Script τ σ ε) :
    (onState p yes no).run c s = if p s then yes.run c s else no.run c s := rfl

@[simp] theorem run_seq (first second : Script τ σ ε) :
    (seq first second).run c s =
      ⟨(first.run c s).frames ++ (second.run c s).frames,
        (first.run c s).effects ++ (second.run c s).effects,
        (first.run c s).implemented && (second.run c s).implemented⟩ := rfl

end Run

/-! ## Fairness -/

/-- For this text and in this state, the body keeps to one frame, under the head given. -/
structure FairAt (head : List Char) (b : Script τ σ ε) (c : τ) (s : σ) : Prop where
  once : (b.run c s).frames.length ≤ 1
  own : ∀ f ∈ (b.run c s).frames, head <+: f
  clean : (b.run c s).implemented = false →
    (b.run c s).frames = [] ∧ (b.run c s).effects = []
  steady : ∀ s', (b.run c s').frames ≠ [] → (b.run c s).implemented = true →
    (b.run c s).frames ≠ []

/-- The body has no frame in it. -/
def silent : Script τ σ ε → Bool
  | reply _ _ => false
  | onText _ yes no => yes.silent && no.silent
  | onState _ yes no => yes.silent && no.silent
  | seq first second => first.silent && second.silent
  | _ => true

/-- The body has no refusal in it. -/
def total : Script τ σ ε → Bool
  | refuse => false
  | onText _ yes no => yes.total && no.total
  | onState _ yes no => yes.total && no.total
  | seq first second => first.total && second.total
  | _ => true

/-- The body refuses and does nothing else. -/
def isRefuse : Script τ σ ε → Bool
  | refuse => true
  | _ => false

/-- The check for fairness. -/
def fairFor (head : List Char) : Script τ σ ε → Bool
  | reply h _ => head.isPrefixOf h
  | onText _ yes no => yes.fairFor head && no.fairFor head
  | onState _ yes no => yes.fairFor head && no.fairFor head &&
    (no.silent || yes.isRefuse) && (yes.silent || no.isRefuse)
  | seq first second => first.total && second.total &&
    (first.silent && second.fairFor head || first.fairFor head && second.silent)
  | _ => true

/-! ## Soundness of the check -/

theorem frames_of_silent {b : Script τ σ ε} (h : b.silent = true) (c : τ) (s : σ) :
    (b.run c s).frames = [] := by
  induction b with
  | accept => rfl
  | refuse => rfl
  | reply head tail => exact absurd h (by simp [silent])
  | apply effects => rfl
  | onText p yes no ih₁ ih₂ =>
    simp only [silent, Bool.and_eq_true] at h
    cases hp : p c <;> simp [hp, ih₁ h.1, ih₂ h.2]
  | onState p yes no ih₁ ih₂ =>
    simp only [silent, Bool.and_eq_true] at h
    cases hp : p s <;> simp [hp, ih₁ h.1, ih₂ h.2]
  | seq first second ih₁ ih₂ =>
    simp only [silent, Bool.and_eq_true] at h
    simp [ih₁ h.1, ih₂ h.2]

theorem implemented_of_total {b : Script τ σ ε} (h : b.total = true) (c : τ) (s : σ) :
    (b.run c s).implemented = true := by
  induction b with
  | accept => rfl
  | refuse => exact absurd h (by simp [total])
  | reply head tail => rfl
  | apply effects => rfl
  | onText p yes no ih₁ ih₂ =>
    simp only [total, Bool.and_eq_true] at h
    cases hp : p c <;> simp [hp, ih₁ h.1, ih₂ h.2]
  | onState p yes no ih₁ ih₂ =>
    simp only [total, Bool.and_eq_true] at h
    cases hp : p s <;> simp [hp, ih₁ h.1, ih₂ h.2]
  | seq first second ih₁ ih₂ =>
    simp only [total, Bool.and_eq_true] at h
    simp [ih₁ h.1, ih₂ h.2]

theorem eq_refuse {b : Script τ σ ε} (h : b.isRefuse = true) : b = refuse := by
  cases b with
  | refuse => rfl
  | _ => exact absurd h (by simp [isRefuse])

section Rules

variable {head : List Char} {c : τ} {s : σ}

/-- A body that sends nothing for a text is fair where it is clean. -/
theorem FairAt.of_mute {b : Script τ σ ε} (h : ∀ s', (b.run c s').frames = [])
    (hc : (b.run c s).implemented = false → (b.run c s).effects = []) : FairAt head b c s := by
  refine ⟨by simp [h], fun f hf => ?_, fun hs => ⟨h s, hc hs⟩, fun s' hs' _ => absurd (h s') hs'⟩
  simp [h] at hf

/-- A body that refuses a text in a state is fair there. -/
theorem FairAt.of_refused {b : Script τ σ ε} (h : b.run c s = ⟨[], [], false⟩) :
    FairAt head b c s := by
  refine ⟨by simp [h], fun f hf => ?_, fun _ => by simp [h], fun s' _ hi => ?_⟩
  · simp [h] at hf
  · simp [h] at hi

/-- A body is as fair as one that does the same here, and sends wherever it sends. -/
theorem FairAt.of_run {b b' : Script τ σ ε} (h : FairAt head b c s)
    (hrun : b'.run c s = b.run c s)
    (hsends : ∀ s', (b'.run c s').frames ≠ [] → (b.run c s').frames ≠ []) :
    FairAt head b' c s :=
  ⟨hrun ▸ h.once, hrun ▸ h.own, hrun ▸ h.clean,
    fun s' hs' => hrun ▸ h.steady s' (hsends s' hs')⟩

theorem FairAt.reply {h : List Char} (hh : head <+: h) (tail : τ → σ → List Char) :
    FairAt head (reply h tail : Script τ σ ε) c s := by
  refine ⟨by simp, fun f hf => ?_, fun hs => ?_, fun s' _ _ => by simp⟩
  · simp only [run_reply, List.mem_singleton] at hf
    subst hf
    exact hh.trans (List.prefix_append _ _)
  · simp at hs

theorem FairAt.onText_true {p : τ → Bool} {yes : Script τ σ ε} (no : Script τ σ ε)
    (hp : p c = true) (h : FairAt head yes c s) : FairAt head (onText p yes no) c s :=
  h.of_run (by simp [hp]) fun s' => by simp [hp]

theorem FairAt.onText_false {p : τ → Bool} {no : Script τ σ ε} (yes : Script τ σ ε)
    (hp : p c = false) (h : FairAt head no c s) : FairAt head (onText p yes no) c s :=
  h.of_run (by simp [hp]) fun s' => by simp [hp]

/-- In a state that passes the test, if nothing is sent in the others. -/
theorem FairAt.onState_true {p : σ → Bool} {yes no : Script τ σ ε} (hp : p s = true)
    (h : FairAt head yes c s) (hno : no.silent = true) : FairAt head (onState p yes no) c s := by
  refine h.of_run (by simp [hp]) fun s' hs' => ?_
  cases hp' : p s' with
  | true => simpa [hp'] using hs'
  | false => simp [hp', frames_of_silent hno] at hs'

theorem FairAt.onState_false {p : σ → Bool} {yes no : Script τ σ ε} (hp : p s = false)
    (h : FairAt head no c s) (hyes : yes.silent = true) : FairAt head (onState p yes no) c s := by
  refine h.of_run (by simp [hp]) fun s' hs' => ?_
  cases hp' : p s' with
  | true => simp [hp', frames_of_silent hyes] at hs'
  | false => simpa [hp'] using hs'

/-- Two bodies that never refuse, the first of which sends nothing. -/
theorem FairAt.seq_right {first second : Script τ σ ε} (h₁ : first.total = true)
    (h₂ : second.total = true) (hs : first.silent = true) (h : FairAt head second c s) :
    FairAt head (seq first second) c s := by
  refine ⟨?_, ?_, fun hi => ?_, fun s' hs' _ => ?_⟩
  · simpa [frames_of_silent hs] using h.once
  · simpa [frames_of_silent hs] using h.own
  · simp [implemented_of_total h₁, implemented_of_total h₂] at hi
  · simp only [run_seq, frames_of_silent hs, List.nil_append] at hs' ⊢
    exact h.steady s' hs' (implemented_of_total h₂ c s)

/-- Two bodies that never refuse, the second of which sends nothing. -/
theorem FairAt.seq_left {first second : Script τ σ ε} (h₁ : first.total = true)
    (h₂ : second.total = true) (h : FairAt head first c s) (hs : second.silent = true) :
    FairAt head (seq first second) c s := by
  refine ⟨?_, ?_, fun hi => ?_, fun s' hs' _ => ?_⟩
  · simpa [frames_of_silent hs] using h.once
  · simpa [frames_of_silent hs] using h.own
  · simp [implemented_of_total h₁, implemented_of_total h₂] at hi
  · simp only [run_seq, frames_of_silent hs, List.append_nil] at hs' ⊢
    exact h.steady s' hs' (implemented_of_total h₁ c s)

end Rules

/-- **The check is sound.** -/
theorem fairAt_of_fairFor {head : List Char} {b : Script τ σ ε} (h : b.fairFor head = true)
    (c : τ) (s : σ) : FairAt head b c s := by
  induction b with
  | accept => exact .of_mute (fun _ => rfl) fun _ => rfl
  | refuse => exact .of_refused rfl
  | reply hd tail => exact .reply (List.isPrefixOf_iff_prefix.mp h) tail
  | apply effects => exact .of_mute (fun _ => rfl) fun hs => by simp at hs
  | onText p yes no ih₁ ih₂ =>
    simp only [fairFor, Bool.and_eq_true] at h
    cases hp : p c with
    | true => exact .onText_true no hp (ih₁ h.1)
    | false => exact .onText_false yes hp (ih₂ h.2)
  | onState p yes no ih₁ ih₂ =>
    simp only [fairFor, Bool.and_eq_true, Bool.or_eq_true] at h
    obtain ⟨⟨⟨hy, hn⟩, hno⟩, hyes⟩ := h
    cases hp : p s with
    | true =>
      rcases hno with hno | hno
      · exact .onState_true hp (ih₁ hy) hno
      · obtain rfl := eq_refuse hno
        exact .of_refused (by simp [hp])
    | false =>
      rcases hyes with hyes | hyes
      · exact .onState_false hp (ih₂ hn) hyes
      · obtain rfl := eq_refuse hyes
        exact .of_refused (by simp [hp])
  | seq first second ih₁ ih₂ =>
    simp only [fairFor, Bool.and_eq_true, Bool.or_eq_true] at h
    obtain ⟨⟨h₁, h₂⟩, ⟨hs, hf⟩ | ⟨hf, hs⟩⟩ := h
    · exact .seq_right h₁ h₂ hs (ih₂ hf)
    · exact .seq_left h₁ h₂ (ih₁ hf) hs

end Script

end MacHPSDR.ReplyScript
