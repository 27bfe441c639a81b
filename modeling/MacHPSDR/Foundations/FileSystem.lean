import Mathlib

/-!
# File operations that can fail, and crashes between them

A disk gives each file name its text, if the file exists. A program is a tree of file operations
that branches on their outcome (`Prog`). It runs against a list of outcomes: each operation takes
the next one, and when the list is used up the program has crashed before that operation. So the
disks that a run can leave behind, by finishing or by a crash at any point, are those of all lists
of outcomes.

`Prog.Safe P` says what has to be checked, operation by operation, for `P` to hold of all these
disks, and `Prog.safe_iff` that it is neither too little nor too much.
-/

namespace MacHPSDR.FileSystem

variable {ν α : Type*} [DecidableEq ν]

/-- The text of each file that exists. -/
abbrev Disk (ν α : Type*) := ν → Option (List α)

/-- File operations, as C programs use them. -/
inductive Op (ν α : Type*)
  /-- Create the file or empty it (`fopen` for writing). -/
  | create (f : ν)
  /-- Write at the end of the file. -/
  | append (f : ν) (t : List α)
  /-- Force the file to the disk. -/
  | flush (f : ν)
  | close (f : ν)
  | unlink (f : ν)
  /-- Move a file, over the target if that exists. -/
  | rename (a b : ν)

/-- The disk after the operation has succeeded; `none` if it cannot. -/
def Op.apply (d : Disk ν α) : Op ν α → Option (Disk ν α)
  | create f => some (Function.update d f (some []))
  | append f t => (d f).map fun u => Function.update d f (some (u ++ t))
  | flush _ | close _ => some d
  | unlink f => (d f).map fun _ => Function.update d f none
  | rename a b => (d a).map fun u => Function.update (Function.update d b (some u)) a none

/-- The disk after the operation has failed; a write may have got `m` characters out before. -/
def Op.failed (d : Disk ν α) (m : ℕ) : Op ν α → Disk ν α
  | append f t => ((d f).map fun u => Function.update d f (some (u ++ t.take m))).getD d
  | _ => d

/-- A program: it tests for files, and goes on by the outcome of each operation. -/
inductive Prog (ν α : Type*)
  | done (result : Bool)
  | exist (f : ν) (k : Bool → Prog ν α)
  | op (o : Op ν α) (k : Bool → Prog ν α)

/-- What becomes of an operation. -/
inductive Outcome
  | ok
  | fail (m : ℕ)

/-- The disk a program leaves behind, and its result unless it crashes first. -/
def Prog.run : Prog ν α → List Outcome → Disk ν α → Disk ν α × Option Bool
  | done result, _, d => (d, some result)
  | exist f k, os, d => run (k (d f).isSome) os d
  | op _ _, [], d => (d, none)
  | op o k, .fail m :: os, d => run (k false) os (o.failed d m)
  | op o k, .ok :: os, d =>
    match o.apply d with
    | some d' => run (k true) os d'
    | none => run (k false) os d

/-- `P` holds before every operation, after every failure and at the end, where it is told the
result. -/
def Prog.Safe (P : Disk ν α → Option Bool → Prop) : Prog ν α → Disk ν α → Prop
  | done result, d => P d (some result)
  | exist f k, d => Safe P (k (d f).isSome) d
  | op o k, d =>
    P d none ∧ (∀ m, Safe P (k false) (o.failed d m)) ∧
      match o.apply d with
      | some d' => Safe P (k true) d'
      | none => Safe P (k false) d

/-- **`P` holds of all that the program can leave behind exactly when it is safe.** -/
theorem Prog.safe_iff (P : Disk ν α → Option Bool → Prop) (p : Prog ν α) (d : Disk ν α) :
    p.Safe P d ↔ ∀ os, P (p.run os d).1 (p.run os d).2 := by
  induction p generalizing d with
  | done result => exact ⟨fun h _ => h, fun h => h []⟩
  | exist f k ih => exact ih _ d
  | op o k ih =>
    simp only [Safe, ih]
    constructor
    · rintro ⟨h, hfail, hok⟩ os
      cases os with
      | nil => exact h
      | cons out os =>
        cases out with
        | fail m => exact hfail m os
        | ok =>
          simp only [run]
          split <;> rename_i ho <;> rw [ho] at hok <;> exact hok os
    · intro h
      refine ⟨h [], fun m os => h (.fail m :: os), ?_⟩
      split <;>
      · rename_i ho
        intro os
        have := h (.ok :: os)
        rwa [run, ho] at this

end MacHPSDR.FileSystem
