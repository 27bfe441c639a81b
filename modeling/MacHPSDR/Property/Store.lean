import MacHPSDR.Foundations.CString
import MacHPSDR.Foundations.FileSystem
import Mathlib

/-!
# The property store and its files

The store maps names to values, both C strings. `loadProperties` reads the settings file line by
line through a buffer of 256 characters, or its backup if nothing could be read, and drops a store
of another version. `saveProperties` writes one line for each name beside the target and moves it
into place, keeping the old file as the backup.

The floating-point reader behind the version gate belongs to GLib; it is a parameter, of which
only the value of the version that `saveProperties` writes is known (`Ascii`).
-/

namespace MacHPSDR.Property

open CString FileSystem

/-- A character of a C string: any byte but NUL. -/
abbrev CChar := {b : Fin 256 // b ≠ 0}

abbrev CStr := List CChar

/-- A string literal. -/
def lit (s : String) : CStr :=
  s.toList.filterMap fun c => if h : Fin.ofNat 256 c.toNat ≠ 0 then some ⟨_, h⟩ else none

def newline : CChar := ⟨10, by decide⟩
def equals : CChar := ⟨61, by decide⟩
def hash : CChar := ⟨35, by decide⟩
def comma : CChar := ⟨44, by decide⟩
def dot : CChar := ⟨46, by decide⟩

/-- The hash table `properties`. -/
abbrev Store := Finmap fun _ : CStr => CStr

def setProperty (s : Store) (name value : CStr) : Store := s.insert name value

/-- `g_ascii_strtod` and the version number. -/
structure Ascii (D : Type*) where
  /-- 0.0 -/
  zero : D
  /-- `PROPERTY_VERSION`, 2.0 -/
  propertyVersion : D
  strtod : CStr → D
  strtod_version : strtod (lit "2.00") = propertyVersion

variable {D : Type*} (A : Ascii D)

/-- `propToDouble`: at most 63 characters, a comma read as a point. -/
def propToDouble (value : CStr) : D :=
  A.strtod ((value.take 63).map fun c => if c = comma then dot else c)

/-- The name under which the version is stored. -/
def versionName : CStr := lit "property_version"

/-! ## Loading -/

/-- The size of the line buffer of `load_one`. -/
def lineBuffer : ℕ := 256

/-- The name and the value in a piece read by `fgets`, if there are both. -/
def parseLine (string : CStr) : Option (CStr × CStr) :=
  if string.head? = some hash then none
  else
    (strtok (· == equals) string).bind fun r =>
      (strtok (· == newline) r.2).map fun v => (r.1, v.1)

/-- The store and the static `version`. -/
structure Loaded (D : Type*) where
  store : Store
  version : D

def Loaded.set (st : Loaded D) (e : CStr × CStr) : Loaded D where
  store := setProperty st.store e.1 e.2
  version := if e.1 = versionName then propToDouble A e.2 else st.version

def loadLine (st : Loaded D × Bool) (string : CStr) : Loaded D × Bool :=
  match parseLine string with
  | none => st
  | some e => (st.1.set A e, true)

/-- `load_one`: the store it leaves behind and whether anything was read. -/
def loadOne (st : Loaded D) : Option CStr → Loaded D × Bool
  | none => (st, false)
  | some text => (lines newline lineBuffer text).foldl (loadLine A) (st, false)

/-- The files: the settings, `<filename>.bak` and `<filename>.tmp`. -/
inductive File
  | main
  | bak
  | tmp
  deriving DecidableEq

abbrev Files := Disk File CChar

def loadProperties [DecidableEq D] (d : Files) : Store :=
  let r := loadOne A ⟨∅, A.zero⟩ (d .main)
  let st := if r.2 then r.1 else (loadOne A r.1 (d .bak)).1
  if st.version = A.propertyVersion then st.store else ∅

/-! ## Saving -/

/-- The line of one property. -/
def line (name value : CStr) : CStr := name ++ equals :: (value ++ [newline])

/-- The entries of the store, in the order of their names. -/
def sortedEntries (s : Store) : List (CStr × CStr) :=
  s.keys.sort.map fun name => (name, (s.lookup name).getD [])

/-- The lines of the store, in the order of their names. -/
def savedLines (s : Store) : List CStr := (sortedEntries s).map fun e => line e.1 e.2

/-- `saveProperties` sets the version in the store before it writes. -/
def markVersion (s : Store) : Store := setProperty s versionName (lit "2.00")

/-- The text of the file when every line has been written. -/
def savedText (s : Store) : CStr := (savedLines s).flatten

abbrev Program := Prog File CChar

/-- Write the lines, up to the first failure. -/
def writeLines : List CStr → (Bool → Program) → Program
  | [], k => k true
  | l :: ls, k => .op (.append .tmp l) fun ok => if ok then writeLines ls k else k false

/-- Move the new file into place; if that fails, put the old one back. -/
def install (hadOld : Bool) : Program :=
  .op (.rename .tmp .main) fun ok =>
    if ok then .done true
    else .op (.unlink .tmp) fun _ =>
      if hadOld then .op (.rename .bak .main) fun _ => .done false else .done false

/-- Keep the old file as the backup, then move the new one into place. -/
def publish : Program :=
  .exist .main fun hadOld =>
    if hadOld then .op (.unlink .bak) fun _ => .op (.rename .main .bak) install
    else install false

/-- Close the new file, and give up if anything has failed. -/
def closeTmp (ok : Bool) : Program :=
  .op (.close .tmp) fun closed =>
    if ok && closed then publish else .op (.unlink .tmp) fun _ => .done false

/-- The file operations of `saveProperties`. -/
def saveProperties (s : Store) : Program :=
  .op (.create .tmp) fun created =>
    if created then
      writeLines (savedLines (markVersion s)) fun ok =>
        if ok then .op (.flush .tmp) closeTmp else closeTmp false
    else .done false

end MacHPSDR.Property
