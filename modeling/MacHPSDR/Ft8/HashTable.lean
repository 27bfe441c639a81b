import MacHPSDR.Foundations.ProbeTable
import MacHPSDR.Foundations.Transition
import Mathlib

/-!
# The callsign hash table of the FT8 decoder

Every callsign that is decoded is kept for the messages that carry only a hash of it, of 22, 12 or
10 bits. The table is probed linearly, and once in each decode cycle the entries age; those that are
too old are taken out of their slots. Nothing closes the gap, so a callsign behind it is not found
any more, and is stored a second time when it is heard again. In a run whose cycles leave no gap in
front of a callsign that stays, the table is right in every state (`right_of_gapless`).
-/

namespace MacHPSDR.Ft8.HashTable

open ProbeTable (Probe walk looked dist Chained)

/-- `CALLSIGN_HASHTABLE_SIZE` -/
abbrev size : ℕ := 256

theorem size_pos : 0 < size := by decide

/-- `CALLSIGN_HASH_MAX_AGE` -/
def maxAge : ℕ := 10

/-! ## The hash of a callsign -/

/-- `nchar`, for `FT8_CHAR_TABLE_ALPHANUM_SPACE_SLASH` -/
def nchar (c : Char) : Option ℕ :=
  if c = ' ' then some 0
  else if '0' ≤ c ∧ c ≤ '9' then some (1 + (c.toNat - '0'.toNat))
  else if 'A' ≤ c ∧ c ≤ 'Z' then some (11 + (c.toNat - 'A'.toNat))
  else if c = '/' then some 37
  else none

/-- The next `k` characters, blanks after the end, are added to the number `n`. -/
def packLoop : ℕ → List Char → ℕ → Option ℕ
  | 0, _, n => some n
  | k + 1, [], n => packLoop k [] (38 * n)
  | k + 1, c :: cs, n => (nchar c).bind fun j => packLoop k cs (38 * n + j)

/-- The hash that `save_callsign` stores a callsign with. -/
def callsignHash (callsign : List Char) : Option ℕ :=
  (packLoop 11 callsign 0).map fun n58 =>
    (47055833459 * n58 % 0x10000000000000000) >>> (64 - 22) &&& 0x3FFFFF

inductive HashType
  | bits22
  | bits12
  | bits10

/-- `hash_shift` -/
def HashType.shift : HashType → ℕ
  | .bits22 => 0
  | .bits12 => 10
  | .bits10 => 12

/-! ## The table -/

/-- A slot that is in use. The age is in the top byte of the hash. -/
structure Entry where
  callsign : List Char
  hash : ℕ

def Entry.age (e : Entry) : ℕ := e.hash >>> 24 % 256

def Entry.low (e : Entry) : ℕ := e.hash &&& 0x3FFFFF

abbrev Table := ProbeTable size Entry

/-- `(hash10 * 23) % CALLSIGN_HASHTABLE_SIZE` -/
def homeSlot (hash10 : ℕ) : Fin size := ⟨hash10 * 23 % size, Nat.mod_lt _ size_pos⟩

/-- Where `hashtable_add` starts. -/
def addHome (hash : ℕ) : Fin size := homeSlot (hash >>> 12 &&& 0x3FF)

/-- Where `hashtable_lookup` starts. -/
def lookupHome (ty : HashType) (hash : ℕ) : Fin size :=
  homeSlot (hash >>> (12 - ty.shift) &&& 0x3FF)

/-- The hash with an age in its top byte. -/
@[irreducible] def withAge (age low : ℕ) : ℕ := (age <<< 24 ||| low) % 0x100000000

namespace Entry

variable (e : Entry)

def Expired (maxAge : ℕ) : Prop := maxAge < e.age

instance (maxAge : ℕ) : Decidable (e.Expired maxAge) := inferInstanceAs (Decidable (_ < _))

/-- The entry is a cycle older. -/
def older : Entry := { e with hash := withAge (e.age + 1) e.low }

/-- The age starts again. -/
def renewed : Entry := { e with hash := e.low }

/-- It is the entry of a callsign. -/
def IsOf (callsign : List Char) (hash : ℕ) : Bool := e.low = hash && e.callsign = callsign

/-- It has this hash. -/
def Matches (ty : HashType) (hash : ℕ) : Bool := e.low >>> ty.shift = hash

end Entry

/-- `hashtable_cleanup` -/
def cleanup (maxAge : ℕ) (t : Table) : Table := fun i =>
  match t i with
  | none => none
  | some e => if e.Expired maxAge then none else some e.older

/-- `hashtable_add` -/
def add (callsign : List Char) (hash : ℕ) (t : Table) : Table :=
  match walk t (Entry.IsOf · callsign hash) size (addHome hash) with
  | .free i => Function.update t i (some ⟨callsign.take 11, hash⟩)
  | .hit i => Function.update t i ((t i).map Entry.renewed)
  | .full => t

/-- `hashtable_lookup` -/
def lookup (ty : HashType) (hash : ℕ) (t : Table) : Option (List Char) :=
  match walk t (Entry.Matches · ty hash) size (lookupHome ty hash) with
  | .hit i => (t i).map Entry.callsign
  | _ => none

/-! ## Runs -/

/-- The table, and how many cycles ago the callsigns in it were saved last. -/
structure State where
  table : Table
  /-- History: a callsign is in it until it is too old. -/
  ages : List Char → Option ℕ

/-- What can happen next. -/
inductive Label
  /-- A decode cycle begins. -/
  | cycle
  | save (callsign : List Char)
  | lookup (ty : HashType) (hash : ℕ)

/-- A callsign is saved that is not in the table, and no slot is free. -/
def State.Drops (s : State) (callsign : List Char) : Prop :=
  s.ages callsign = none ∧ ∀ i, (s.table i).isSome = true

instance (s : State) (callsign : List Char) : Decidable (s.Drops callsign) :=
  inferInstanceAs (Decidable (_ ∧ _))

/-- `save_callsign`; the callers pass three to eleven characters. -/
def State.save (s : State) (callsign : List Char) : Option State :=
  if 3 ≤ callsign.length ∧ callsign.length ≤ 11 then
    match callsignHash callsign with
    | none => some s
    | some hash => some {
        table := add callsign hash s.table
        ages := if s.Drops callsign then s.ages
          else Function.update s.ages callsign (some 0) }
  else none

/-- A decode cycle begins. -/
def State.cycle (s : State) : State where
  table := cleanup maxAge s.table
  ages callsign := (s.ages callsign).bind fun a => if maxAge < a then none else some (a + 1)

def step (s : State) : Label → Option State
  | .cycle => some s.cycle
  | .save callsign => s.save callsign
  | .lookup _ _ => some s

def system : System State Label where
  init := ⟨fun _ => none, fun _ => none⟩
  step := step

/-! ## What is said of the table -/

/-- Where an entry is looked for. -/
def Entry.home (e : Entry) : Fin size := addHome e.low

/-- Another callsign is found first that has the same hash. -/
def Precedes (s : State) (ty : HashType) (callsign' callsign : List Char) : Prop :=
  (s.ages callsign').isSome = true ∧ ∃ i j, ∃ e ∈ s.table i, ∃ e' ∈ s.table j,
    e.callsign = callsign ∧ e'.callsign = callsign' ∧
      e'.low >>> ty.shift = e.low >>> ty.shift ∧ dist e.home j < dist e.home i

/-- Every callsign that is not too old is in one slot, and is found there. -/
structure Right (s : State) : Prop where
  single : ∀ callsign, (s.ages callsign).isSome = true →
    ∃! i, ∃ e, s.table i = some e ∧ e.callsign = callsign
  found : ∀ callsign hash, (s.ages callsign).isSome = true → callsignHash callsign = some hash →
    ∀ ty, ∃ callsign', lookup ty (hash >>> ty.shift) s.table = some callsign' ∧
      (callsign' = callsign ∨ Precedes s ty callsign' callsign)
  /-- No walk through the table comes to a slot for a second time. -/
  pass : ∀ p h, (looked s.table p size h).Nodup

/-- A cycle takes no entry out that is on the way to one that stays. -/
def Gapless (s : State) : Label → Prop
  | .cycle => ∀ i, ∀ e ∈ s.table i, e.Expired maxAge → ∀ j, ∀ e' ∈ s.table j,
      ¬ e'.Expired maxAge → ¬ dist e'.home i < dist e'.home j
  | _ => True

instance : DecidableRel Gapless := fun s a => by
  cases a <;> unfold Gapless <;> infer_instance

/-! ## One step -/

theorem Entry.low_eq (e : Entry) : e.low = e.hash % 2 ^ 22 :=
  Nat.and_two_pow_sub_one_eq_mod e.hash 22

theorem Entry.low_lt (e : Entry) : e.low < 2 ^ 22 := by
  rw [Entry.low_eq]
  exact Nat.mod_lt _ (by decide)

theorem callsignHash_lt {callsign : List Char} {hash : ℕ} (h : callsignHash callsign = some hash) :
    hash < 2 ^ 22 := by
  obtain ⟨n, -, rfl⟩ := Option.map_eq_some_iff.1 h
  exact lt_of_le_of_lt Nat.and_le_right (by decide)

@[simp] theorem Entry.callsign_older (e : Entry) : e.older.callsign = e.callsign := by
  cases e
  rfl

@[simp] theorem Entry.callsign_renewed (e : Entry) : e.renewed.callsign = e.callsign := by
  cases e
  rfl

theorem withAge_eq {age low : ℕ} (hlow : low < 2 ^ 22) :
    withAge age low = (age * 2 ^ 24 + low) % 2 ^ 32 := by
  have hlow' := hlow.trans (show 2 ^ 22 < 2 ^ 24 by decide)
  unfold withAge
  rw [← Nat.shiftLeft_add_eq_or_of_lt hlow', Nat.shiftLeft_eq]
  norm_num

theorem Entry.older_hash (e : Entry) : e.older.hash = withAge (e.age + 1) e.low := by
  cases e
  rfl

@[simp] theorem Entry.low_older (e : Entry) : e.older.low = e.low := by
  have hlow := e.low_lt
  rw [e.older.low_eq, e.older_hash, withAge_eq hlow]
  omega

theorem Entry.age_older {e : Entry} (hage : e.age < 255) : e.older.age = e.age + 1 := by
  have hlow := e.low_lt
  unfold Entry.age at hage ⊢
  rw [e.older_hash, withAge_eq hlow, Nat.shiftRight_eq_div_pow]
  unfold Entry.age
  omega

@[simp] theorem Entry.low_renewed (e : Entry) : e.renewed.low = e.low := by
  have hlow := e.low_lt
  rw [e.renewed.low_eq]
  exact Nat.mod_eq_of_lt hlow

@[simp] theorem Entry.age_renewed (e : Entry) : e.renewed.age = 0 := by
  have hlow := e.low_lt
  unfold Entry.age Entry.renewed
  dsimp only
  rw [Nat.shiftRight_eq_div_pow]
  omega

theorem cleanup_eq (t : Table) :
    cleanup maxAge t =
      fun i => ((t i).filter fun e => !decide (e.Expired maxAge)).map Entry.older := by
  funext i
  unfold cleanup
  cases t i with
  | none => rfl
  | some e => by_cases h : e.Expired maxAge <;> simp [h, Option.filter]

theorem lookupHome_shift (ty : HashType) (hash : ℕ) :
    lookupHome ty (hash >>> ty.shift) = addHome hash := by
  have hshift : ty.shift + (12 - ty.shift) = 12 := by cases ty <;> rfl
  unfold lookupHome addHome
  rw [← Nat.shiftRight_add, hshift]

/-- The table and its history agree. -/
structure Inv (s : State) : Prop where
  chained : Chained Entry.home s.table
  entry : ∀ i e, s.table i = some e → e.callsign.length ≤ 11 ∧
    callsignHash e.callsign = some e.low ∧ s.ages e.callsign = some e.age
  age : ∀ callsign a, s.ages callsign = some a → a ≤ maxAge + 1
  unique : ∀ i j e e', s.table i = some e → s.table j = some e' → e.callsign = e'.callsign → i = j
  present : ∀ callsign, (s.ages callsign).isSome = true →
    ∃ i e, s.table i = some e ∧ e.callsign = callsign

namespace Inv

variable {s t : State}

theorem right (h : Inv s) : Right s where
  single callsign hlive := by
    obtain ⟨i, e, he, hcall⟩ := h.present callsign hlive
    refine ⟨i, ⟨e, he, hcall⟩, ?_⟩
    rintro j ⟨e', he', hcall'⟩
    exact h.unique j i e' e he' he (hcall'.trans hcall.symm)
  found callsign hash hlive hhash ty := by
    obtain ⟨i, e, he, rfl⟩ := h.present callsign hlive
    obtain ⟨-, hlow, -⟩ := h.entry i e he
    obtain rfl : e.low = hash := Option.some.inj (hlow.symm.trans hhash)
    obtain ⟨j, e', hwalk, he', hmatch, hdist⟩ :=
      h.chained.walk_hit (p := (Entry.Matches · ty (e.low >>> ty.shift))) he
        (by simp [Entry.Matches])
    have hlookup : lookup ty (e.low >>> ty.shift) s.table = some e'.callsign := by
      unfold lookup
      rw [lookupHome_shift, ← Entry.home, hwalk]
      dsimp only
      rw [he', Option.map_some]
    refine ⟨e'.callsign, hlookup, ?_⟩
    rcases hdist.lt_or_eq with hlt | heq
    · obtain ⟨-, -, hlive'⟩ := h.entry j e' he'
      have hsame : e'.low >>> ty.shift = e.low >>> ty.shift := by
        simpa [Entry.Matches] using hmatch
      exact .inr ⟨by rw [hlive']; rfl, i, j, e, he, e', he', rfl, rfl, hsame, hlt⟩
    · have hslot := congrArg (ProbeTable.slot e.home) heq
      rw [ProbeTable.slot_dist, ProbeTable.slot_dist] at hslot
      subst hslot
      obtain rfl := Option.some.inj (he.symm.trans he')
      exact .inl rfl
  pass p h := ProbeTable.nodup_looked s.table p le_rfl h

theorem cycle (h : Inv s) (hgapless : Gapless s .cycle) : Inv s.cycle := by
  have hcycle (i : Fin size) (e : Entry) (he : s.cycle.table i = some e) :
      ∃ d, s.table i = some d ∧ ¬ d.Expired maxAge ∧ d.older = e := by
    unfold State.cycle at he
    dsimp only at he
    rw [cleanup_eq] at he
    obtain ⟨d, hd, hold⟩ := Option.map_eq_some_iff.1 he
    obtain ⟨hd, hkeep⟩ := Option.filter_eq_some_iff.1 hd
    exact ⟨d, hd, by simpa using hkeep, hold⟩
  have hages (i : Fin size) (d : Entry) (hd : s.table i = some d) (hkeep : ¬ d.Expired maxAge) :
      s.cycle.ages d.callsign = some (d.age + 1) := by
    obtain ⟨-, -, hage⟩ := h.entry i d hd
    unfold State.cycle
    dsimp only
    have hle : ¬ maxAge < d.age := hkeep
    rw [hage, Option.bind_some, if_neg hle]
  constructor
  · have hfilter := (h.chained.filter_iff fun e => !decide (e.Expired maxAge)).2 (by
      intro i a ha hout j b hb hin
      exact hgapless i a ha (by simpa using hout) j b hb (by simpa using hin))
    have hmap := hfilter.map (f := Entry.older) fun e => by
      unfold Entry.home
      rw [Entry.low_older]
    unfold State.cycle
    dsimp only
    rwa [cleanup_eq]
  · intro i e he
    obtain ⟨d, hd, hkeep, rfl⟩ := hcycle i e he
    obtain ⟨hlen, hlow, -⟩ := h.entry i d hd
    have hage : d.age < 255 := by
      unfold Entry.Expired maxAge at hkeep
      omega
    rw [Entry.callsign_older, Entry.low_older, Entry.age_older hage]
    exact ⟨hlen, hlow, hages i d hd hkeep⟩
  · intro callsign a ha
    unfold State.cycle at ha
    dsimp only at ha
    obtain ⟨a', -, ha⟩ := Option.bind_eq_some_iff.1 ha
    obtain ⟨hle, ha⟩ := Option.ite_none_left_eq_some.1 ha
    obtain rfl := Option.some.inj ha
    omega
  · intro i j e e' he he' heq
    obtain ⟨d, hd, -, rfl⟩ := hcycle i e he
    obtain ⟨d', hd', -, rfl⟩ := hcycle j e' he'
    rw [Entry.callsign_older, Entry.callsign_older] at heq
    exact h.unique i j d d' hd hd' heq
  · intro callsign hlive
    obtain ⟨a, ha⟩ := Option.isSome_iff_exists.1 hlive
    unfold State.cycle at ha
    dsimp only at ha
    obtain ⟨a', ha', hage⟩ := Option.bind_eq_some_iff.1 ha
    obtain ⟨hkeep, -⟩ := Option.ite_none_left_eq_some.1 hage
    obtain ⟨i, d, hd, rfl⟩ := h.present callsign (by rw [ha']; rfl)
    obtain ⟨-, -, hdage⟩ := h.entry i d hd
    obtain rfl : d.age = a' := Option.some.inj (hdage.symm.trans ha')
    refine ⟨i, d.older, ?_, d.callsign_older⟩
    unfold State.cycle
    dsimp only
    have hnot : ¬ d.Expired maxAge := hkeep
    rw [cleanup_eq]
    simp [hd, Option.filter, hnot]

/-- A callsign takes the slot `i`, which is free or has been its own. -/
theorem put (h : Inv s) {callsign : List Char} {hash : ℕ} (hlen : callsign.length ≤ 11)
    (hhash : callsignHash callsign = some hash) {i : Fin size} {e : Entry}
    (hcall : e.callsign = callsign) (hlow : e.low = hash) (hage : e.age = 0)
    (hslot : ∀ d, s.table i = some d → d.callsign = callsign)
    (hother : ∀ j d, s.table j = some d → d.callsign = callsign → j = i)
    (hchained : Chained Entry.home (Function.update s.table i (some e))) :
    Inv ⟨Function.update s.table i (some e), Function.update s.ages callsign (some 0)⟩ := by
  have hentry (j : Fin size) (d : Entry) (hd : Function.update s.table i (some e) j = some d) :
      j = i ∧ d = e ∨ j ≠ i ∧ s.table j = some d ∧ d.callsign ≠ callsign := by
    rcases eq_or_ne j i with rfl | hne
    · exact .inl ⟨rfl, by simpa using hd.symm⟩
    · rw [Function.update_of_ne hne] at hd
      exact .inr ⟨hne, hd, fun heq => hne (hother j d hd heq)⟩
  constructor
  · exact hchained
  · intro j d hd
    rcases hentry j d hd with ⟨-, rfl⟩ | ⟨-, hd, hne⟩
    · rw [hcall, hlow, hage]
      exact ⟨hlen, hhash, Function.update_self ..⟩
    · obtain ⟨hlen, hhash, hage⟩ := h.entry j d hd
      exact ⟨hlen, hhash, (Function.update_of_ne hne _ _).trans hage⟩
  · intro callsign' a ha
    rcases eq_or_ne callsign' callsign with rfl | hne
    · obtain rfl : 0 = a := by simpa using ha
      exact Nat.zero_le _
    · exact h.age callsign' a ((Function.update_of_ne hne _ _).symm.trans ha)
  · intro j l d d' hd hd' heq
    rcases hentry j d hd with ⟨rfl, rfl⟩ | ⟨-, hd, hne⟩ <;>
      rcases hentry l d' hd' with ⟨rfl, rfl⟩ | ⟨-, hd', hne'⟩
    · rfl
    · exact absurd (heq.symm.trans hcall) hne'
    · exact absurd (heq.trans hcall) hne
    · exact h.unique j l d d' hd hd' heq
  · intro callsign' hlive
    rcases eq_or_ne callsign' callsign with rfl | hne
    · exact ⟨i, e, by simp, hcall⟩
    · dsimp only at hlive
      rw [Function.update_of_ne hne] at hlive
      obtain ⟨j, d, hd, rfl⟩ := h.present callsign' hlive
      have hji : j ≠ i := by
        rintro rfl
        exact hne (hslot d hd)
      exact ⟨j, d, (Function.update_of_ne hji _ _).trans hd, rfl⟩

theorem save (h : Inv s) {callsign : List Char} (hsave : s.save callsign = some t) : Inv t := by
  obtain ⟨⟨-, hlen⟩, hsave⟩ := Option.ite_none_right_eq_some.1 hsave
  cases hhash : callsignHash callsign with
  | none =>
    rw [hhash] at hsave
    obtain rfl := Option.some.inj hsave
    exact h
  | some hash =>
    rw [hhash] at hsave
    obtain rfl := Option.some.inj hsave
    have hmatch (i : Fin size) (d : Entry) (hd : s.table i = some d) :
        d.IsOf callsign hash = true ↔ d.callsign = callsign := by
      have hlow := (h.entry i d hd).2.1
      simp only [Entry.IsOf, Bool.and_eq_true, decide_eq_true_eq]
      refine ⟨fun hboth => hboth.2, fun hcall => ⟨?_, hcall⟩⟩
      rw [hcall] at hlow
      exact Option.some.inj (hlow.symm.trans hhash)
    have hnew : (⟨callsign.take 11, hash⟩ : Entry).low = hash := by
      rw [Entry.low_eq]
      exact Nat.mod_eq_of_lt (callsignHash_lt hhash)
    -- An entry with this callsign would have been found.
    have hpresent (i : Fin size) (d : Entry) (hd : s.table i = some d)
        (hcall : d.callsign = callsign) :
        walk s.table (Entry.IsOf · callsign hash) size (addHome hash) = .hit i := by
      have hpd := (hmatch i d hd).2 hcall
      obtain ⟨j, d', hend, hd', hpd', -⟩ :=
        h.chained.walk_hit (p := (Entry.IsOf · callsign hash)) hd hpd
      have hlow : d.low = hash := by
        simp only [Entry.IsOf, Bool.and_eq_true, decide_eq_true_eq] at hpd
        exact hpd.1
      have hji := h.unique j i d' d hd' hd (((hmatch j d' hd').1 hpd').trans hcall.symm)
      rwa [hji, Entry.home, hlow] at hend
    unfold add
    rcases ProbeTable.walk_cases s.table (Entry.IsOf · callsign hash) size (addHome hash) with
      ⟨hend, hskips⟩ | ⟨k, -, hend, hfree, -⟩ | ⟨k, -, d, hend, hd, hpd, -⟩
    · have hdrops : s.Drops callsign := by
        constructor
        · by_contra hlive
          obtain ⟨i, d, hd, hcall⟩ := h.present callsign (Option.isSome_iff_ne_none.2 hlive)
          exact nomatch (hpresent i d hd hcall).symm.trans hend
        · intro i
          obtain ⟨d, hd, -⟩ := hskips _ (ProbeTable.dist_lt (addHome hash) i)
          rw [ProbeTable.slot_dist] at hd
          rw [hd]
          rfl
      rw [hend, if_pos hdrops]
      exact h
    · have hdrops : ¬ s.Drops callsign := by
        rintro ⟨-, hfull⟩
        have := hfull (ProbeTable.slot (addHome hash) k)
        rw [hfree] at this
        exact absurd this (by simp)
      rw [hend, if_neg hdrops]
      refine h.put hlen hhash (List.take_of_length_le hlen) hnew ?_ ?_ ?_ ?_
      · unfold Entry.age
        dsimp only
        have := callsignHash_lt hhash
        rw [Nat.shiftRight_eq_div_pow]
        omega
      · intro d hd
        rw [hfree] at hd
        exact nomatch hd
      · intro j d hd hcall
        exact nomatch (hpresent j d hd hcall).symm.trans hend
      · refine h.chained.put (p := (Entry.IsOf · callsign hash)) ?_
        unfold Entry.home
        rwa [hnew]
    · have hcall := (hmatch _ d hd).1 hpd
      have hdrops : ¬ s.Drops callsign := by
        rintro ⟨hnone, -⟩
        have hlive := (h.entry _ d hd).2.2
        rw [hcall, hnone] at hlive
        exact nomatch hlive
      have hlow : d.low = hash := by
        simp only [Entry.IsOf, Bool.and_eq_true, decide_eq_true_eq] at hpd
        exact hpd.1
      rw [hend, if_neg hdrops]
      dsimp only
      rw [hd]
      refine h.put hlen hhash (by rw [Entry.callsign_renewed, hcall])
        (by rw [Entry.low_renewed, hlow]) d.age_renewed ?_ ?_ ?_
      · intro d' hd'
        rw [hd] at hd'
        obtain rfl := Option.some.inj hd'
        exact hcall
      · intro j d' hd' hcall'
        exact h.unique j _ d' d hd' hd (hcall'.trans hcall.symm)
      · refine h.chained.replace hd ?_
        unfold Entry.home
        rw [Entry.low_renewed]

theorem step (h : Inv s) {a : Label} (hgapless : Gapless s a)
    (ha : HashTable.step s a = some t) : Inv t := by
  cases a with
  | cycle =>
    obtain rfl := Option.some.inj ha
    exact h.cycle hgapless
  | save callsign => exact h.save ha
  | lookup ty hash =>
    obtain rfl := Option.some.inj ha
    exact h

end Inv

theorem inv_init : Inv system.init where
  chained := ProbeTable.chained_empty
  entry _ _ he := nomatch he
  age _ _ ha := nomatch ha
  unique _ _ _ _ he := nomatch he
  present _ hlive := nomatch hlive

/-! ## Every run -/

/-- Where no cycle leaves a gap in front of a callsign that stays, the table is right. -/
theorem right_of_gapless (as : List Label) (s : State)
    (hgapless : system.Along Gapless system.init as) (h : system.exec system.init as = some s) :
    Right s :=
  (system.exec_induction_along (I := Inv) (fun _ _ _ hs ha ht => hs.step ha ht) as _ _ inv_init
    hgapless h).right

/-- K1ABC is heard once, and is too old in the twelfth cycle after. -/
def heardOnce : List Label := .save "K1ABC".toList :: List.replicate 12 .cycle

theorem right_of_gapless_heardOnce : ∃ s, system.exec system.init heardOnce = some s ∧
    s.ages "K1ABC".toList = none ∧ Right s := by
  obtain ⟨s, hs, hages⟩ : ∃ s, system.exec system.init heardOnce = some s ∧
      s.ages "K1ABC".toList = none := System.exists_exec _ (by decide +kernel)
  exact ⟨s, hs, hages, right_of_gapless heardOnce s (by decide +kernel) hs⟩

/-- JA5ZZ is heard a cycle after K1ABC, with which it shares its home slot. When K1ABC is taken out,
JA5ZZ is not found any more. -/
def gapBefore : List Label :=
  [.save "K1ABC".toList, .cycle, .save "JA5ZZ".toList] ++ List.replicate 11 .cycle

/-- The slots with a callsign. -/
def State.slotsOf (s : State) (callsign : List Char) : List (Fin size) :=
  (List.finRange size).filter fun i => (s.table i).any fun e => e.callsign = callsign

/-- A callsign that is not too old is not found, and is stored a second time when it is heard
again. -/
theorem not_right :
    (∃ s, system.exec system.init gapBefore = some s ∧ s.ages "JA5ZZ".toList = some 11 ∧
      callsignHash "JA5ZZ".toList = some 1867851 ∧ lookup .bits22 1867851 s.table = none) ∧
    ∃ s, system.exec system.init (gapBefore ++ [.save "JA5ZZ".toList]) = some s ∧
      s.slotsOf "JA5ZZ".toList = [⟨248, by decide⟩, ⟨249, by decide⟩] :=
  ⟨System.exists_exec _ (by decide +kernel), System.exists_exec _ (by decide +kernel)⟩

end MacHPSDR.Ft8.HashTable
