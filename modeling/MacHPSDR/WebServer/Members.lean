import MacHPSDR.WebServer.Request
import Mathlib

/-!
# What the parser accepts

`webProtocolParse_iff`: a text is accepted if it is a layout whose members can be read (`Readable`)
and stored one after the other (`Stores`), and the stored values are a request. The scanner drops
out here: what follows about accepted texts is about lists of members.

Storing does not depend on the order of the members, nor on those whose key is not known
(`stores_iff`, `StoresKnown.perm`).
-/

namespace MacHPSDR.WebServer

open FlatJson

/-! ## White space -/

theorem skipWs_append {ws x : List UInt8} (hws : ∀ b ∈ ws, isSpace b)
    (hx : ∀ c ∈ x.head?, isSpace c = false) : skipWs (ws ++ x) = x := by
  unfold skipWs
  rw [List.dropWhile_append_of_pos hws]
  cases x with
  | nil => rfl
  | cons c x => simp [hx c (by simp)]

/-- The white space that is skipped. -/
theorem exists_skipWs (p : List UInt8) : ∃ ws, p = ws ++ skipWs p ∧ ∀ b ∈ ws, isSpace b :=
  ⟨p.takeWhile isSpace, List.takeWhile_append_dropWhile.symm, fun _ hb => List.mem_takeWhile_imp hb⟩

theorem eq_cons_of_head? {p : List UInt8} {c : UInt8} (h : p.head? = some c) :
    p = c :: p.tail := by
  cases p with
  | nil => cases h
  | cons d p => rw [Option.some.inj h]; rfl

/-! ## Members that can be read -/

/-- The value of a member with this key, and what it is read as. -/
inductive ItemReads (key : List UInt8) : Value → Item → Prop
  | span (hkey : (memberKey? key).any MemberKey.isSpan = true) {tok : List UInt8}
    (h : Span tok) : ItemReads key (.string tok) (.span tok)
  | value (hkey : (memberKey? key).any MemberKey.isSpan = false) {w : Value} {v : JsonValue}
    (h : Reads w v) : ItemReads key w (.value v)

theorem readItem_sound {key p rest : List UInt8} {item : Item}
    (h : readItem key p = some (item, rest)) :
    ∃ w, p = w.render ++ rest ∧ ItemReads key w item := by
  unfold readItem at h
  split at h
  · obtain ⟨⟨tok, r⟩, hr, h⟩ := Option.map_eq_some_iff.1 h
    obtain ⟨rfl, rfl⟩ := Prod.mk.inj h
    obtain ⟨rfl, hspan⟩ := scanString_iff.1 hr
    exact ⟨.string tok, by simp [Value.render], .span ‹_› hspan⟩
  · obtain ⟨⟨v, r⟩, hr, h⟩ := Option.map_eq_some_iff.1 h
    obtain ⟨rfl, rfl⟩ := Prod.mk.inj h
    obtain ⟨w, hp, hreads⟩ := parseValue_sound hr
    exact ⟨w, hp, .value (Bool.eq_false_iff.2 ‹_›) hreads⟩

theorem readItem_complete {key : List UInt8} {w : Value} {item : Item} (h : ItemReads key w item)
    {rest : List UInt8} (hrest : ∀ c ∈ rest.head?, isBare c = false) :
    readItem key (w.render ++ rest) = some (item, rest) := by
  unfold readItem
  cases h with
  | @span hkey tok hspan =>
    have hscan : scanString ((Value.string tok).render ++ rest) = some (tok, rest) :=
      scanString_iff.2 ⟨by simp [Value.render], hspan⟩
    rw [if_pos hkey, hscan]
    rfl
  | value hkey hreads =>
    rw [if_neg (by simp [hkey]), parseValue_complete hreads hrest]
    rfl

theorem ItemReads.loose {key : List UInt8} {w : Value} {item : Item} (h : ItemReads key w item) :
    w.Loose := by
  cases h with
  | span _ h => exact h.body
  | value _ h => exact h.loose

theorem Reads.unique {w : Value} {v v' : JsonValue} (h : Reads w v) (h' : Reads w v') : v = v' := by
  have hstop : ∀ c ∈ ([] : List UInt8).head?, isBare c = false := nofun
  have heq := (parseValue_complete h hstop).symm.trans (parseValue_complete h' hstop)
  exact (Prod.mk.inj (Option.some.inj heq)).1

/-- A value is read in one way. -/
theorem ItemReads.unique {key : List UInt8} {w : Value} {i j : Item} (hi : ItemReads key w i)
    (hj : ItemReads key w j) : i = j := by
  cases hi with
  | span hkey _ =>
    cases hj with
    | span _ _ => rfl
    | value hkey' _ => simp [hkey] at hkey'
  | value hkey h =>
    cases hj with
    | span hkey' _ => simp [hkey] at hkey'
    | value _ h' => rw [h.unique h']

/-- The parser can read the member. -/
structure Readable (m : Member) (item : Item) : Prop where
  before : ∀ b ∈ m.before, isSpace b
  key : Plain m.key
  key_length : m.key.length < 64
  beforeColon : ∀ b ∈ m.beforeColon, isSpace b
  afterColon : ∀ b ∈ m.afterColon, isSpace b
  value : ItemReads m.key m.value item
  after : ∀ b ∈ m.after, isSpace b

theorem Readable.loose {m : Member} {item : Item} (h : Readable m item) : m.Loose where
  before := h.before
  key := h.key.body
  beforeColon := h.beforeColon
  afterColon := h.afterColon
  value := h.value.loose
  after := h.after

/-! ## The loop over the members -/

/-- The members are read and stored one after the other. -/
inductive Stores : Fields → List Member → Fields → Prop
  | nil (f : Fields) : Stores f [] f
  | cons {f g h : Fields} {m : Member} {item : Item} {ms : List Member} (hread : Readable m item)
    (hstore : f.store m.key item = .ok g) (hrest : Stores g ms h) : Stores f (m :: ms) h

def LastLoose : Last → Prop
  | .member _ => True
  | .blank ws => ∀ b ∈ ws, isSpace b

theorem parseMembers_sound {n : ℕ} {p rest : List UInt8} {f g : Fields}
    (h : parseMembers n p f = .ok (rest, g)) : ∃ ms last, p = renderTail ms last rest ∧
      Stores f (ms ++ last.members) g ∧ LastLoose last := by
  induction n generalizing p f with
  | zero => cases h
  | succ n ih =>
    unfold parseMembers at h
    obtain ⟨ws, hp, hws⟩ := exists_skipWs p
    dsimp only at h
    split at h
    · rename_i hclose
      obtain ⟨rfl, rfl⟩ := Prod.mk.inj (Except.ok.inj h)
      refine ⟨[], .blank ws, ?_, .nil _, hws⟩
      rw [renderTail, ← eq_cons_of_head? hclose]
      exact hp
    · split at h
      · cases h
      · rename_i key p₁ hkey
        obtain ⟨hkeyText, hplain, hlen⟩ := (parseString_iff (by decide)).1 hkey
        obtain ⟨ws₁, hp₁, hws₁⟩ := exists_skipWs p₁
        split at h
        · cases h
        · rename_i hcolon
          have hcolon' := eq_cons_of_head? (not_not.1 hcolon)
          obtain ⟨ws₂, hp₂, hws₂⟩ := exists_skipWs (skipWs p₁).tail
          split at h
          · cases h
          · rename_i item p₃ hitem
            obtain ⟨w, hvalue, hreads⟩ := readItem_sound hitem
            split at h
            · cases h
            · rename_i f' hstore
              obtain ⟨ws₃, hp₃, hws₃⟩ := exists_skipWs p₃
              have hm : Readable ⟨ws, key, ws₁, ws₂, w, ws₃⟩ item :=
                ⟨hws, hplain, hlen, hws₁, hws₂, hreads, hws₃⟩
              have hrender : p = Member.render ⟨ws, key, ws₁, ws₂, w, ws₃⟩ (skipWs p₃) := by
                simp only [Member.render]
                rw [← hp₃, ← hvalue, ← hp₂, ← hcolon', ← hp₁, ← hkeyText]
                exact hp
              split at h
              · rename_i hcomma
                obtain ⟨ms, last, hrest, hms, hlast⟩ := ih h
                refine ⟨_ :: ms, last, ?_, .cons hm hstore hms, hlast⟩
                rw [hrender, eq_cons_of_head? hcomma, hrest, renderTail]
              · split at h
                · rename_i hclose
                  obtain ⟨rfl, rfl⟩ := Prod.mk.inj (Except.ok.inj h)
                  refine ⟨[], .member _, ?_, .cons hm hstore (.nil _), trivial⟩
                  rw [renderTail, ← eq_cons_of_head? hclose]
                  exact hrender
                · cases h

/-- One member is read and stored. -/
theorem parseMembers_member {n : ℕ} {f g : Fields} {m : Member} {item : Item}
    (hm : Readable m item) (hstore : f.store m.key item = .ok g) {x : List UInt8}
    (hx : Delimited x) : parseMembers (n + 1) (m.render x) f =
      if x.head? = some comma then parseMembers n x.tail g else .ok (x.tail, g) := by
  have hquote : isSpace quote = false := by decide
  have hcolon : isSpace colon = false := by decide
  have hvalue (z : List UInt8) := Value.render_head hm.value.loose z
  have hafter : ∀ c ∈ (m.after ++ x).head?, isBare c = false :=
    head_append (fun b hb => isBare_eq_false_of_isSpace (hm.after b hb))
      (hx.head (by decide) (by decide))
  have hkey (z : List UInt8) : parseString 64 (quote :: (m.key ++ quote :: z)) = some (m.key, z) :=
    (parseString_iff (by decide)).2 ⟨rfl, hm.key, hm.key_length⟩
  have hne : quote ≠ closeBrace := by decide
  rw [parseMembers, Member.render]
  simp only [skipWs_append hm.before (head_cons hquote _), List.head?_cons, Option.some.injEq, hne,
    if_false, hkey, skipWs_append hm.beforeColon (head_cons hcolon _), List.tail_cons,
    skipWs_append hm.afterColon (hvalue _), readItem_complete hm.value hafter, hstore, ne_eq,
    not_true_eq_false, skipWs_append hm.after (hx.head (by decide) (by decide))]
  obtain ⟨t, rfl | rfl⟩ := hx
  · simp
  · simp [show closeBrace ≠ comma by decide]

theorem parseMembers_complete {ms : List Member} {last : Last} {f g : Fields} {n : ℕ}
    {rest : List UInt8} (hms : Stores f (ms ++ last.members) g) (hlast : LastLoose last)
    (hn : (renderTail ms last rest).length ≤ n) :
    parseMembers n (renderTail ms last rest) f = .ok (rest, g) := by
  induction ms generalizing f n with
  | nil =>
    cases last with
    | member m =>
      cases hms with
      | cons hm hstore hrest =>
        cases hrest
        cases n with
        | zero => simp [renderTail, Member.render] at hn
        | succ n => exact parseMembers_member hm hstore ⟨_, .inr rfl⟩
    | blank ws =>
      cases hms
      cases n with
      | zero => simp [renderTail] at hn
      | succ n =>
        have hskip := skipWs_append (x := closeBrace :: rest) hlast (head_cons (by decide) _)
        simp [renderTail, parseMembers, hskip]
  | cons m ms ih =>
    cases hms with
    | cons hm hstore hrest =>
      cases n with
      | zero => simp [renderTail, Member.render] at hn
      | succ n =>
        rw [renderTail, parseMembers_member hm hstore ⟨_, .inl rfl⟩]
        simp only [List.head?_cons, if_true, List.tail_cons]
        refine ih hrest ?_
        simp only [renderTail, Member.render, List.length_append, List.length_cons] at hn
        omega

theorem Stores.readable {f g : Fields} {ms : List Member} (h : Stores f ms g) :
    ∀ m ∈ ms, ∃ item, Readable m item := by
  induction h with
  | nil => simp
  | cons hm _ _ ih =>
    rintro m (_ | ⟨_, hm'⟩)
    · exact ⟨_, hm⟩
    · exact ih m hm'

/-- The white space around the object and in the place of a last member. -/
structure SpacesLoose (l : Layout) : Prop where
  before : ∀ b ∈ l.before, isSpace b
  last : LastLoose l.last
  after : ∀ b ∈ l.after, isSpace b

/-- A layout whose members can be read is loose. -/
theorem loose_of_readable {l : Layout} (hl : SpacesLoose l)
    (h : ∀ m ∈ l.members, ∃ item, Readable m item) : l.Loose where
  before := hl.before
  init m hm := by
    obtain ⟨item, hread⟩ := h m (List.mem_append_left _ hm)
    exact hread.loose
  last := by
    have hlast := hl.last
    rw [Layout.members] at h
    generalize l.last = last at hlast h ⊢
    cases last with
    | member m =>
      obtain ⟨item, hread⟩ := h m (by simp [Last.members])
      exact hread.loose
    | blank ws => exact hlast
  after := hl.after

/-- **What the parser accepts**: a layout whose members can be read and stored, if the stored values
are a request. -/
theorem webProtocolParse_iff {text : List UInt8} {r : WebRequest} :
    webProtocolParse text = .ok r ↔ ∃ (l : Layout) (f : Fields), l.render = text ∧ SpacesLoose l ∧
      text.length ≤ webMaxTextMessage ∧ Stores .empty l.members f ∧ webRequest f = .ok r := by
  constructor
  · intro h
    unfold webProtocolParse at h
    dsimp only at h
    obtain ⟨ws, htext, hws⟩ := exists_skipWs text
    split_ifs at h with hsize hopen
    rw [not_not] at hopen
    split at h
    · cases h
    · rename_i rest f hmembers
      split_ifs at h with htrail
      rw [not_not] at htrail
      obtain ⟨ms, last, htail, hstores, hlast⟩ := parseMembers_sound hmembers
      obtain ⟨ws', hrest, hws'⟩ := exists_skipWs rest
      rw [htrail, List.append_nil] at hrest
      refine ⟨⟨ws, ms, last, rest⟩, f, ?_, ⟨hws, hlast, hrest ▸ hws'⟩, ?_, ?_, h⟩
      · rw [Layout.render, ← htail, ← eq_cons_of_head? hopen]
        exact htext.symm
      · exact not_lt.1 (not_or.1 hsize).2
      · exact hstores
  · rintro ⟨l, f, rfl, hl, hsize, hstores, hr⟩
    have hopen : isSpace openBrace = false := by decide
    have hskip : skipWs l.render = openBrace :: renderTail l.init l.last l.after :=
      skipWs_append hl.before (head_cons hopen _)
    have hafter : skipWs l.after = [] := by
      rw [← List.append_nil l.after]
      exact skipWs_append hl.after nofun
    have hfit : ¬ (l.render = [] ∨ l.render.length > webMaxTextMessage) :=
      not_or.2 ⟨by simp [Layout.render], not_lt.2 hsize⟩
    unfold webProtocolParse
    simp only [if_neg hfit, hskip, List.head?_cons, ne_eq, not_true_eq_false, if_false,
      List.tail_cons, parseMembers_complete hstores hl.last le_rfl, hafter, hr]

/-! ## The members that the parser knows -/

/-- The key and value of a member, if the key is known. -/
def known (m : Member) : Option (MemberKey × Value) := (memberKey? m.key).map fun k => (k, m.value)

theorem memberKey?_eq_some {key : List UInt8} {k : MemberKey} :
    memberKey? key = some k ↔ key = k.name := by
  constructor
  · intro h
    have hname := List.find?_some (show List.find? _ _ = some k from h)
    exact (of_decide_eq_true hname).symm
  · rintro rfl
    cases k <;> decide

/-- The known members are stored one after the other. -/
inductive StoresKnown : Fields → List (MemberKey × Value) → Fields → Prop
  | nil (f : Fields) : StoresKnown f [] f
  | cons {f g : Fields} {k : MemberKey} {w : Value} {item : Item} {ps : List (MemberKey × Value)}
    (hread : ItemReads k.name w item) (htakes : k.takes item = true) (hnew : f k = none)
    (hrest : StoresKnown (Function.update f k (some item)) ps g) : StoresKnown f ((k, w) :: ps) g

theorem store_iff {f g : Fields} {key : List UInt8} {item : Item} :
    f.store key item = .ok g ↔ memberKey? key = none ∧ g = f ∨
      ∃ k, memberKey? key = some k ∧ k.takes item = true ∧ f k = none ∧
        g = Function.update f k (some item) := by
  unfold Fields.store
  cases memberKey? key with
  | none =>
    constructor
    · exact fun h => .inl ⟨rfl, (Except.ok.inj h).symm⟩
    · rintro (⟨-, rfl⟩ | ⟨k, hk, -⟩)
      · rfl
      · cases hk
  | some k =>
    constructor
    · intro h
      dsimp only at h
      split_ifs at h with htakes hnew
      exact .inr ⟨k, rfl, by simpa using htakes, by simpa using hnew, (Except.ok.inj h).symm⟩
    · rintro (⟨h, -⟩ | ⟨j, hj, htakes, hnew, rfl⟩)
      · cases h
      · obtain rfl := Option.some.inj hj
        simp [htakes, hnew]

/-- **Storing is about the known members alone.** -/
theorem stores_iff {f g : Fields} {ms : List Member} :
    Stores f ms g ↔ (∀ m ∈ ms, ∃ item, Readable m item) ∧ StoresKnown f (ms.filterMap known) g := by
  induction ms generalizing f with
  | nil =>
    constructor
    · intro h
      cases h
      exact ⟨by simp, .nil _⟩
    · rintro ⟨-, h⟩
      cases h
      exact .nil _
  | cons m ms ih =>
    constructor
    · intro h
      refine ⟨h.readable, ?_⟩
      cases h with
      | cons hread hstore hrest =>
        obtain ⟨hnone, rfl⟩ | ⟨k, hk, htakes, hnew, rfl⟩ := store_iff.1 hstore
        · rw [List.filterMap_cons_none (by simp [known, hnone])]
          exact (ih.1 hrest).2
        · rw [List.filterMap_cons_some (b := (k, m.value)) (by simp [known, hk])]
          have hname := memberKey?_eq_some.1 hk
          exact .cons (hname ▸ hread.value) htakes hnew (ih.1 hrest).2
    · rintro ⟨hread, h⟩
      obtain ⟨item, hm⟩ := hread m (by simp)
      have hms : ∀ m ∈ ms, ∃ item, Readable m item := fun m hm => hread m (by simp [hm])
      cases hk : memberKey? m.key with
      | none =>
        rw [List.filterMap_cons_none (by simp [known, hk])] at h
        exact .cons hm (store_iff.2 (.inl ⟨hk, rfl⟩)) (ih.2 ⟨hms, h⟩)
      | some k =>
        rw [List.filterMap_cons_some (b := (k, m.value)) (by simp [known, hk])] at h
        have hname := memberKey?_eq_some.1 hk
        cases h with
        | cons hread' htakes hnew hrest =>
          obtain rfl := hm.value.unique (hname ▸ hread')
          exact .cons hm (store_iff.2 (.inr ⟨k, hk, htakes, hnew, rfl⟩)) (ih.2 ⟨hms, hrest⟩)

/-- A known key stands for one member. -/
theorem StoresKnown.nodup {f g : Fields} {ps : List (MemberKey × Value)} (h : StoresKnown f ps g) :
    (ps.map Prod.fst).Nodup ∧ ∀ k ∈ ps.map Prod.fst, f k = none := by
  induction h with
  | nil => simp
  | @cons f g k w item ps _ _ hnew _ ih =>
    obtain ⟨hnodup, hnone⟩ := ih
    have hk : k ∉ ps.map Prod.fst := fun hmem => by simpa using hnone k hmem
    refine ⟨List.nodup_cons.2 ⟨hk, hnodup⟩, ?_⟩
    rintro j (_ | ⟨_, hj⟩)
    · exact hnew
    · have hjk : j ≠ k := by
        rintro rfl
        exact hk hj
      simpa [hjk] using hnone j hj

/-- **The order of the members does not matter.** -/
theorem StoresKnown.perm {ps qs : List (MemberKey × Value)} (hp : ps.Perm qs) {f g : Fields}
    (h : StoresKnown f ps g) : StoresKnown f qs g := by
  induction hp generalizing f with
  | nil => exact h
  | cons p _ ih =>
    cases h with
    | cons hread htakes hnew hrest => exact .cons hread htakes hnew (ih hrest)
  | swap p q ps =>
    cases h with
    | cons hread htakes hnew hrest =>
      cases hrest with
      | @cons _ _ j w' item' _ hread' htakes' hnew' hrest =>
        rename_i k w item
        have hjk : j ≠ k := by
          rintro rfl
          simp at hnew'
        rw [Function.update_of_ne hjk] at hnew'
        refine .cons hread' htakes' hnew' (.cons hread htakes ?_ ?_)
        · rw [Function.update_of_ne hjk.symm]
          exact hnew
        · rw [Function.update_comm hjk]
          exact hrest
  | trans _ _ ih ih' => exact ih' (ih h)

end MacHPSDR.WebServer
