import Mathlib

/-!
# Flat JSON objects

The text of a JSON object whose values are strings, numbers and literals, as a sequence of bytes.
A `Layout` is such a text cut into its pieces, white space included, and `Layout.render` puts it
together again. The pieces may be looser than those of RFC 8259 (`Layout.Loose`): more white space,
any bare token, any byte after a backslash, a comma after the last member. A loose text can be cut
in one way only (`Layout.render_inj`), so that what a reader finds in a text and what the grammar
says of it (`Layout.Rfc`) are about the same pieces (`isFlatObject_render`).
-/

namespace MacHPSDR.FlatJson

/-! ## Bytes -/

/-- The bytes of an ASCII text. -/
def ascii (s : String) : List UInt8 := s.toList.map Char.toUInt8

def quote : UInt8 := 0x22
def comma : UInt8 := 0x2C
def colon : UInt8 := 0x3A
def backslash : UInt8 := 0x5C
def openBrace : UInt8 := 0x7B
def closeBrace : UInt8 := 0x7D

/-- The white space of RFC 8259. -/
def isWs (b : UInt8) : Bool := b == 0x20 || b == 0x09 || b == 0x0A || b == 0x0D

/-- White space, and the form feed. -/
def isSpace (b : UInt8) : Bool := isWs b || b == 0x0C

def isDigit (b : UInt8) : Bool := decide (0x30 ≤ b ∧ b ≤ 0x39)

/-- A byte of a number or of a literal. -/
def isBare (b : UInt8) : Bool :=
  isDigit b || decide (0x41 ≤ b ∧ b ≤ 0x5A) || decide (0x61 ≤ b ∧ b ≤ 0x7A) || b == 0x2B ||
    b == 0x2D || b == 0x2E

/-! ## Layouts -/

/-- What stands for a value: the bytes between its quotes, or a number or literal. -/
inductive Value
  | string (body : List UInt8)
  | bare (token : List UInt8)
  deriving DecidableEq

/-- A member and the white space around its parts. -/
structure Member where
  before : List UInt8
  /-- The bytes between the quotes. -/
  key : List UInt8
  beforeColon : List UInt8
  afterColon : List UInt8
  value : Value
  after : List UInt8
  deriving DecidableEq

/-- A member with a string, without white space. -/
def stringMember (key body : String) : Member := ⟨[], ascii key, [], [], .string (ascii body), []⟩

/-- A member with a number or a literal, without white space. -/
def bareMember (key token : String) : Member := ⟨[], ascii key, [], [], .bare (ascii token), []⟩

/-- What stands before the closing brace: a member, or nothing but white space. -/
inductive Last
  | member (m : Member)
  | blank (ws : List UInt8)
  deriving DecidableEq

def Last.members : Last → List Member
  | .member m => [m]
  | .blank _ => []

/-- An object in its pieces. -/
structure Layout where
  before : List UInt8
  /-- The members with a comma after them. -/
  init : List Member
  last : Last
  after : List UInt8
  deriving DecidableEq

def Value.render : Value → List UInt8
  | .string body => quote :: (body ++ [quote])
  | .bare token => token

/-- The text of a member with what follows it. -/
def Member.render (m : Member) (rest : List UInt8) : List UInt8 :=
  m.before ++ quote :: (m.key ++ quote :: (m.beforeColon ++ colon :: (m.afterColon ++
    (m.value.render ++ (m.after ++ rest)))))

/-- The text after the opening brace. -/
def renderTail : List Member → Last → List UInt8 → List UInt8
  | [], .member m, rest => m.render (closeBrace :: rest)
  | [], .blank ws, rest => ws ++ closeBrace :: rest
  | m :: ms, last, rest => m.render (comma :: renderTail ms last rest)

namespace Layout

def render (l : Layout) : List UInt8 :=
  l.before ++ openBrace :: renderTail l.init l.last l.after

def members (l : Layout) : List Member := l.init ++ l.last.members

end Layout

/-! ## Texts that can be cut in one way -/

/-- The bytes between two quotes: a backslash takes the next byte with it. -/
inductive Body : List UInt8 → Prop
  | nil : Body []
  | plain {b : UInt8} {bs : List UInt8} (hq : b ≠ quote) (hb : b ≠ backslash) (h : Body bs) :
    Body (b :: bs)
  | escape (b : UInt8) {bs : List UInt8} (h : Body bs) : Body (backslash :: b :: bs)

def Value.Loose : Value → Prop
  | .string body => Body body
  | .bare token => token ≠ [] ∧ ∀ b ∈ token, isBare b

structure Member.Loose (m : Member) : Prop where
  before : ∀ b ∈ m.before, isSpace b
  key : Body m.key
  beforeColon : ∀ b ∈ m.beforeColon, isSpace b
  afterColon : ∀ b ∈ m.afterColon, isSpace b
  value : m.value.Loose
  after : ∀ b ∈ m.after, isSpace b

def Last.Loose : Last → Prop
  | .member m => m.Loose
  | .blank ws => ∀ b ∈ ws, isSpace b

structure Layout.Loose (l : Layout) : Prop where
  before : ∀ b ∈ l.before, isSpace b
  init : ∀ m ∈ l.init, m.Loose
  last : l.last.Loose
  after : ∀ b ∈ l.after, isSpace b

/-- A run of bytes that satisfy `p` ends where the next byte does not. -/
theorem run_inj {p : UInt8 → Bool} {a b x y : List UInt8} (ha : ∀ c ∈ a, p c) (hb : ∀ c ∈ b, p c)
    (hx : ∀ c ∈ x.head?, p c = false) (hy : ∀ c ∈ y.head?, p c = false) (h : a ++ x = b ++ y) :
    a = b ∧ x = y := by
  induction a generalizing b with
  | nil =>
    cases b with
    | nil => exact ⟨rfl, h⟩
    | cons c b =>
      rw [List.nil_append] at h
      have := hx c (by simp [h])
      simp [hb c (by simp)] at this
  | cons d a ih =>
    cases b with
    | nil =>
      rw [List.nil_append] at h
      have := hy d (by simp [← h])
      simp [ha d (by simp)] at this
    | cons c b =>
      obtain ⟨rfl, htail⟩ := List.cons.inj h
      obtain ⟨rfl, hxy⟩ := ih (fun c hc => ha c (by simp [hc])) (fun c hc => hb c (by simp [hc]))
        htail
      exact ⟨rfl, hxy⟩

/-- The text between quotes ends at the first quote that no backslash takes. -/
theorem Body.inj {a b x y : List UInt8} (ha : Body a) (hb : Body b)
    (h : a ++ quote :: x = b ++ quote :: y) : a = b ∧ x = y := by
  induction ha generalizing b with
  | nil =>
    cases hb with
    | nil => exact ⟨rfl, (List.cons.inj h).2⟩
    | plain hq _ _ => exact absurd (List.cons.inj h).1.symm hq
    | escape => exact absurd (List.cons.inj h).1 (by decide)
  | plain hq hbs _ ih =>
    cases hb with
    | nil => exact absurd (List.cons.inj h).1 hq
    | plain _ _ hb =>
      obtain ⟨rfl, htail⟩ := List.cons.inj h
      obtain ⟨rfl, hxy⟩ := ih hb htail
      exact ⟨rfl, hxy⟩
    | escape => exact absurd (List.cons.inj h).1 hbs
  | escape c _ ih =>
    cases hb with
    | nil => exact absurd (List.cons.inj h).1 (by decide)
    | plain _ hbs _ => exact absurd (List.cons.inj h).1.symm hbs
    | escape _ hb =>
      obtain ⟨-, h⟩ := List.cons.inj h
      obtain ⟨rfl, htail⟩ := List.cons.inj h
      obtain ⟨rfl, hxy⟩ := ih hb htail
      exact ⟨rfl, hxy⟩

/-- What may follow a member. -/
def Delimited (x : List UInt8) : Prop := ∃ t, x = comma :: t ∨ x = closeBrace :: t

theorem Delimited.head {p : UInt8 → Bool} (hc : p comma = false) (hb : p closeBrace = false)
    {x : List UInt8} (h : Delimited x) : ∀ c ∈ x.head?, p c = false := by
  obtain ⟨t, rfl | rfl⟩ := h <;> simp [hc, hb]

/-- No byte of a bare token is white space. -/
theorem isBare_eq_false_of_isSpace {b : UInt8} (h : isSpace b) : isBare b = false := by
  simp only [isSpace, isWs, Bool.or_eq_true, beq_iff_eq] at h
  obtain (((rfl | rfl) | rfl) | rfl) | rfl := h <;> decide

theorem isSpace_eq_false_of_isBare {b : UInt8} (h : isBare b) : isSpace b = false := by
  cases hs : isSpace b with
  | false => rfl
  | true => exact absurd (h.symm.trans (isBare_eq_false_of_isSpace hs)) (by decide)

theorem head_cons {p : UInt8 → Bool} {b : UInt8} (hb : p b = false) (x : List UInt8) :
    ∀ c ∈ (b :: x).head?, p c = false := by
  simp [hb]

theorem head_append {p : UInt8 → Bool} {a x : List UInt8} (ha : ∀ b ∈ a, p b = false)
    (hx : ∀ c ∈ x.head?, p c = false) : ∀ c ∈ (a ++ x).head?, p c = false := by
  cases a with
  | nil => exact hx
  | cons b a =>
    intro c hc
    obtain rfl := Option.some.inj hc
    exact ha _ (by simp)

/-- No value begins with white space. -/
theorem Value.render_head {v : Value} (h : v.Loose) (x : List UInt8) :
    ∀ c ∈ (v.render ++ x).head?, isSpace c = false := by
  cases v with
  | string body => exact head_cons (by decide) _
  | bare token =>
    obtain ⟨hne, hb⟩ := h
    cases token with
    | nil => exact absurd rfl hne
    | cons b t => exact head_cons (isSpace_eq_false_of_isBare (hb b (by simp))) _

theorem Value.render_inj {v w : Value} (hv : v.Loose) (hw : w.Loose) {x y : List UInt8}
    (hx : ∀ c ∈ x.head?, isBare c = false) (hy : ∀ c ∈ y.head?, isBare c = false)
    (h : v.render ++ x = w.render ++ y) : v = w ∧ x = y := by
  cases v with
  | string a =>
    cases w with
    | string b =>
      simp only [render, List.cons_append, List.append_assoc, List.cons.injEq, true_and] at h
      obtain ⟨rfl, hxy⟩ := Body.inj hv hw h
      exact ⟨rfl, hxy⟩
    | bare token =>
      obtain ⟨hne, hb⟩ := hw
      cases token with
      | nil => exact absurd rfl hne
      | cons b t =>
        have hbare := hb b (by simp)
        obtain ⟨rfl, -⟩ := List.cons.inj h
        exact absurd hbare (by decide)
  | bare a =>
    obtain ⟨hne, ha⟩ := hv
    cases w with
    | string b =>
      cases a with
      | nil => exact absurd rfl hne
      | cons b t =>
        have hbare := ha b (by simp)
        obtain ⟨rfl, -⟩ := List.cons.inj h
        exact absurd hbare (by decide)
    | bare b =>
      obtain ⟨rfl, hxy⟩ := run_inj ha hw.2 hx hy h
      exact ⟨rfl, hxy⟩

theorem Member.render_inj {m m' : Member} (hm : m.Loose) (hm' : m'.Loose) {x y : List UInt8}
    (hx : Delimited x) (hy : Delimited y) (h : m.render x = m'.render y) : m = m' ∧ x = y := by
  have hspace : isSpace quote = false ∧ isSpace colon = false ∧ isSpace comma = false ∧
      isSpace closeBrace = false := by decide
  obtain ⟨hquote, hcolon, hcomma, hbrace⟩ := hspace
  obtain ⟨hbefore, h⟩ := run_inj hm.before hm'.before (head_cons hquote _) (head_cons hquote _) h
  obtain ⟨hkey, h⟩ := Body.inj hm.key hm'.key (List.cons.inj h).2
  obtain ⟨hbeforeColon, h⟩ := run_inj hm.beforeColon hm'.beforeColon (head_cons hcolon _)
    (head_cons hcolon _) h
  obtain ⟨hafterColon, h⟩ := run_inj hm.afterColon hm'.afterColon (Value.render_head hm.value _)
    (Value.render_head hm'.value _) (List.cons.inj h).2
  have hafter {ws z : List UInt8} (hws : ∀ b ∈ ws, isSpace b) (hz : Delimited z) :
      ∀ c ∈ (ws ++ z).head?, isBare c = false :=
    head_append (fun b hb => isBare_eq_false_of_isSpace (hws b hb))
      (hz.head (by decide) (by decide))
  obtain ⟨hval, h⟩ := Value.render_inj hm.value hm'.value (hafter hm.after hx)
    (hafter hm'.after hy) h
  obtain ⟨haft, hxy⟩ := run_inj hm.after hm'.after (hx.head hcomma hbrace) (hy.head hcomma hbrace) h
  refine ⟨?_, hxy⟩
  cases m
  cases m'
  simp_all

/-- A member is not white space. -/
theorem Member.render_ne_blank {m : Member} (hm : m.Loose) {ws : List UInt8}
    (hws : ∀ b ∈ ws, isSpace b) (x y : List UInt8) : m.render x ≠ ws ++ closeBrace :: y := by
  intro h
  have hspace : isSpace quote = false ∧ isSpace closeBrace = false := by decide
  obtain ⟨-, h⟩ := run_inj hm.before hws (head_cons hspace.1 _) (head_cons hspace.2 _) h
  exact absurd (List.cons.inj h).1 (by decide)

theorem renderTail_inj {ms ms' : List Member} {last last' : Last} {x y : List UInt8}
    (hms : ∀ m ∈ ms, m.Loose) (hms' : ∀ m ∈ ms', m.Loose) (hlast : last.Loose)
    (hlast' : last'.Loose) (h : renderTail ms last x = renderTail ms' last' y) :
    ms = ms' ∧ last = last' ∧ x = y := by
  have hcomma (t : List UInt8) : Delimited (comma :: t) := ⟨t, .inl rfl⟩
  have hbrace (t : List UInt8) : Delimited (closeBrace :: t) := ⟨t, .inr rfl⟩
  have hne : comma ≠ closeBrace := by decide
  have hspace : isSpace closeBrace = false := by decide
  induction ms generalizing ms' with
  | nil =>
    cases ms' with
    | nil =>
      cases last with
      | member m =>
        cases last' with
        | member m' =>
          obtain ⟨rfl, hxy⟩ := Member.render_inj hlast hlast' (hbrace _) (hbrace _) h
          exact ⟨rfl, rfl, (List.cons.inj hxy).2⟩
        | blank ws => exact absurd h (Member.render_ne_blank hlast hlast' _ _)
      | blank ws =>
        cases last' with
        | member m' => exact absurd h.symm (Member.render_ne_blank hlast' hlast _ _)
        | blank ws' =>
          obtain ⟨rfl, hxy⟩ := run_inj hlast hlast' (head_cons hspace _) (head_cons hspace _) h
          exact ⟨rfl, rfl, (List.cons.inj hxy).2⟩
    | cons m' ms' =>
      cases last with
      | member m =>
        obtain ⟨-, h⟩ := Member.render_inj hlast (hms' m' (by simp)) (hbrace _) (hcomma _) h
        exact absurd (List.cons.inj h).1.symm hne
      | blank ws => exact absurd h.symm (Member.render_ne_blank (hms' m' (by simp)) hlast _ _)
  | cons m ms ih =>
    cases ms' with
    | nil =>
      cases last' with
      | member m' =>
        obtain ⟨-, h⟩ := Member.render_inj (hms m (by simp)) hlast' (hcomma _) (hbrace _) h
        exact absurd (List.cons.inj h).1 hne
      | blank ws => exact absurd h (Member.render_ne_blank (hms m (by simp)) hlast' _ _)
    | cons m' ms' =>
      obtain ⟨rfl, htail⟩ := Member.render_inj (hms m (by simp)) (hms' m' (by simp)) (hcomma _)
        (hcomma _) h
      obtain ⟨rfl, heq, hxy⟩ := ih (fun m hm => hms m (by simp [hm]))
        (fun m hm => hms' m (by simp [hm])) (List.cons.inj htail).2
      exact ⟨rfl, heq, hxy⟩

/-- **A loose text can be cut in one way only.** -/
theorem Layout.render_inj {l l' : Layout} (hl : l.Loose) (hl' : l'.Loose)
    (h : l.render = l'.render) : l = l' := by
  have hopen : isSpace openBrace = false := by decide
  obtain ⟨hbefore, h⟩ := run_inj hl.before hl'.before (head_cons hopen _) (head_cons hopen _) h
  obtain ⟨hinit, hlast, hafter⟩ := renderTail_inj hl.init hl'.init hl.last hl'.last
    (List.cons.inj h).2
  cases l
  cases l'
  simp_all

end MacHPSDR.FlatJson
