import MacHPSDR.Foundations.JsonGrammar
import MacHPSDR.WebServer.Members
import Mathlib

/-!
# Accepted requests and JSON

Every text that the parser accepts has at most the size limit, names a known key once at most, and
means the same with its members in another order and without those that are not known
(`Accepted.same`). It need not be a JSON object: the parser takes a comma after the last member,
zeros in front of a number, form feeds, any byte after a backslash in `sdp`, `candidate` and `mid`
when the request does not use them, and bytes that are no UTF-8. Those are the only differences:
without them (`Clean`) an accepted text is a flat object of RFC 8259 (`grammatical_iff`).
-/

namespace MacHPSDR.WebServer

open FlatJson

/-! ## The differences -/

def formFeed : UInt8 := 0x0C

/-- A number with a zero in front of other digits. -/
def LeadingZero (token : List UInt8) : Prop :=
  ∃ negative d ds, token = minus negative ++ 0x30 :: d :: ds

/-- The text has none of the differences. -/
structure Clean (l : Layout) : Prop where
  noTrailingComma : l.NoTrailingComma
  noFormFeed : (∀ ws ∈ [l.before, l.after], formFeed ∉ ws) ∧
    (∀ ws, l.last = .blank ws → formFeed ∉ ws) ∧
    ∀ m ∈ l.members, ∀ ws ∈ [m.before, m.beforeColon, m.afterColon, m.after], formFeed ∉ ws
  noLeadingZero : ∀ m ∈ l.members, ∀ token, m.value = .bare token → ¬ LeadingZero token
  utf8 : ∀ m ∈ l.members, IsUtf8 m.key ∧ ∀ body, m.value = .string body → IsUtf8 body
  escapes : ∀ m ∈ l.members, ∀ body, m.value = .string body → Escapes body

theorem isWs_iff_noFormFeed {ws : List UInt8} (h : ∀ b ∈ ws, isSpace b) :
    (∀ b ∈ ws, isWs b) ↔ formFeed ∉ ws := by
  constructor
  · intro hws hmem
    exact absurd (hws formFeed hmem) (by decide)
  · intro hff b hb
    have hspace := h b hb
    simp only [isSpace, Bool.or_eq_true, beq_iff_eq] at hspace
    obtain hspace | rfl := hspace
    · exact hspace
    · exact absurd hb hff

/-! ## Strings -/

theorem Plain.ge {s : List UInt8} (h : Plain s) : ∀ b ∈ s, 0x20 ≤ b :=
  fun b hb => UInt8.not_lt.1 (h b hb).2.2

theorem Plain.escapes {s : List UInt8} (h : Plain s) : Escapes s := by
  have happend := Escapes.append (fun b hb => (h b hb).2.1) .nil
  rwa [List.append_nil] at happend

theorem Plain.chars_iff {s : List UInt8} (h : Plain s) : Chars s ↔ IsUtf8 s := by
  rw [FlatJson.chars_iff]
  exact ⟨fun hc => hc.2.2.1, fun hu => ⟨h.body, h.ge, hu, h.escapes⟩⟩

theorem Span.of_append {a b : List UInt8} (ha : ∀ c ∈ a, c ≠ backslash) (h : Span (a ++ b)) :
    Span b := by
  induction a with
  | nil => exact h
  | cons c a ih =>
    rw [List.cons_append] at h
    generalize hx : a ++ b = x at h
    cases h with
    | plain _ _ _ h => exact ih (fun d hd => ha d (by simp [hd])) (hx ▸ h)
    | escape => exact absurd rfl (ha backslash (by simp))

/-- With the escapes of JSON a long string has no control characters at all. -/
theorem Span.ge {s : List UInt8} (he : Escapes s) (h : Span s) : ∀ b ∈ s, 0x20 ≤ b := by
  induction he with
  | nil => simp
  | plain hb _ ih =>
    cases h with
    | plain _ _ hc h =>
      rintro d (_ | ⟨_, hd⟩)
      · exact UInt8.not_lt.1 hc
      · exact ih h d hd
    | escape => exact absurd rfl hb
  | escape hb _ ih =>
    cases h with
    | plain _ h => exact absurd rfl h
    | escape _ h =>
      rintro d (_ | ⟨_, _ | ⟨_, hd⟩⟩)
      · decide
      · exact (escapeBytes_bounds hb).1
      · exact ih h d hd
  | unicode hex _ ih =>
    cases h with
    | plain _ h => exact absurd rfl h
    | escape _ h =>
      have hrest := Span.of_append (a := [_, _, _, _])
        (fun b hb => (isHexDigit_bounds (hex b hb)).2.2.2) h
      rintro d (_ | ⟨_, _ | ⟨_, hd⟩⟩)
      · decide
      · decide
      · obtain hd | hd := List.mem_append.1 (show d ∈ [_, _, _, _] ++ _ from hd)
        · exact (isHexDigit_bounds (hex d hd)).1
        · exact ih hrest d hd

theorem Span.chars_iff {s : List UInt8} (h : Span s) : Chars s ↔ IsUtf8 s ∧ Escapes s := by
  rw [FlatJson.chars_iff]
  exact ⟨fun hc => hc.2.2, fun hu => ⟨h.body, h.ge hu.2, hu.1, hu.2⟩⟩

/-! ## Numbers -/

/-- A sign and the digits after it can be told apart. -/
theorem minus_inj {n n' : Bool} {d d' : UInt8} {x y : List UInt8} (hd : isDigit d)
    (hd' : isDigit d') (h : minus n ++ d :: x = minus n' ++ d' :: y) : d = d' ∧ x = y := by
  have hne : ¬ isDigit 0x2D := by decide
  cases n with
  | true =>
    cases n' with
    | true => exact List.cons.inj (List.cons.inj h).2
    | false => exact absurd ((List.cons.inj h).1 ▸ hd') hne
  | false =>
    cases n' with
    | true => exact absurd ((List.cons.inj h).1 ▸ hd) hne
    | false => exact List.cons.inj h

theorem head_minus (n : Bool) {d : UInt8} (hd : isDigit d) (x : List UInt8) :
    ∀ c ∈ (minus n ++ d :: x).head?, c = 0x2D ∨ isDigit c := by
  intro c hc
  cases n <;> obtain rfl := Option.some.inj hc
  · exact .inr hd
  · exact .inl rfl

/-- Of digits alone the part `int` is all. -/
theorem digits_eq_int {ds int frac exp : List UInt8} (hds : ∀ d ∈ ds, isDigit d)
    (h : ds = int ++ (frac ++ exp)) (hfrac : IsFrac frac) (hexp : IsExp exp) : ds = int := by
  subst h
  obtain rfl : frac = [] := by
    obtain h | ⟨_, rfl, -⟩ := hfrac
    · exact h
    · exact absurd (hds 0x2E (by simp)) (by decide)
  obtain rfl : exp = [] := by
    obtain h | ⟨e, _, _, rfl, he, -⟩ := hexp
    · exact h
    · have hdigit := hds e (by simp)
      obtain rfl | rfl := he <;> exact absurd hdigit (by decide)
  simp

/-- **The integers that the parser reads**, as numbers of JSON. -/
theorem isNumber_iff {negative : Bool} {ds : List UInt8} (hne : ds ≠ [])
    (hds : ∀ d ∈ ds, isDigit d) :
    IsNumber (minus negative ++ ds) ↔ ¬ LeadingZero (minus negative ++ ds) := by
  obtain ⟨d, ds, rfl⟩ := List.exists_cons_of_ne_nil hne
  have hd : isDigit d := hds d (by simp)
  constructor
  · rintro ⟨sign, int, frac, exp, heq, hsign, ⟨⟨hint, hdigits⟩, hzero⟩, hfrac, hexp⟩
    rintro ⟨n', e, es, hlz⟩
    obtain ⟨rfl, rfl⟩ := minus_inj hd (by decide) hlz
    obtain ⟨n, rfl⟩ : ∃ n, sign = minus n := by
      obtain rfl | rfl := hsign
      · exact ⟨false, rfl⟩
      · exact ⟨true, rfl⟩
    obtain ⟨i, is, rfl⟩ := List.exists_cons_of_ne_nil hint
    obtain ⟨rfl, htail⟩ := minus_inj hd (hdigits i (by simp)) heq
    have hall : 0x30 :: e :: es = 0x30 :: is := digits_eq_int hds (congrArg _ htail) hfrac hexp
    rw [← hall] at hzero
    exact absurd (hzero rfl) (by simp)
  · intro hlz
    refine ⟨minus negative, d :: ds, [], [], by simp, ?_, ⟨⟨hne, hds⟩, fun h0 => ?_⟩, .inl rfl,
      .inl rfl⟩
    · cases negative
      · exact .inl rfl
      · exact .inr rfl
    · obtain rfl := Option.some.inj h0
      cases ds with
      | nil => rfl
      | cons e es => exact absurd ⟨negative, e, es, rfl⟩ hlz

/-! ## Members and layouts -/

theorem value_rfc_iff {key : List UInt8} {w : Value} {item : Item} (h : ItemReads key w item) :
    w.Rfc ↔ (∀ token, w = .bare token → ¬ LeadingZero token) ∧
      ∀ body, w = .string body → IsUtf8 body ∧ Escapes body := by
  have hstring {body : List UInt8} (hb : Chars body ↔ IsUtf8 body ∧ Escapes body) :
      (Value.string body).Rfc ↔ (∀ token, Value.string body = .bare token → ¬ LeadingZero token) ∧
        ∀ b, Value.string body = .string b → IsUtf8 b ∧ Escapes b := by
    refine hb.trans ⟨fun h => ⟨nofun, ?_⟩, fun h => h.2 body rfl⟩
    rintro b ⟨⟩
    exact h
  have hbare {token : List UInt8} (hb : (Value.bare token).Rfc ↔ ¬ LeadingZero token) :
      (Value.bare token).Rfc ↔ (∀ t, Value.bare token = .bare t → ¬ LeadingZero t) ∧
        ∀ b, Value.bare token = .string b → IsUtf8 b ∧ Escapes b := by
    refine hb.trans ⟨fun h => ⟨?_, nofun⟩, fun h => h.1 token rfl⟩
    rintro t ⟨⟩
    exact h
  cases h with
  | span _ h => exact hstring h.chars_iff
  | value _ h =>
    cases h with
    | string h _ => exact hstring (h.chars_iff.trans ⟨fun hu => ⟨hu, h.escapes⟩, And.left⟩)
    | boolTrue =>
      refine hbare (iff_of_true (.inl rfl) ?_)
      rintro ⟨n, d, ds, h⟩
      have hhead := head_minus n (show isDigit 0x30 by decide) (d :: ds)
      rw [← h] at hhead
      exact absurd (hhead 0x74 rfl) (by decide)
    | boolFalse =>
      refine hbare (iff_of_true (.inr (.inl rfl)) ?_)
      rintro ⟨n, d, ds, h⟩
      have hhead := head_minus n (show isDigit 0x30 by decide) (d :: ds)
      rw [← h] at hhead
      exact absurd (hhead 0x66 rfl) (by decide)
    | integer negative hne hds _ =>
      refine hbare (Iff.trans ⟨fun h => ?_, fun h => .inr (.inr (.inr h))⟩ (isNumber_iff hne hds))
      obtain ⟨d, ds, rfl⟩ := List.exists_cons_of_ne_nil hne
      have hhead := head_minus negative (hds d (by simp)) ds
      obtain h | h | h | h := h
      · exact absurd (hhead 0x74 (h ▸ rfl)) (by decide)
      · exact absurd (hhead 0x66 (h ▸ rfl)) (by decide)
      · exact absurd (hhead 0x6E (h ▸ rfl)) (by decide)
      · exact h

theorem member_rfc_iff {m : Member} {item : Item} (h : Readable m item) :
    m.Rfc ↔ (∀ ws ∈ [m.before, m.beforeColon, m.afterColon, m.after], formFeed ∉ ws) ∧
      (∀ token, m.value = .bare token → ¬ LeadingZero token) ∧
      (IsUtf8 m.key ∧ ∀ body, m.value = .string body → IsUtf8 body) ∧
      ∀ body, m.value = .string body → Escapes body := by
  constructor
  · intro hr
    obtain ⟨hlz, hbody⟩ := (value_rfc_iff h.value).1 hr.value
    refine ⟨?_, hlz, ⟨h.key.chars_iff.1 hr.key, fun b hb => (hbody b hb).1⟩,
      fun b hb => (hbody b hb).2⟩
    intro ws hws
    simp only [List.mem_cons, List.not_mem_nil, or_false] at hws
    obtain rfl | rfl | rfl | rfl := hws
    · exact (isWs_iff_noFormFeed h.before).1 hr.before
    · exact (isWs_iff_noFormFeed h.beforeColon).1 hr.beforeColon
    · exact (isWs_iff_noFormFeed h.afterColon).1 hr.afterColon
    · exact (isWs_iff_noFormFeed h.after).1 hr.after
  · rintro ⟨hff, hlz, ⟨hkey, hbody⟩, hesc⟩
    exact {
      before := (isWs_iff_noFormFeed h.before).2 (hff _ (by simp))
      key := h.key.chars_iff.2 hkey
      beforeColon := (isWs_iff_noFormFeed h.beforeColon).2 (hff _ (by simp))
      afterColon := (isWs_iff_noFormFeed h.afterColon).2 (hff _ (by simp))
      value := (value_rfc_iff h.value).2 ⟨hlz, fun b hb => ⟨hbody b hb, hesc b hb⟩⟩
      after := (isWs_iff_noFormFeed h.after).2 (hff _ (by simp)) }

/-- **Of a text whose members can be read, the differences are all.** -/
theorem rfc_iff_clean {l : Layout} (hl : SpacesLoose l)
    (h : ∀ m ∈ l.members, ∃ item, Readable m item) : l.Rfc ↔ Clean l := by
  have hmember {m : Member} (hm : m ∈ l.members) := (h m hm).elim fun _ hr => member_rfc_iff hr
  constructor
  · intro hr
    have hall : ∀ m ∈ l.members, m.Rfc := by
      intro m hm
      obtain hm | hm := List.mem_append.1 hm
      · exact hr.init m hm
      · have hlast := hr.last
        generalize l.last = last at hlast hm
        cases last with
        | member m' =>
          obtain rfl := List.mem_singleton.1 hm
          exact hlast
        | blank ws => cases hm
    exact {
      noTrailingComma := hr.noTrailingComma
      noFormFeed := by
        refine ⟨?_, fun ws hws => ?_, fun m hm => ((hmember hm).1 (hall m hm)).1⟩
        · intro ws hws
          simp only [List.mem_cons, List.not_mem_nil, or_false] at hws
          obtain rfl | rfl := hws
          · exact (isWs_iff_noFormFeed hl.before).1 hr.before
          · exact (isWs_iff_noFormFeed hl.after).1 hr.after
        · have hlast := hr.last
          have hloose := hl.last
          rw [hws] at hlast hloose
          exact (isWs_iff_noFormFeed hloose).1 hlast
      noLeadingZero := fun m hm => ((hmember hm).1 (hall m hm)).2.1
      utf8 := fun m hm => ((hmember hm).1 (hall m hm)).2.2.1
      escapes := fun m hm => ((hmember hm).1 (hall m hm)).2.2.2 }
  · intro hc
    have hall : ∀ m ∈ l.members, m.Rfc := fun m hm => (hmember hm).2
      ⟨hc.noFormFeed.2.2 m hm, hc.noLeadingZero m hm, hc.utf8 m hm, hc.escapes m hm⟩
    exact {
      before := (isWs_iff_noFormFeed hl.before).2 (hc.noFormFeed.1 _ (by simp))
      init := fun m hm => hall m (List.mem_append_left _ hm)
      last := by
        have hloose := hl.last
        have hff := hc.noFormFeed.2.1
        rw [Layout.members] at hall
        generalize l.last = last at hloose hff hall ⊢
        cases last with
        | member m => exact hall m (List.mem_append_right _ (List.mem_singleton_self m))
        | blank ws => exact (isWs_iff_noFormFeed hloose).2 (hff ws rfl)
      after := (isWs_iff_noFormFeed hl.after).2 (hc.noFormFeed.1 _ (by simp))
      noTrailingComma := hc.noTrailingComma }

/-! ## Accepted texts -/

/-- The known members of a text, without their order. -/
def SameMembers (l l' : Layout) : Prop :=
  (l'.members.filterMap known).Perm (l.members.filterMap known)

/-- What holds of every accepted text. -/
structure Accepted (text : List UInt8) (r : WebRequest) : Prop where
  size : text.length ≤ webMaxTextMessage
  /-- A known key stands for one member. -/
  once : ∀ l : Layout, l.Loose → l.render = text →
    ((l.members.filterMap known).map Prod.fst).Nodup
  /-- Any members that can be read, with the same known ones among them, in any order. -/
  same : ∀ l l' : Layout, l.Loose → l.render = text → SpacesLoose l' →
    (∀ m ∈ l'.members, ∃ item, Readable m item) → SameMembers l l' →
    l'.render.length ≤ webMaxTextMessage → webProtocolParse l'.render = .ok r

/-- An accepted text that is JSON. -/
structure Grammatical (text : List UInt8) (r : WebRequest) : Prop extends Accepted text r where
  flat : IsFlatObject text

/-- The layout of an accepted text. -/
theorem exists_layout {text : List UInt8} {r : WebRequest} (h : webProtocolParse text = .ok r) :
    ∃ l : Layout, l.Loose ∧ l.render = text ∧ SpacesLoose l ∧
      (∀ m ∈ l.members, ∃ item, Readable m item) ∧ Accepted text r := by
  obtain ⟨l, f, rfl, hl, hsize, hstores, hr⟩ := webProtocolParse_iff.1 h
  obtain ⟨hread, hknown⟩ := stores_iff.1 hstores
  have hloose := loose_of_readable hl hread
  refine ⟨l, hloose, rfl, hl, hread, hsize, ?_, ?_⟩
  · intro l' hl' heq
    rw [Layout.render_inj hl' hloose heq]
    exact hknown.nodup.1
  · intro l₁ l₂ hl₁ heq hl₂ hread₂ hsame hsize₂
    obtain rfl := Layout.render_inj hl₁ hloose heq
    exact webProtocolParse_iff.2 ⟨l₂, f, rfl, hl₂, hsize₂,
      stores_iff.2 ⟨hread₂, hknown.perm hsame.symm⟩, hr⟩

/-- **Accepted texts and JSON**: an accepted text is a flat object, in which every known key occurs
once and neither the order of the members nor the unknown ones matter, if and only if it has none of
the differences. -/
theorem grammatical_iff {text : List UInt8} {r : WebRequest} (h : webProtocolParse text = .ok r) :
    Grammatical text r ↔ ∃ l : Layout, l.Loose ∧ l.render = text ∧ Clean l := by
  obtain ⟨l, hloose, rfl, hl, hread, hacc⟩ := exists_layout h
  have hflat := (isFlatObject_render hloose).trans (rfc_iff_clean hl hread)
  constructor
  · exact fun hg => ⟨l, hloose, rfl, hflat.1 hg.flat⟩
  · rintro ⟨l', hl', heq, hclean⟩
    obtain rfl := Layout.render_inj hl' hloose heq
    exact ⟨hacc, hflat.2 hclean⟩

/-! ## Two requests -/

theorem readable_stringMember {key body : String} (hkey : Plain (ascii key))
    (hlen : (ascii key).length < 64) (hspan : (memberKey? (ascii key)).any MemberKey.isSpan = false)
    (hbody : Plain (ascii body)) (hfit : (ascii body).length < 64) :
    Readable (stringMember key body) (.value (.string (ascii body))) where
  before := nofun
  key := hkey
  key_length := hlen
  beforeColon := nofun
  afterColon := nofun
  value := .value hspan (.string hbody hfit)
  after := nofun

/-- `{"type":"get_state","id":1}`, with a comma after the last member or not. -/
def getState (trailing : Bool) : Layout :=
  let type := stringMember "type" "get_state"
  let id := bareMember "id" "1"
  if trailing then ⟨[], [type, id], .blank [], []⟩ else ⟨[], [type], .member id, []⟩

example : (getState true).render = ascii "\x7b\"type\":\"get_state\",\"id\":1,\x7d" := by decide

theorem mem_getState {trailing : Bool} {m : Member} (hm : m ∈ (getState trailing).members) :
    m = stringMember "type" "get_state" ∨ m = bareMember "id" "1" := by
  cases trailing <;> simpa [getState, Layout.members, Last.members] using hm

theorem readable_getState (trailing : Bool) :
    ∀ m ∈ (getState trailing).members, ∃ item, Readable m item := by
  have htype : Readable (stringMember "type" "get_state") (.value (.string (ascii "get_state"))) :=
    readable_stringMember (by decide) (by decide) (by decide) (by decide) (by decide)
  have hid : Readable (bareMember "id" "1") (.value (.integer 1)) := {
    before := nofun
    key := show Plain (ascii "id") by decide
    key_length := by decide
    beforeColon := nofun
    afterColon := nofun
    value := .value (by decide) (.integer false (by decide) (List.all_eq_true.1 rfl) (by decide))
    after := nofun }
  intro m hm
  obtain rfl | rfl := mem_getState hm
  · exact ⟨_, htype⟩
  · exact ⟨_, hid⟩

theorem spacesLoose_getState (trailing : Bool) : SpacesLoose (getState trailing) := by
  cases trailing
  · exact ⟨nofun, trivial, nofun⟩
  · exact ⟨nofun, nofun, nofun⟩

theorem parse_getState (trailing : Bool) :
    ∃ r, webProtocolParse (getState trailing).render = .ok r := by
  cases trailing
  · exact ⟨_, rfl⟩
  · exact ⟨_, rfl⟩

theorem clean_getState : Clean (getState false) where
  noTrailingComma ws hws := by cases hws
  noFormFeed := by
    refine ⟨by decide, fun ws hws => ?_, by decide⟩
    cases hws
  noLeadingZero := by
    rintro m hm token hvalue ⟨n, d, ds, rfl⟩
    obtain rfl | rfl := mem_getState hm
    · cases hvalue
    · have hlen := congrArg List.length (Value.bare.inj hvalue)
      rw [List.length_append] at hlen
      simp only [List.length_cons] at hlen
      change 1 = _ at hlen
      omega
  utf8 := by
    intro m hm
    obtain rfl | rfl := mem_getState hm
    · refine ⟨isUtf8_ascii (by decide +kernel), fun body hbody => ?_⟩
      cases hbody
      exact isUtf8_ascii (by decide +kernel)
    · refine ⟨isUtf8_ascii (by decide +kernel), fun body hbody => ?_⟩
      cases hbody
  escapes := by
    intro m hm body hbody
    obtain rfl | rfl := mem_getState hm
    · cases hbody
      exact Plain.escapes (by decide)
    · cases hbody

theorem grammatical_iff_getState : ∃ r, Grammatical (getState false).render r := by
  obtain ⟨r, hr⟩ := parse_getState false
  have hloose := loose_of_readable (spacesLoose_getState false) (readable_getState false)
  exact ⟨r, (grammatical_iff hr).2 ⟨getState false, hloose, rfl, clean_getState⟩⟩

/-- A comma after the last member. -/
theorem not_grammatical : ¬ ∀ text r, webProtocolParse text = .ok r → Grammatical text r := by
  intro h
  obtain ⟨r, hr⟩ := parse_getState true
  have hloose := loose_of_readable (spacesLoose_getState true) (readable_getState true)
  have hrfc := (isFlatObject_render hloose).1 (h _ r hr).flat
  exact absurd (hrfc.noTrailingComma [] rfl) (by simp [getState])

end MacHPSDR.WebServer
