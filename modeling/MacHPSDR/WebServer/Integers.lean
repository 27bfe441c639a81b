import MacHPSDR.WebServer.Grammar
import Mathlib

/-!
# The integers of a browser request

`parse_value` reads a number with `g_ascii_strtoll`, which brings what is out of range of 64 bits
into it, and looks only at where the number ends. The members with a field of an `int` are checked
against its range afterwards, and so refused (`fitsInt_strtoll`), but `id` and `value` are stored as
they come. So the integers of an accepted request are those of its text if and only if the literals
under these two keys fit 64 bits (`integersRight_iff`).
-/

namespace MacHPSDR.WebServer

open FlatJson

/-! ## Literals -/

/-- The integer that is written. -/
def literal (negative : Bool) (digits : List UInt8) : ℤ :=
  let n : ℕ := Nat.ofDigits 10 (digits.reverse.map fun d => d.toNat - 48)
  if negative then -(n : ℤ) else n

/-- `G_MININT64` to `G_MAXINT64`. -/
def FitsInt64 (i : ℤ) : Prop := -2 ^ 63 ≤ i ∧ i ≤ 2 ^ 63 - 1

theorem foldl_digits (digits : List UInt8) (n : ℕ) :
    digits.foldl (fun n d => 10 * n + (d.toNat - 48)) n =
      Nat.ofDigits 10 (digits.reverse.map fun d => d.toNat - 48) + 10 ^ digits.length * n := by
  induction digits generalizing n with
  | nil => simp
  | cons d ds ih =>
    rw [List.foldl_cons, ih, List.reverse_cons, List.map_append, Nat.ofDigits_append,
      List.length_map, List.length_reverse, List.map_singleton, Nat.ofDigits_singleton,
      List.length_cons]
    ring

/-- The number that is read: the literal, brought into range. -/
theorem gAsciiStrtoll_eq (negative : Bool) (digits : List UInt8) :
    gAsciiStrtoll negative digits = max (-2 ^ 63) (min (2 ^ 63 - 1) (literal negative digits)) := by
  unfold gAsciiStrtoll literal
  rw [foldl_digits, Nat.mul_zero, Nat.add_zero]

theorem gAsciiStrtoll_eq_literal_iff (negative : Bool) (digits : List UInt8) :
    gAsciiStrtoll negative digits = literal negative digits ↔
      FitsInt64 (literal negative digits) := by
  rw [gAsciiStrtoll_eq]
  unfold FitsInt64
  omega

/-- What is out of range is read as a number that no `int` holds. -/
theorem fitsInt_strtoll {negative : Bool} {digits : List UInt8}
    (h : fitsInt (gAsciiStrtoll negative digits) = true) :
    FitsInt64 (literal negative digits) := by
  rw [gAsciiStrtoll_eq] at h
  unfold fitsInt at h
  have hrange := of_decide_eq_true h
  unfold FitsInt64
  omega

/-! ## The members with an integer -/

/-- The keys of the members that are stored as integers. -/
inductive IntegerKey
  | id | value | rx | low | high
  deriving DecidableEq

namespace IntegerKey

def key : IntegerKey → MemberKey
  | id => .id
  | value => .value
  | rx => .rx
  | low => .low
  | high => .high

/-- The type of the field: `gint64`, or `gint`. -/
def wide : IntegerKey → Bool
  | id | value => true
  | rx | low | high => false

/-- The range of the field. -/
def InRange (k : IntegerKey) (n : ℤ) : Prop :=
  if k.wide then FitsInt64 n else fitsInt n = true

end IntegerKey

/-- The field of a request. -/
def WebRequest.integer (r : WebRequest) : IntegerKey → ℤ
  | .id => r.id
  | .value => r.value
  | .rx => r.rx
  | .low => r.low
  | .high => r.high

/-- The text has a member with this key, and `n` is its literal. -/
def Writes (text : List UInt8) (k : IntegerKey) (n : ℤ) : Prop :=
  ∃ l : Layout, l.Loose ∧ l.render = text ∧ ∃ m ∈ l.members, m.key = k.key.name ∧
    ∃ negative digits, digits ≠ [] ∧ (∀ d ∈ digits, isDigit d) ∧
      m.value = .bare (minus negative ++ digits) ∧ n = literal negative digits

/-- The integers of the request are those of the text, and none is out of the range of its field. -/
def IntegersRight (text : List UInt8) : Prop :=
  ∀ r, webProtocolParse text = .ok r → ∀ k n, Writes text k n → k.InRange n ∧ r.integer k = n

/-! ## What is stored -/

/-- A sign and digits are read as an integer. -/
theorem Reads.literal {negative : Bool} {digits : List UInt8} (hne : digits ≠ [])
    (hdigits : ∀ d ∈ digits, isDigit d) {v : JsonValue}
    (h : Reads (.bare (minus negative ++ digits)) v) :
    v = .integer (gAsciiStrtoll negative digits) := by
  obtain ⟨d, ds, rfl⟩ := List.exists_cons_of_ne_nil hne
  have hd : isDigit d := hdigits d (by simp)
  have hhead := head_minus negative hd ds
  generalize hw : Value.bare (minus negative ++ d :: ds) = w at h
  cases h with
  | string => cases hw
  | boolTrue =>
    rw [Value.bare.inj hw] at hhead
    exact absurd (hhead 0x74 rfl) (by decide)
  | boolFalse =>
    rw [Value.bare.inj hw] at hhead
    exact absurd (hhead 0x66 rfl) (by decide)
  | integer negative' hne' hds' hlen' =>
    have hlen : (minus negative ++ d :: ds).length < 32 := by rwa [Value.bare.inj hw]
    have hown : Reads (.bare (minus negative ++ d :: ds)) _ := .integer negative hne hdigits hlen
    rw [hw] at hown
    exact (Reads.integer negative' hne' hds' hlen').unique hown

/-- A known member is in the fields at the end. -/
theorem StoresKnown.get {f g : Fields} {ps : List (MemberKey × Value)} (h : StoresKnown f ps g)
    {k : MemberKey} {w : Value} (hmem : (k, w) ∈ ps) :
    ∃ item, ItemReads k.name w item ∧ k.takes item = true ∧ g k = some item := by
  have hkept : ∀ {f g : Fields} {ps : List (MemberKey × Value)}, StoresKnown f ps g →
      ∀ j item, f j = some item → g j = some item := by
    intro f g ps h
    induction h with
    | nil => exact fun _ _ hj => hj
    | @cons f g k w item ps _ _ hnew _ ih =>
      intro j item' hj
      have hjk : j ≠ k := by
        rintro rfl
        simp [hnew] at hj
      exact ih j item' (by rwa [Function.update_of_ne hjk])
  induction h with
  | nil => cases hmem
  | @cons f g j w' item ps hread htakes _ hrest ih =>
    rcases List.mem_cons.1 hmem with heq | hmem
    · obtain ⟨rfl, rfl⟩ := Prod.mk.inj heq
      exact ⟨item, hread, htakes, hkept hrest k item (Function.update_self ..)⟩
    · exact ih hmem

/-- The literal that a text writes under a key is what the fields hold, as it is read. -/
theorem StoresKnown.literal {g : Fields} {ps : List (MemberKey × Value)}
    (h : StoresKnown .empty ps g) {k : IntegerKey} {negative : Bool} {digits : List UInt8}
    (hne : digits ≠ []) (hdigits : ∀ d ∈ digits, isDigit d)
    (hmem : (k.key, Value.bare (minus negative ++ digits)) ∈ ps) :
    g.integer k.key = some (gAsciiStrtoll negative digits) ∧
      k.key.takes (.value (.integer (gAsciiStrtoll negative digits))) = true := by
  obtain ⟨item, hread, htakes, hget⟩ := h.get hmem
  generalize hw : Value.bare (minus negative ++ digits) = w at hread
  cases hread with
  | span => cases hw
  | value _ hreads =>
    obtain rfl := (hw ▸ hreads).literal hne hdigits
    exact ⟨by rw [Fields.integer, hget], htakes⟩

/-! ## What is returned -/

/-- The checks of a request type leave the integers alone. -/
structure SameIntegers (out r : WebRequest) : Prop where
  id : r.id = out.id
  value : r.value = out.value
  rx : r.rx = out.rx
  low : r.low = out.low
  high : r.high = out.high

variable {f : Fields} {out r : WebRequest}

theorem SameIntegers.integer (h : SameIntegers out r) (k : IntegerKey) :
    r.integer k = out.integer k := by
  cases k with
  | id => exact h.id
  | value => exact h.value
  | rx => exact h.rx
  | low => exact h.low
  | high => exact h.high

theorem sameIntegers_commandAction {action : List UInt8} (h : commandAction out action = .ok r) :
    SameIntegers out r := by
  unfold commandAction at h
  split at h
  · obtain rfl := Except.ok.inj h
    exact ⟨rfl, rfl, rfl, rfl, rfl⟩
  · split at h
    · obtain rfl := Except.ok.inj h
      exact ⟨rfl, rfl, rfl, rfl, rfl⟩
    · split at h
      · obtain rfl := Except.ok.inj h
        exact ⟨rfl, rfl, rfl, rfl, rfl⟩
      · cases h

theorem commandValues_eq (h : commandValues f out = .ok r) : r = out := by
  unfold commandValues at h
  dsimp only at h
  split_ifs at h <;> exact (Except.ok.inj h).symm

theorem sameIntegers_rtcCandidate (h : rtcCandidate f out = .ok r) : SameIntegers out r := by
  unfold rtcCandidate at h
  split at h
  · cases h
  · split at h
    · cases h
    · split at h
      · obtain rfl := Except.ok.inj h
        exact ⟨rfl, rfl, rfl, rfl, rfl⟩
      · split at h
        · cases h
        · obtain rfl := Except.ok.inj h
          exact ⟨rfl, rfl, rfl, rfl, rfl⟩

theorem sameIntegers_rtcAnswer (h : rtcAnswer f out = .ok r) : SameIntegers out r := by
  unfold rtcAnswer at h
  split at h
  · cases h
  · split at h
    · cases h
    · obtain rfl := Except.ok.inj h
      exact ⟨rfl, rfl, rfl, rfl, rfl⟩

theorem sameIntegers_receiverRequest {type : List UInt8}
    (h : receiverRequest f out type = .ok r) : SameIntegers out r := by
  have hplain {s : WebRequestType}
      (h : (Except.ok { out with type := s } : Except ParseError WebRequest) = .ok r) :
      SameIntegers out r := by
    obtain rfl := Except.ok.inj h
    exact ⟨rfl, rfl, rfl, rfl, rfl⟩
  unfold receiverRequest at h
  dsimp only at h
  split_ifs at h
  · split at h
    · obtain rfl := Except.ok.inj h
      exact ⟨rfl, rfl, rfl, rfl, rfl⟩
    · cases h
  · exact hplain h
  · exact hplain h
  · exact hplain h
  · exact hplain h
  · exact sameIntegers_rtcAnswer h
  · exact sameIntegers_rtcCandidate h
  · cases haction : commandAction out (f.text .action 64) with
    | error e =>
      rw [haction] at h
      cases h
    | ok out' =>
      rw [haction] at h
      obtain rfl := commandValues_eq (show commandValues f out' = .ok r from h)
      exact sameIntegers_commandAction haction

/-- `web_protocol_parse` returns the integers it has stored. -/
theorem sameIntegers_webRequest (h : webRequest f = .ok r) : SameIntegers f.out r := by
  unfold webRequest at h
  dsimp only at h
  split_ifs at h
  split at h
  · obtain rfl := Except.ok.inj h
    exact ⟨rfl, rfl, rfl, rfl, rfl⟩
  · exact sameIntegers_receiverRequest h

theorem out_integer {k : IntegerKey} {n : ℤ} (h : f.integer k.key = some n) :
    f.out.integer k = n := by
  cases k <;> exact (congrArg (Option.getD · _) h : (f.integer _).getD _ = (some n).getD _)

/-- **The integer of a member** is the literal brought into 64 bits, which then fits its field. -/
theorem integer_of_writes {text : List UInt8} (h : webProtocolParse text = .ok r) {k : IntegerKey}
    {n : ℤ} (hn : Writes text k n) :
    r.integer k = max (-2 ^ 63) (min (2 ^ 63 - 1) n) ∧
      (k.wide = false → fitsInt (r.integer k) = true) := by
  obtain ⟨l, hloose, rfl, m, hm, hkey, negative, digits, hne, hdigits, hvalue, rfl⟩ := hn
  obtain ⟨l', f, heq, hl', -, hstores, hr⟩ := webProtocolParse_iff.1 h
  obtain ⟨hread, hknown⟩ := stores_iff.1 hstores
  obtain rfl := Layout.render_inj hloose (loose_of_readable hl' hread) heq.symm
  have hmem : (k.key, Value.bare (minus negative ++ digits)) ∈ l.members.filterMap known := by
    refine List.mem_filterMap.2 ⟨m, hm, ?_⟩
    rw [known, memberKey?_eq_some.2 hkey, Option.map_some, hvalue]
  obtain ⟨hget, htakes⟩ := hknown.literal hne hdigits hmem
  have hint : r.integer k = gAsciiStrtoll negative digits :=
    ((sameIntegers_webRequest hr).integer k).trans (out_integer hget)
  refine ⟨hint.trans (gAsciiStrtoll_eq negative digits), fun hwide => ?_⟩
  rw [hint]
  cases k with
  | id => cases hwide
  | value => cases hwide
  | rx => exact htakes
  | low => exact htakes
  | high => exact htakes

/-- **The integers of an accepted request** are those of its text if and only if the literals of its
`id` and `value` fit 64 bits. -/
theorem integersRight_iff {text : List UInt8} (h : webProtocolParse text = .ok r) :
    IntegersRight text ↔ ∀ k : IntegerKey, k.wide = true → ∀ n, Writes text k n → FitsInt64 n := by
  constructor
  · intro hright k hwide n hn
    have hrange := (hright r h k n hn).1
    rwa [IntegerKey.InRange, if_pos hwide] at hrange
  · intro hfits r' hr' k n hn
    obtain rfl := Except.ok.inj (h.symm.trans hr')
    obtain ⟨hint, hnarrow⟩ := integer_of_writes h hn
    unfold IntegerKey.InRange
    cases hwide : k.wide with
    | true =>
      have hn' := hfits k hwide n hn
      rw [if_pos rfl, hint]
      unfold FitsInt64 at hn' ⊢
      omega
    | false =>
      have hfield := hnarrow hwide
      rw [if_neg Bool.false_ne_true]
      have hrange := of_decide_eq_true (show decide (_ ∧ _) = true from hfield)
      have hsame : r.integer k = n := by omega
      exact ⟨hsame ▸ hfield, hsame⟩

/-! ## A request with a large number -/

/-- `{"type":"get_state","id":9223372036854775808}` -/
def largeId : Layout :=
  ⟨[], [stringMember "type" "get_state"], .member (bareMember "id" "9223372036854775808"), []⟩

theorem loose_largeId : largeId.Loose where
  before := nofun
  init m hm := by
    obtain rfl := List.mem_singleton.1 hm
    exact ⟨nofun, Plain.body (s := ascii "type") (by decide), nofun, nofun,
      Plain.body (s := ascii "get_state") (by decide), nofun⟩
  last := ⟨nofun, Plain.body (s := ascii "id") (by decide), nofun, nofun,
    ⟨by decide, List.all_eq_true.1 (by decide)⟩, nofun⟩
  after := nofun

/-- The request with the number 1 is returned as it is written. -/
theorem integersRight_iff_getState : IntegersRight (getState false).render := by
  obtain ⟨r, hr⟩ := parse_getState false
  refine (integersRight_iff hr).2 ?_
  rintro k hwide n ⟨l, hl, heq, m, hm, hkey, negative, digits, -, -, hvalue, rfl⟩
  have hloose := loose_of_readable (spacesLoose_getState false) (readable_getState false)
  obtain rfl := Layout.render_inj hl hloose heq
  obtain rfl | rfl := mem_getState hm
  · cases hvalue
  · cases negative with
    | true => cases hvalue
    | false =>
      cases hvalue
      exact ⟨by decide, by decide⟩

/-- A number of 64 bits and one more becomes the largest one. -/
theorem not_integersRight :
    (∃ r, webProtocolParse largeId.render = .ok r ∧ r.id = 9223372036854775807) ∧
      ¬ IntegersRight largeId.render := by
  have hparse : ∃ r, webProtocolParse largeId.render = .ok r ∧ r.id = 9223372036854775807 :=
    ⟨_, rfl, by decide⟩
  refine ⟨hparse, fun h => ?_⟩
  obtain ⟨r, hr, -⟩ := hparse
  have hwrites : Writes largeId.render .id
      (WebServer.literal false (ascii "9223372036854775808")) :=
    ⟨largeId, loose_largeId, rfl, bareMember "id" "9223372036854775808", by decide, rfl, false,
      ascii "9223372036854775808", by decide, List.all_eq_true.1 (by decide), rfl, rfl⟩
  have hfits : FitsInt64 (WebServer.literal false (ascii "9223372036854775808")) :=
    (h r hr .id _ hwrites).1
  exact absurd hfits.2 (by decide)

end MacHPSDR.WebServer
