import MacHPSDR.WebServer.Integers
import Mathlib

/-!
# What a parse leaves behind

A text that is refused leaves no string in the request, and what was allocated for it has been
released; one that is accepted gives the request all that its type needs (`Complete`).

Strings are allocated for `rtc_answer` and `rtc_candidate` alone. `rtcAnswerHeap` and
`rtcCandidateHeap` are these two with the strings on the heap beside the request.
-/

namespace MacHPSDR.WebServer

open FlatJson

/-! ## The heap -/

/-- The strings that a request owns. -/
def WebRequest.strings (r : WebRequest) : List (List UInt8) :=
  r.sdp.toList ++ r.candidate.toList ++ r.mid.toList

theorem strings_eq_nil {r : WebRequest} :
    r.strings = [] ↔ r.sdp = none ∧ r.candidate = none ∧ r.mid = none := by
  simp [WebRequest.strings]

/-- The request so far, and the strings that are allocated. -/
structure Heap where
  out : WebRequest
  live : List (List UInt8)

theorem diff_self {α : Type*} [BEq α] [LawfulBEq α] (l : List α) : l.diff l = [] := by
  induction l with
  | nil => rfl
  | cons a l ih => rw [List.diff_cons, List.erase_cons_head, ih]

namespace Heap

/-- `web_request_clear` -/
def clear (s : Heap) : Heap := ⟨webRequestClear s.out, s.live.diff s.out.strings⟩

/-- Everything that is allocated is owned by the request. -/
def Owned (s : Heap) : Prop := s.live.Perm s.out.strings

theorem Owned.clear {s : Heap} (h : s.Owned) : s.clear.live = [] ∧ s.clear.out.strings = [] := by
  have hdiff : (s.live.diff s.out.strings).Perm (s.out.strings.diff s.out.strings) :=
    h.diff_right _
  rw [diff_self] at hdiff
  exact ⟨hdiff.eq_nil, strings_eq_nil.2 ⟨rfl, rfl, rfl⟩⟩

end Heap

/-- `rtc_answer` -/
def rtcAnswerHeap (f : Fields) (s : Heap) : Except (String × Heap) Heap :=
  match f.span .sdp with
  | none => .error ("missing sdp", s)
  | some tok =>
    match jsonUnescape tok with
    -- `json_unescape` has freed its own buffer
    | none => .error ("invalid sdp escape", s)
    | some sdp => .ok ⟨{ s.out with type := .rtcAnswer, sdp := some sdp }, sdp :: s.live⟩

/-- `rtc_candidate` -/
def rtcCandidateHeap (f : Fields) (s : Heap) : Except (String × Heap) Heap :=
  match f.span .candidate with
  | none => .error ("missing candidate", s)
  | some tok =>
    match jsonUnescape tok with
    | none => .error ("invalid candidate escape", s)
    | some candidate =>
      let s : Heap := ⟨{ s.out with candidate := some candidate }, candidate :: s.live⟩
      match f.span .mid with
      | none => .ok { s with out := { s.out with type := .rtcCandidate } }
      | some tok =>
        match jsonUnescape tok with
        | none => .error ("invalid mid escape", s.clear)
        | some mid => .ok ⟨{ s.out with type := .rtcCandidate, mid := some mid }, mid :: s.live⟩

/-- The result is that of the parser, and nothing is allocated that the request does not own; where
it is a refusal, nothing is allocated. -/
def Accounts (result : Except ParseError WebRequest) : Except (String × Heap) Heap → Prop
  | .ok s => result = .ok s.out ∧ s.Owned
  | .error (message, s) => result = .error ⟨message, s.out⟩ ∧ s.live = [] ∧ s.out.strings = []

theorem rtcAnswer_accounts (f : Fields) {out : WebRequest} (hout : out.strings = []) :
    Accounts (rtcAnswer f out) (rtcAnswerHeap f ⟨out, []⟩) := by
  obtain ⟨-, hcandidate, hmid⟩ := strings_eq_nil.1 hout
  unfold rtcAnswer rtcAnswerHeap
  cases f.span .sdp with
  | none => exact ⟨rfl, rfl, hout⟩
  | some tok =>
    dsimp only
    cases jsonUnescape tok with
    | none => exact ⟨rfl, rfl, hout⟩
    | some sdp =>
      refine ⟨rfl, ?_⟩
      rw [Heap.Owned, WebRequest.strings, hcandidate, hmid]
      exact .refl _

theorem rtcCandidate_accounts (f : Fields) {out : WebRequest} (hout : out.strings = []) :
    Accounts (rtcCandidate f out) (rtcCandidateHeap f ⟨out, []⟩) := by
  obtain ⟨hsdp, -, hmid⟩ := strings_eq_nil.1 hout
  unfold rtcCandidate rtcCandidateHeap
  cases f.span .candidate with
  | none => exact ⟨rfl, rfl, hout⟩
  | some tok =>
    dsimp only
    cases jsonUnescape tok with
    | none => exact ⟨rfl, rfl, hout⟩
    | some candidate =>
      have howned : Heap.Owned ⟨{ out with candidate := some candidate }, [candidate]⟩ := by
        rw [Heap.Owned, WebRequest.strings, hsdp, hmid]
        exact .refl _
      dsimp only
      cases f.span .mid with
      | none => exact ⟨rfl, howned⟩
      | some tok =>
        dsimp only
        cases jsonUnescape tok with
        | none => exact ⟨rfl, howned.clear⟩
        | some mid =>
          refine ⟨rfl, ?_⟩
          rw [Heap.Owned, WebRequest.strings, hsdp]
          exact List.Perm.swap _ _ _

/-! ## Refusals -/

theorem strings_out (f : Fields) : f.out.strings = [] := rfl

theorem parseMembers_refused {n : ℕ} {p : List UInt8} {f : Fields} {e : ParseError}
    (h : parseMembers n p f = .error e) : e.out.strings = [] := by
  induction n generalizing p f with
  | zero =>
    obtain rfl := Except.error.inj h
    exact strings_out f
  | succ n ih =>
    rw [parseMembers] at h
    dsimp only at h
    split_ifs at h
    split at h
    · obtain rfl := Except.error.inj h
      exact strings_out f
    · split_ifs at h
      · obtain rfl := Except.error.inj h
        exact strings_out f
      · split at h
        · obtain rfl := Except.error.inj h
          exact strings_out f
        · split at h
          · obtain rfl := Except.error.inj h
            exact strings_out f
          · split_ifs at h
            · exact ih h
            · obtain rfl := Except.error.inj h
              exact strings_out _

theorem Accounts.refused {result : Except ParseError WebRequest}
    {heap : Except (String × Heap) Heap} (h : Accounts result heap) {e : ParseError}
    (he : result = .error e) : e.out.strings = [] := by
  cases heap with
  | ok s =>
    rw [he] at h
    cases h.1
  | error s =>
    obtain ⟨heq, -, hstrings⟩ := h
    rw [he] at heq
    rw [Except.error.inj heq]
    exact hstrings

theorem commandAction_refused {out : WebRequest} {action : List UInt8} {e : ParseError}
    (h : commandAction out action = .error e) : e.out = out := by
  unfold commandAction at h
  split at h
  · cases h
  · split at h
    · cases h
    · split at h
      · cases h
      · rw [← Except.error.inj h]

theorem commandAction_strings {out out' : WebRequest} {action : List UInt8}
    (h : commandAction out action = .ok out') : out'.strings = out.strings := by
  unfold commandAction at h
  split at h
  · rw [← Except.ok.inj h]
    rfl
  · split at h
    · rw [← Except.ok.inj h]
      rfl
    · split at h
      · rw [← Except.ok.inj h]
        rfl
      · cases h

theorem commandValues_refused {f : Fields} {out : WebRequest} {e : ParseError}
    (h : commandValues f out = .error e) : e.out = out := by
  unfold commandValues at h
  dsimp only at h
  split_ifs at h <;> rw [← Except.error.inj h]

theorem receiverRequest_refused {f : Fields} {out : WebRequest} (hout : out.strings = [])
    {type : List UInt8} {e : ParseError} (h : receiverRequest f out type = .error e) :
    e.out.strings = [] := by
  have hsame {message : String}
      (h : (Except.error ⟨message, out⟩ : Except ParseError WebRequest) = .error e) :
      e.out.strings = [] := by
    rw [← Except.error.inj h]
    exact hout
  unfold receiverRequest at h
  dsimp only at h
  split_ifs at h
  · exact hsame h
  · split at h
    · cases h
    · exact hsame h
  · exact hsame h
  · exact hsame h
  · exact hsame h
  · exact hsame h
  · exact hsame h
  · exact hsame h
  · exact (rtcAnswer_accounts f hout).refused h
  · exact hsame h
  · exact (rtcCandidate_accounts f hout).refused h
  · exact hsame h
  · cases haction : commandAction out (f.text .action 64) with
    | error e' =>
      rw [haction] at h
      rw [← Except.error.inj (show Except.error e' = .error e from h),
        commandAction_refused haction]
      exact hout
    | ok out' =>
      rw [haction] at h
      rw [commandValues_refused (show commandValues f out' = .error e from h),
        commandAction_strings haction]
      exact hout

/-- **A refusal leaves no string behind.** -/
theorem webProtocolParse_refused {text : List UInt8} {e : ParseError}
    (h : webProtocolParse text = .error e) : e.out.strings = [] := by
  have hsame {f : Fields} {message : String}
      (h : (Except.error ⟨message, f.out⟩ : Except ParseError WebRequest) = .error e) :
      e.out.strings = [] := by
    rw [← Except.error.inj h]
    exact strings_out f
  unfold webProtocolParse at h
  dsimp only at h
  split_ifs at h
  · exact hsame h
  · exact hsame h
  · split at h
    · rename_i e' hmembers
      rw [← Except.error.inj h]
      exact parseMembers_refused hmembers
    · split_ifs at h
      · exact hsame h
      · unfold webRequest at h
        dsimp only at h
        split_ifs at h
        · exact hsame h
        · exact hsame h
        · exact hsame h
        · split at h
          · cases h
          · exact receiverRequest_refused (strings_out _) h

/-! ## What a type needs -/

section
variable (gives : MemberKey → Item → Prop)

/-- The receiver is given. -/
def GivesRx (r : WebRequest) : Prop :=
  gives .rx (.value (.integer r.rx)) ∧ fitsInt r.rx = true

def GivesInteger (r : WebRequest) : Prop := gives .value (.value (.integer r.value))

def GivesBoolean (r : WebRequest) : Prop := gives .value (.value (.boolean r.flag))

/-- The action is the name of the entry. -/
def GivesAction {α : Type} (table : List (String × α)) (x : α) : Prop :=
  ∃ s, gives .action (.value (.string s)) ∧ lookupName table (s.take 63) = some x

/-- What a request needs for its type. -/
def Needs (r : WebRequest) : Prop :=
  match r.type with
  | .invalid => False
  | .getState | .leaseAcquire | .leaseRenew | .leaseRelease | .controlAcquire | .controlRenew
  | .controlRelease => True
  | .spectrumSubscribe => GivesRx gives r ∧ ∃ s, gives .profile (.value (.string s)) ∧
      webSpectrumProfileParse (s.take 31) = some r.profile
  | .spectrumUnsubscribe | .audioSubscribe | .audioUnsubscribe => GivesRx gives r
  | .audioFeedback => GivesRx gives r ∧ GivesInteger gives r ∧ 0 ≤ r.value ∧ r.value ≤ 100
  | .rtcAnswer => GivesRx gives r ∧
      ∃ tok, gives .sdp (.span tok) ∧ r.sdp.isSome = true ∧ r.sdp = jsonUnescape tok
  | .rtcCandidate => GivesRx gives r ∧ (∃ tok, gives .candidate (.span tok) ∧
      r.candidate.isSome = true ∧ r.candidate = jsonUnescape tok) ∧
      ∀ tok, gives .mid (.span tok) → r.mid.isSome = true ∧ r.mid = jsonUnescape tok
  | .setFrequency | .setMode =>
    GivesRx gives r ∧ GivesInteger gives r ∧ GivesAction gives commandTypes r.type
  | .setMox | .setTune => GivesBoolean gives r ∧ GivesAction gives commandTypes r.type
  | .setFilter => GivesRx gives r ∧ gives .low (.value (.integer r.low)) ∧
      gives .high (.value (.integer r.high)) ∧ r.low < r.high ∧
      GivesAction gives commandTypes r.type
  | .setControl => GivesRx gives r ∧ GivesInteger gives r ∧ r.control ≠ .none ∧
      GivesAction gives controls r.control
  | .setTxControl => GivesInteger gives r ∧ r.txControl ≠ .none ∧
      GivesAction gives txControls r.txControl

/-- The request has all that its type needs. -/
structure Complete (r : WebRequest) : Prop where
  type : ∃ s, gives .type (.value (.string s))
  id : gives .id (.value (.integer r.id)) ∧ 0 ≤ r.id
  force : (∃ item, gives .force item) → r.type = .controlAcquire
  needs : Needs gives r

end

/-! ## Accepted requests -/

/-- The values that are stored have been taken for their keys. -/
def Typed (f : Fields) : Prop := ∀ k item, f k = some item → k.takes item = true

/-- What the fields hold. -/
def Holds (f : Fields) (k : MemberKey) (item : Item) : Prop := f k = some item

variable {f : Fields}

theorem Typed.integer (hf : Typed f) {k : MemberKey}
    (hk : k = .id ∨ k = .rx ∨ k = .low ∨ k = .high) (h : (f k).isSome = true) :
    Holds f k (.value (.integer ((f.integer k).getD 0))) ∧ (f.integer k).isSome = true := by
  obtain ⟨item, hitem⟩ := Option.isSome_iff_exists.1 h
  have htakes := hf k item hitem
  have hint : ∃ i, item = .value (.integer i) := by
    rcases hk with rfl | rfl | rfl | rfl <;> revert htakes <;>
      rcases item with (s | i | b) | tok <;> simp [MemberKey.takes]
  obtain ⟨i, rfl⟩ := hint
  have heq : f.integer k = some i := by rw [Fields.integer, hitem]
  rw [heq]
  exact ⟨hitem, rfl⟩

theorem Typed.rx (hf : Typed f) (h : (f .rx).isSome = true) :
    Holds f .rx (.value (.integer f.out.rx)) ∧ fitsInt f.out.rx = true := by
  obtain ⟨hholds, hsome⟩ := hf.integer (.inr (.inl rfl)) h
  obtain ⟨i, hi⟩ := Option.isSome_iff_exists.1 hsome
  have hrx : f.out.rx = i := by
    rw [Fields.out, hi]
    rfl
  rw [hi] at hholds
  rw [hrx]
  exact ⟨hholds, hf .rx _ hholds⟩

theorem Typed.value (hf : Typed f) (h : (f .value).isSome = true) :
    if f.out.valueIsBool then Holds f .value (.value (.boolean f.out.flag))
    else Holds f .value (.value (.integer f.out.value)) := by
  obtain ⟨item, hitem⟩ := Option.isSome_iff_exists.1 h
  have htakes := hf .value item hitem
  have hkinds : (∃ i, item = .value (.integer i)) ∨ ∃ b, item = .value (.boolean b) := by
    revert htakes
    rcases item with (s | i | b) | tok <;> simp [MemberKey.takes]
  unfold Fields.out Fields.integer Fields.boolean Holds
  rcases hkinds with ⟨i, rfl⟩ | ⟨b, rfl⟩
  · rw [hitem]
    rfl
  · rw [hitem]
    rfl

theorem Typed.value_integer (hf : Typed f) (h : (f .value).isSome = true)
    (hbool : f.out.valueIsBool = false) : Holds f .value (.value (.integer f.out.value)) := by
  have hvalue := hf.value h
  rwa [hbool, if_neg Bool.false_ne_true] at hvalue

theorem Typed.value_boolean (hf : Typed f) (h : (f .value).isSome = true)
    (hbool : f.out.valueIsBool = true) : Holds f .value (.value (.boolean f.out.flag)) := by
  have hvalue := hf.value h
  rwa [hbool, if_pos rfl] at hvalue

/-- A text that is not empty is that of a member. -/
theorem holds_of_text {k : MemberKey} {size : ℕ} (h : f.text k size ≠ []) :
    ∃ s, Holds f k (.value (.string s)) ∧ f.text k size = s.take (size - 1) := by
  unfold Fields.text at h ⊢
  split at h
  · rename_i s hs
    exact ⟨s, hs, rfl⟩
  · exact absurd rfl h

theorem lookupName_nil {α : Type*} {table : List (String × α)}
    (htable : ∀ e ∈ table, ascii e.1 ≠ []) : lookupName table [] = none := by
  rw [lookupName, Option.map_eq_none_iff, List.find?_eq_none]
  exact fun e he => by simpa using htable e he

theorem mem_of_lookupName {α : Type*} {table : List (String × α)} {name : List UInt8} {x : α}
    (h : lookupName table name = some x) : ∃ e ∈ table, e.2 = x := by
  obtain ⟨e, he, rfl⟩ := Option.map_eq_some_iff.1 h
  exact ⟨e, List.mem_of_find?_eq_some he, rfl⟩

/-- The action that has been found in a table is given. -/
theorem givesAction {α : Type} {table : List (String × α)} (htable : ∀ e ∈ table, ascii e.1 ≠ [])
    {x : α} (h : lookupName table (f.text .action 64) = some x) :
    GivesAction (Holds f) table x := by
  have hne : f.text .action 64 ≠ [] := by
    intro hnil
    rw [hnil, lookupName_nil htable] at h
    cases h
  obtain ⟨s, hs, htext⟩ := holds_of_text hne
  rw [htext] at h
  exact ⟨s, hs, h⟩

theorem holds_of_span {k : MemberKey} {tok : List UInt8} :
    f.span k = some tok ↔ Holds f k (.span tok) := by
  unfold Fields.span Holds
  constructor
  · intro h
    split at h
    · rename_i tok' htok
      rw [htok, Option.some.inj h]
    · cases h
  · intro h
    rw [h]

/-! ### One type after the other -/

variable {out r : WebRequest}

theorem needs_plain {name : List UInt8} {type : WebRequestType}
    (h : lookupName plainTypes name = some type) : Needs (Holds f) { out with type := type } := by
  obtain ⟨e, he, rfl⟩ := mem_of_lookupName h
  have hplain : ∀ e ∈ plainTypes, e.2 ∈ [WebRequestType.getState, .leaseAcquire, .leaseRenew,
      .leaseRelease, .controlAcquire, .controlRenew, .controlRelease] := by decide
  have hmem := hplain e he
  generalize e.2 = type at hmem
  simp only [List.mem_cons, List.not_mem_nil, or_false] at hmem
  rcases hmem with rfl | rfl | rfl | rfl | rfl | rfl | rfl <;> trivial

theorem needs_rtcAnswer (hf : Typed f) (hrx : (f .rx).isSome = true)
    (h : rtcAnswer f f.out = .ok r) : Needs (Holds f) r := by
  unfold rtcAnswer at h
  split at h
  · cases h
  · rename_i tok htok
    split at h
    · cases h
    · rename_i sdp hsdp
      rw [← Except.ok.inj h]
      exact ⟨hf.rx hrx, tok, holds_of_span.1 htok, rfl, hsdp.symm⟩

theorem needs_rtcCandidate (hf : Typed f) (hrx : (f .rx).isSome = true)
    (h : rtcCandidate f f.out = .ok r) : Needs (Holds f) r := by
  unfold rtcCandidate at h
  split at h
  · cases h
  · rename_i tok htok
    split at h
    · cases h
    · rename_i candidate hcandidate
      split at h
      · rename_i hmid
        rw [← Except.ok.inj h]
        refine ⟨hf.rx hrx, ⟨tok, holds_of_span.1 htok, rfl, hcandidate.symm⟩, fun tok' htok' => ?_⟩
        rw [holds_of_span.2 htok'] at hmid
        cases hmid
      · rename_i tok' hmid
        split at h
        · cases h
        · rename_i mid hunescape
          rw [← Except.ok.inj h]
          refine ⟨hf.rx hrx, ⟨tok, holds_of_span.1 htok, rfl, hcandidate.symm⟩, fun t ht => ?_⟩
          obtain rfl := Option.some.inj (hmid.symm.trans (holds_of_span.2 ht))
          exact ⟨rfl, hunescape.symm⟩

/-- What is known of a command when its values are checked. -/
theorem commandAction_ok {action : List UInt8} (h : commandAction out action = .ok r) :
    (∃ type, lookupName commandTypes action = some type ∧ r = { out with type := type }) ∨
    (∃ control, lookupName txControls action = some control ∧
      r = { out with type := .setTxControl, txControl := control }) ∨
    ∃ control, lookupName controls action = some control ∧
      r = { out with type := .setControl, control := control } := by
  unfold commandAction at h
  split at h
  · rename_i type htype
    exact .inl ⟨type, htype, (Except.ok.inj h).symm⟩
  · split at h
    · rename_i control hcontrol
      exact .inr (.inl ⟨control, hcontrol, (Except.ok.inj h).symm⟩)
    · split at h
      · rename_i control hcontrol
        exact .inr (.inr ⟨control, hcontrol, (Except.ok.inj h).symm⟩)
      · cases h

theorem isSome_of_not_isNone {α : Type*} {o : Option α} (h : ¬ o.isNone = true) :
    o.isSome = true :=
  Option.isSome_iff_ne_none.2 fun hnone => h (Option.isNone_iff_eq_none.2 hnone)

theorem commandValues_filter (htype : out.type = .setFilter) (h : commandValues f out = .ok r) :
    (f .rx).isSome = true ∧ (f .low).isSome = true ∧ (f .high).isSome = true ∧
      out.low < out.high := by
  unfold commandValues at h
  dsimp only at h
  rw [if_pos htype] at h
  split_ifs at h with hrx hedges
  simp only [not_or, not_le, ge_iff_le] at hedges
  exact ⟨isSome_of_not_isNone hrx, isSome_of_not_isNone hedges.1, isSome_of_not_isNone hedges.2.1,
    hedges.2.2⟩

/-- `set_mox` and `set_tune` -/
theorem commandValues_keys (htype : out.type = .setMox ∨ out.type = .setTune)
    (h : commandValues f out = .ok r) :
    (f .value).isSome = true ∧ out.valueIsBool = true := by
  have hfilter : out.type ≠ .setFilter := by rcases htype with h | h <;> rw [h] <;> decide
  unfold commandValues at h
  dsimp only at h
  rw [if_neg hfilter] at h
  split_ifs at h with hvalue hbool
  have hbool' : ¬ (!out.valueIsBool) = true := fun hb => hbool ⟨htype, hb⟩
  exact ⟨isSome_of_not_isNone hvalue, by simpa using hbool'⟩

/-- The other commands. -/
theorem commandValues_numeric (type : WebRequestType) (htype : out.type = type)
    (hnumeric : type ∉ [WebRequestType.setFilter, .setMox, .setTune])
    (h : commandValues f out = .ok r) :
    (f .value).isSome = true ∧ out.valueIsBool = false ∧
      (type ≠ .setTxControl → (f .rx).isSome = true) := by
  simp only [List.mem_cons, List.not_mem_nil, or_false, not_or] at hnumeric
  obtain ⟨hfilter, hmox, htune⟩ := hnumeric
  have hkeys : ¬ (out.type = .setMox ∨ out.type = .setTune) :=
    not_or.2 ⟨htype ▸ hmox, htype ▸ htune⟩
  unfold commandValues at h
  dsimp only at h
  rw [if_neg (htype ▸ hfilter)] at h
  split_ifs at h with hvalue _ hbool hrx
  refine ⟨isSome_of_not_isNone hvalue, ?_, fun htx => ?_⟩
  · exact Bool.eq_false_iff.2 fun hb => hbool ⟨hkeys, hb⟩
  · exact isSome_of_not_isNone fun hnone => hrx ⟨hkeys, htype ▸ htx, hnone⟩

theorem needs_filter (hf : Typed f) (hout : out = { f.out with type := .setFilter })
    (haction : GivesAction (Holds f) commandTypes .setFilter)
    (h : commandValues f out = .ok r) : Needs (Holds f) out := by
  subst hout
  obtain ⟨hrx, hlow, hhigh, hlt⟩ := commandValues_filter rfl h
  exact ⟨hf.rx hrx, (hf.integer (.inr (.inr (.inl rfl))) hlow).1,
    (hf.integer (.inr (.inr (.inr rfl))) hhigh).1, hlt, haction⟩

theorem needs_command (hf : Typed f)
    (h : (commandAction f.out (f.text .action 64)).bind (commandValues f) = .ok r) :
    Needs (Holds f) r := by
  cases haction : commandAction f.out (f.text .action 64) with
  | error e =>
    rw [haction] at h
    cases h
  | ok out =>
    rw [haction] at h
    replace h : commandValues f out = .ok r := h
    obtain rfl := commandValues_eq h
    obtain ⟨type, htype, rfl⟩ | ⟨control, hcontrol, rfl⟩ | ⟨control, hcontrol, rfl⟩ :=
      commandAction_ok haction
    · have hgiven := givesAction (by decide) htype
      obtain ⟨e, he, rfl⟩ := mem_of_lookupName htype
      have hcommands : ∀ e ∈ commandTypes,
          e.2 ∈ [WebRequestType.setFrequency, .setMode, .setMox, .setTune, .setFilter] := by decide
      have hmem := hcommands e he
      clear haction htype he
      generalize e.2 = type at hmem h hgiven
      simp only [List.mem_cons, List.not_mem_nil, or_false] at hmem
      rcases hmem with rfl | rfl | rfl | rfl | rfl
      · obtain ⟨hvalue, hbool, hrx⟩ := commandValues_numeric .setFrequency rfl (by decide) h
        exact ⟨hf.rx (hrx (by decide)), hf.value_integer hvalue hbool, hgiven⟩
      · obtain ⟨hvalue, hbool, hrx⟩ := commandValues_numeric .setMode rfl (by decide) h
        exact ⟨hf.rx (hrx (by decide)), hf.value_integer hvalue hbool, hgiven⟩
      · obtain ⟨hvalue, hbool⟩ := commandValues_keys (.inl rfl) h
        exact ⟨hf.value_boolean hvalue hbool, hgiven⟩
      · obtain ⟨hvalue, hbool⟩ := commandValues_keys (.inr rfl) h
        exact ⟨hf.value_boolean hvalue hbool, hgiven⟩
      · exact needs_filter hf rfl hgiven h
    · obtain ⟨hvalue, hbool, -⟩ := commandValues_numeric .setTxControl rfl (by decide) h
      have hgiven := givesAction (f := f) (by decide) hcontrol
      obtain ⟨e, he, rfl⟩ := mem_of_lookupName hcontrol
      have hne : ∀ e ∈ txControls, e.2 ≠ .none := by decide
      exact ⟨hf.value_integer hvalue hbool, hne e he, hgiven⟩
    · obtain ⟨hvalue, hbool, hrx⟩ := commandValues_numeric .setControl rfl (by decide) h
      have hgiven := givesAction (f := f) (by decide) hcontrol
      obtain ⟨e, he, rfl⟩ := mem_of_lookupName hcontrol
      have hne : ∀ e ∈ controls, e.2 ≠ .none := by decide
      exact ⟨hf.rx (hrx (by decide)), hf.value_integer hvalue hbool, hne e he, hgiven⟩

/-- `audio_feedback` -/
theorem needs_feedback (hf : Typed f) (hrx : (f .rx).isSome = true)
    (hvalue : ¬ ((f .value).isNone = true ∨ f.out.valueIsBool = true ∨ f.out.value < 0 ∨
      f.out.value > 100)) : Needs (Holds f) { f.out with type := .audioFeedback } := by
  simp only [not_or, not_lt, gt_iff_lt] at hvalue
  obtain ⟨hsome, hbool, hlow, hhigh⟩ := hvalue
  have hgiven := hf.value_integer (isSome_of_not_isNone hsome) (by simpa using hbool)
  exact ⟨hf.rx hrx, hgiven, hlow, hhigh⟩

theorem needs_spectrum {profile : SpectrumProfile} (hf : Typed f) (hrx : (f .rx).isSome = true)
    (h : webSpectrumProfileParse (f.text .profile 32) = some profile) :
    Needs (Holds f) { f.out with type := .spectrumSubscribe, profile := profile } := by
  have hne : f.text .profile 32 ≠ [] := by
    intro hnil
    rw [hnil] at h
    cases h
  obtain ⟨s, hs, htext⟩ := holds_of_text hne
  rw [htext] at h
  exact ⟨hf.rx hrx, s, hs, h⟩

theorem needs_receiverRequest (hf : Typed f) {type : List UInt8}
    (h : receiverRequest f f.out type = .ok r) : Needs (Holds f) r := by
  have hgiven {b : Bool} (hrx : ¬ (!b) = true) : b = true := by simpa using hrx
  unfold receiverRequest at h
  dsimp only at h
  split_ifs at h with _ hrx _ hrx _ hrx _ hrx _ hrx hvalue _ hrx _ hrx
  · split at h
    · rename_i profile hprofile
      rw [← Except.ok.inj h]
      exact needs_spectrum hf (hgiven hrx) hprofile
    · cases h
  · rw [← Except.ok.inj h]
    exact hf.rx (hgiven hrx)
  · rw [← Except.ok.inj h]
    exact hf.rx (hgiven hrx)
  · rw [← Except.ok.inj h]
    exact hf.rx (hgiven hrx)
  · rw [← Except.ok.inj h]
    exact needs_feedback hf (hgiven hrx) hvalue
  · exact needs_rtcAnswer hf (hgiven hrx) h
  · exact needs_rtcCandidate hf (hgiven hrx) h
  · exact needs_command hf h

/-! ### The request of a text -/

theorem Typed.type (hf : Typed f) (h : (f .type).isSome = true) :
    ∃ s, Holds f .type (.value (.string s)) := by
  obtain ⟨item, hitem⟩ := Option.isSome_iff_exists.1 h
  have htakes := hf .type item hitem
  have hstring : ∃ s, item = .value (.string s) := by
    revert htakes
    rcases item with (s | i | b) | tok <;> simp [MemberKey.takes]
  obtain ⟨s, rfl⟩ := hstring
  exact ⟨s, hitem⟩

theorem webRequest_complete (hf : Typed f) (h : webRequest f = .ok r) : Complete (Holds f) r := by
  have hid : r.id = f.out.id := (sameIntegers_webRequest h).id
  unfold webRequest at h
  dsimp only at h
  split_ifs at h with htype hno hforce
  rw [not_or, not_lt] at hno
  have hgiven := (hf.integer (.inl rfl) (isSome_of_not_isNone hno.1)).1
  have hneeds : Needs (Holds f) r := by
    split at h
    · rename_i hplain
      rw [← Except.ok.inj h]
      exact needs_plain hplain
    · exact needs_receiverRequest hf h
  refine ⟨hf.type (isSome_of_not_isNone htype), ?_, ?_, hneeds⟩
  · rw [hid]
    exact ⟨hgiven, hno.2⟩
  · rintro ⟨item, hitem⟩
    have hname : f.text .type 32 = ascii "control_acquire" := by
      by_contra hne
      exact hforce ⟨Option.isSome_iff_exists.2 ⟨item, hitem⟩, hne⟩
    have hplain : lookupName plainTypes (ascii "control_acquire") = some .controlAcquire := by
      decide
    rw [hname, hplain] at h
    rw [← Except.ok.inj h]

/-- The text has a member with this key, and it is read as the item. -/
def Gives (text : List UInt8) (k : MemberKey) (item : Item) : Prop :=
  ∃ l : Layout, l.Loose ∧ l.render = text ∧ ∃ m ∈ l.members, m.key = k.name ∧
    ItemReads k.name m.value item

/-- What the fields hold at the end is in a member. -/
theorem StoresKnown.mem {f g : Fields} {ps : List (MemberKey × Value)} (h : StoresKnown f ps g)
    {k : MemberKey} {item : Item} (hk : g k = some item) :
    f k = some item ∨ k.takes item = true ∧ ∃ w, (k, w) ∈ ps ∧ ItemReads k.name w item := by
  induction h with
  | nil => exact .inl hk
  | @cons f g j w item' ps hread htakes hnew _ ih =>
    rcases ih hk with hsame | ⟨htakes', w', hmem, hread'⟩
    · by_cases hjk : k = j
      · subst hjk
        rw [Function.update_self] at hsame
        obtain rfl := Option.some.inj hsame
        exact .inr ⟨htakes, w, List.mem_cons_self, hread⟩
      · rw [Function.update_of_ne hjk] at hsame
        exact .inl hsame
    · exact .inr ⟨htakes', w', List.mem_cons_of_mem _ hmem, hread'⟩

/-- The fields of an accepted text hold what the text gives. -/
theorem exists_fields {text : List UInt8} (h : webProtocolParse text = .ok r) :
    ∃ f : Fields, Typed f ∧ Gives text = Holds f ∧ webRequest f = .ok r := by
  obtain ⟨l, f, rfl, hl, -, hstores, hr⟩ := webProtocolParse_iff.1 h
  obtain ⟨hread, hknown⟩ := stores_iff.1 hstores
  have hmem {k : MemberKey} {item : Item} (hk : f k = some item) :
      k.takes item = true ∧ ∃ w, (k, w) ∈ l.members.filterMap known ∧ ItemReads k.name w item :=
    (hknown.mem hk).resolve_left (Option.some_ne_none item).symm
  refine ⟨f, fun k item hk => (hmem hk).1, ?_, hr⟩
  funext k item
  apply propext
  constructor
  · rintro ⟨l', hloose, heq, m, hm, hkey, hitem⟩
    obtain rfl := Layout.render_inj hloose (loose_of_readable hl hread) heq
    have hpair : (k, m.value) ∈ l'.members.filterMap known := by
      refine List.mem_filterMap.2 ⟨m, hm, ?_⟩
      rw [known, memberKey?_eq_some.2 hkey, Option.map_some]
    obtain ⟨item', hitem', -, hget⟩ := hknown.get hpair
    rw [hitem.unique hitem']
    exact hget
  · intro hk
    obtain ⟨-, w, hpair, hitem⟩ := hmem hk
    obtain ⟨m, hm, hmk⟩ := List.mem_filterMap.1 hpair
    obtain ⟨j, hj, heq⟩ := Option.map_eq_some_iff.1 hmk
    obtain ⟨rfl, rfl⟩ := Prod.mk.inj heq
    exact ⟨l, loose_of_readable hl hread, rfl, m, hm, memberKey?_eq_some.1 hj, hitem⟩

/-- **The outcome of a parse.** A refusal leaves no string in the request; an accepted request has
all that its type needs; and what the replies with strings allocate is owned by the request, or has
been released. -/
theorem webProtocolParse_outcome (text : List UInt8) :
    (∀ e, webProtocolParse text = .error e →
      e.out.sdp = none ∧ e.out.candidate = none ∧ e.out.mid = none) ∧
    (∀ r, webProtocolParse text = .ok r → r.type ≠ .invalid ∧ Complete (Gives text) r) ∧
    ∀ f out, out.strings = [] → Accounts (rtcAnswer f out) (rtcAnswerHeap f ⟨out, []⟩) ∧
      Accounts (rtcCandidate f out) (rtcCandidateHeap f ⟨out, []⟩) := by
  refine ⟨fun e h => strings_eq_nil.1 (webProtocolParse_refused h), fun r h => ?_,
    fun f out hout => ⟨rtcAnswer_accounts f hout, rtcCandidate_accounts f hout⟩⟩
  obtain ⟨f, hf, hgives, hr⟩ := exists_fields h
  have hcomplete := webRequest_complete hf hr
  rw [hgives]
  refine ⟨fun hinvalid => ?_, hcomplete⟩
  have hneeds := hcomplete.needs
  rw [Needs, hinvalid] at hneeds
  exact hneeds

end MacHPSDR.WebServer
