import MacHPSDR.WebServer.Members
import Mathlib

/-!
# Escaping and parsing

`web_json_escape` writes a string into a JSON text and `web_protocol_parse` reads the strings of the
signalling messages back. A request with any string in such a member is accepted if it is with an
empty one, as long as it fits, and gives the string byte for byte (`parse_escape`).
-/

namespace MacHPSDR.WebServer

open FlatJson

/-! ## The escaped text -/

/-- A hexadecimal digit of `printf`. -/
def hexDigit (n : ℕ) : UInt8 := .ofNat (if n < 10 then 0x30 + n else 0x61 + (n - 10))

/-- One byte of `web_json_escape`. -/
def escapeByte (c : UInt8) : List UInt8 :=
  if c = quote then ascii "\\\""
  else if c = backslash then ascii "\\\\"
  else if c = 0x08 then ascii "\\b"
  else if c = 0x0C then ascii "\\f"
  else if c = 0x0A then ascii "\\n"
  else if c = 0x0D then ascii "\\r"
  else if c = 0x09 then ascii "\\t"
  else if c < 0x20 then ascii "\\u00" ++ [hexDigit (c.toNat / 16), hexDigit (c.toNat % 16)]
  else [c]

/-- `web_json_escape`, of the C string in a buffer. -/
def webJsonEscape (s : List UInt8) : List UInt8 := (s.takeWhile (· ≠ 0)).flatMap escapeByte

/-- The escape of a control character says which it is. -/
theorem codePoint_hexDigit {c : UInt8} (hc : c < 0x20) :
    codePoint 0x30 0x30 (hexDigit (c.toNat / 16)) (hexDigit (c.toNat % 16)) = some c.toNat := by
  revert c
  decide +kernel

theorem gUnicharToUtf8_control {c : UInt8} (hc : c < 0x20) : gUnicharToUtf8 c.toNat = [c] := by
  have hlt : c.toNat < 0x80 := lt_trans (UInt8.lt_iff_toNat_lt.1 hc) (by decide)
  rw [gUnicharToUtf8, if_pos hlt, UInt8.ofNat_toNat]

theorem jsonUnescapeLoop_plain {c : UInt8} (hc : c ≠ backslash) (s : List UInt8) :
    jsonUnescapeLoop (c :: s) = (jsonUnescapeLoop s).map (c :: ·) := by
  rw [jsonUnescapeLoop.eq_def]
  simp [hc]

theorem jsonUnescapeLoop_letter {e b : UInt8} (he : escapeValue e = some b) (s : List UInt8) :
    jsonUnescapeLoop (backslash :: e :: s) = (jsonUnescapeLoop s).map (b :: ·) := by
  rw [jsonUnescapeLoop.eq_def]
  simp [he]

/-- A byte is escaped by a letter that stands for it, by its number, or not at all. -/
theorem escapeByte_cases (c : UInt8) :
    (∃ e, escapeValue e = some c ∧ escapeByte c = [backslash, e]) ∨
      c < 0x20 ∧ escapeByte c =
        [backslash, 0x75, 0x30, 0x30, hexDigit (c.toNat / 16), hexDigit (c.toNat % 16)] ∨
      c ≠ quote ∧ c ≠ backslash ∧ ¬ c < 0x20 ∧ escapeByte c = [c] := by
  obtain rfl | h1 := eq_or_ne c quote
  · exact .inl ⟨quote, rfl, rfl⟩
  obtain rfl | h2 := eq_or_ne c backslash
  · exact .inl ⟨backslash, rfl, rfl⟩
  obtain rfl | h3 := eq_or_ne c 0x08
  · exact .inl ⟨0x62, rfl, rfl⟩
  obtain rfl | h4 := eq_or_ne c 0x0C
  · exact .inl ⟨0x66, rfl, rfl⟩
  obtain rfl | h5 := eq_or_ne c 0x0A
  · exact .inl ⟨0x6E, rfl, rfl⟩
  obtain rfl | h6 := eq_or_ne c 0x0D
  · exact .inl ⟨0x72, rfl, rfl⟩
  obtain rfl | h7 := eq_or_ne c 0x09
  · exact .inl ⟨0x74, rfl, rfl⟩
  have hrest : escapeByte c = if c < 0x20 then
      ascii "\\u00" ++ [hexDigit (c.toNat / 16), hexDigit (c.toNat % 16)] else [c] := by
    rw [escapeByte, if_neg h1, if_neg h2, if_neg h3, if_neg h4, if_neg h5, if_neg h6, if_neg h7]
  by_cases h8 : c < 0x20
  · rw [if_pos h8] at hrest
    exact .inr (.inl ⟨h8, hrest⟩)
  · rw [if_neg h8] at hrest
    exact .inr (.inr ⟨h1, h2, h8, hrest⟩)

/-- What `json_unescape` makes of one escaped byte. -/
theorem jsonUnescapeLoop_escapeByte (c : UInt8) (s : List UInt8) :
    jsonUnescapeLoop (escapeByte c ++ s) = (jsonUnescapeLoop s).map (c :: ·) := by
  obtain ⟨e, he, h⟩ | ⟨hc, h⟩ | ⟨-, hb, -, h⟩ := escapeByte_cases c
  · rw [h]
    exact jsonUnescapeLoop_letter he s
  · have hcp := codePoint_hexDigit hc
    have hsurrogate : ¬ (c.toNat ≥ 0xD800 ∧ c.toNat ≤ 0xDFFF) := by
      have := c.toNat_lt
      omega
    have hu : escapeValue 0x75 = none := by decide
    rw [h]
    simp only [List.cons_append, List.nil_append]
    rw [jsonUnescapeLoop.eq_def]
    simp [hu, hcp, hsurrogate, gUnicharToUtf8_control hc]
  · rw [h]
    exact jsonUnescapeLoop_plain hb s

theorem jsonUnescapeLoop_escape (s : List UInt8) :
    jsonUnescapeLoop (s.flatMap escapeByte) = some s := by
  induction s with
  | nil => rfl
  | cons c s ih => rw [List.flatMap_cons, jsonUnescapeLoop_escapeByte, ih]; rfl

/-- **The round trip of the string**: a C string comes back as it was. -/
theorem jsonUnescape_escape {s : List UInt8} (hs : (0 : UInt8) ∉ s) :
    jsonUnescape (webJsonEscape s) = some s := by
  have htake : s.takeWhile (fun c => decide (c ≠ 0)) = s := by
    refine List.takeWhile_eq_self_iff.2 fun c hc => ?_
    simp only [decide_eq_true_eq]
    rintro rfl
    exact hs hc
  rw [jsonUnescape, webJsonEscape, htake, jsonUnescapeLoop_escape, Option.map_some, htake]

theorem Span.append {a b : List UInt8} (ha : Span a) (hb : Span b) : Span (a ++ b) := by
  induction ha with
  | nil => exact hb
  | plain hq hs hc _ ih => exact .plain hq hs hc ih
  | escape c _ ih => exact .escape c ih

theorem span_escapeByte (c : UInt8) : Span (escapeByte c) := by
  obtain ⟨e, -, h⟩ | ⟨hlt, h⟩ | ⟨hq, hb, hc, h⟩ := escapeByte_cases c <;> rw [h]
  · exact .escape e .nil
  · have hdigit : ∀ n, n < 16 → hexDigit n ≠ quote ∧ hexDigit n ≠ backslash ∧
        ¬ hexDigit n < 0x20 := by decide
    have hlt : c.toNat < 32 := UInt8.lt_iff_toNat_lt.1 hlt
    obtain ⟨hq, hb, hc⟩ := hdigit (c.toNat / 16) (by omega)
    obtain ⟨hq', hb', hc'⟩ := hdigit (c.toNat % 16) (by omega)
    have hdigits : Span [hexDigit (c.toNat / 16), hexDigit (c.toNat % 16)] :=
      .plain hq hb hc (.plain hq' hb' hc' .nil)
    have hzero : (0x30 : UInt8) ≠ quote ∧ (0x30 : UInt8) ≠ backslash ∧ ¬ (0x30 : UInt8) < 0x20 := by
      decide
    exact .escape _ (.plain hzero.1 hzero.2.1 hzero.2.2
      (.plain hzero.1 hzero.2.1 hzero.2.2 hdigits))
  · exact .plain hq hb hc .nil

theorem span_webJsonEscape (s : List UInt8) : Span (webJsonEscape s) := by
  unfold webJsonEscape
  induction s.takeWhile (· ≠ 0) with
  | nil => exact .nil
  | cons c s ih =>
    rw [List.flatMap_cons]
    exact (span_escapeByte c).append ih

/-! ## The signalling requests -/

/-- The strings that a request has decoded. -/
def WebRequest.decoded (r : WebRequest) : MemberKey → Option (List UInt8)
  | .sdp => r.sdp
  | .candidate => r.candidate
  | .mid => r.mid
  | _ => none

/-- The request with another string. -/
def WebRequest.setDecoded (r : WebRequest) (k : MemberKey) (s : List UInt8) : WebRequest :=
  match k with
  | .sdp => { r with sdp := some s }
  | .candidate => { r with candidate := some s }
  | .mid => { r with mid := some s }
  | _ => r

/-- What the signalling requests need besides their strings. -/
structure Signals (f : Fields) : Prop where
  type : (f .type).isNone = false
  id : ¬ ((f .id).isNone ∨ f.out.id < 0)
  force : (f .force).isSome = false
  rx : (f .rx).isSome = true

theorem webRequest_of_answer {f : Fields} (h : Signals f)
    (htype : f.text .type 32 = ascii "rtc_answer") : webRequest f = rtcAnswer f f.out := by
  have hplain : lookupName plainTypes (ascii "rtc_answer") = none := by decide
  have hid := h.id
  unfold webRequest
  simp only [htype, h.type, h.force, if_neg hid, hplain, Bool.false_eq_true, if_false, false_and]
  unfold receiverRequest
  rw [if_neg (by decide), if_neg (by decide), if_neg (by decide), if_neg (by decide),
    if_neg (by decide), if_pos rfl]
  simp [h.rx]

theorem webRequest_of_candidate {f : Fields} (h : Signals f)
    (htype : f.text .type 32 = ascii "rtc_candidate") : webRequest f = rtcCandidate f f.out := by
  have hplain : lookupName plainTypes (ascii "rtc_candidate") = none := by decide
  have hid := h.id
  unfold webRequest
  simp only [htype, h.type, h.force, if_neg hid, hplain, Bool.false_eq_true, if_false, false_and]
  unfold receiverRequest
  rw [if_neg (by decide), if_neg (by decide), if_neg (by decide), if_neg (by decide),
    if_neg (by decide), if_neg (by decide), if_pos rfl]
  simp [h.rx]

theorem decoded_eq_some {r : WebRequest} {k : MemberKey} {s : List UInt8}
    (h : r.decoded k = some s) : k = .sdp ∧ r.sdp = some s ∨
      k = .candidate ∧ r.candidate = some s ∨ k = .mid ∧ r.mid = some s := by
  cases k with
  | sdp => exact .inl ⟨rfl, h⟩
  | candidate => exact .inr (.inl ⟨rfl, h⟩)
  | mid => exact .inr (.inr ⟨rfl, h⟩)
  | _ => cases h

theorem decoded_eq_none {r : WebRequest} (h : r.sdp = none ∧ r.candidate = none ∧ r.mid = none)
    (k : MemberKey) : r.decoded k = none := by
  obtain ⟨hsdp, hcandidate, hmid⟩ := h
  cases hd : r.decoded k with
  | none => rfl
  | some s =>
    obtain ⟨-, hs⟩ | ⟨-, hs⟩ | ⟨-, hs⟩ := decoded_eq_some hd
    · cases hsdp.symm.trans hs
    · cases hcandidate.symm.trans hs
    · cases hmid.symm.trans hs

/-- A command decodes no string. -/
theorem command_decoded {f : Fields} {action : List UInt8} {r : WebRequest}
    (h : (commandAction f.out action).bind (commandValues f) = .ok r) (k : MemberKey) :
    r.decoded k = none := by
  cases ha : commandAction f.out action with
  | error e =>
    rw [ha] at h
    cases h
  | ok out =>
    have hout : out.sdp = none ∧ out.candidate = none ∧ out.mid = none := by
      unfold commandAction at ha
      split at ha
      · obtain rfl := Except.ok.inj ha
        exact ⟨rfl, rfl, rfl⟩
      · split at ha
        · obtain rfl := Except.ok.inj ha
          exact ⟨rfl, rfl, rfl⟩
        · split at ha
          · obtain rfl := Except.ok.inj ha
            exact ⟨rfl, rfl, rfl⟩
          · cases ha
    rw [ha] at h
    change commandValues f out = .ok r at h
    unfold commandValues at h
    dsimp only at h
    split_ifs at h <;> (obtain rfl := Except.ok.inj h; exact decoded_eq_none hout k)

theorem receiverRequest_decoded {f : Fields} {type : List UInt8} {r : WebRequest}
    (h : receiverRequest f f.out type = .ok r) {k : MemberKey} {s : List UInt8}
    (hk : r.decoded k = some s) : (f .rx).isSome = true ∧
      (type = ascii "rtc_answer" ∨ type = ascii "rtc_candidate") := by
  have hother {out : WebRequest} (hout : out.sdp = none ∧ out.candidate = none ∧ out.mid = none)
      (hr : (.ok out : Except ParseError WebRequest) = .ok r) : False := by
    obtain rfl := Except.ok.inj hr
    rw [decoded_eq_none hout] at hk
    cases hk
  -- a request that names a receiver, or is refused
  have hrx {x : Except ParseError WebRequest}
      (h : (if !(f .rx).isSome then .error ⟨"missing receiver index", f.out⟩ else x) = .ok r) :
      (f .rx).isSome = true ∧ x = .ok r := by
    split at h
    · cases h
    · rename_i hrx
      exact ⟨by simpa [Option.isSome_iff_ne_none] using hrx, h⟩
  unfold receiverRequest at h
  dsimp only at h
  split at h
  · have hprofile := (hrx h).2
    split at hprofile
    · exact (hother ⟨rfl, rfl, rfl⟩ hprofile).elim
    · cases hprofile
  split at h
  · exact (hother ⟨rfl, rfl, rfl⟩ (hrx h).2).elim
  split at h
  · exact (hother ⟨rfl, rfl, rfl⟩ (hrx h).2).elim
  split at h
  · exact (hother ⟨rfl, rfl, rfl⟩ (hrx h).2).elim
  split at h
  · have hvalue := (hrx h).2
    split at hvalue
    · cases hvalue
    · exact (hother ⟨rfl, rfl, rfl⟩ hvalue).elim
  split at h
  · rename_i htype
    exact ⟨(hrx h).1, .inl htype⟩
  split at h
  · rename_i htype
    exact ⟨(hrx h).1, .inr htype⟩
  split at h
  · cases h
  rw [command_decoded h k] at hk
  cases hk

/-- **Only the signalling requests decode strings.** -/
theorem signals_of_decoded {f : Fields} {r : WebRequest} (h : webRequest f = .ok r) {k : MemberKey}
    {s : List UInt8} (hk : r.decoded k = some s) : Signals f ∧
      (f.text .type 32 = ascii "rtc_answer" ∨ f.text .type 32 = ascii "rtc_candidate") := by
  unfold webRequest at h
  dsimp only at h
  split_ifs at h with htype hid hforce
  split at h
  · obtain rfl := Except.ok.inj h
    rw [decoded_eq_none ⟨rfl, rfl, rfl⟩] at hk
    cases hk
  · obtain ⟨hrx, htext⟩ := receiverRequest_decoded h hk
    refine ⟨⟨Bool.eq_false_iff.2 htype, hid, ?_, hrx⟩, htext⟩
    have hne : f.text .type 32 ≠ ascii "control_acquire" := by
      obtain htext | htext := htext <;> rw [htext] <;> decide
    simpa [hne] using hforce

/-! ## Another string in the same place -/

/-- The stored text of a key, if there is one, is another. -/
def Fields.setSpan (f : Fields) (k : MemberKey) (body : List UInt8) : Fields :=
  if (f k).isSome then Function.update f k (some (.span body)) else f

theorem Fields.setSpan_of_ne {k j : MemberKey} (hj : j ≠ k) (f : Fields) (body : List UInt8) :
    f.setSpan k body j = f j := by
  unfold setSpan
  split
  · exact Function.update_of_ne hj _ _
  · rfl

/-- What is not one of the long strings stays. -/
theorem Signals.setSpan {f : Fields} (h : Signals f) {k : MemberKey} (hk : k.isSpan = true)
    (body : List UInt8) : Signals (f.setSpan k body) ∧ (f.setSpan k body).out = f.out ∧
      (f.setSpan k body).text .type 32 = f.text .type 32 := by
  have hne {j : MemberKey} (hj : j.isSpan = false) : f.setSpan k body j = f j := by
    refine Fields.setSpan_of_ne ?_ f body
    rintro rfl
    rw [hj] at hk
    cases hk
  have hout : (f.setSpan k body).out = f.out := by
    simp only [Fields.out, Fields.integer, Fields.boolean, hne (j := .id) rfl, hne (j := .rx) rfl,
      hne (j := .value) rfl, hne (j := .low) rfl, hne (j := .high) rfl, hne (j := .force) rfl]
  refine ⟨⟨?_, ?_, ?_, ?_⟩, hout, ?_⟩
  · rw [hne rfl]
    exact h.type
  · rw [hne rfl, hout]
    exact h.id
  · rw [hne rfl]
    exact h.force
  · rw [hne rfl]
    exact h.rx
  · rw [Fields.text, hne rfl, Fields.text]

theorem Fields.span_setSpan {f : Fields} {k : MemberKey} {tok : List UInt8}
    (h : f.span k = some tok) (body : List UInt8) : (f.setSpan k body).span k = some body := by
  have hsome : (f k).isSome = true := by
    unfold span at h
    split at h
    · rename_i hf
      rw [hf]
      rfl
    · cases h
  rw [setSpan, if_pos hsome, span, Function.update_self]

theorem Fields.span_setSpan_of_ne {k j : MemberKey} (hj : j ≠ k) (f : Fields) (body : List UInt8) :
    (f.setSpan k body).span j = f.span j := by
  rw [span, setSpan_of_ne hj, span]

theorem rtcAnswer_setSpan {f : Fields} {out r : WebRequest} {k : MemberKey} {s e : List UInt8}
    (hout : out.sdp = none ∧ out.candidate = none ∧ out.mid = none)
    (h : rtcAnswer f out = .ok r) (hk : r.decoded k = some s) {s' : List UInt8}
    (he : jsonUnescape e = some s') :
    rtcAnswer (f.setSpan k e) out = .ok (r.setDecoded k s') := by
  unfold rtcAnswer at h
  split at h
  · cases h
  · rename_i tok htok
    split at h
    · cases h
    · obtain rfl := Except.ok.inj h
      obtain rfl : k = .sdp := by
        obtain ⟨hk, -⟩ | ⟨-, hs⟩ | ⟨-, hs⟩ := decoded_eq_some hk
        · exact hk
        · cases hout.2.1.symm.trans hs
        · cases hout.2.2.symm.trans hs
      rw [rtcAnswer, Fields.span_setSpan htok]
      dsimp only
      rw [he]
      rfl

theorem rtcCandidate_setSpan {f : Fields} {out r : WebRequest} {k : MemberKey} {s e : List UInt8}
    (hout : out.sdp = none ∧ out.candidate = none ∧ out.mid = none)
    (h : rtcCandidate f out = .ok r) (hk : r.decoded k = some s) {s' : List UInt8}
    (he : jsonUnescape e = some s') :
    rtcCandidate (f.setSpan k e) out = .ok (r.setDecoded k s') := by
  unfold rtcCandidate at h
  split at h
  · cases h
  · rename_i tok htok
    split at h
    · cases h
    · rename_i candidate hcandidate
      split at h
      · rename_i hmid
        obtain rfl := Except.ok.inj h
        obtain rfl : k = .candidate := by
          obtain ⟨-, hs⟩ | ⟨hk, -⟩ | ⟨-, hs⟩ := decoded_eq_some hk
          · cases hout.1.symm.trans hs
          · exact hk
          · cases hout.2.2.symm.trans hs
        rw [rtcCandidate, Fields.span_setSpan htok, Fields.span_setSpan_of_ne (by decide), hmid]
        dsimp only
        rw [he]
        rfl
      · rename_i tok' hmid
        split at h
        · cases h
        · rename_i mid hmid'
          obtain rfl := Except.ok.inj h
          obtain rfl | rfl : k = .candidate ∨ k = .mid := by
            obtain ⟨-, hs⟩ | ⟨hk, -⟩ | ⟨hk, -⟩ := decoded_eq_some hk
            · cases hout.1.symm.trans hs
            · exact .inl hk
            · exact .inr hk
          · rw [rtcCandidate, Fields.span_setSpan htok, Fields.span_setSpan_of_ne (by decide), hmid]
            dsimp only
            rw [he, hmid']
            rfl
          · rw [rtcCandidate, Fields.span_setSpan hmid, Fields.span_setSpan_of_ne (by decide), htok]
            dsimp only
            rw [hcandidate, he]
            rfl

/-- **A request with another string.** -/
theorem webRequest_setSpan {f : Fields} {r : WebRequest} (h : webRequest f = .ok r) {k : MemberKey}
    (hspan : k.isSpan = true) {s s' e : List UInt8} (hk : r.decoded k = some s)
    (he : jsonUnescape e = some s') : webRequest (f.setSpan k e) = .ok (r.setDecoded k s') := by
  obtain ⟨hsig, htext⟩ := signals_of_decoded h hk
  obtain ⟨hsig', hout, htext'⟩ := hsig.setSpan hspan e
  obtain htext | htext := htext
  · rw [webRequest_of_answer hsig htext] at h
    rw [webRequest_of_answer hsig' (htext'.trans htext), hout]
    exact rtcAnswer_setSpan ⟨rfl, rfl, rfl⟩ h hk he
  · rw [webRequest_of_candidate hsig htext] at h
    rw [webRequest_of_candidate hsig' (htext'.trans htext), hout]
    exact rtcCandidate_setSpan ⟨rfl, rfl, rfl⟩ h hk he

/-- The member with another string, if it has the key. -/
def setBody (k : MemberKey) (body : List UInt8) (m : Member) : Member :=
  if m.key = k.name then { m with value := .string body } else m

/-- The object with another string in the member with the key. -/
def withBody (k : MemberKey) (body : List UInt8) (l : Layout) : Layout :=
  { l with
    init := l.init.map (setBody k body)
    last := match l.last with
      | .member m => .member (setBody k body m)
      | .blank ws => .blank ws }

theorem members_withBody (k : MemberKey) (body : List UInt8) (l : Layout) :
    (withBody k body l).members = l.members.map (setBody k body) := by
  unfold withBody Layout.members
  rw [List.map_append]
  cases l.last <;> rfl

def setPair (k : MemberKey) (body : List UInt8) (p : MemberKey × Value) : MemberKey × Value :=
  if p.1 = k then (k, .string body) else p

theorem known_setBody (k : MemberKey) (body : List UInt8) (m : Member) :
    known (setBody k body m) = (known m).map (setPair k body) := by
  unfold known setBody
  split
  · rename_i hkey
    rw [memberKey?_eq_some.2 hkey]
    simp [setPair]
  · rename_i hkey
    cases hm : memberKey? m.key with
    | none => rfl
    | some j =>
      have hjk : j ≠ k := by
        rintro rfl
        exact hkey (memberKey?_eq_some.1 hm)
      simp [setPair, hjk]

theorem StoresKnown.setSpan {f g : Fields} {ps : List (MemberKey × Value)}
    (h : StoresKnown f ps g) {k : MemberKey} (hk : k.isSpan = true) {body : List UInt8}
    (hbody : Span body) :
    StoresKnown (f.setSpan k body) (ps.map (setPair k body)) (g.setSpan k body) := by
  induction h with
  | nil f => exact .nil _
  | @cons f g j w item ps hread htakes hnew _ ih =>
    by_cases hj : j = k
    · subst hj
      have hpair : setPair j body (j, w) = (j, .string body) := if_pos rfl
      have hname : (memberKey? j.name).any MemberKey.isSpan = true := by
        rw [memberKey?_eq_some.2 rfl]
        exact hk
      have htakes' : j.takes (.span body) = true := by
        cases j <;> first | rfl | cases hk
      have hf : f.setSpan j body = f := by rw [Fields.setSpan, hnew]; rfl
      have hg : Fields.setSpan (Function.update f j (some item)) j body =
          Function.update f j (some (.span body)) := by
        rw [Fields.setSpan, Function.update_self, Function.update_idem]
        rfl
      rw [hg] at ih
      rw [List.map_cons, hpair, hf]
      exact .cons (.span hname hbody) htakes' hnew ih
    · have hpair : setPair k body (j, w) = (j, w) := if_neg hj
      have hg : Fields.setSpan (Function.update f j (some item)) k body =
          Function.update (f.setSpan k body) j (some item) := by
        unfold Fields.setSpan
        rw [Function.update_of_ne (Ne.symm hj)]
        split
        · exact Function.update_comm hj _ _ f
        · rfl
      rw [hg] at ih
      rw [List.map_cons, hpair]
      exact .cons hread htakes (by rw [Fields.setSpan_of_ne hj]; exact hnew) ih

theorem Readable.setBody {k : MemberKey} (hk : k.isSpan = true) {a b : List UInt8} (hb : Span b)
    {m : Member} {item : Item} (h : Readable (setBody k a m) item) :
    ∃ item, Readable (setBody k b m) item := by
  unfold WebServer.setBody at h ⊢
  split
  · rename_i hkey
    rw [if_pos hkey] at h
    have hspan : (memberKey? m.key).any MemberKey.isSpan = true := by
      rw [memberKey?_eq_some.2 hkey]
      exact hk
    exact ⟨.span b, h.before, h.key, h.key_length, h.beforeColon, h.afterColon, .span hspan hb,
      h.after⟩
  · rename_i hkey
    rw [if_neg hkey] at h
    exact ⟨item, h⟩

theorem loose_setBody {k : MemberKey} {body : List UInt8} (hbody : Body body) {m : Member}
    (h : m.Loose) : (setBody k body m).Loose := by
  unfold setBody
  split
  · exact ⟨h.before, h.key, h.beforeColon, h.afterColon, hbody, h.after⟩
  · exact h

theorem loose_withBody {k : MemberKey} {body : List UInt8} (hbody : Body body) {l : Layout}
    (h : l.Loose) : (withBody k body l).Loose where
  before := h.before
  init := by
    intro m hm
    obtain ⟨m', hm', rfl⟩ := List.mem_map.1 hm
    exact loose_setBody hbody (h.init m' hm')
  last := by
    have hlast := h.last
    unfold withBody
    generalize l.last = last at hlast
    cases last with
    | member m => exact loose_setBody hbody hlast
    | blank ws => exact hlast
  after := h.after

theorem SpacesLoose.withBody {l : Layout} {k : MemberKey} {a : List UInt8}
    (h : SpacesLoose (withBody k a l)) (b : List UInt8) : SpacesLoose (withBody k b l) where
  before := h.before
  last := by
    have hlast := h.last
    unfold WebServer.withBody at hlast ⊢
    generalize l.last = last at hlast
    cases last with
    | member m => trivial
    | blank ws => exact hlast
  after := h.after

/-- **The round trip of a message**: an object that is accepted with the empty string in `sdp`,
`candidate` or `mid`, and decodes it, is accepted with an escaped string in its place, and gives
that string back. -/
theorem parse_escape {l : Layout} (hl : l.Loose) {k : MemberKey} (hk : k.isSpan = true)
    {r : WebRequest} (hr : webProtocolParse (withBody k [] l).render = .ok r)
    (hempty : r.decoded k = some []) {s : List UInt8} (hs : (0 : UInt8) ∉ s)
    (hsize : (withBody k (webJsonEscape s) l).render.length ≤ webMaxTextMessage) :
    webProtocolParse (withBody k (webJsonEscape s) l).render = .ok (r.setDecoded k s) := by
  obtain ⟨l₀, f, heq, hspaces, -, hstores, hreq⟩ := webProtocolParse_iff.1 hr
  obtain rfl := Layout.render_inj (loose_of_readable hspaces hstores.readable)
    (loose_withBody .nil hl) heq
  rw [members_withBody, stores_iff] at hstores
  obtain ⟨hread, hknown⟩ := hstores
  refine webProtocolParse_iff.2 ⟨_, f.setSpan k (webJsonEscape s), rfl, hspaces.withBody _, hsize,
    ?_, webRequest_setSpan hreq hk hempty (jsonUnescape_escape hs)⟩
  rw [members_withBody, stores_iff]
  constructor
  · intro m hm
    obtain ⟨m', hm', rfl⟩ := List.mem_map.1 hm
    obtain ⟨item, hitem⟩ := hread _ (List.mem_map_of_mem hm')
    exact hitem.setBody hk (span_webJsonEscape s)
  · have hset := hknown.setSpan hk (span_webJsonEscape s)
    have hmap (a : List UInt8) : (l.members.map (setBody k a)).filterMap known =
        (l.members.filterMap known).map (setPair k a) := by
      rw [List.filterMap_map, List.map_filterMap]
      exact List.filterMap_congr fun m _ => known_setBody k a m
    have hpair (a b : List UInt8) (p : MemberKey × Value) :
        setPair k b (setPair k a p) = setPair k b p := by
      unfold setPair
      by_cases hp : p.1 = k <;> simp [hp]
    rw [hmap, List.map_map] at hset
    rw [hmap]
    have hcomp : setPair k (webJsonEscape s) ∘ setPair k [] = setPair k (webJsonEscape s) :=
      funext fun p => hpair [] _ p
    rw [hcomp] at hset
    exact hset

/-- `{"type":"rtc_answer","id":26,"rx":0,"sdp":""}` -/
def emptyAnswer : Layout where
  before := []
  init := [stringMember "type" "rtc_answer", bareMember "id" "26", bareMember "rx" "0"]
  last := .member (stringMember "sdp" "")
  after := []

theorem loose_emptyAnswer : emptyAnswer.Loose where
  before := nofun
  init := by
    have hnumber (key token : String) (hkey : Plain (ascii key)) (hne : ascii token ≠ [])
        (htoken : (ascii token).all isBare = true) : (bareMember key token).Loose :=
      ⟨nofun, hkey.body, nofun, nofun, ⟨hne, List.all_eq_true.1 htoken⟩, nofun⟩
    intro m hm
    simp only [emptyAnswer, List.mem_cons, List.not_mem_nil, or_false] at hm
    obtain rfl | rfl | rfl := hm
    · exact ⟨nofun, Plain.body (s := ascii "type") (by decide), nofun, nofun,
        Plain.body (s := ascii "rtc_answer") (by decide), nofun⟩
    · exact hnumber "id" "26" (by decide) (by decide) (by decide)
    · exact hnumber "rx" "0" (by decide) (by decide) (by decide)
  last := ⟨nofun, Plain.body (s := ascii "sdp") (by decide), nofun, nofun, .nil, nofun⟩
  after := nofun

/-- The answer with a quote, a backslash, a line end, a control character and a character that is
not ASCII. -/
theorem parse_escape_answer : ∃ r : WebRequest, r.sdp = some [] ∧
    webProtocolParse (withBody .sdp (webJsonEscape [0x22, 0x5C, 0x0D, 0x0A, 0x01, 0xC3, 0xA9])
      emptyAnswer).render =
        .ok { r with sdp := some [0x22, 0x5C, 0x0D, 0x0A, 0x01, 0xC3, 0xA9] } := by
  obtain ⟨r, hr, hsdp⟩ : ∃ r, webProtocolParse (withBody .sdp [] emptyAnswer).render = .ok r ∧
      r.sdp = some [] := ⟨_, rfl, rfl⟩
  exact ⟨r, hsdp, parse_escape loose_emptyAnswer (by decide) hr hsdp (by decide) (by decide)⟩

end MacHPSDR.WebServer
