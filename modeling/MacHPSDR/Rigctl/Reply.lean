import MacHPSDR.Rigctl.Basic
import Mathlib

/-!
# One reply per command

`parse_cmd` runs the body of a command and sends `?;` when it says that it is not implemented. A
client counts replies, so a command must be answered at most once, not refused after it has been
answered or carried out, and a read answered under its own letters (`OneReply`).

The bodies are fair by their shape, all but four: `ZZDQ`, which always ends in a refusal, `ZZDU`,
whose frame has no letters, `CN`, which is silent without a transmitter, and `FW`, which selects a
filter before it refuses. What goes wrong in these four is `Slip`, and a command meets `OneReply`
in a state exactly if it is none of these (`oneReply_iff`).
-/

namespace MacHPSDR.Rigctl

open ReplyScript ReplyScript.Script

/-! ## Parsing -/

/-- The body in a table of letters; the default arms are not implemented. -/
def branch (table : List (Char × List (Char × Cat))) (a b : Char) : Cat :=
  (((table.lookup a).getD []).lookup b).getD refuse

/-- `parse_extended_cmd` -/
def parseExtendedCmd (r : Rig) (c : List Char) : Answer Effect :=
  (branch extended (char c 2) (char c 3)).run c r

/-- What a command sends and does. -/
structure Outcome where
  frames : List (List Char)
  effects : List Effect

/-- `parse_cmd`; there is no receiver when it has been closed in between. -/
def parseCmd : Option Rig → List Char → Outcome
  | none, _ => ⟨[], []⟩
  | some r, c =>
    let answer :=
      if char c 0 = 'Z' ∧ char c 1 = 'Z' then parseExtendedCmd r c
      else (branch basic (char c 0) (char c 1)).run c r
    ⟨answer.frames ++ (if answer.implemented then [] else ["?;".toList]), answer.effects⟩

/-- The letters of a command. -/
def letters (c : List Char) : List Char :=
  if char c 0 = 'Z' ∧ char c 1 = 'Z' then ['Z', 'Z', char c 2, char c 3] else [char c 0, char c 1]

/-- The body of a command. -/
def body (c : List Char) : Cat :=
  if char c 0 = 'Z' ∧ char c 1 = 'Z' then branch extended (char c 2) (char c 3)
  else branch basic (char c 0) (char c 1)

theorem parseCmd_some (r : Rig) (c : List Char) : parseCmd (some r) c =
    ⟨((body c).run c r).frames ++ (if ((body c).run c r).implemented then [] else ["?;".toList]),
      ((body c).run c r).effects⟩ := by
  unfold parseCmd parseExtendedCmd body
  by_cases hz : char c 0 = 'Z' ∧ char c 1 = 'Z' <;> simp [hz]

/-! ## The property -/

/-- The command is refused. -/
def Refused (r : Rig) (c : List Char) : Prop := "?;".toList ∈ (parseCmd (some r) c).frames

/-- The command is answered with a value. -/
def Answered (r : Rig) (c : List Char) : Prop :=
  ∃ f ∈ (parseCmd (some r) c).frames, f ≠ "?;".toList

/-- A command keeps a client in step: it sends at most one frame; it is not refused when it is
answered with a value or has done something; and a read, that is a text which some state of the
radio answers with a value, has one frame, under its letters, unless it is refused here. -/
structure OneReply (r : Rig) (c : List Char) : Prop where
  once : (parseCmd (some r) c).frames.length ≤ 1
  clean : Refused r c → ¬ Answered r c ∧ (parseCmd (some r) c).effects = []
  answered : (∃ r', Answered r' c) → ¬ Refused r c →
    ∃ f, (parseCmd (some r) c).frames = [f] ∧ letters c <+: f

/-- What goes wrong: the four commands, the forms and the states. -/
def Slip (r : Rig) (c : List Char) : Prop :=
  letters c = "ZZDQ".toList ∧ (char c 4 = ';' ∨ char c 8 = ';') ∨
  letters c = "ZZDU".toList ∨
  letters c = "CN".toList ∧ char c 2 = ';' ∧ r.transmitter = none ∨
  letters c = "FW".toList ∧ char c 2 ≠ ';' ∧ char c 6 = ';' ∧ filterWidth r = none ∧
    r.filterA ≠ fVar1

/-! ## The tables -/

/-- Every body of a table is fair to its letters, unless these are among the names given. -/
def tableFair (pre : List Char) (names : List (List Char))
    (table : List (Char × List (Char × Cat))) : Bool :=
  table.all fun row => row.2.all fun entry =>
    names.contains (pre ++ [row.1, entry.1]) || entry.2.fairFor (pre ++ [row.1, entry.1])

theorem fairFor_branch {pre : List Char} {names : List (List Char)}
    {table : List (Char × List (Char × Cat))} (h : tableFair pre names table = true) {a b : Char}
    (hname : pre ++ [a, b] ∉ names) : (branch table a b).fairFor (pre ++ [a, b]) = true := by
  unfold branch
  cases ha : table.lookup a with
  | none => rfl
  | some row =>
    cases hb : row.lookup b with
    | none => simp [hb, fairFor]
    | some entry =>
      obtain ⟨l, l', hl, -⟩ := List.lookup_eq_some_iff.1 ha
      obtain ⟨m, m', hm, -⟩ := List.lookup_eq_some_iff.1 hb
      simp only [tableFair, List.all_eq_true, Bool.or_eq_true, List.contains_iff_mem] at h
      have hentry := h (a, row) (by simp [hl]) (b, entry) (by simp [hm])
      simpa [hb] using hentry.resolve_left hname

theorem basic_fair : tableFair [] ["CN".toList, "FW".toList] basic = true := by decide

theorem extended_fair :
    tableFair ['Z', 'Z'] ["ZZDQ".toList, "ZZDU".toList] extended = true := by decide

theorem letters_of_zz {c : List Char} (hz : char c 0 = 'Z' ∧ char c 1 = 'Z') :
    letters c = ['Z', 'Z'] ++ [char c 2, char c 3] ∧
      body c = branch extended (char c 2) (char c 3) := by
  simp [letters, body, hz]

theorem letters_of_not_zz {c : List Char} (hz : ¬ (char c 0 = 'Z' ∧ char c 1 = 'Z')) :
    letters c = [] ++ [char c 0, char c 1] ∧ body c = branch basic (char c 0) (char c 1) := by
  unfold letters body
  rw [if_neg hz, if_neg hz]
  exact ⟨rfl, rfl⟩

/-- The bodies are fair, but for those of four commands. -/
theorem fairFor_body {c : List Char} (hDQ : letters c ≠ "ZZDQ".toList)
    (hDU : letters c ≠ "ZZDU".toList) (hCN : letters c ≠ "CN".toList)
    (hFW : letters c ≠ "FW".toList) : (body c).fairFor (letters c) = true := by
  by_cases hz : char c 0 = 'Z' ∧ char c 1 = 'Z'
  · obtain ⟨hl, hb⟩ := letters_of_zz hz
    rw [hl] at hDQ hDU ⊢
    rw [hb]
    exact fairFor_branch extended_fair (by simp_all)
  · obtain ⟨hl, hb⟩ := letters_of_not_zz hz
    rw [hl] at hCN hFW ⊢
    rw [hb]
    exact fairFor_branch basic_fair (by simp_all)

/-! ## Fair bodies -/

variable {r : Rig} {c : List Char}

theorem frames_of_implemented (h : ((body c).run c r).implemented = true) :
    (parseCmd (some r) c).frames = ((body c).run c r).frames := by
  simp [parseCmd_some, h]

theorem frames_of_not_implemented (h : ((body c).run c r).implemented = false) :
    (parseCmd (some r) c).frames = ((body c).run c r).frames ++ ["?;".toList] := by
  simp [parseCmd_some, h]

theorem effects_eq : (parseCmd (some r) c).effects = ((body c).run c r).effects := by
  simp [parseCmd_some]

/-- A value comes from the body. -/
theorem Answered.frames_ne_nil (h : Answered r c) : ((body c).run c r).frames ≠ [] := by
  obtain ⟨f, hf, hne⟩ := h
  cases hi : ((body c).run c r).implemented with
  | true => exact List.ne_nil_of_mem (frames_of_implemented hi ▸ hf)
  | false =>
    rw [frames_of_not_implemented hi, List.mem_append] at hf
    exact List.ne_nil_of_mem (hf.resolve_right (by simpa using hne))

/-- No command has letters that start the refusal. -/
theorem body_of_refused_letters (h : letters c <+: "?;".toList) : body c = refuse := by
  unfold letters at h
  unfold body
  split at h
  · exact absurd h (by simp)
  · rename_i hz
    have hq : char c 0 = '?' := by
      obtain ⟨t, ht⟩ := h
      simp_all
    rw [if_neg hz, hq]
    rfl

/-- A body that is fair to the letters of its command keeps to one reply. -/
theorem oneReply_of_fairAt (h : FairAt (letters c) (body c) c r) : OneReply r c where
  once := by
    cases hi : ((body c).run c r).implemented with
    | true => exact frames_of_implemented hi ▸ h.once
    | false => simp [frames_of_not_implemented hi, (h.clean hi).1]
  clean hrefused := by
    have hi : ((body c).run c r).implemented = false := by
      by_contra hi
      rw [Bool.not_eq_false] at hi
      have hmem : "?;".toList ∈ ((body c).run c r).frames := frames_of_implemented hi ▸ hrefused
      rw [body_of_refused_letters (h.own _ hmem)] at hi
      exact absurd hi (by simp [run])
    refine ⟨fun hanswered => hanswered.frames_ne_nil (h.clean hi).1, ?_⟩
    rw [effects_eq, (h.clean hi).2]
  answered := by
    rintro ⟨r', hr'⟩ hrefused
    have hi : ((body c).run c r).implemented = true := by
      by_contra hi
      rw [Bool.not_eq_true] at hi
      exact hrefused (by simp [Refused, frames_of_not_implemented hi])
    rw [frames_of_implemented hi]
    have hne := h.steady r' hr'.frames_ne_nil hi
    have hlen := h.once
    obtain ⟨f, hf⟩ : ∃ f, ((body c).run c r).frames = [f] :=
      List.length_eq_one_iff.1 (by have := List.length_pos_iff.2 hne; omega)
    exact ⟨f, hf, h.own f (by simp [hf])⟩

/-! ## The four commands -/

theorem body_of_letters {c : List Char} {l : List Char} (h : letters c = l) :
    (∀ a b, l = ['Z', 'Z', a, b] → body c = branch extended a b) ∧
      (∀ a b, a ≠ 'Z' → l = [a, b] → body c = branch basic a b) := by
  by_cases hz : char c 0 = 'Z' ∧ char c 1 = 'Z'
  · obtain ⟨hl, hb⟩ := letters_of_zz hz
    subst h
    refine ⟨fun a b hab => ?_, fun a b _ hab => ?_⟩ <;> simp_all
  · obtain ⟨hl, hb⟩ := letters_of_not_zz hz
    subst h
    refine ⟨fun a b hab => ?_, fun a b _ hab => ?_⟩ <;> simp_all

theorem body_zzDQ (h : letters c = "ZZDQ".toList) : body c = zzDQ :=
  (body_of_letters h).1 'D' 'Q' rfl

theorem body_zzDU (h : letters c = "ZZDU".toList) : body c = zzDU :=
  (body_of_letters h).1 'D' 'U' rfl

theorem body_cn (h : letters c = "CN".toList) : body c = cn :=
  (body_of_letters h).2 'C' 'N' (by decide) rfl

theorem body_fw (h : letters c = "FW".toList) : body c = fw :=
  (body_of_letters h).2 'F' 'W' (by decide) rfl

/-- `ZZDQ` is refused in all its forms, also where it has answered or set the level. -/
theorem oneReply_zzDQ (h : letters c = "ZZDQ".toList) :
    OneReply r c ↔ ¬ (char c 4 = ';' ∨ char c 8 = ';') := by
  have hb := body_zzDQ h
  have hi : ((body c).run c r).implemented = false := by simp [hb, zzDQ, run]
  have hrefused : Refused r c := by simp [Refused, frames_of_not_implemented hi]
  constructor
  · rintro hone (h4 | h8)
    · have hlen := hone.once
      simp [frames_of_not_implemented hi, hb, zzDQ, level, read, say, run, ends, h4] at hlen
    · by_cases h4 : char c 4 = ';'
      · have hlen := hone.once
        simp [frames_of_not_implemented hi, hb, zzDQ, level, read, say, run, ends, h4] at hlen
      · have heffects := (hone.clean hrefused).2
        simp [effects_eq, hb, zzDQ, level, read, set, say, run, ends, h4, h8] at heffects
  · intro hform
    obtain ⟨h4, h8⟩ := not_or.1 hform
    exact oneReply_of_fairAt <| .of_refused <| by
      simp [hb, zzDQ, level, read, set, say, run, ends, h4, h8]

theorem dec_zero : dec 0 = ['0'] := by decide

theorem dec_one : dec 1 = ['1'] := by decide

/-- The frame of `ZZDU` starts with a digit. -/
theorem frames_zzDU (r : Rig) (c : List Char) : ∃ d rest,
    (zzDU.run c r).frames = [d :: rest] ∧ (d = '0' ∨ d = '1') := by
  have hrun : (zzDU.run c r).frames =
    [dec (if r.split ≠ splitOff then 1 else 0) ++ statusRest r ++ [';']] := rfl
  rw [hrun]
  by_cases hs : r.split ≠ splitOff
  · rw [if_pos hs, dec_one, List.append_assoc]
    exact ⟨'1', _, rfl, .inr rfl⟩
  · rw [if_neg hs, dec_zero, List.append_assoc]
    exact ⟨'0', _, rfl, .inl rfl⟩

theorem not_oneReply_zzDU (h : letters c = "ZZDU".toList) : ¬ OneReply r c := by
  intro hone
  have hb := body_zzDU h
  have hi : ((body c).run c r).implemented = true := by simp [hb, zzDU, say]
  obtain ⟨d, rest, hframes, hd⟩ := frames_zzDU r c
  rw [← hb, ← frames_of_implemented hi] at hframes
  have hvalue : d :: rest ≠ "?;".toList := by
    rintro heq
    obtain ⟨rfl, -⟩ := List.cons.inj heq
    exact absurd hd (by decide)
  have hrefused : ¬ Refused r c := by
    simp only [Refused, hframes, List.mem_singleton]
    exact hvalue.symm
  obtain ⟨f, hf, hpre⟩ := hone.answered ⟨r, d :: rest, by simp [hframes], hvalue⟩ hrefused
  obtain rfl : f = d :: rest := by simpa [hframes] using hf.symm
  rw [h] at hpre
  obtain ⟨t, ht⟩ := hpre
  obtain ⟨rfl, -⟩ := List.cons.inj ht
  exact absurd hd (by decide)

/-- A radio with a transmitter. -/
def withTx (r : Rig) : Rig := { r with
  transmitter := some {
    isForRx := true, dacAntenna := 0, micGain := 0, drive := 0, tunePercent := 0,
    enableEqualizer := 0, equalizer := fun _ => 0, ctcssEnabled := 0, ctcss := 0,
    compressorLevel := 0, puresignalEnabled := 0, xitEnabled := 0, xit := 0 } }

/-- `CN;` is answered where there is a transmitter, and has no reply at all where there is none. -/
theorem oneReply_cn (h : letters c = "CN".toList) :
    OneReply r c ↔ ¬ (char c 2 = ';' ∧ r.transmitter = none) := by
  have hb := body_cn h
  constructor
  · rintro hone ⟨h2, hnone⟩
    have hi : ((body c).run c r).implemented = true := by simp [hb, cn, run, hnone]
    have hframes : (parseCmd (some r) c).frames = [] := by
      rw [frames_of_implemented hi]
      simp [hb, cn, run, hnone]
    have hanswered : Answered (withTx r) c := by
      have hrun : (body c).run c (withTx r) =
          ⟨["CN".toList ++ (zeros 2 (0 + 1) ++ [';'])], [], true⟩ := by
        rw [hb]
        simp [cn, read, say, run, withTx, ends, h2, Rig.tx]
      refine ⟨"CN".toList ++ (zeros 2 (0 + 1) ++ [';']), ?_, by decide⟩
      rw [frames_of_implemented (by rw [hrun]), hrun]
      exact List.mem_singleton.2 rfl
    obtain ⟨f, hf, -⟩ := hone.answered ⟨_, hanswered⟩ (by simp [Refused, hframes])
    simp [hframes] at hf
  · intro hform
    refine oneReply_of_fairAt ?_
    rw [hb, h]
    cases htx : r.transmitter with
    | some tx => exact .onState_true (by simp [htx]) (fairAt_of_fairFor (by decide) c r) rfl
    | none =>
      have h2 : char c 2 ≠ ';' := fun h2 => hform ⟨h2, htx⟩
      refine .of_mute (fun r' => ?_) fun hi => ?_
      · cases h' : r'.transmitter <;> simp [cn, read, say, run, h', ends, h2, apply_ite]
      · simp [cn, run, htx]

/-- `FW` with a width selects the filter `FVar1`, and refuses in a mode without a width. -/
theorem oneReply_fw (h : letters c = "FW".toList) :
    OneReply r c ↔ ¬ (char c 2 ≠ ';' ∧ char c 6 = ';' ∧ filterWidth r = none ∧
      r.filterA ≠ fVar1) := by
  have hb := body_fw h
  constructor
  · rintro hone ⟨h2, h6, hwidth, hfilter⟩
    have hi : ((body c).run c r).implemented = false := by
      simp [hb, fw, run, ends, h2, h6, hwidth]
    have heffects := (hone.clean (by simp [Refused, frames_of_not_implemented hi])).2
    simp [effects_eq, hb, fw, selectVar1, run, ends, h2, h6, hwidth, hfilter] at heffects
  · intro hform
    refine oneReply_of_fairAt ?_
    rw [hb, h]
    by_cases h2 : char c 2 = ';'
    · exact .onText_true _ (by simp [ends, h2]) (fairAt_of_fairFor (by decide) c r)
    refine .of_mute (fun r' => ?_) fun hi => ?_
    · by_cases h6 : char c 6 = ';'
      · cases h' : filterWidth r' <;> simp [fw, selectVar1, run, ends, h2, h6, h']
      · simp [fw, run, ends, h2, h6]
    · by_cases h6 : char c 6 = ';'
      · cases hwidth : filterWidth r with
        | some w => simp [fw, selectVar1, run, ends, h2, h6, hwidth] at hi
        | none =>
          have hfilter : r.filterA = fVar1 := by
            by_contra hfilter
            exact hform ⟨h2, h6, hwidth, hfilter⟩
          simp [fw, selectVar1, run, ends, h2, h6, hwidth, hfilter]
      · simp [fw, run, ends, h2, h6] at hi

/-! ## When a command keeps to one reply -/

/-- **One reply per command**: in every state of the radio, and for every text, a command keeps to
one reply exactly if it is none of the four slips. -/
theorem oneReply_iff (r : Rig) (c : List Char) : OneReply r c ↔ ¬ Slip r c := by
  by_cases hDQ : letters c = "ZZDQ".toList
  · rw [oneReply_zzDQ hDQ]
    simp [Slip, hDQ]
  by_cases hDU : letters c = "ZZDU".toList
  · simp [Slip, hDU, not_oneReply_zzDU hDU]
  by_cases hCN : letters c = "CN".toList
  · rw [oneReply_cn hCN]
    simp [Slip, hCN]
  by_cases hFW : letters c = "FW".toList
  · rw [oneReply_fw hFW]
    simp [Slip, hFW]
  · have hslip : ¬ Slip r c := by
      simp only [Slip, hDQ, hDU, hCN, hFW, false_and, or_self, not_false_eq_true]
    exact iff_of_true (oneReply_of_fairAt (fairAt_of_fairFor (fairFor_body hDQ hDU hCN hFW) c r))
      hslip

/-- A receiver on 14.2 MHz as it starts, without a transmitter. -/
def quietRig : Rig where
  channel := true
  bandA := 7
  modeA := .usb
  modeB := .usb
  filterA := 5
  filterB := 5
  filterLowA := 150
  filterHighA := 2550
  frequencyA := 14200000
  frequencyB := 14200000
  ctun := 0
  freetune := 0
  ctunFrequency := 14200000
  split := splitOff
  deviation := 2500
  agc := 3
  agcGain := 80
  ritEnabled := 0
  rit := 0
  step := 100
  locked := 0
  volume := 0.1
  nb := 0
  nb2 := 0
  nr := 0
  nr2 := 0
  snb := 0
  anf := 0
  smeter := 1
  meterDb := -120
  displayAverageTime := 170
  panadapterLow := -140
  panadapterHigh := -60
  panadapterStep := 20
  waterfallLow := -140
  waterfallHigh := -60
  enableEqualizer := 0
  equalizer := fun _ => 0
  subrxEnable := false
  adcAttenuation := 0
  adcAntenna := 0
  adcPreamp := 0
  isHermesLite2 := false
  frequencyMax := 61440000
  mox := 0
  tune := 0
  vox := 0
  ptt := 0
  voxEnabled := false
  voxThreshold := 0.001
  transmitter := none
  filters := fun _ _ => ⟨150, 2550, "2.4k".toList⟩
  bandMin := fun _ => 0

example : (parseCmd (some quietRig) "FA;".toList).frames = ["FA00014200000;".toList] := by decide

/-- `ZZDQ;` sends the level, and then `?;`. -/
theorem not_oneReply : ¬ ∀ (r : Rig) (c : List Char), c.getLast? = some ';' → OneReply r c := by
  intro h
  have hlen := (h quietRig "ZZDQ;".toList rfl).once
  exact absurd hlen (by decide)

end MacHPSDR.Rigctl
