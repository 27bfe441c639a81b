import MacHPSDR.Foundations.Transition
import MacHPSDR.Hfdl.Miam

/-!
# What becomes of a file

A request opens a transfer under its key, the registration and the file id, and the segments that
come after it are what has arrived of the file (`transfer`). The transfer is over when the segments
from the first on, none of them missing, hold as many bytes as were announced (`Covered`).

Without expiry and eviction the table runs one transfer for each key side by side, whatever the
order in which segments come and however often, and reports a file exactly then
(`file_complete`). A file without bytes and the segments after the 64th are left out by design
(`segment_sixtyFive`).
-/

namespace MacHPSDR.Hfdl.Miam

/-! ## Transfers -/

/-- What a frame tells about a transfer. -/
inductive Event
  | announce (k : MiamKey) (size : ℕ)
  | segment (k : MiamKey) (number : ℕ) (data : List UInt8)
  deriving DecidableEq

/-- The transfer that an event is about. -/
def Event.key : Event → MiamKey
  | announce k _ => k
  | segment k _ _ => k

/-- A text that arrives from an aircraft. -/
structure Arrival where
  now : ℤ
  reg : Option Registration
  txt : List UInt8

/-- What the text tells, if it is a frame that concerns a transfer. -/
def Arrival.event (a : Arrival) : Option Event :=
  match a.reg, miamFrame a.txt with
  | some reg, .request fileId fileSize => some (.announce ⟨reg.text, fileId⟩ fileSize)
  | some reg, .segment fileId segId data => some (.segment ⟨reg.text, fileId⟩ segId data)
  | _, _ => none

/-- A transfer: the size announced and the segments that have arrived since. -/
structure Transfer where
  size : ℕ
  arrived : List (ℕ × List UInt8)
  deriving DecidableEq

namespace Transfer

/-- One more segment. -/
def push (x : Transfer) (number : ℕ) (data : List UInt8) : Transfer :=
  ⟨x.size, x.arrived ++ [(number, data)]⟩

/-- The file so far. -/
def pieces (x : Transfer) : PieceTable UInt8 := PieceTable.of x.arrived

/-- Some first segments have all arrived and hold the bytes announced. -/
def Covered (x : Transfer) : Prop :=
  0 < x.size ∧ ∃ m ≤ miamSegMax, x.pieces.Full m ∧ x.size ≤ (x.pieces.join m).length

instance (x : Transfer) : Decidable x.Covered := inferInstanceAs (Decidable (_ ∧ _))

theorem covered_iff (x : Transfer) : x.Covered ↔
    x.size ≠ 0 ∧ x.size ≤ (x.pieces.row 0 miamSegMax).flatten.length := by
  rw [Covered, PieceTable.le_length_flatten_row, Nat.pos_iff_ne_zero]

end Transfer

/-- A number that the table has a place for. -/
def Numbered (number : ℕ) : Prop := 1 ≤ number ∧ number ≤ miamSegMax

instance (number : ℕ) : Decidable (Numbered number) := inferInstanceAs (Decidable (_ ∧ _))

/-- One event of a key for which this transfer is open. -/
def take (o : Option Transfer) : Event → Option Transfer
  | .announce _ size => some ⟨size, []⟩
  | .segment _ number data =>
    match o with
    | none => none
    | some x =>
      if ¬ Numbered number then some x
      else if (x.push number data).Covered then none
      else some (x.push number data)

/-- The transfer that is open after these events. -/
def transfer (k : MiamKey) (h : List Event) : Option Transfer :=
  (h.filter fun ev => ev.key = k).foldl take none

theorem transfer_concat_self (h : List Event) (ev : Event) :
    transfer ev.key (h ++ [ev]) = take (transfer ev.key h) ev := by
  simp [transfer]

theorem transfer_concat_of_ne {k : MiamKey} (h : List Event) {ev : Event} (hk : ev.key ≠ k) :
    transfer k (h ++ [ev]) = transfer k h := by
  simp [transfer, hk]

/-- What has arrived of a file are segments of its own key. -/
theorem mem_of_mem_arrived {k : MiamKey} {h : List Event} {x : Transfer}
    (hx : transfer k h = some x) {p : ℕ × List UInt8} (hp : p ∈ x.arrived) :
    .segment k p.1 p.2 ∈ h := by
  induction h using List.reverseRecOn generalizing x with
  | nil => cases hx
  | append_singleton h ev ih =>
    by_cases hk : ev.key = k
    · subst hk
      rw [transfer_concat_self] at hx
      cases ev with
      | announce k size =>
        obtain rfl := Option.some.inj hx
        cases hp
      | segment k number data =>
        cases ho : transfer k h with
        | none =>
          simp only [Event.key, ho, take] at hx
          cases hx
        | some y =>
          simp only [Event.key, ho, take] at hx
          split_ifs at hx
          · obtain rfl := Option.some.inj hx
            rcases List.mem_append.1 hp with hold | hnew
            · exact List.mem_append_left _ (ih ho hold)
            · obtain rfl := List.mem_singleton.1 hnew
              simp [Event.key]
          · obtain rfl := Option.some.inj hx
            exact List.mem_append_left _ (ih ho hp)
    · rw [transfer_concat_of_ne h hk] at hx
      exact List.mem_append_left _ (ih hx hp)

/-! ## The table -/

/-- The entry stands for this transfer. -/
structure Holds (e : MiamXfer) (x : Transfer) : Prop where
  totalLen : e.totalLen = x.size
  seg : e.seg = x.pieces
  missing : ¬ x.Covered

/-- An entry or nothing, for a transfer or nothing. -/
def HoldsOption : Option MiamXfer → Option Transfer → Prop
  | none, none => True
  | some e, some x => Holds e x
  | _, _ => False

/-- The table, together with what the frames have told. -/
structure Run where
  table : MiamTable
  received : List Event

/-- No timer has run out, and there is room for a transfer that is announced. -/
def Undisturbed (s : Run) (a : Arrival) : Prop :=
  (∀ i, (s.table i).all fun e => decide (a.now - e.since ≤ miamXferTimeout)) ∧
    ∀ ev ∈ a.event, s.table.find ev.key = none → ∃ i, (s.table i).isNone

instance : DecidableRel Undisturbed := fun _ _ => inferInstanceAs (Decidable (_ ∧ _))

/-- Texts that arrive. -/
def miam : System Run Arrival where
  init := ⟨SlotTable.empty, []⟩
  step s a := some ⟨(miamDecode s.table a.now a.reg a.txt).1, s.received ++ a.event.toList⟩

/-- **One segment on its entry.** -/
theorem accept_of_holds {e : MiamXfer} {x : Transfer} (h : Holds e x) {number : ℕ}
    (hn : Numbered number) (data : List UInt8) (k : MiamKey) :
    HoldsOption (miamXferAccept e number data).1 (take (some x) (.segment k number data)) ∧
    ∀ full, (miamXferAccept e number data).2 = .complete full ↔
      (x.push number data).Covered ∧
        full = ((x.push number data).pieces.row 0 miamSegMax).flatten := by
  obtain ⟨place, rfl⟩ := Nat.exists_eq_add_of_le' hn.1
  have hcovered := (x.push (place + 1) data).covered_iff
  unfold miamXferAccept
  simp only [take, hn, not_true_eq_false, if_false, Nat.add_sub_cancel, h.seg]
  cases hdup : x.pieces place with
  | some d =>
    have hsame : (x.push (place + 1) data).pieces = x.pieces :=
      PieceTable.of_concat_of_isSome data (by rw [← Transfer.pieces, hdup]; rfl)
    have hmissing : ¬ (x.push (place + 1) data).Covered := by
      unfold Transfer.Covered
      rw [hsame]
      exact h.missing
    simp only [Option.isSome_some, if_true, hmissing, if_false, false_and, iff_false]
    exact ⟨⟨h.totalLen, h.seg.trans hsame.symm, hmissing⟩, fun full heq => by cases heq⟩
  | none =>
    have hput : x.pieces.put place data = (x.push (place + 1) data).pieces :=
      (PieceTable.of_concat_of_none data hdup).symm
    simp only [Option.isSome_none, Bool.false_eq_true, if_false, hput, h.totalLen,
      ← List.length_flatten]
    by_cases hc : (x.push (place + 1) data).Covered
    · obtain ⟨hsize, hlen⟩ := hcovered.1 hc
      have hopen : ¬ (x.size = 0 ∨
          ((x.push (place + 1) data).pieces.row 0 miamSegMax).flatten.length < x.size) :=
        not_or.2 ⟨hsize, not_lt.2 hlen⟩
      simp only [hopen, hc, if_true, if_false, true_and]
      refine ⟨trivial, fun full => ⟨fun heq => (MiamStatus.complete.inj heq).symm, ?_⟩⟩
      rintro rfl
      rfl
    · have hopen : x.size = 0 ∨
          ((x.push (place + 1) data).pieces.row 0 miamSegMax).flatten.length < x.size := by
        by_contra hnot
        obtain ⟨hsize, hlen⟩ := not_or.1 hnot
        exact hc (hcovered.2 ⟨hsize, not_lt.1 hlen⟩)
      simp only [hopen, hc, if_true, if_false, false_and, iff_false]
      exact ⟨⟨rfl, rfl, hc⟩, fun full heq => by cases heq⟩

theorem holds_announced (size : ℕ) :
    Holds { totalLen := size, seg := PieceTable.empty } ⟨size, []⟩ where
  totalLen := rfl
  seg := rfl
  missing hc := by
    obtain ⟨hpos, m, -, hfull, hsize⟩ := hc
    have hm : m = 0 := by
      by_contra hne
      have hzero := hfull 0 (Nat.pos_of_ne_zero hne)
      cases hzero
    subst hm
    exact absurd hsize (not_le.2 hpos)

section Table

variable {t : MiamTable} {now : ℤ} {k : MiamKey}

/-- A request opens a transfer. -/
theorem updates_open (hu : t.Unique) (hout : miamXferExpire t now = t)
    (hfree : t.find k = none → ∃ i, (t i).isNone) (hk : miamStored k = k) (size : ℕ) :
    t.Updates (miamXferOpen t now k size) k fun v => HoldsOption v (some ⟨size, []⟩) := by
  have hhome : t.Home k ((t.find k).getD t.alloc) := by
    cases hfind : t.find k with
    | some i => exact .inl hfind
    | none =>
      obtain ⟨i, hi⟩ := hfree hfind
      exact .inr ⟨hfind, SlotTable.alloc_of_free ⟨i, Option.isNone_iff_eq_none.1 hi⟩⟩
  unfold miamXferOpen
  simp only [hout]
  exact hhome.updates_put hu hk (holds_announced size)

/-- A segment without a place. -/
theorem add_of_not_numbered {segId : ℕ} (h : ¬ Numbered segId) (data : List UInt8) :
    miamXferAdd t now k segId data = (t, .skipped) := by
  have hrange : segId < 1 ∨ segId > miamSegMax := by
    unfold Numbered at h
    omega
  rw [miamXferAdd, if_pos hrange]

/-- A segment of a transfer that is open or not. -/
theorem updates_add (hu : t.Unique) (hout : miamXferExpire t now = t) {o : Option Transfer}
    (ho : HoldsOption ((t.get k).map Entry.val) o) {segId : ℕ} (hn : Numbered segId)
    (data : List UInt8) :
    t.Updates (miamXferAdd t now k segId data).1 k
      (fun v => HoldsOption v (take o (.segment k segId data))) ∧
    ∀ full, (miamXferAdd t now k segId data).2 = .complete full ↔
      ∃ x, o = some x ∧ (x.push segId data).Covered ∧
        full = ((x.push segId data).pieces.row 0 miamSegMax).flatten := by
  have hrange : ¬ (segId < 1 ∨ segId > miamSegMax) := by
    unfold Numbered at hn
    omega
  have hself := ho
  unfold miamXferAdd
  simp only [hrange, hout, if_false]
  cases hfind : t.find k with
  | none =>
    have hget : t.get k = none := by simp [SlotTable.get, hfind]
    rw [hget] at ho
    cases o with
    | some x => exact ho.elim
    | none => exact ⟨.refl hu hself, fun full => by simp⟩
  | some i =>
    obtain ⟨e, he, hkey⟩ := SlotTable.find_eq_some hfind
    have hget : t.get k = some e := by simp [SlotTable.get, hfind, he]
    rw [hget] at ho
    cases o with
    | none => exact ho.elim
    | some x =>
      obtain ⟨hval, hstatus⟩ := accept_of_holds (e := e.val) ho hn data k
      simp only [Option.bind_some, he, Option.map_some, Option.some.injEq, exists_eq_left']
      rw [← Prod.mk.eta (p := miamXferAccept e.val segId data)]
      cases hacc : (miamXferAccept e.val segId data).1 with
      | none =>
        rw [hacc] at hval
        cases htake : take (some x) (.segment k segId data) with
        | none => exact ⟨SlotTable.Home.updates_clear (.inl hfind) hu trivial, hstatus⟩
        | some y =>
          rw [htake] at hval
          exact hval.elim
      | some v =>
        rw [hacc] at hval
        cases htake : take (some x) (.segment k segId data) with
        | none =>
          rw [htake] at hval
          exact hval.elim
        | some y =>
          rw [htake] at hval
          exact ⟨SlotTable.Home.updates_put (e := { e with val := v }) (.inl hfind) hu hkey hval,
            hstatus⟩

end Table

/-! ## Runs -/

theorem stored_key {a : Arrival} {ev : Event} (h : a.event = some ev) :
    miamStored ev.key = ev.key := by
  have hshort (reg : Registration) (fileId : ℕ) :
      miamStored ⟨reg.text, fileId⟩ = ⟨reg.text, fileId⟩ := by
    rw [miamStored, CString.strlcpy_eq_self (s := reg.text) (reg.short.trans (by decide))]
  unfold Arrival.event at h
  split at h
  · obtain rfl := Option.some.inj h
    exact hshort _ _
  · obtain rfl := Option.some.inj h
    exact hshort _ _
  · cases h

/-- What `hfdl_miam_decode` does, by what the text tells. -/
theorem decode_eq (t : MiamTable) (a : Arrival) :
    match a.event with
    | none => (miamDecode t a.now a.reg a.txt).1 = t ∧
        ∀ full, (miamDecode t a.now a.reg a.txt).2 ≠ some (.complete full)
    | some (.announce k size) =>
        miamDecode t a.now a.reg a.txt = (miamXferOpen t a.now k size, none)
    | some (.segment k number data) => miamDecode t a.now a.reg a.txt =
        ((miamXferAdd t a.now k number data).1, some (miamXferAdd t a.now k number data).2) := by
  obtain ⟨now, reg, txt⟩ := a
  unfold Arrival.event miamDecode
  cases reg with
  | none => cases miamFrame txt <;> simp
  | some reg => cases miamFrame txt <;> simp

namespace Run

/-- The table holds the transfers that are open. -/
def Inv (s : Run) : Prop := s.table.Tracks fun k v => HoldsOption v (transfer k s.received)

variable {s : Run} {a : Arrival}

theorem expire_eq (hq : Undisturbed s a) : miamXferExpire s.table a.now = s.table :=
  SlotTable.expire_eq_self_of_all hq.1

/-- **One event.** The transfer of its key goes on as it would alone, and the others stay. -/
theorem receive (h : Inv s) (hq : Undisturbed s a) {ev : Event} (hev : a.event = some ev) :
    s.table.Updates (miamDecode s.table a.now a.reg a.txt).1 ev.key
      fun v => HoldsOption v (take (transfer ev.key s.received) ev) := by
  have hdecode := decode_eq s.table a
  rw [hev] at hdecode
  cases ev with
  | announce k size =>
    simp only at hdecode
    rw [hdecode]
    exact updates_open h.unique (expire_eq hq) (hq.2 _ hev) (stored_key hev) size
  | segment k number data =>
    simp only at hdecode
    rw [hdecode]
    by_cases hn : Numbered number
    · exact (updates_add h.unique (expire_eq hq) (h.holds k) hn data).1
    · rw [add_of_not_numbered hn]
      refine .refl h.unique ?_
      have htake : take (transfer k s.received) (.segment k number data) =
          transfer k s.received := by
        cases htr : transfer k s.received with
        | none => rfl
        | some x => simp [take, hn]
      simp only [Event.key, htake]
      exact h.holds k

/-- What is reported for a segment. -/
theorem report_iff (h : Inv s) (hq : Undisturbed s a) (full : List UInt8) :
    (miamDecode s.table a.now a.reg a.txt).2 = some (.complete full) ↔
      ∃ k number data x, a.event = some (.segment k number data) ∧ Numbered number ∧
        transfer k s.received = some x ∧ (x.push number data).Covered ∧
        full = ((x.push number data).pieces.row 0 miamSegMax).flatten := by
  have hdecode := decode_eq s.table a
  cases hev : a.event with
  | none =>
    rw [hev] at hdecode
    simpa using hdecode.2 full
  | some ev =>
    rw [hev] at hdecode
    cases ev with
    | announce k size =>
      simp only at hdecode
      rw [hdecode]
      simp
    | segment k number data =>
      simp only at hdecode
      rw [hdecode]
      by_cases hn : Numbered number
      · have hadd := (updates_add h.unique (expire_eq hq) (h.holds k) hn data).2 full
        simp only [Option.some.injEq, hadd]
        constructor
        · rintro ⟨x, hx, hrest⟩
          exact ⟨k, number, data, x, rfl, hn, hx, hrest⟩
        · rintro ⟨k', number', data', x, heq, -, hx, hrest⟩
          obtain ⟨rfl, rfl, rfl⟩ := Event.segment.inj heq
          exact ⟨x, hx, hrest⟩
      · rw [add_of_not_numbered hn]
        constructor
        · intro heq
          cases heq
        · rintro ⟨k', number', data', x, heq, hn', -⟩
          obtain ⟨rfl, rfl, rfl⟩ := Event.segment.inj (Option.some.inj heq)
          exact absurd hn' hn

theorem inv_init : Inv miam.init := SlotTable.tracks_empty fun _ => trivial

theorem inv_step (s : Run) (a : Arrival) (s' : Run) (h : Inv s) (hq : Undisturbed s a)
    (hs : miam.step s a = some s') : Inv s' := by
  obtain rfl := Option.some.inj hs
  unfold Inv
  cases hev : a.event with
  | none =>
    have hdecode := decode_eq s.table a
    rw [hev] at hdecode
    simp only [hdecode.1, Option.toList_none, List.append_nil]
    exact h
  | some ev =>
    simp only [Option.toList_some]
    refine h.update (k := ev.key) ?_ fun k hk => ?_
    · rw [transfer_concat_self]
      exact receive h hq hev
    · rw [transfer_concat_of_ne _ (Ne.symm hk)]

end Run

/-- **What is reported of a file.** In every run without expiry and eviction:

* a file is complete exactly with a segment (of number 1 to 64) after which the segments in a row
  from the first on, up to one that is missing or the 64th, hold at least the bytes announced, and
  what is reported are these segments in their order;
* so a file that was announced with at least one byte is complete as soon as some first segments,
  64 of them at most, have arrived and hold its bytes;
* what is kept of a file, and what the table stores for it, are segments received for its key. -/
theorem file_complete (evs : List Arrival) (s : Run) (hrun : miam.exec miam.init evs = some s)
    (hquiet : miam.Along Undisturbed miam.init evs) :
    (∀ a, Undisturbed s a →
      (∀ full, (miamDecode s.table a.now a.reg a.txt).2 = some (.complete full) ↔
        ∃ k number data x m, a.event = some (.segment k number data) ∧ Numbered number ∧
          transfer k s.received = some x ∧ 0 < x.size ∧ m ≤ miamSegMax ∧
          (x.push number data).pieces.Full m ∧
          (m = miamSegMax ∨ (x.push number data).pieces m = none) ∧
          x.size ≤ full.length ∧ full = (x.push number data).pieces.join m) ∧
      ∀ k number data x m, a.event = some (.segment k number data) → Numbered number →
        transfer k s.received = some x → 0 < x.size → m ≤ miamSegMax →
        (∀ n, 1 ≤ n → n ≤ m → ∃ d, (n, d) ∈ (x.push number data).arrived) →
        x.size ≤ ((x.push number data).pieces.join m).length →
        ∃ full, (miamDecode s.table a.now a.reg a.txt).2 = some (.complete full)) ∧
    (∀ k x p, transfer k s.received = some x → p ∈ x.arrived →
      Event.segment k p.1 p.2 ∈ s.received) ∧
    ∀ i e j d, s.table i = some e → e.val.seg j = some d →
      Event.segment e.key (j + 1) d ∈ s.received := by
  have hinv : s.Inv := System.exec_induction_along _ Run.inv_step evs _ _ Run.inv_init hquiet hrun
  refine ⟨fun a ha => ⟨fun full => ?_, ?_⟩, fun k x p hx hp => mem_of_mem_arrived hx hp, ?_⟩
  · rw [Run.report_iff hinv ha]
    constructor
    · rintro ⟨k, number, data, x, hev, hn, hx, hc, rfl⟩
      obtain ⟨hsize, hlen⟩ := (x.push number data).covered_iff.1 hc
      exact ⟨k, number, data, x, _, hev, hn, hx, hc.1, PieceTable.length_row_le _ _ _,
        PieceTable.full_row _ _, PieceTable.row_stop _ _, hlen, PieceTable.flatten_row _ _⟩
    · rintro ⟨k, number, data, x, m, hev, hn, hx, hpos, hm, hfull, hstop, hlen, rfl⟩
      have hrow : ((x.push number data).pieces.row 0 miamSegMax).length = m := by
        have hle := (PieceTable.full_iff_le_length_row _ hm).1 hfull
        rcases hstop with rfl | hnone
        · exact le_antisymm (PieceTable.length_row_le _ _ _) hle
        · refine le_antisymm (not_lt.1 fun hlt => ?_) hle
          have hsome := PieceTable.full_row (x.push number data).pieces miamSegMax m hlt
          rw [hnone] at hsome
          cases hsome
      refine ⟨k, number, data, x, hev, hn, hx, ⟨hpos, m, hm, hfull, hlen⟩, ?_⟩
      rw [PieceTable.flatten_row, hrow]
  · intro k number data x m hev hn hx hpos hm hall hlen
    have hfull : (x.push number data).pieces.Full m := fun i hi =>
      PieceTable.isSome_of_iff.2 (hall (i + 1) i.succ_pos hi)
    exact ⟨_, (Run.report_iff hinv ha _).2
      ⟨k, number, data, x, hev, hn, hx, ⟨hpos, m, hm, hfull, hlen⟩, rfl⟩⟩
  · intro i e j d he hd
    have hget : s.table.get e.key = some e := hinv.unique.get_eq_some_iff.2 ⟨i, he, rfl⟩
    have hrep := hinv.holds e.key
    rw [hget] at hrep
    cases hx : transfer e.key s.received with
    | none =>
      rw [hx] at hrep
      exact hrep.elim
    | some x =>
      rw [hx] at hrep
      have hholds : Holds e.val x := hrep
      rw [hholds.seg] at hd
      exact mem_of_mem_arrived hx (PieceTable.of_eq_some hd)

/-- The last `width` digits of a number. -/
def digits : ℕ → ℕ → List UInt8
  | 0, _ => []
  | width + 1, n => digits width (n / 10) ++ [UInt8.ofNat (0x30 + n % 10)]

/-- A request for file 1, to be complete at midnight. -/
def fileRequest (size : ℕ) : Arrival where
  now := 0
  reg := some ⟨[0x4e, 0x31], by decide⟩
  txt := 0x46 :: (digits 3 1 ++ digits 6 size ++ digits 12 260101000000)

/-- A segment of file 1. -/
def fileSegment (number : ℕ) (data : List UInt8) : Arrival where
  now := 0
  reg := some ⟨[0x4e, 0x31], by decide⟩
  txt := 0x53 :: (digits 3 1 ++ digits 3 number ++ data)

/-- A file of three bytes in two segments, the second of which comes first, and twice. -/
theorem file_complete_twoSegments : ∃ s, miam.exec miam.init
    [fileRequest 3, fileSegment 2 [0x43], fileSegment 2 [0x43]] = some s ∧
    (miamDecode s.table 0 (fileSegment 1 [0x41, 0x42]).reg (fileSegment 1 [0x41, 0x42]).txt).2 =
      some (.complete [0x41, 0x42, 0x43]) := by
  refine ⟨_, rfl, ?_⟩
  refine (((file_complete [fileRequest 3, fileSegment 2 [0x43], fileSegment 2 [0x43]] _ rfl
    (by decide +kernel)).1 (fileSegment 1 [0x41, 0x42]) (by decide +kernel)).1 _).2
    ⟨⟨[0x4e, 0x31], 1⟩, 1, [0x41, 0x42], ⟨3, [(2, [0x43]), (2, [0x43])]⟩, 2, by decide +kernel,
      by decide, by decide +kernel, by decide, by decide, by decide, .inr rfl, by decide, rfl⟩

/-- A file of 65 bytes, one to a segment: the last segment is left out. A file without bytes is not
complete with its first segment. -/
theorem segment_sixtyFive : (∃ s, miam.exec miam.init
      (fileRequest 65 :: (List.range 64).map fun i => fileSegment (i + 1) [0x41]) = some s ∧
      (miamDecode s.table 0 (fileSegment 65 [0x41]).reg (fileSegment 65 [0x41]).txt).2 =
        some .skipped) ∧
    ∃ s, miam.exec miam.init [fileRequest 0] = some s ∧
      (miamDecode s.table 0 (fileSegment 1 []).reg (fileSegment 1 []).txt).2 =
        some .inProgress :=
  ⟨miam.exists_exec (by decide +kernel), miam.exists_exec (by decide +kernel)⟩

end MacHPSDR.Hfdl.Miam
