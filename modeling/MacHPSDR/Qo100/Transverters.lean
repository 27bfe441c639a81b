import MacHPSDR.Receiver.ModeMemory
import Mathlib

/-!
# The transverter rows of the satellite

`qo100_create_transverters` makes two rows of the band table, or writes them anew: each is found by
its title, or takes the first row without one. It writes nothing unless it has found both.
-/

namespace MacHPSDR.Qo100

open Receiver

/-- What the operator has set for the satellite; 0 stands for what is usual. -/
structure Station where
  lnbLo : ℤ
  txLo : ℤ
  offset : ℤ
  transponder : ℤ

namespace Station

variable (q : Station)

/-- `QO100_DEFAULT_LNB_LO` is that of nearly every LNB. -/
def lnb : ℤ := if q.lnbLo ≠ 0 then q.lnbLo else 9750000000

/-- `QO100_TP_OFFSET` is the downlink less the uplink. -/
def tpOffset : ℤ := if q.offset ≠ 0 then q.offset else 8089500000

end Station

def nbDownLow : ℤ := 10489500000
def nbDownHigh : ℤ := 10490000000
def wbDownLow : ℤ := 10490500000
def wbDownHigh : ℤ := 10499500000

/-- `QO100_XVTR_RX_TITLE` -/
def rxTitle : String := "QO-100 RX"

/-- `QO100_XVTR_TX_TITLE` -/
def txTitle : String := "QO-100 TX"

/-- `qo100_stack_rx` -/
def stackRx (i : ℤ) : ℤ :=
  if i = 0 then 10489560000 else if i = 1 then 10489700000 else 10493250000

/-- The entries of the band stack of a transverter. -/
def xvtrEntries : ℤ := 3

/-- The rows of the transverters. -/
def xvtrSlots : List ℕ := (List.range xvtrCount).map (bandCount + ·)

/-- `fill_xvtr`; the filters of the entries are in `fillFilters`. -/
def fillXvtr (b : Band) (name : String) (fmin fmax lo shift : ℤ) : Band :=
  { b with
    title := name
    frequencyMin := fmin
    frequencyMax := fmax
    frequencyLO := lo
    entry := fun i =>
      if 0 ≤ i ∧ i < xvtrEntries then ⟨min (max (stackRx i - shift) fmin) fmax, .usb⟩
      else b.entry i }

/-- `F6` -/
def f6 : Fin filterCount := ⟨6, by decide⟩

def fillFilters (filters : ℤ → Fin filterCount) : ℤ → Fin filterCount :=
  fun i => if 0 ≤ i ∧ i < xvtrEntries then f6 else filters i

/-- `find_xvtr_slot`: the row with the title, or the first one that is free. -/
def findXvtrSlot (bands : ℕ → Band) (name : String) : Option ℕ :=
  match xvtrSlots.find? fun i => (bands i).title = name with
  | some i => some i
  | none => xvtrSlots.find? fun i => (bands i).title = ""

/-- The two rows; they must not be the same free one. -/
def findSlots (bands : ℕ → Band) : Option (ℕ × ℕ) :=
  match findXvtrSlot bands rxTitle with
  | none => none
  | some rxs =>
    let txs := findXvtrSlot bands txTitle
    let txs :=
      if txs = some rxs then xvtrSlots.find? fun i => i ≠ rxs && (bands i).title = "" else txs
    txs.map fun txs => (rxs, txs)

/-- The receive row, written anew. Nothing writes its `errorLO`. -/
def receiveRow (q : Station) (b : Band) : Band :=
  fillXvtr b rxTitle nbDownLow wbDownHigh q.lnb 0

def transmitRow (q : Station) (b : Band) : Band :=
  fillXvtr b txTitle (nbDownLow - q.tpOffset) (wbDownHigh - q.tpOffset) q.txLo q.tpOffset

/-- `qo100_create_transverters`; `none` is `FALSE`. -/
def createTransverters (q : Station) (s : ModeRx) : Option ModeRx :=
  (findSlots s.bands).map fun slots =>
    { s with
      bands := Function.update
        (Function.update s.bands slots.1 (receiveRow q (s.bands slots.1)))
        slots.2 (transmitRow q (s.bands slots.2))
      entryFilter := Function.update
        (Function.update s.entryFilter slots.1 (fillFilters (s.entryFilter slots.1)))
        slots.2 (fillFilters (s.entryFilter slots.2)) }

/-! ## The rows that are found -/

/-- The first element with `p` is the first one with `q`. -/
theorem find?_congr {l : List ℕ} {p q : ℕ → Bool} {r : ℕ} (hr : l.find? p = some r)
    (hq : q r = true) (hnot : ∀ x ∈ l, p x = false → q x = false) : l.find? q = some r := by
  rw [List.find?_eq_some_iff_append] at hr ⊢
  obtain ⟨-, as, bs, hl, has⟩ := hr
  refine ⟨hq, as, bs, hl, fun x hx => ?_⟩
  have hp := has x hx
  have hmem : x ∈ l := by
    rw [hl]
    exact List.mem_append_left _ hx
  rw [hnot x hmem (by simpa using hp)]
  rfl

/-- The row has the title, or is the first that is free when none has it. -/
theorem findXvtrSlot_cases {bands : ℕ → Band} {name : String} {i : ℕ}
    (h : findXvtrSlot bands name = some i) :
    (xvtrSlots.find? fun j => (bands j).title = name) = some i ∨
      (∀ j ∈ xvtrSlots, (bands j).title ≠ name) ∧
        (xvtrSlots.find? fun j => (bands j).title = "") = some i := by
  unfold findXvtrSlot at h
  cases hfind : xvtrSlots.find? fun j => (bands j).title = name with
  | some j =>
    rw [hfind] at h
    exact .inl h
  | none =>
    rw [hfind] at h
    exact .inr ⟨by simpa using List.find?_eq_none.mp hfind, h⟩

theorem findXvtrSlot_of_find {bands : ℕ → Band} {name : String} {i : ℕ}
    (h : (xvtrSlots.find? fun j => (bands j).title = name) = some i) :
    findXvtrSlot bands name = some i := by
  unfold findXvtrSlot
  rw [h]

theorem findXvtrSlot_title {bands : ℕ → Band} {name : String} {i : ℕ}
    (h : findXvtrSlot bands name = some i) :
    (bands i).title = name ∨ (bands i).title = "" := by
  rcases findXvtrSlot_cases h with hfind | ⟨-, hfind⟩
  · exact .inl (by simpa using List.find?_some hfind)
  · exact .inr (by simpa using List.find?_some hfind)

/-- Two rows that are found: each is its own, or free. -/
structure Slots (bands : ℕ → Band) (rxs txs : ℕ) : Prop where
  distinct : rxs ≠ txs
  receive : findXvtrSlot bands rxTitle = some rxs
  /-- The row with the title, or the first that is free and not the other one. -/
  transmit : (xvtrSlots.find? fun j => (bands j).title = txTitle) = some txs ∨
    (∀ j ∈ xvtrSlots, (bands j).title ≠ txTitle) ∧
      ((xvtrSlots.find? fun j => (bands j).title = "") = some txs ∨
        (xvtrSlots.find? fun j => j ≠ rxs && (bands j).title = "") = some txs)

theorem slots_findSlots {bands : ℕ → Band} {rxs txs : ℕ} (h : findSlots bands = some (rxs, txs)) :
    Slots bands rxs txs := by
  unfold findSlots at h
  cases hrx : findXvtrSlot bands rxTitle with
  | none =>
    rw [hrx] at h
    cases h
  | some i =>
    rw [hrx] at h
    dsimp only at h
    obtain ⟨j, hj, hpair⟩ := Option.map_eq_some_iff.mp h
    obtain ⟨rfl, rfl⟩ := Prod.mk.inj hpair
    split_ifs at hj with hsame
    · -- both have found the first free row
      have hfree : (bands i).title = "" := by
        rcases findXvtrSlot_title hrx with htitle | htitle
        · rcases findXvtrSlot_title hsame with htitle' | htitle'
          · exact absurd (htitle.symm.trans htitle') (by decide)
          · exact htitle'
        · exact htitle
      have hnone : ∀ k ∈ xvtrSlots, (bands k).title ≠ txTitle := by
        rcases findXvtrSlot_cases hsame with hfind | ⟨hnone, -⟩
        · have htitle : (bands i).title = txTitle := by simpa using List.find?_some hfind
          exact absurd (htitle.symm.trans hfree) (by decide)
        · exact hnone
      have hne := List.find?_some hj
      simp only [ne_eq, Bool.and_eq_true, decide_eq_true_eq] at hne
      exact ⟨fun h => hne.1 h.symm, hrx, .inr ⟨hnone, .inr hj⟩⟩
    · refine ⟨fun h => hsame (by rw [hj, h]), hrx, ?_⟩
      rcases findXvtrSlot_cases hj with hfind | ⟨hnone, hfind⟩
      · exact .inl hfind
      · exact .inr ⟨hnone, .inl hfind⟩

/-- The free row or the own row of the transmitter is not one of another transverter. -/
theorem Slots.transmit_title {bands : ℕ → Band} {rxs txs : ℕ} (h : Slots bands rxs txs) :
    (bands txs).title = txTitle ∨ (bands txs).title = "" := by
  rcases h.transmit with hfind | ⟨-, hfind | hfind⟩
  · exact .inl (by simpa using List.find?_some hfind)
  · exact .inr (by simpa using List.find?_some hfind)
  · have hfree := List.find?_some hfind
    simp only [ne_eq, Bool.and_eq_true, decide_eq_true_eq] at hfree
    exact .inr hfree.2

/-- Once the two rows have their titles, they are found again. -/
theorem Slots.found_again {bands bands' : ℕ → Band} {rxs txs : ℕ} (h : Slots bands rxs txs)
    (hrx : (bands' rxs).title = rxTitle) (htx : (bands' txs).title = txTitle)
    (hothers : ∀ i, i ≠ rxs → i ≠ txs → bands' i = bands i) :
    findSlots bands' = some (rxs, txs) := by
  have htitles : rxTitle ≠ txTitle := by decide
  have hkeepRx (x : ℕ) (hx : x ≠ rxs) (htitle : (bands x).title ≠ rxTitle) :
      (bands' x).title ≠ rxTitle := by
    by_cases htxs : x = txs
    · rw [htxs, htx]
      exact htitles.symm
    · rw [hothers x hx htxs]
      exact htitle
  have hkeepTx (x : ℕ) (hx : x ≠ txs) (htitle : (bands x).title ≠ txTitle) :
      (bands' x).title ≠ txTitle := by
    by_cases hrxs : x = rxs
    · rw [hrxs, hrx]
      exact htitles
    · rw [hothers x hrxs hx]
      exact htitle
  have hrxfind : (xvtrSlots.find? fun j => (bands' j).title = rxTitle) = some rxs := by
    rcases findXvtrSlot_cases h.receive with hfind | ⟨hnone, hfind⟩
    · have hown : (bands rxs).title = rxTitle := by simpa using List.find?_some hfind
      refine find?_congr hfind (by simpa using hrx) fun x _ hx => ?_
      have htitle : (bands x).title ≠ rxTitle := by simpa using hx
      simpa using hkeepRx x (fun h => htitle (h ▸ hown)) htitle
    · have hfree : (bands rxs).title = "" := by simpa using List.find?_some hfind
      refine find?_congr hfind (by simpa using hrx) fun x hmem hx => ?_
      have htitle : (bands x).title ≠ "" := by simpa using hx
      simpa using hkeepRx x (fun h => htitle (h ▸ hfree)) (hnone x hmem)
  have htxfind : (xvtrSlots.find? fun j => (bands' j).title = txTitle) = some txs := by
    rcases h.transmit with hfind | ⟨hnone, hfind | hfind⟩
    · have hown : (bands txs).title = txTitle := by simpa using List.find?_some hfind
      refine find?_congr hfind (by simpa using htx) fun x _ hx => ?_
      have htitle : (bands x).title ≠ txTitle := by simpa using hx
      simpa using hkeepTx x (fun h => htitle (h ▸ hown)) htitle
    · have hfree : (bands txs).title = "" := by simpa using List.find?_some hfind
      refine find?_congr hfind (by simpa using htx) fun x hmem hx => ?_
      have htitle : (bands x).title ≠ "" := by simpa using hx
      simpa using hkeepTx x (fun h => htitle (h ▸ hfree)) (hnone x hmem)
    · have hfree := List.find?_some hfind
      refine find?_congr hfind (by simpa using htx) fun x hmem hx => ?_
      have hother : x ≠ txs := by
        rintro rfl
        rw [hfree] at hx
        cases hx
      simpa using hkeepTx x hother (hnone x hmem)
  unfold findSlots
  rw [findXvtrSlot_of_find hrxfind, findXvtrSlot_of_find htxfind]
  dsimp only
  rw [if_neg fun hsame => h.distinct (Option.some.inj hsame).symm]
  rfl

/-! ## What is made -/

/-- The rows that `qo100_create_transverters` leaves. -/
structure Created (q : Station) (s t : ModeRx) (rxs txs : ℕ) : Prop where
  distinct : rxs ≠ txs
  receive : t.bands rxs = receiveRow q (s.bands rxs)
  transmit : t.bands txs = transmitRow q (s.bands txs)
  /-- What the beacon lock has measured is kept. -/
  errorRx : (t.bands rxs).errorLO = (s.bands rxs).errorLO
  errorTx : (t.bands txs).errorLO = (s.bands txs).errorLO
  /-- Each row was its own or free. -/
  ownRx : (s.bands rxs).title = rxTitle ∨ (s.bands rxs).title = ""
  ownTx : (s.bands txs).title = txTitle ∨ (s.bands txs).title = ""
  others : ∀ b, b ≠ rxs → b ≠ txs → t.bands b = s.bands b ∧ t.entryFilter b = s.entryFilter b
  rest : t = { s with bands := t.bands, entryFilter := t.entryFilter }
  found : findXvtrSlot t.bands rxTitle = some rxs
  /-- Made again, they are the same. -/
  again : createTransverters q t = some t

theorem fillXvtr_fillXvtr (b : Band) (name : String) (fmin fmax lo shift : ℤ) :
    fillXvtr (fillXvtr b name fmin fmax lo shift) name fmin fmax lo shift =
      fillXvtr b name fmin fmax lo shift := by
  unfold fillXvtr
  dsimp only
  congr 1
  funext i
  split <;> rfl

theorem fillFilters_fillFilters (filters : ℤ → Fin filterCount) :
    fillFilters (fillFilters filters) = fillFilters filters := by
  funext i
  unfold fillFilters
  split <;> rfl

/-- Two rows are written that are written already. -/
theorem update_update_self {α : Type*} {f : ℕ → α} {i j : ℕ} {a b : α} (hi : f i = a)
    (hj : f j = b) : Function.update (Function.update f i a) j b = f := by
  rw [← hi, Function.update_eq_self, ← hj, Function.update_eq_self]

/-- The rows are made again as they are. -/
theorem createTransverters_again {q : Station} (s : ModeRx) {bands : ℕ → Band}
    {filters : ℕ → ℤ → Fin filterCount} {rxs txs : ℕ} (hfind : findSlots bands = some (rxs, txs))
    {rb tb : Band} (hrx : bands rxs = receiveRow q rb) (htx : bands txs = transmitRow q tb)
    {rf tf : ℤ → Fin filterCount} (hfrx : filters rxs = fillFilters rf)
    (hftx : filters txs = fillFilters tf) :
    createTransverters q { s with bands := bands, entryFilter := filters } =
      some { s with bands := bands, entryFilter := filters } := by
  have hrows : Function.update (Function.update bands rxs (receiveRow q (bands rxs))) txs
      (transmitRow q (bands txs)) = bands := by
    apply update_update_self
    · rw [hrx]
      exact (fillXvtr_fillXvtr ..).symm
    · rw [htx]
      exact (fillXvtr_fillXvtr ..).symm
  have hfilters : Function.update (Function.update filters rxs (fillFilters (filters rxs))) txs
      (fillFilters (filters txs)) = filters := by
    apply update_update_self
    · rw [hfrx, fillFilters_fillFilters]
    · rw [hftx, fillFilters_fillFilters]
  unfold createTransverters
  dsimp only
  rw [hfind]
  dsimp only [Option.map_some]
  rw [hrows, hfilters]

theorem created {q : Station} {s t : ModeRx} (h : createTransverters q s = some t) :
    ∃ rxs txs, Created q s t rxs txs := by
  unfold createTransverters at h
  obtain ⟨⟨rxs, txs⟩, hfind, rfl⟩ := Option.map_eq_some_iff.mp h
  have hslots := slots_findSlots hfind
  have hrx : Function.update (Function.update s.bands rxs (receiveRow q (s.bands rxs))) txs
      (transmitRow q (s.bands txs)) rxs = receiveRow q (s.bands rxs) := by
    rw [Function.update_of_ne hslots.distinct, Function.update_self]
  have htx : Function.update (Function.update s.bands rxs (receiveRow q (s.bands rxs))) txs
      (transmitRow q (s.bands txs)) txs = transmitRow q (s.bands txs) := Function.update_self ..
  have hothers (b : ℕ) (hb : b ≠ rxs) (hb' : b ≠ txs) :
      Function.update (Function.update s.bands rxs (receiveRow q (s.bands rxs))) txs
        (transmitRow q (s.bands txs)) b = s.bands b := by
    rw [Function.update_of_ne hb', Function.update_of_ne hb]
  have hagain := hslots.found_again (by rw [hrx]; rfl) (by rw [htx]; rfl) hothers
  refine ⟨rxs, txs, hslots.distinct, hrx, htx, ?_, ?_, findXvtrSlot_title hslots.receive,
    hslots.transmit_title, fun b hb hb' => ⟨hothers b hb hb', ?_⟩, rfl, ?_, ?_⟩
  · dsimp only
    rw [hrx]
    rfl
  · dsimp only
    rw [htx]
    rfl
  · dsimp only
    rw [Function.update_of_ne hb', Function.update_of_ne hb]
  · exact (slots_findSlots hagain).receive
  · have hfilterRx : Function.update (Function.update s.entryFilter rxs
        (fillFilters (s.entryFilter rxs))) txs (fillFilters (s.entryFilter txs)) rxs =
          fillFilters (s.entryFilter rxs) := by
      rw [Function.update_of_ne hslots.distinct, Function.update_self]
    exact createTransverters_again s hagain hrx htx hfilterRx (Function.update_self ..)

end MacHPSDR.Qo100
