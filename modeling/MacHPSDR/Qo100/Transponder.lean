import MacHPSDR.Qo100.Transverters
import MacHPSDR.Receiver.BandStack
import MacHPSDR.Receiver.Settle
import Mathlib

/-!
# Setting up the transponder

`qo100_transponder_setup` makes the rows if they are missing, brings the dial to the downlink unless
it is there, and puts VFO B on the uplink. It takes a dial that is on the downlink with the
converter that it has, and the frequency that it finds in the band stack as it is.
-/

namespace MacHPSDR.Qo100

open Receiver

namespace Station

variable (q : Station)

/-- `QO100_TRANSPONDER_WB` -/
def wide : Prop := q.transponder = 1

instance : Decidable q.wide := inferInstanceAs (Decidable (_ = _))

def tpLow : ℤ := if q.wide then wbDownLow else nbDownLow

def tpHigh : ℤ := if q.wide then wbDownHigh else nbDownHigh

/-- `QO100_STACK_NB` and `QO100_STACK_WB` -/
def stackEntry : ℤ := if q.wide then 2 else 1

/-- On the transponder, or within 50 kHz of it. -/
def OnDownlink (dial : ℤ) : Prop := q.tpLow - 50000 ≤ dial ∧ dial ≤ q.tpHigh + 50000

instance (dial : ℤ) : Decidable (q.OnDownlink dial) := inferInstanceAs (Decidable (_ ∧ _))

/-- The receive row has its title, and reaches the transponder. -/
def Reaches (rb : Band) : Prop :=
  rb.title = rxTitle ∧ rb.frequencyMin ≤ q.tpLow ∧ q.tpHigh ≤ rb.frequencyMax

instance (rb : Band) : Decidable (q.Reaches rb) := inferInstanceAs (Decidable (_ ∧ _))

end Station

/-- The rows are made, and the receive row is looked for again. -/
def makeRows (q : Station) (s : ModeRx) : Option (ModeRx × ℕ) :=
  (createTransverters q s).bind fun t => (findXvtrSlot t.bands rxTitle).map fun rxs => (t, rxs)

/-- The rows as they are to be, and the receive row among them. -/
def readyRows (q : Station) (s : ModeRx) : Option (ModeRx × ℕ) :=
  match findXvtrSlot s.bands rxTitle with
  | some rxs => if q.Reaches (s.bands rxs) then some (s, rxs) else makeRows q s
  | none => makeRows q s

/-- The receiver on the downlink. -/
def bringToDownlink (q : Station) (t : ModeRx) (rxs : ℕ) : ModeRx :=
  if q.OnDownlink t.tunedFrequency then t else t.setBand rxs q.stackEntry

/-- VFO B on the uplink. -/
def linkUplink (q : Station) (t : ModeRx) : ModeRx :=
  let t : ModeRx := { t with
    frequencyB := t.tunedFrequency - q.tpOffset
    split := .sat
    modeB := t.modeA
    filterB := t.filterA }
  { t with toRx := t.syncVfoBLo.frequencyChanged.updateFrequency }

/-- `qo100_transponder_setup`, for a radio that has an active receiver. -/
def transponderSetup (q : Station) (s : ModeRx) : Bool × ModeRx :=
  if s.locked then (false, s)
  else
    match readyRows q s with
    | none => (false, s)
    | some (t, rxs) => (true, linkUplink q (bringToDownlink q t rxs))

/-! ## What is to be set up -/

/-- The receiver is on the transponder, with the uplink linked to it. -/
structure SetUp (q : Station) (t : ModeRx) : Prop where
  downlink : q.OnDownlink t.tunedFrequency
  converter : ∃ rxs, findXvtrSlot t.bands rxTitle = some rxs ∧ (t.bands rxs).title = rxTitle ∧
    t.loA = (t.bands rxs).frequencyLO
  uplink : t.frequencyB = t.tunedFrequency - q.tpOffset
  split : t.split = .sat
  modeB : t.modeB = t.modeA
  filterB : t.filterB = t.filterA

/-- All or nothing; and the rows are made as they should be. -/
structure Right (q : Station) (s : ModeRx) : Prop where
  setup : ((transponderSetup q s).1 = false ∧ (transponderSetup q s).2 = s) ∨
    ((transponderSetup q s).1 = true ∧ SetUp q (transponderSetup q s).2)
  create : ∀ t, createTransverters q s = some t → ∃ rxs txs, Created q s t rxs txs

/-- VFO A where it is to be: where it is if that is on the downlink, and on the entry of the receive
row otherwise. -/
def aimed (q : Station) (t : Rx) (rxs : ℕ) : Rx :=
  if q.OnDownlink t.tunedFrequency then t else (t.onEntry rxs q.stackEntry).settle

/-- The converter of the receive row, once VFO A is there. -/
def aimedLo (q : Station) (t : Rx) (rxs : ℕ) : ℤ :=
  if q.OnDownlink t.tunedFrequency then (t.bands rxs).frequencyLO
  else (t.openBand rxs q.stackEntry).frequencyLO

/-- VFO A keeps the downlink and has the converter of the receive row, and VFO B goes with it. -/
structure KeepsDownlink (q : Station) (t : Rx) (rxs : ℕ) : Prop where
  downlink : q.OnDownlink (aimed q t rxs).settle.tunedFrequency
  converter : (aimed q t rxs).settle.loA = aimedLo q t rxs
  uplink : (aimed q t rxs).settle.carriedB ((aimed q t rxs).tunedFrequency - q.tpOffset) =
    (aimed q t rxs).settle.tunedFrequency - q.tpOffset

/-- The receiver is locked, or there is no place for the rows, or VFO A keeps the downlink. -/
def Meets (q : Station) (s : ModeRx) : Prop :=
  s.locked = false → ∀ t rxs, readyRows q s = some (t, rxs) → KeepsDownlink q t.toRx rxs

variable {q : Station} {s t : ModeRx} {rxs : ℕ}

/-! ## The rows -/

theorem findXvtrSlot_congr {bands bands' : ℕ → Band}
    (h : ∀ b, (bands' b).title = (bands b).title) (name : String) :
    findXvtrSlot bands' name = findXvtrSlot bands name := by
  unfold findXvtrSlot
  simp only [h]

/-- `set_band` leaves the titles of the rows. -/
theorem setBand_title (u : Rx) (hlocked : u.locked = false) (band : ℕ) (bsEntry : ℤ) (b : ℕ) :
    ((u.setBand band bsEntry).bands b).title = (u.bands b).title := by
  have hstored (b : ℕ) : (u.storeBand band bsEntry b).title = (u.bands b).title := by
    unfold Rx.storeBand
    split
    · by_cases hb : b = u.bandA
      · rw [hb, Function.update_self]
      · rw [Function.update_of_ne hb]
    · rfl
  have hopen : (u.openBand band bsEntry).title = (u.bands band).title := by
    unfold Rx.openBand
    split
    · exact hstored band
    · exact hstored band
  rw [Rx.setBand_settings hlocked]
  unfold Rx.bandSettings
  dsimp only
  by_cases hb : b = band
  · rw [hb, Function.update_self]
    exact hopen
  · rw [Function.update_of_ne hb]
    exact hstored b

/-- The rows are in place, and nothing else has changed. -/
structure Ready (s t : ModeRx) (rxs : ℕ) : Prop where
  found : findXvtrSlot t.bands rxTitle = some rxs
  title : (t.bands rxs).title = rxTitle
  rest : t = { s with bands := t.bands, entryFilter := t.entryFilter }

theorem ready_makeRows (h : makeRows q s = some (t, rxs)) : Ready s t rxs := by
  unfold makeRows at h
  obtain ⟨u, hmade, hu⟩ := Option.bind_eq_some_iff.mp h
  obtain ⟨i, hfind, hpair⟩ := Option.map_eq_some_iff.mp hu
  obtain ⟨rfl, rfl⟩ := Prod.mk.inj hpair
  obtain ⟨rxs, txs, hcreated⟩ := created hmade
  obtain rfl : i = rxs := Option.some.inj (hfind.symm.trans hcreated.found)
  refine ⟨hfind, ?_, hcreated.rest⟩
  rw [hcreated.receive]
  rfl

theorem ready_readyRows (h : readyRows q s = some (t, rxs)) : Ready s t rxs := by
  unfold readyRows at h
  cases hfind : findXvtrSlot s.bands rxTitle with
  | none =>
    rw [hfind] at h
    exact ready_makeRows h
  | some i =>
    rw [hfind] at h
    dsimp only at h
    split_ifs at h with hreaches
    · obtain ⟨rfl, rfl⟩ := Prod.mk.inj (Option.some.inj h)
      exact ⟨hfind, hreaches.1, rfl⟩
    · exact ready_makeRows h

/-! ## VFO A on the downlink -/

/-- The receiver that is brought to the downlink is where it is aimed at. -/
theorem sameDial_aimed (hlocked : t.locked = false) (rxs : ℕ) :
    SameDial (aimed q t.toRx rxs) (bringToDownlink q t rxs).toRx := by
  unfold aimed bringToDownlink
  split
  · exact SameDial.refl _
  · rw [(ModeRx.setBand_toRx hlocked rxs q.stackEntry).1, Rx.setBand_onEntry hlocked]
    exact Rx.sameDial_frequencyChanged _

/-- The row, with the converter that VFO A is to have. -/
theorem bringToDownlink_row (hready : Ready s t rxs) (hlocked : t.locked = false) :
    findXvtrSlot (bringToDownlink q t rxs).bands rxTitle = some rxs ∧
      ((bringToDownlink q t rxs).bands rxs).title = rxTitle ∧
      ((bringToDownlink q t rxs).bands rxs).frequencyLO = aimedLo q t.toRx rxs := by
  unfold bringToDownlink aimedLo
  split
  · exact ⟨hready.found, hready.title, rfl⟩
  · have htitle := setBand_title t.toRx hlocked rxs q.stackEntry
    rw [(ModeRx.setBand_toRx hlocked rxs q.stackEntry).1]
    refine ⟨?_, (htitle rxs).trans hready.title, ?_⟩
    · rw [findXvtrSlot_congr htitle]
      exact hready.found
    · rw [Rx.setBand_settings hlocked]
      unfold Rx.bandSettings
      dsimp only
      rw [Function.update_self]

/-- **The uplink is linked**: where VFO A is, and what it takes VFO B to. -/
theorem linkUplink_dial {a : Rx} {x : ModeRx} (h : SameDial a x.toRx) :
    (linkUplink q x).tunedFrequency = a.settle.tunedFrequency ∧
      (linkUplink q x).loA = a.settle.loA ∧
      (linkUplink q x).frequencyB = a.settle.carriedB (a.tunedFrequency - q.tpOffset) ∧
      (linkUplink q x).toSettings = { x.toSettings with split := .sat, modeB := x.modeA } := by
  set w : Rx := Rx.syncVfoBLo { x.toRx with
    frequencyB := x.tunedFrequency - q.tpOffset
    split := .sat
    modeB := x.modeA } with hw
  have hlinked : (linkUplink q x).toRx = w.frequencyChanged.updateFrequency := rfl
  have hset : SameTuning x.toRx w := ⟨rfl, rfl, rfl, rfl, rfl⟩
  have htuning : SameTuning a w := h.tuning hset
  have hdial : SameDial w.settle w.frequencyChanged.updateFrequency :=
    (Rx.sameDial_frequencyChanged w).trans (Rx.sameDial_syncVfoBLo _)
  have hB : w.frequencyB = a.tunedFrequency - q.tpOffset := by
    rw [← h.tunedFrequency]
    rfl
  rw [hlinked]
  refine ⟨?_, ?_, ?_, ?_⟩
  · rw [hdial.tunedFrequency, htuning.settle.tunedFrequency]
  · rw [hdial.loA, htuning.settle.loA]
  · change w.frequencyChanged.frequencyB = _
    rw [Rx.frequencyChanged_carriedB, htuning.settle.carriedB, hB]
  · change w.frequencyChanged.toSettings = _
    rw [w.frequencyChanged_settings]
    rfl

/-- All that is to be set up is set up exactly if VFO A keeps the downlink. -/
theorem setUp_iff (hready : Ready s t rxs) (hlocked : t.locked = false) :
    SetUp q (linkUplink q (bringToDownlink q t rxs)) ↔ KeepsDownlink q t.toRx rxs := by
  obtain ⟨htuned, hlo, hB, hsettings⟩ := linkUplink_dial (q := q) (sameDial_aimed hlocked rxs)
  obtain ⟨hfound, htitle, hrowlo⟩ := bringToDownlink_row (q := q) hready hlocked
  have hbands : (linkUplink q (bringToDownlink q t rxs)).bands =
      (bringToDownlink q t rxs).bands := by rw [hsettings]
  constructor
  · rintro ⟨hdownlink, ⟨i, hi, -, hconverter⟩, huplink, -, -, -⟩
    rw [hbands] at hi hconverter
    obtain rfl : rxs = i := Option.some.inj (hfound.symm.trans hi)
    refine ⟨?_, ?_, ?_⟩
    · rw [← htuned]
      exact hdownlink
    · rw [← hlo, hconverter, hrowlo]
    · rw [← hB, huplink, htuned]
  · rintro ⟨hdownlink, hconverter, huplink⟩
    refine ⟨?_, ⟨rxs, ?_, ?_, ?_⟩, ?_, ?_, ?_, rfl⟩
    · rw [htuned]
      exact hdownlink
    · rw [hbands]
      exact hfound
    · rw [hbands]
      exact htitle
    · rw [hlo, hconverter, hbands, hrowlo]
    · rw [hB, huplink, htuned]
    · rw [hsettings]
    · rw [hsettings]

/-- A receiver with hardware of its own and without a sub-receiver keeps the downlink if it has the
converter of the row there already, or if the entry has a frequency of the transponder; and
`receiver_sync_transverter` must leave the converter. -/
theorem keepsDownlink_of_owner {u : Rx} (howner : u.owner = true) (hsub : u.subrxEnable = false)
    (rxs : ℕ) (h : if q.OnDownlink u.tunedFrequency then
        u.loA = (u.bands rxs).frequencyLO ∧ u.syncTransverter.loA = u.loA
      else q.OnDownlink (u.bandFrequency rxs q.stackEntry) ∧
        (u.onEntry rxs q.stackEntry).syncTransverter.loA =
          (u.openBand rxs q.stackEntry).frequencyLO) : KeepsDownlink q u rxs := by
  have hcarried (v : Rx) (hv : v.subrxEnable = false) (b : ℤ) : v.carriedB b = b := by
    unfold Rx.carriedB
    rw [hv]
    rfl
  by_cases hon : q.OnDownlink u.tunedFrequency
  · rw [if_pos hon] at h
    obtain ⟨hlo, hkept⟩ := h
    have htuned : u.settle.tunedFrequency = u.tunedFrequency := by
      rw [Rx.settle_of_owner howner, Rx.syncTransverter_kept hkept]
    have hfree : u.settle.subrxEnable = false := by
      rw [Rx.settle_of_owner howner, u.syncTransverter_settings]
      exact hsub
    constructor
    · rw [aimed, if_pos hon, htuned]
      exact hon
    · rw [aimed, aimedLo, if_pos hon, if_pos hon, Rx.settle_of_owner howner, hkept, hlo]
    · rw [aimed, if_pos hon, hcarried _ hfree, htuned]
  · rw [if_neg hon] at h
    obtain ⟨hentry, hkept⟩ := h
    set e := u.onEntry rxs q.stackEntry with he
    have heowner : e.owner = true := howner
    have htuned : e.settle.tunedFrequency = u.bandFrequency rxs q.stackEntry := by
      rw [Rx.settle_of_owner heowner, Rx.syncTransverter_kept hkept, he, Rx.onEntry_tunedFrequency]
    have hagain := Rx.sameDial_settle heowner
    have hfree : e.settle.settle.subrxEnable = false := by
      rw [hagain.settings, Rx.settle_of_owner heowner, e.syncTransverter_settings]
      exact hsub
    constructor
    · rw [aimed, if_neg hon, ← he, hagain.tunedFrequency, htuned]
      exact hentry
    · rw [aimed, aimedLo, if_neg hon, if_neg hon, ← he, hagain.loA, Rx.settle_of_owner heowner,
        hkept]
    · rw [aimed, if_neg hon, ← he, hcarried _ hfree, hagain.tunedFrequency]

/-- The rows of the satellite, as they are made for a common LNB. -/
def satelliteTable (b : ℕ) : Band :=
  if b = 24 then receiveRow ⟨0, 0, 0, 0⟩ (qo100Table 30)
  else if b = 25 then transmitRow ⟨0, 0, 0, 0⟩ (qo100Table 30)
  else if b = 7 then qo100Table 7 else qo100Table 30

/-- It listens on 20 m. -/
def beforeSetup : ModeRx :=
  { slowInUsb with toRx := { twentyMetres with bands := satelliteTable } }

theorem keepsDownlink_beforeSetup : KeepsDownlink ⟨0, 0, 0, 0⟩ beforeSetup.toRx 24 :=
  keepsDownlink_of_owner rfl rfl 24 (by decide +kernel)

/-- It is on the downlink, where its frequency has been typed in: without a converter. -/
def typedDownlink : ModeRx := { beforeSetup with frequencyA := 10489600000, bandA := 24 }

/-- The entry for the narrow-band transponder has been tuned to the wideband one. -/
def retunedEntry : ModeRx := { beforeSetup with
  bands := Function.update satelliteTable 24 { satelliteTable 24 with
    entry := fun _ => ⟨10495000000, .usb⟩ } }

end MacHPSDR.Qo100
