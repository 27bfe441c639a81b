import MacHPSDR.Acars.Repair
import Mathlib

/-!
# The ACARS framer

The framer looks for SYN bit by bit, in either polarity, then for SYN SOH, collects the text up to
ETX or ETB and the checksum, and hands over the block. Of the demodulator the decision on a symbol
is modelled, by the sign of its output, with the count of the symbols that tells its quadrature;
the levels, which are floating point, are left out.
-/

namespace MacHPSDR.Acars

/-! ## The framer -/

def syn : UInt8 := 0x16
def soh : UInt8 := 0x01
def etx : UInt8 := 0x83
def etb : UInt8 := 0x97
def del : UInt8 := 0x7f

/-- `MAX_TXT` -/
def maxTxt : ℕ := 250

/-- `ACARS_MAX_BLOCK` -/
def acarsMaxBlock : ℕ := 260

inductive State where
  | stWsyn | stSyn2 | stSoh1 | stTxt | stCrc1 | stCrc2 | stEnd
deriving DecidableEq

/-- The framer's part of `struct acars_demod`: of `txt` the first `len` bytes, and whether a byte
has been written past it. -/
structure Framer where
  outbits : UInt8
  nbits : ℕ
  state : State
  txt : List UInt8
  crc0 : UInt8
  crc1 : UInt8
  perr : ℕ
  mskS : ℕ
  overrun : Bool

/-- `acars_block_t` -/
structure AcarsBlock where
  bytes : List UInt8
  crcOk : Bool
  corrected : Bool
  parityErrs : ℕ
deriving DecidableEq

namespace Framer

/-- `msk_init` -/
def start : Framer := ⟨0, 8, .stWsyn, [], 0, 0, 0, 0, false⟩

/-- `d->txt[d->len++] = r`, where `txt` has four bytes more than `MAX_TXT` -/
def push (d : Framer) (r : UInt8) : Framer :=
  if d.txt.length < maxTxt + 4 then { d with txt := d.txt ++ [r] } else { d with overrun := true }

/-- `emit_block` -/
def emitBlock (d : Framer) : Framer × List AcarsBlock :=
  if d.txt.length < 13 then (d, [])
  else
    let r := repair ⟨d.txt, [d.crc0, d.crc1]⟩
    let d := { d with txt := r.block.txt, crc0 := r.block.crc.getD 0 0,
                      crc1 := r.block.crc.getD 1 0 }
    (d, [{ bytes := soh :: (d.txt.take (acarsMaxBlock - 4) ++ [d.crc0, d.crc1, del])
           crcOk := r.ok
           corrected := r.corrected
           parityErrs := d.txt.countP parityBad }])

/-- `framer_reset` -/
def reset (d : Framer) : Framer := { d with state := .stWsyn, nbits := 1 }

/-- `framer_byte` -/
def framerByte (d : Framer) (r : UInt8) : Framer × List AcarsBlock :=
  match d.state with
  | .stWsyn =>
    if r = syn then ({ d with state := .stSyn2, nbits := 8 }, [])
    else if r = ~~~syn then ({ d with mskS := d.mskS ^^^ 2, state := .stSyn2, nbits := 8 }, [])
    else ({ d with nbits := 1 }, [])
  | .stSyn2 =>
    if r = syn then ({ d with state := .stSoh1, nbits := 8 }, [])
    else if r = ~~~syn then ({ d with mskS := d.mskS ^^^ 2, nbits := 8 }, [])
    else (d.reset, [])
  | .stSoh1 =>
    if r = soh then ({ d with state := .stTxt, txt := [], perr := 0, nbits := 8 }, [])
    else (d.reset, [])
  | .stTxt =>
    let d := d.push r
    let d := if parityBad r then { d with perr := d.perr + 1 } else d
    if parityBad r ∧ d.perr > 4 then (d.reset, [])
    else if r = etx ∨ r = etb then ({ d with state := .stCrc1, nbits := 8 }, [])
    else if d.txt.length > 20 ∧ r = del then
      -- the end was missed: the last three bytes are the checksum and this one
      let len := d.txt.length - 3
      let e := emitBlock { d with txt := d.txt.take len, crc0 := d.txt.getD len 0,
                                  crc1 := d.txt.getD (len + 1) 0 }
      ({ e.1 with state := .stEnd, nbits := 8 }, e.2)
    else if d.txt.length > maxTxt then (d.reset, [])
    else ({ d with nbits := 8 }, [])
  | .stCrc1 => ({ d with crc0 := r, state := .stCrc2, nbits := 8 }, [])
  | .stCrc2 =>
    let e := emitBlock { d with crc1 := r }
    ({ e.1 with state := .stEnd, nbits := 8 }, e.2)
  | .stEnd => ({ d.reset with nbits := 8 }, [])

/-- The bit goes in from above. -/
def shiftIn (outbits : UInt8) (v : Bool) : UInt8 := (outbits >>> 1) ||| if v then 0x80 else 0

/-- `putbit` -/
def putbit (d : Framer) (v : Bool) : Framer × List AcarsBlock :=
  let d := { d with outbits := shiftIn d.outbits v, nbits := d.nbits - 1 }
  if d.nbits ≤ 0 then d.framerByte d.outbits else (d, [])

/-- The end of `msk_sample`, where a symbol has been decided. -/
def symbol (d : Framer) (vo : SignType) : Framer × List AcarsBlock :=
  let e := d.putbit (0 < if d.mskS.testBit 1 then -vo else vo)
  ({ e.1 with mskS := e.1.mskS + 1 }, e.2)

/-- The symbols of a stream, with the blocks that are handed over. -/
def receive (d : Framer) : List SignType → Framer × List AcarsBlock
  | [] => (d, [])
  | vo :: vos =>
    let e := d.symbol vo
    let f := receive e.1 vos
    (f.1, e.2 ++ f.2)

end Framer

/-! ## Frames -/

/-- A character with its parity bit. -/
def withParity (b : UInt8) : UInt8 :=
  let b := b &&& 0x7f
  if parityBad b then b ||| 0x80 else b

/-- `acars_demod_build_frame` -/
def buildFrame (payload : List UInt8) : List UInt8 :=
  let body := payload.map withParity
  let crc := Hfdl.crc16Ccitt body 0
  [0xff, 0xff, syn, syn, soh] ++ body ++ [(crc &&& 0xff).toUInt8, (crc >>> 8).toUInt8, del]

/-- The bits of a byte, the least significant first. -/
def bits (b : UInt8) : List Bool := (List.range 8).map b.toBitVec.getLsbD

/-- The symbols of a bit stream: the data alternates between the quadratures, with a sign that
repeats every four symbols; `count` is the number of the symbol. -/
def symbols (inverted : Bool) (count : ℕ) : List Bool → List SignType
  | [] => []
  | b :: bs =>
    (if b ^^ inverted ^^ count.testBit 1 then .pos else .neg) :: symbols inverted (count + 1) bs

/-- A payload that can be framed: seven bits, no DEL, and ETX or ETB at its end only. -/
structure Payload where
  text : List UInt8
  last : UInt8
  long : 13 ≤ text.length + 1
  short : text.length + 1 ≤ 250
  sevenBit : ∀ b ∈ text, b < 128
  noDel : ∀ b ∈ text, b ≠ 0x7f
  noEnd : ∀ b ∈ text, b ≠ 0x03 ∧ b ≠ 0x17
  ends : last = 0x03 ∨ last = 0x17

def Payload.chars (p : Payload) : List UInt8 := p.text ++ [p.last]

/-- A framer that looks for SYN, at any place in a byte. -/
structure Hunting where
  framer : Framer
  wsyn : framer.state = .stWsyn
  nbits : 1 ≤ framer.nbits ∧ framer.nbits ≤ 8

/-! ## The polarity -/

/-- The decisions of a framer are opposite to the bits: by the symbols it has counted, and by the
stream. -/
def opposite (mskS count : ℕ) (inverted : Bool) : Bool :=
  mskS.testBit 1 ^^ count.testBit 1 ^^ inverted

theorem testBit_one (n : ℕ) : n.testBit 1 = decide (n / 2 % 2 = 1) := by
  rw [Nat.testBit_eq_decide_div_mod_eq, pow_one]

theorem opposite_succ {mskS count : ℕ} (h : mskS % 2 = count % 2) (inverted : Bool) :
    opposite (mskS + 1) (count + 1) inverted = opposite mskS count inverted := by
  have hcarry : ∀ n : ℕ, (n + 1).testBit 1 = (n.testBit 1 ^^ decide (n % 2 = 1)) := by
    intro n
    rw [testBit_one, testBit_one]
    rcases Nat.mod_two_eq_zero_or_one n with hn | hn
    · rw [hn, show (n + 1) / 2 = n / 2 by omega]
      simp
    · rw [hn, show (n + 1) / 2 = n / 2 + 1 by omega]
      rcases Nat.mod_two_eq_zero_or_one (n / 2) with hh | hh <;> simp [hh, Nat.add_mod]
  unfold opposite
  rw [hcarry, hcarry, h]
  cases mskS.testBit 1 <;> cases count.testBit 1 <;> cases decide (count % 2 = 1) <;> rfl

theorem opposite_add {mskS count : ℕ} (h : mskS % 2 = count % 2) (inverted : Bool) (n : ℕ) :
    opposite (mskS + n) (count + n) inverted = opposite mskS count inverted := by
  induction n with
  | zero => rfl
  | succ n ih =>
    have hn : (mskS + n) % 2 = (count + n) % 2 := by omega
    exact (opposite_succ hn inverted).trans ih

theorem opposite_xor_two (mskS count : ℕ) (inverted : Bool) :
    opposite (mskS ^^^ 2) count inverted = !opposite mskS count inverted := by
  unfold opposite
  rw [Nat.testBit_xor]
  cases mskS.testBit 1 <;> cases count.testBit 1 <;> cases inverted <;> rfl

theorem xor_two_mod_two (n : ℕ) : (n ^^^ 2) % 2 = n % 2 := by
  have h := Nat.xor_mod_two_pow (a := n) (b := 2) (n := 1)
  simp

/-- The bit that is put, for a bit of the stream. -/
theorem decision_eq (mskS count : ℕ) (inverted b : Bool) :
    (decide (0 < if mskS.testBit 1 then
      -(if b ^^ inverted ^^ count.testBit 1 then SignType.pos else .neg)
      else if b ^^ inverted ^^ count.testBit 1 then .pos else .neg)) =
        (b ^^ opposite mskS count inverted) := by
  unfold opposite
  cases mskS.testBit 1 <;> cases count.testBit 1 <;> cases inverted <;> cases b <;> decide

/-! ## Streams -/

theorem symbols_append (inverted : Bool) (count : ℕ) (xs ys : List Bool) :
    symbols inverted count (xs ++ ys) =
      symbols inverted count xs ++ symbols inverted (count + xs.length) ys := by
  induction xs generalizing count with
  | nil => rfl
  | cons x xs ih =>
    rw [List.cons_append, symbols, ih, symbols, List.cons_append, List.length_cons,
      Nat.add_right_comm, Nat.add_assoc]

theorem receive_append (d : Framer) (xs ys : List SignType) :
    d.receive (xs ++ ys) = (((d.receive xs).1.receive ys).1,
      (d.receive xs).2 ++ ((d.receive xs).1.receive ys).2) := by
  induction xs generalizing d with
  | nil => rfl
  | cons x xs ih =>
    rw [List.cons_append, Framer.receive, Framer.receive]
    dsimp only
    rw [ih, List.append_assoc]

/-! ## The search for SYN -/

/-- What the search depends on. -/
structure Hunt where
  outbits : UInt8
  nbits : ℕ
  state : State
  opposite : Bool
deriving DecidableEq

/-- The framer until the text begins. -/
def Hunt.step (h : Hunt) (b : Bool) : Hunt :=
  let h := { h with outbits := Framer.shiftIn h.outbits (b ^^ h.opposite), nbits := h.nbits - 1 }
  if h.nbits ≤ 0 then
    match h.state with
    | .stWsyn =>
      if h.outbits = syn then { h with state := .stSyn2, nbits := 8 }
      else if h.outbits = ~~~syn then
        { h with opposite := !h.opposite, state := .stSyn2, nbits := 8 }
      else { h with nbits := 1 }
    | .stSyn2 =>
      if h.outbits = syn then { h with state := .stSoh1, nbits := 8 }
      else if h.outbits = ~~~syn then { h with opposite := !h.opposite, nbits := 8 }
      else { h with state := .stWsyn, nbits := 1 }
    | .stSoh1 =>
      if h.outbits = soh then { h with state := .stTxt, nbits := 8 }
      else { h with state := .stWsyn, nbits := 1 }
    | _ => h
  else h

/-- A framer that is searching, at a symbol of a stream. -/
structure Sees (d : Framer) (count : ℕ) (inverted : Bool) (h : Hunt) : Prop where
  outbits : d.outbits = h.outbits
  nbits : d.nbits = h.nbits
  state : d.state = h.state
  low : d.mskS % 2 = count % 2
  polarity : opposite d.mskS count inverted = h.opposite

/-- The search goes on. -/
def Hunt.Searching (h : Hunt) : Prop :=
  h.state = .stWsyn ∨ h.state = .stSyn2 ∨ h.state = .stSoh1

/-- A bit is put while the framer is searching. -/
theorem Sees.putbit {d : Framer} {count : ℕ} {inverted : Bool} {h : Hunt}
    (hs : Sees d count inverted h) (hsearch : h.Searching) (b : Bool) :
    ∃ e, d.putbit (b ^^ h.opposite) = (e, []) ∧ Sees e count inverted (h.step b) ∧
      ((h.step b).state = .stTxt → e.txt = [] ∧ e.perr = 0) := by
  obtain ⟨hout, hnbits, hstate, hlow, hopp⟩ := hs
  have hflip : (d.mskS ^^^ 2) % 2 = count % 2 := (xor_two_mod_two _).trans hlow
  have hopp' : opposite (d.mskS ^^^ 2) count inverted = !h.opposite := by
    rw [opposite_xor_two, hopp]
  unfold Framer.putbit Hunt.step
  dsimp only
  rw [hout, hnbits]
  by_cases hlast : h.nbits - 1 ≤ 0
  · rw [if_pos hlast, if_pos hlast]
    generalize Framer.shiftIn h.outbits (b ^^ h.opposite) = r
    unfold Framer.framerByte
    dsimp only
    rw [hstate]
    rcases hsearch with hst | hst | hst
    · rw [hst]
      dsimp only
      by_cases hsyn : r = syn
      · rw [if_pos hsyn, if_pos hsyn]
        exact ⟨_, rfl, ⟨rfl, rfl, rfl, hlow, hopp⟩, nofun⟩
      · rw [if_neg hsyn, if_neg hsyn]
        by_cases hinv : r = ~~~syn
        · rw [if_pos hinv, if_pos hinv]
          exact ⟨_, rfl, ⟨rfl, rfl, rfl, hflip, hopp'⟩, nofun⟩
        · rw [if_neg hinv, if_neg hinv]
          exact ⟨_, rfl, ⟨rfl, rfl, rfl, hlow, hopp⟩, nofun⟩
    · rw [hst]
      dsimp only
      by_cases hsyn : r = syn
      · rw [if_pos hsyn, if_pos hsyn]
        exact ⟨_, rfl, ⟨rfl, rfl, rfl, hlow, hopp⟩, nofun⟩
      · rw [if_neg hsyn, if_neg hsyn]
        by_cases hinv : r = ~~~syn
        · rw [if_pos hinv, if_pos hinv]
          exact ⟨_, rfl, ⟨rfl, rfl, rfl, hflip, hopp'⟩, nofun⟩
        · rw [if_neg hinv, if_neg hinv]
          exact ⟨_, rfl, ⟨rfl, rfl, rfl, hlow, hopp⟩, nofun⟩
    · rw [hst]
      dsimp only
      by_cases hsoh : r = soh
      · rw [if_pos hsoh, if_pos hsoh]
        exact ⟨_, rfl, ⟨rfl, rfl, rfl, hlow, hopp⟩, fun _ => ⟨rfl, rfl⟩⟩
      · rw [if_neg hsoh, if_neg hsoh]
        exact ⟨_, rfl, ⟨rfl, rfl, rfl, hlow, hopp⟩, nofun⟩
  · rw [if_neg hlast, if_neg hlast]
    refine ⟨_, rfl, ⟨rfl, rfl, hstate, hlow, hopp⟩, fun htxt => ?_⟩
    dsimp only at htxt
    unfold Hunt.Searching at hsearch
    rw [htxt] at hsearch
    exact absurd hsearch (by decide)

/-- The next symbol of the stream. -/
theorem receive_symbols_cons (d : Framer) (inverted : Bool) (count : ℕ) (b : Bool)
    (rest : List Bool) : d.receive (symbols inverted count (b :: rest)) =
      let e := d.putbit (b ^^ opposite d.mskS count inverted)
      let f := { e.1 with mskS := e.1.mskS + 1 }
      ((f.receive (symbols inverted (count + 1) rest)).1,
        e.2 ++ (f.receive (symbols inverted (count + 1) rest)).2) := by
  rw [symbols, Framer.receive, Framer.symbol, decision_eq]

/-- **The search** goes as `Hunt.step` says, and nothing is handed over. -/
theorem Sees.step {d : Framer} {count : ℕ} {inverted : Bool} {h : Hunt}
    (hs : Sees d count inverted h) (hsearch : h.Searching) (b : Bool) (rest : List Bool) :
    ∃ e, Sees e (count + 1) inverted (h.step b) ∧
      ((h.step b).state = .stTxt → e.txt = [] ∧ e.perr = 0) ∧
      d.receive (symbols inverted count (b :: rest)) =
        e.receive (symbols inverted (count + 1) rest) := by
  obtain ⟨e, hput, hsees, htxt⟩ := hs.putbit hsearch b
  refine ⟨{ e with mskS := e.mskS + 1 }, ?_, htxt, ?_⟩
  · obtain ⟨hout, hnbits, hstate, hlow, hopp⟩ := hsees
    refine ⟨hout, hnbits, hstate, ?_, ?_⟩
    · show (e.mskS + 1) % 2 = (count + 1) % 2
      omega
    · exact (opposite_succ hlow inverted).trans hopp
  · rw [receive_symbols_cons, hs.polarity, hput]
    rfl

/-- The search over some bits, up to the text. -/
theorem Sees.run {d : Framer} {count : ℕ} {inverted : Bool} {h : Hunt}
    (hs : Sees d count inverted h) (bs : List Bool)
    (hsearch : ∀ before b after, bs = before ++ b :: after →
      (before.foldl Hunt.step h).Searching) (rest : List Bool) :
    ∃ e, Sees e (count + bs.length) inverted (bs.foldl Hunt.step h) ∧
      (bs ≠ [] → (bs.foldl Hunt.step h).state = .stTxt → e.txt = [] ∧ e.perr = 0) ∧
      d.receive (symbols inverted count (bs ++ rest)) =
        e.receive (symbols inverted (count + bs.length) rest) := by
  induction bs generalizing d count h with
  | nil => exact ⟨d, hs, fun hne => absurd rfl hne, rfl⟩
  | cons b bs ih =>
    obtain ⟨e, hsees, htxt, hrec⟩ := hs.step (hsearch [] b bs rfl) b (bs ++ rest)
    obtain ⟨f, hsees', htxt', hrec'⟩ := ih hsees fun before c after heq =>
      hsearch (b :: before) c after (by rw [heq]; rfl)
    have hcount : count + 1 + bs.length = count + (b :: bs).length := by
      rw [List.length_cons]
      omega
    rw [hcount] at hsees' hrec'
    cases bs with
    | nil => exact ⟨e, hsees, fun _ => htxt, hrec⟩
    | cons c bs => exact ⟨f, hsees', fun _ => htxt' (List.cons_ne_nil _ _), hrec.trans hrec'⟩

/-! ## The pre-key -/

/-- The first bits of a register are those of a pre-key. -/
def Hunt.Keyed (h : Hunt) (k : ℕ) : Prop :=
  ∀ i, 8 - k ≤ i → i < 8 → h.outbits.toBitVec.getLsbD i = !h.opposite

/-- The search over a pre-key comes to rest, in `rank` bits at most. -/
structure Hunt.Within (h : Hunt) (rank : ℕ) : Prop where
  pos : 1 ≤ h.nbits
  phase : ∃ k ≤ 8, h.Keyed k ∧
    (h.state = .stWsyn ∧ h.nbits ≤ max 1 (8 - k) ∧ (k = 8 ∨ 15 - k ≤ rank) ∨
      h.state = .stSyn2 ∧ h.nbits = 8 - k ∧ k < 8 ∧ 8 - k ≤ rank)

theorem getLsbD_shiftIn (x : UInt8) (v : Bool) {i : ℕ} (hi : i < 8) :
    (Framer.shiftIn x v).toBitVec.getLsbD i =
      if i = 7 then v else x.toBitVec.getLsbD (i + 1) := by
  have hone : (x >>> 1).toBitVec = x.toBitVec >>> 1 := rfl
  unfold Framer.shiftIn
  rw [UInt8.toBitVec_or, BitVec.getLsbD_or, hone, BitVec.getLsbD_ushiftRight, Nat.add_comm 1]
  by_cases h7 : i = 7
  · subst h7
    rw [BitVec.getLsbD_of_ge x.toBitVec (7 + 1) (by decide)]
    cases v <;> decide
  · have hlow : ∀ i : Fin 8, i.val ≠ 7 → ((0x80 : UInt8).toBitVec.getLsbD i = false) := by decide
    rw [if_neg h7]
    cases v
    · simp
    · rw [if_pos rfl, hlow ⟨i, hi⟩ h7, Bool.or_false]

theorem Hunt.Within.searching {h : Hunt} {rank : ℕ} (hw : h.Within rank) : h.Searching := by
  obtain ⟨-, k, -, -, ⟨hst, -⟩ | ⟨hst, -⟩⟩ := hw
  · exact .inl hst
  · exact .inr (.inl hst)

/-- A register of equal bits is no SYN. -/
theorem ne_syn_of_const {r : UInt8} {c : Bool} (h : ∀ i < 8, r.toBitVec.getLsbD i = c) :
    r ≠ syn ∧ r ≠ ~~~syn := by
  have h0 := h 0 (by decide)
  have h1 := h 1 (by decide)
  constructor
  · rintro rfl
    rw [← h0] at h1
    exact absurd h1 (by decide)
  · rintro rfl
    rw [← h0] at h1
    exact absurd h1 (by decide)

/-- A bit of the pre-key brings the search nearer to its rest. -/
theorem Hunt.Within.step {h : Hunt} {rank : ℕ} (hw : h.Within rank) :
    (h.step true).Within (rank - 1) := by
  obtain ⟨hpos, k, hk, hkeyed, hphase⟩ := hw
  have hkeyed' : ∀ i, 8 - (k + 1) ≤ i → i < 8 →
      (Framer.shiftIn h.outbits (true ^^ h.opposite)).toBitVec.getLsbD i = !h.opposite := by
    intro i hi hi'
    rw [getLsbD_shiftIn _ _ hi']
    split_ifs with h7
    · rw [Bool.true_xor]
    · exact hkeyed (i + 1) (by omega) (by omega)
  have hnone : ∀ o : UInt8, ({ h with outbits := o } : Hunt).Keyed 0 := by
    intro o i hi hi'
    omega
  unfold Hunt.step
  dsimp only
  generalize Framer.shiftIn h.outbits (true ^^ h.opposite) = r at hkeyed'
  have hnot : 7 ≤ k → r ≠ syn ∧ r ≠ ~~~syn := fun hk7 =>
    ne_syn_of_const fun i hi => hkeyed' i (by omega) hi
  rcases hphase with ⟨hst, hn, hrank⟩ | ⟨hst, hn, hk8, hrank⟩
  · by_cases hlast : h.nbits - 1 ≤ 0
    · rw [if_pos hlast, hst]
      dsimp only
      by_cases hsyn : r = syn
      · -- a false SYN; the next byte is one of the pre-key
        have hk7 : ¬7 ≤ k := fun hk7 => (hnot hk7).1 hsyn
        rw [if_pos hsyn]
        exact ⟨by show 1 ≤ 8; omega, 0, by omega, fun i hi hi' => absurd hi (by omega),
          .inr ⟨rfl, rfl, by omega, by omega⟩⟩
      · rw [if_neg hsyn]
        by_cases hinv : r = ~~~syn
        · have hk7 : ¬7 ≤ k := fun hk7 => (hnot hk7).2 hinv
          rw [if_pos hinv]
          exact ⟨by show 1 ≤ 8; omega, 0, by omega, fun i hi hi' => absurd hi (by omega),
            .inr ⟨rfl, rfl, by omega, by omega⟩⟩
        · rw [if_neg hinv]
          exact ⟨le_rfl, min (k + 1) 8, by omega, fun i hi hi' => hkeyed' i (by omega) hi',
            .inl ⟨rfl, by show 1 ≤ _; omega, by omega⟩⟩
    · rw [if_neg hlast]
      refine ⟨?_, min (k + 1) 8, by omega, fun i hi hi' => hkeyed' i (by omega) hi',
        .inl ⟨hst, ?_, by omega⟩⟩
      · show 1 ≤ h.nbits - 1
        omega
      · show h.nbits - 1 ≤ _
        omega
  · by_cases hlast : h.nbits - 1 ≤ 0
    · obtain ⟨hsyn, hinv⟩ := hnot (by omega)
      rw [if_pos hlast, hst]
      dsimp only
      rw [if_neg hsyn, if_neg hinv]
      exact ⟨le_rfl, 8, le_rfl, fun i hi hi' => hkeyed' i (by omega) hi',
        .inl ⟨rfl, by show 1 ≤ _; omega, .inl rfl⟩⟩
    · rw [if_neg hlast]
      refine ⟨?_, k + 1, by omega, hkeyed', .inr ⟨hst, ?_, by omega, by omega⟩⟩
      · show 1 ≤ h.nbits - 1
        omega
      · show h.nbits - 1 = _
        omega

theorem Hunt.Within.run {h : Hunt} {rank : ℕ} (hw : h.Within rank) (n : ℕ) :
    ((List.replicate n true).foldl Hunt.step h).Within (rank - n) := by
  induction n generalizing h rank with
  | zero => exact hw
  | succ n ih =>
    have hnext := ih hw.step
    rwa [Nat.sub_sub, Nat.add_comm 1] at hnext

/-- After a pre-key the register is full of it. -/
theorem Hunt.Within.rest {h : Hunt} (hw : h.Within 15) :
    ∃ opp : Bool, (List.replicate 16 true).foldl Hunt.step h =
      ⟨if opp then 0 else 0xff, 1, .stWsyn, opp⟩ := by
  obtain ⟨hpos, k, hk, hkeyed, hphase⟩ := hw.run 16
  generalize (List.replicate 16 true).foldl Hunt.step h = g at hpos hkeyed hphase
  obtain ⟨o, n, st, opp⟩ := g
  obtain ⟨hst, hn, hrank⟩ : st = .stWsyn ∧ n ≤ max 1 (8 - k) ∧ (k = 8 ∨ 15 - k ≤ 0) := by
    rcases hphase with h | ⟨-, -, h8, h⟩
    · exact h
    · omega
  dsimp only at hpos
  have hk8 : k = 8 := by omega
  subst hk8
  have hn1 : n = 1 := by omega
  have ho : o = if opp then 0 else 0xff := by
    apply UInt8.toBitVec_inj.1
    refine BitVec.eq_of_getLsbD_eq fun i hi => ?_
    rw [hkeyed i (by omega) hi]
    have hc : ∀ (opp : Bool) (i : Fin 8),
        (!opp) = (if opp then (0 : UInt8) else 0xff).toBitVec.getLsbD i := by decide
    exact hc opp ⟨i, hi⟩
  exact ⟨opp, by rw [ho, hn1, hst]⟩

/-- The bits of SYN SYN SOH. -/
def keyBits : List Bool := bits syn ++ bits syn ++ bits soh

/-- SYN SYN SOH is found after a pre-key, in either polarity. -/
theorem hunt_keyBits (opp : Bool) :
    keyBits.foldl Hunt.step ⟨if opp then 0 else 0xff, 1, .stWsyn, opp⟩ =
      ⟨soh, 8, .stTxt, false⟩ := by
  cases opp <;> decide +kernel

theorem hunt_keyBits_searching (opp : Bool) (before : List Bool) (b : Bool) (after : List Bool)
    (h : keyBits = before ++ b :: after) :
    (before.foldl Hunt.step ⟨if opp then 0 else 0xff, 1, .stWsyn, opp⟩).Searching := by
  have hall : ∀ (opp : Bool) (j : Fin 24), ((keyBits.take j).foldl Hunt.step
      ⟨if opp then 0 else 0xff, 1, .stWsyn, opp⟩).state ∈ [.stWsyn, .stSyn2, .stSoh1] := by
    decide +kernel
  have hlen : before.length < 24 := by
    have := congrArg List.length h
    rw [show keyBits.length = 24 from rfl, List.length_append, List.length_cons] at this
    omega
  have htake : keyBits.take before.length = before := by
    rw [h]
    exact List.take_left
  have hj := hall opp ⟨before.length, hlen⟩
  dsimp only at hj
  rw [htake] at hj
  simpa [Hunt.Searching] using hj

/-! ## The bytes of a block -/

/-- A framer at the start of a byte, with the polarity of the stream. -/
structure Framer.Aligned (d : Framer) (count : ℕ) (inverted : Bool) : Prop where
  nbits : d.nbits = 8
  low : d.mskS % 2 = count % 2
  polarity : opposite d.mskS count inverted = false

/-- The bits before the last of a byte go in. -/
theorem receive_shift {d : Framer} {count : ℕ} {inverted : Bool}
    (hlow : d.mskS % 2 = count % 2) (hpol : opposite d.mskS count inverted = false)
    {bs : List Bool} (hbs : bs.length < d.nbits) (rest : List Bool) :
    d.receive (symbols inverted count (bs ++ rest)) =
      Framer.receive { d with outbits := bs.foldl Framer.shiftIn d.outbits
                              nbits := d.nbits - bs.length
                              mskS := d.mskS + bs.length }
        (symbols inverted (count + bs.length) rest) := by
  induction bs generalizing d count with
  | nil => rfl
  | cons b bs ih =>
    rw [List.length_cons] at hbs
    have hgo : ¬d.nbits - 1 ≤ 0 := by omega
    rw [List.cons_append, receive_symbols_cons, hpol, Bool.xor_false]
    unfold Framer.putbit
    dsimp only
    rw [if_neg hgo, List.nil_append]
    refine (@ih { d with outbits := Framer.shiftIn d.outbits b, nbits := d.nbits - 1,
                         mskS := d.mskS + 1 } (count + 1) ?_ ?_ ?_).trans ?_
    · show (d.mskS + 1) % 2 = (count + 1) % 2
      omega
    · exact (opposite_succ hlow inverted).trans hpol
    · show bs.length < d.nbits - 1
      omega
    · dsimp only
      rw [List.length_cons, Nat.sub_sub, Nat.add_comm 1, Nat.add_right_comm, Nat.add_assoc,
        Nat.add_right_comm, Nat.add_assoc]
      rfl

/-- Eight bits fill the register. -/
theorem foldl_shiftIn_bits (x b : UInt8) : (bits b).foldl Framer.shiftIn x = b := by
  apply UInt8.toBitVec_inj.1
  refine BitVec.eq_of_getLsbD_eq fun i hi => ?_
  show (Framer.shiftIn (Framer.shiftIn (Framer.shiftIn (Framer.shiftIn (Framer.shiftIn
    (Framer.shiftIn (Framer.shiftIn (Framer.shiftIn x _) _) _) _) _) _) _) _).toBitVec.getLsbD i = _
  interval_cases i <;> simp (disch := decide) only [getLsbD_shiftIn, Nat.reduceEqDiff,
    Nat.reduceAdd, ↓reduceIte, reduceCtorEq]

/-- **A byte** is handed to `framer_byte`. -/
theorem receive_byte {d : Framer} {count : ℕ} {inverted : Bool} (h : d.Aligned count inverted)
    (b : UInt8) (rest : List Bool) :
    d.receive (symbols inverted count (bits b ++ rest)) =
      let e := Framer.framerByte { d with outbits := b, nbits := 0, mskS := d.mskS + 7 } b
      let f := { e.1 with mskS := e.1.mskS + 1 }
      ((f.receive (symbols inverted (count + 8) rest)).1,
        e.2 ++ (f.receive (symbols inverted (count + 8) rest)).2) := by
  obtain ⟨hnbits, hlow, hpol⟩ := h
  have hbits : bits b = (bits b).take 7 ++ [b.toBitVec.getLsbD 7] := rfl
  have hlen : ((bits b).take 7).length = 7 := rfl
  have hfull : Framer.shiftIn (((bits b).take 7).foldl Framer.shiftIn d.outbits)
      (b.toBitVec.getLsbD 7) = b := by
    have h := foldl_shiftIn_bits d.outbits b
    rwa [hbits, List.foldl_append] at h
  conv_lhs => rw [hbits, List.append_assoc]
  rw [receive_shift hlow hpol (by rw [hlen, hnbits]; decide), hlen, List.singleton_append,
    receive_symbols_cons]
  dsimp only
  rw [opposite_add hlow, hpol, Bool.xor_false]
  unfold Framer.putbit
  dsimp only
  rw [hnbits, if_pos (by decide), hfull]

/-- A byte after which the framer goes on with the next. -/
theorem receive_byte_of {d e : Framer} {count : ℕ} {inverted : Bool}
    (h : d.Aligned count inverted) (b : UInt8) (out : List AcarsBlock)
    (hbyte : Framer.framerByte { d with outbits := b, nbits := 0, mskS := d.mskS + 7 } b = (e, out))
    (hnbits : e.nbits = 8) (hmskS : e.mskS = d.mskS + 7) (rest : List Bool) :
    ∃ f : Framer, f = { e with mskS := e.mskS + 1 } ∧ f.Aligned (count + 8) inverted ∧
      d.receive (symbols inverted count (bits b ++ rest)) =
        ((f.receive (symbols inverted (count + 8) rest)).1,
          out ++ (f.receive (symbols inverted (count + 8) rest)).2) := by
  refine ⟨_, rfl, ⟨hnbits, ?_, ?_⟩, ?_⟩
  · have := h.low
    show (e.mskS + 1) % 2 = _
    omega
  · show opposite (e.mskS + 1) (count + 8) inverted = false
    rw [hmskS]
    exact (opposite_add h.low inverted 8).trans h.polarity
  · rw [receive_byte h, hbyte]

/-! ## Characters -/

theorem withParity_good {b : UInt8} (hb : b < 128) : parityBad (withParity b) = false := by
  have h : ∀ n : Fin 128, parityBad (withParity (.ofNat n)) = false := by decide +kernel
  have hn : b.toNat < 128 := UInt8.lt_iff_toNat_lt.1 hb
  have hx := h ⟨b.toNat, hn⟩
  dsimp only at hx
  rwa [UInt8.ofNat_toNat] at hx

/-- A character that is no ETX, ETB or DEL is none on the air. -/
theorem withParity_ne {b : UInt8} (hb : b < 128) :
    (withParity b = etx ↔ b = 0x03) ∧ (withParity b = etb ↔ b = 0x17) ∧
      (withParity b = del ↔ b = 0x7f) := by
  have h : ∀ n : Fin 128, (withParity (.ofNat n) = etx ↔ UInt8.ofNat n = 0x03) ∧
      (withParity (.ofNat n) = etb ↔ UInt8.ofNat n = 0x17) ∧
        (withParity (.ofNat n) = del ↔ UInt8.ofNat n = 0x7f) := by
    decide +kernel
  have hn : b.toNat < 128 := UInt8.lt_iff_toNat_lt.1 hb
  have hx := h ⟨b.toNat, hn⟩
  dsimp only at hx
  rwa [UInt8.ofNat_toNat] at hx

/-! ## The text -/

/-- A framer in the text, with what it has so far. -/
structure InText (d : Framer) (count : ℕ) (inverted : Bool) (txt : List UInt8) : Prop
    extends d.Aligned count inverted where
  state : d.state = .stTxt
  txt : d.txt = txt
  perr : d.perr = 0

theorem push_of_lt {d : Framer} (h : d.txt.length < maxTxt + 4) (r : UInt8) :
    d.push r = { d with txt := d.txt ++ [r] } := if_pos h

/-- `framer_byte` takes a good byte of the text, and goes on to the checksum after ETX or ETB. -/
theorem InText.framerByte {d : Framer} {count : ℕ} {inverted : Bool} {txt : List UInt8}
    (h : InText d count inverted txt) (hlen : txt.length < maxTxt) {r : UInt8}
    (hgood : parityBad r = false) (hdel : r ≠ del) :
    Framer.framerByte { d with outbits := r, nbits := 0, mskS := d.mskS + 7 } r =
      ({ d with outbits := r, nbits := 8, mskS := d.mskS + 7, txt := txt ++ [r]
                state := if r = etx ∨ r = etb then .stCrc1 else .stTxt }, []) := by
  have hmax : maxTxt = 250 := rfl
  have hfits : ¬(d.txt ++ [r]).length > maxTxt := by
    rw [h.txt, List.length_append, List.length_singleton]
    omega
  unfold Framer.framerByte
  dsimp only
  rw [h.state]
  dsimp only
  rw [push_of_lt (by show d.txt.length < _; rw [h.txt]; omega)]
  dsimp only
  rw [hgood, if_neg Bool.false_ne_true, if_neg (fun hb => absurd hb.1 Bool.false_ne_true)]
  by_cases hend : r = etx ∨ r = etb
  · rw [if_pos hend, if_pos hend, h.txt]
  · rw [if_neg hend, if_neg hend]
    dsimp only
    rw [if_neg (fun hb => hdel hb.2), if_neg hfits, h.txt]

/-- A byte of the text. -/
theorem InText.byte {d : Framer} {count : ℕ} {inverted : Bool} {txt : List UInt8}
    (h : InText d count inverted txt) (hlen : txt.length < maxTxt) {r : UInt8}
    (hgood : parityBad r = false) (hend : r ≠ etx ∧ r ≠ etb) (hdel : r ≠ del) (rest : List Bool) :
    ∃ f, InText f (count + 8) inverted (txt ++ [r]) ∧
      d.receive (symbols inverted count (bits r ++ rest)) =
        f.receive (symbols inverted (count + 8) rest) := by
  have hnot : ¬(r = etx ∨ r = etb) := fun hr => hr.elim hend.1 hend.2
  have hbyte := h.framerByte hlen hgood hdel
  rw [if_neg hnot] at hbyte
  obtain ⟨f, rfl, halign, hrec⟩ := receive_byte_of h.toAligned r [] hbyte rfl rfl rest
  exact ⟨_, ⟨halign, rfl, rfl, h.perr⟩, hrec⟩

/-- The text up to its end. -/
theorem InText.run {d : Framer} {count : ℕ} {inverted : Bool} {txt : List UInt8}
    (h : InText d count inverted txt) (rs : List UInt8) (hlen : txt.length + rs.length ≤ maxTxt)
    (hgood : ∀ r ∈ rs, parityBad r = false) (hend : ∀ r ∈ rs, r ≠ etx ∧ r ≠ etb)
    (hdel : ∀ r ∈ rs, r ≠ del) (rest : List Bool) :
    ∃ f, InText f (count + 8 * rs.length) inverted (txt ++ rs) ∧
      d.receive (symbols inverted count (rs.flatMap bits ++ rest)) =
        f.receive (symbols inverted (count + 8 * rs.length) rest) := by
  induction rs generalizing d count txt with
  | nil => exact ⟨d, by rw [List.append_nil]; exact h, rfl⟩
  | cons r rs ih =>
    rw [List.forall_mem_cons] at hgood hend hdel
    rw [List.length_cons] at hlen
    obtain ⟨f, hf, hrec⟩ := h.byte (by omega) hgood.1 hend.1 hdel.1 (rs.flatMap bits ++ rest)
    obtain ⟨g, hg, hrec'⟩ := ih hf
      (by rw [List.length_append, List.length_singleton]; omega) hgood.2 hend.2 hdel.2
    have hcount : count + 8 + 8 * rs.length = count + 8 * (r :: rs).length := by
      rw [List.length_cons]
      omega
    rw [hcount] at hg hrec'
    rw [List.append_assoc, List.singleton_append] at hg
    refine ⟨g, hg, ?_⟩
    rw [List.flatMap_cons, List.append_assoc, hrec, hrec']

/-! ## The end of a block -/

/-- The low byte first, a checksum leaves nothing. -/
theorem crc16Ccitt_self (c : UInt16) :
    Hfdl.crc16Ccitt [(c &&& 0xff).toUInt8, (c >>> 8).toUInt8] c = 0 := by
  apply UInt16.toBitVec_inj.1
  set x := c.toBitVec with hx
  have hlo : (c &&& 0xff).toUInt8.toBitVec.setWidth 16 = x &&& 255#16 := by
    show ((x &&& 255#16).setWidth 8).setWidth 16 = _
    ext i hi
    simp only [BitVec.getElem_setWidth, BitVec.getLsbD_setWidth, BitVec.getLsbD_and,
      BitVec.getElem_and]
    interval_cases i <;> simp
  have hhi : (c >>> 8).toUInt8.toBitVec.setWidth 16 = x >>> 8 := by
    show ((x >>> 8).setWidth 8).setWidth 16 = _
    ext i hi
    simp only [BitVec.getElem_setWidth, BitVec.getLsbD_setWidth, BitVec.getLsbD_ushiftRight,
      BitVec.getElem_ushiftRight]
    interval_cases i <;> simp
  have hfirst : ShiftRegister.feed crcPoly x (c &&& 0xff).toUInt8.toBitVec = x >>> 8 := by
    unfold ShiftRegister.feed
    rw [hlo, shift_eight]
    have hhigh : (x ^^^ x &&& 255#16) >>> 8 = x >>> 8 := by
      ext i hi
      simp only [BitVec.getElem_ushiftRight, BitVec.getLsbD_xor, BitVec.getLsbD_and]
      interval_cases i <;> simp
    have hlow : (x ^^^ x &&& 255#16) &&& 255#16 = 0#16 := by
      ext i hi
      simp only [BitVec.getElem_and, BitVec.getElem_xor]
      interval_cases i <;> simp
    rw [hhigh, hlow, ShiftRegister.iterate_zero, BitVec.xor_zero]
  rw [crc16Ccitt_eq, List.map_cons, List.map_singleton, ShiftRegister.run_cons,
    ShiftRegister.run_cons, ShiftRegister.run_nil, ← hx, hfirst]
  unfold ShiftRegister.feed
  rw [hhi, BitVec.xor_self, ShiftRegister.iterate_zero]
  rfl

/-- The block that is handed over, for a text that checks. -/
def goodBlock (txt : List UInt8) (crc0 crc1 : UInt8) : AcarsBlock where
  bytes := soh :: (txt ++ [crc0, crc1, del])
  crcOk := true
  corrected := false
  parityErrs := txt.countP parityBad

theorem emitBlock_of_check {d : Framer} (hlong : 13 ≤ d.txt.length)
    (hshort : d.txt.length ≤ acarsMaxBlock - 4)
    (hcheck : (⟨d.txt, [d.crc0, d.crc1]⟩ : Block).blockCrc = 0) :
    d.emitBlock = (d, [goodBlock d.txt d.crc0 d.crc1]) := by
  unfold Framer.emitBlock
  rw [if_neg (by omega), repair_of_check hcheck]
  dsimp only
  rw [List.take_of_length_le hshort]
  rfl

/-- From ETX or ETB to the DEL after the block. -/
theorem InText.finish {d : Framer} {count : ℕ} {inverted : Bool} {txt : List UInt8}
    (h : InText d count inverted txt) {r : UInt8} (hlong : 13 ≤ (txt ++ [r]).length)
    (hshort : (txt ++ [r]).length ≤ maxTxt) (hgood : parityBad r = false)
    (hend : r = etx ∨ r = etb) {crc0 crc1 : UInt8}
    (hcheck : (⟨txt ++ [r], [crc0, crc1]⟩ : Block).blockCrc = 0) :
    (d.receive (symbols inverted count
      (bits r ++ (bits crc0 ++ (bits crc1 ++ (bits del ++ [])))))).2 =
        [goodBlock (txt ++ [r]) crc0 crc1] := by
  have hmax : maxTxt = 250 := rfl
  have hbig : acarsMaxBlock = 260 := rfl
  have hdel : r ≠ del := by rcases hend with rfl | rfl <;> decide
  have hend' := h.framerByte (by rw [List.length_append, List.length_singleton] at hshort; omega)
    hgood hdel
  rw [if_pos hend] at hend'
  obtain ⟨d₁, rfl, h₁, hrec₁⟩ := receive_byte_of h.toAligned r [] hend' rfl rfl
    (bits crc0 ++ (bits crc1 ++ (bits del ++ [])))
  obtain ⟨d₂, rfl, h₂, hrec₂⟩ := receive_byte_of h₁ crc0 [] rfl rfl rfl
    (bits crc1 ++ (bits del ++ []))
  obtain ⟨d₃, rfl, h₃, hrec₃⟩ := receive_byte_of h₂ crc1
    [goodBlock (txt ++ [r]) crc0 crc1] (by
      unfold Framer.framerByte
      dsimp only
      rw [emitBlock_of_check (by exact hlong) (by show (txt ++ [r]).length ≤ _; omega)
        (by exact hcheck)]) rfl rfl (bits del ++ [])
  obtain ⟨d₄, rfl, -, hrec₄⟩ := receive_byte_of h₃ del [] rfl rfl rfl []
  rw [hrec₁, hrec₂, hrec₃, hrec₄]
  rfl

/-! ## A frame -/

/-- The text of a frame: the characters with their parity. -/
def Payload.body (p : Payload) : List UInt8 := p.chars.map withParity

def Payload.crc (p : Payload) : UInt16 := Hfdl.crc16Ccitt p.body 0

def Payload.crc0 (p : Payload) : UInt8 := (p.crc &&& 0xff).toUInt8

def Payload.crc1 (p : Payload) : UInt8 := (p.crc >>> 8).toUInt8

theorem Payload.last_lt (p : Payload) : p.last < 128 := by
  rcases p.ends with h | h <;> rw [h] <;> decide

theorem Payload.body_good (p : Payload) : ∀ r ∈ p.body, parityBad r = false := by
  intro r hr
  obtain ⟨c, hc, rfl⟩ := List.mem_map.1 hr
  rcases List.mem_append.1 hc with hc | hc
  · exact withParity_good (p.sevenBit c hc)
  · rw [List.mem_singleton.1 hc]
    exact withParity_good p.last_lt

theorem Payload.body_eq (p : Payload) :
    p.body = p.text.map withParity ++ [withParity p.last] := by
  rw [Payload.body, Payload.chars, List.map_append]
  rfl

/-- The bits of a frame. -/
theorem flatMap_buildFrame (p : Payload) :
    (buildFrame p.chars).flatMap bits = List.replicate 16 true ++ (keyBits ++
      ((p.text.map withParity).flatMap bits ++ (bits (withParity p.last) ++
        (bits p.crc0 ++ (bits p.crc1 ++ (bits del ++ [])))))) := by
  have hkey : [0xff, 0xff, syn, syn, soh].flatMap bits = List.replicate 16 true ++ keyBits := by
    decide +kernel
  show ([0xff, 0xff, syn, syn, soh] ++ p.body ++ [p.crc0, p.crc1, del]).flatMap bits = _
  rw [List.flatMap_append, List.flatMap_append, hkey, p.body_eq, List.flatMap_append]
  simp only [List.append_assoc, List.flatMap_cons, List.flatMap_nil, List.append_nil]

/-- A hunting framer finds the text after SYN SYN SOH. -/
theorem Hunting.inText (g : Hunting) {count : ℕ} (inverted : Bool)
    (hlow : g.framer.mskS % 2 = count % 2) (rest : List Bool) :
    ∃ d, InText d (count + 16 + 24) inverted [] ∧
      g.framer.receive (symbols inverted count (List.replicate 16 true ++ (keyBits ++ rest))) =
        d.receive (symbols inverted (count + 16 + 24) rest) := by
  obtain ⟨d, hwsyn, hnbits⟩ := g
  dsimp only at hlow ⊢
  set h : Hunt := ⟨d.outbits, d.nbits, .stWsyn, opposite d.mskS count inverted⟩ with hh
  have hsees : Sees d count inverted h := ⟨rfl, rfl, hwsyn, hlow, rfl⟩
  have hwithin : h.Within 15 := by
    refine ⟨hnbits.1, 0, by omega, fun i hi hi' => absurd hi (by omega), .inl ⟨rfl, ?_, by omega⟩⟩
    show d.nbits ≤ max 1 (8 - 0)
    omega
  obtain ⟨e, he, -, hrec⟩ := hsees.run (List.replicate 16 true) (by
    intro before b after heq
    have hbefore : before = List.replicate before.length true := by
      refine List.eq_replicate_iff.2 ⟨rfl, fun c hc => ?_⟩
      exact List.eq_of_mem_replicate (heq ▸ List.mem_append_left _ hc)
    rw [hbefore]
    exact (hwithin.run _).searching) (keyBits ++ rest)
  obtain ⟨opp, hopp⟩ := hwithin.rest
  rw [hopp] at he
  obtain ⟨f, hf, htxt, hrec'⟩ := he.run keyBits (hunt_keyBits_searching opp) rest
  rw [hunt_keyBits] at hf htxt
  obtain ⟨htxt, hperr⟩ := htxt (by decide +kernel) rfl
  exact ⟨f, ⟨⟨hf.nbits, hf.low, hf.polarity⟩, hf.state, htxt, hperr⟩, hrec.trans hrec'⟩

/-- A frame is received by a framer that is hunting. -/
theorem receive_frame (g : Hunting) (p : Payload) {count : ℕ} (inverted : Bool)
    (hlow : g.framer.mskS % 2 = count % 2) :
    (g.framer.receive (symbols inverted count ((buildFrame p.chars).flatMap bits))).2 =
      [goodBlock p.body p.crc0 p.crc1] := by
  have hmax : maxTxt = 250 := rfl
  have hshort := p.short
  have hlong := p.long
  rw [flatMap_buildFrame]
  obtain ⟨d, hd, hrec⟩ := g.inText inverted hlow
    ((p.text.map withParity).flatMap bits ++ (bits (withParity p.last) ++
      (bits p.crc0 ++ (bits p.crc1 ++ (bits del ++ [])))))
  have hgood : ∀ r ∈ p.text.map withParity, parityBad r = false := by
    intro r hr
    obtain ⟨c, hc, rfl⟩ := List.mem_map.1 hr
    exact withParity_good (p.sevenBit c hc)
  have hend : ∀ r ∈ p.text.map withParity, r ≠ etx ∧ r ≠ etb := by
    intro r hr
    obtain ⟨c, hc, rfl⟩ := List.mem_map.1 hr
    obtain ⟨hetx, hetb, -⟩ := withParity_ne (p.sevenBit c hc)
    rw [Ne, hetx, Ne, hetb]
    exact p.noEnd c hc
  have hdel : ∀ r ∈ p.text.map withParity, r ≠ del := by
    intro r hr
    obtain ⟨c, hc, rfl⟩ := List.mem_map.1 hr
    rw [Ne, (withParity_ne (p.sevenBit c hc)).2.2]
    exact p.noDel c hc
  obtain ⟨e, he, hrec'⟩ := hd.run (p.text.map withParity)
    (by rw [List.length_nil, List.length_map]; omega) hgood hend hdel
    (bits (withParity p.last) ++ (bits p.crc0 ++ (bits p.crc1 ++ (bits del ++ []))))
  have hlast : withParity p.last = etx ∨ withParity p.last = etb := by
    obtain ⟨hetx, hetb, -⟩ := withParity_ne p.last_lt
    rw [hetx, hetb]
    exact p.ends
  have hcheck : (⟨p.body, [p.crc0, p.crc1]⟩ : Block).blockCrc = 0 := crc16Ccitt_self p.crc
  rw [hrec, hrec']
  rw [List.nil_append] at he
  rw [p.body_eq] at hcheck ⊢
  refine he.finish ?_ ?_ (withParity_good p.last_lt) hlast hcheck
  · rw [List.length_append, List.length_map, List.length_singleton]
    omega
  · rw [List.length_append, List.length_map, List.length_singleton]
    omega

/-! ## The text buffer -/

/-- Nothing has been written past the text, and there is room for the next byte. -/
structure Framer.Bounded (d : Framer) : Prop where
  overrun : d.overrun = false
  room : d.state = .stTxt → d.txt.length ≤ maxTxt

theorem emitBlock_overrun (d : Framer) : d.emitBlock.1.overrun = d.overrun := by
  unfold Framer.emitBlock
  split_ifs <;> rfl

theorem Framer.Bounded.framerByte {d : Framer} (h : d.Bounded) (r : UInt8) :
    (d.framerByte r).1.Bounded := by
  obtain ⟨hover, hroom⟩ := h
  unfold Framer.framerByte
  cases hst : d.state with
  | stWsyn =>
    dsimp only
    split_ifs
    · exact ⟨hover, nofun⟩
    · exact ⟨hover, nofun⟩
    · exact ⟨hover, nofun⟩
  | stSyn2 =>
    dsimp only
    split_ifs
    · exact ⟨hover, nofun⟩
    · exact ⟨hover, nofun⟩
    · exact ⟨hover, nofun⟩
  | stSoh1 =>
    dsimp only
    split_ifs
    · exact ⟨hover, fun _ => Nat.zero_le _⟩
    · exact ⟨hover, nofun⟩
  | stTxt =>
    have hmax : maxTxt = 250 := rfl
    have hlen := hroom hst
    dsimp only
    rw [push_of_lt (by omega)]
    dsimp only
    by_cases hbad : parityBad r = true
    · rw [if_pos hbad]
      split_ifs with hmany hend hdel hlong
      · exact ⟨hover, nofun⟩
      · exact ⟨hover, nofun⟩
      · exact ⟨(emitBlock_overrun _).trans hover, nofun⟩
      · exact ⟨hover, nofun⟩
      · exact ⟨hover, fun _ => not_lt.1 hlong⟩
    · rw [if_neg hbad]
      split_ifs with hmany hend hdel hlong
      · exact ⟨hover, nofun⟩
      · exact ⟨hover, nofun⟩
      · exact ⟨(emitBlock_overrun _).trans hover, nofun⟩
      · exact ⟨hover, nofun⟩
      · exact ⟨hover, fun _ => not_lt.1 hlong⟩
  | stCrc1 => exact ⟨hover, nofun⟩
  | stCrc2 => exact ⟨(emitBlock_overrun _).trans hover, nofun⟩
  | stEnd => exact ⟨hover, nofun⟩

theorem Framer.Bounded.symbol {d : Framer} (h : d.Bounded) (vo : SignType) :
    (d.symbol vo).1.Bounded := by
  have hput : ∀ v, (d.putbit v).1.Bounded := by
    intro v
    unfold Framer.putbit
    dsimp only
    have hshift : Framer.Bounded { d with outbits := Framer.shiftIn d.outbits v,
                                          nbits := d.nbits - 1 } := ⟨h.overrun, h.room⟩
    split_ifs
    · exact hshift.framerByte _
    · exact hshift
  obtain ⟨hover, hroom⟩ := hput (0 < if d.mskS.testBit 1 then -vo else vo)
  exact ⟨hover, hroom⟩

theorem Framer.Bounded.receive {d : Framer} (h : d.Bounded) (vos : List SignType) :
    (d.receive vos).1.Bounded := by
  induction vos generalizing d with
  | nil => exact h
  | cons vo vos ih => exact ih (h.symbol vo)

/-- **A frame comes through**: in either polarity of the stream, and whatever the flag of the
polarity was before, a framer that is hunting hands over one block, which checks. And no stream
makes it write past its text. -/
theorem frame_received :
    (∀ (g : Hunting) (p : Payload) (inverted flag : Bool),
      let count := if flag then g.framer.mskS ^^^ 2 else g.framer.mskS
      (g.framer.receive (symbols inverted count ((buildFrame p.chars).flatMap bits))).2 =
        [{ bytes := soh :: (p.chars.map withParity ++ [p.crc0, p.crc1, del])
           crcOk := true
           corrected := false
           parityErrs := 0 }]) ∧
    ∀ vos : List SignType, (Framer.start.receive vos).1.overrun = false := by
  refine ⟨fun g p inverted flag => ?_, fun vos => ?_⟩
  · intro count
    have hlow : g.framer.mskS % 2 = count % 2 := by
      cases flag
      · rfl
      · exact (xor_two_mod_two _).symm
    have hcount : p.body.countP parityBad = 0 :=
      List.countP_eq_zero.2 fun r hr => by rw [p.body_good r hr]; exact Bool.false_ne_true
    rw [receive_frame g p inverted hlow, goodBlock, hcount]
    rfl
  · have hstart : Framer.start.Bounded := ⟨rfl, nofun⟩
    exact (hstart.receive vos).overrun

end MacHPSDR.Acars
