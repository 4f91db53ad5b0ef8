import Hcics.Basic
import Hcics.Lib.Transition
import Hcics.Lib.Winding

/-!
# The wheel encoders

`hcics_encoder.c` counts quarter steps of a wheel from the states of two pins. The interrupt handler
looks the transition up in a table; whatever happened between two interrupts, it knows the pins only
as they are now and as they were then. `Counter` runs one encoder through interrupts, the calls of
the device layer and the results of the pin driver, and keeps the pin states seen since the count was
last set to 0.

`irq_eq` is all that is used of the table. `counted` is the invariant, from which come the wheel's
position, the congruences and the way back.
-/

namespace Hcics

/-- The levels of the two pins of an encoder, `true` for `PIN_HIGH`. -/
structure AbPins where
  a : Bool
  b : Bool
  deriving DecidableEq, Repr

structure Encoder where
  reversed : Bool
  attached : Bool
  enabled : Bool
  count : Int32
  lastState : UInt8
  deriving DecidableEq, Repr

/-- What the pin driver returns to `hcics_encoder_control`; a call that is not made has a result
that is not read. -/
structure PinIrqCalls where
  attachA : RtErr
  attachB : RtErr
  enableA : RtErr
  enableB : RtErr
  deriving DecidableEq, Repr

namespace Encoder

/-- `g_left_encoder` and `g_right_encoder` before they are registered. -/
def registered (reversed : Bool) : Encoder := ⟨reversed, false, false, 0, 0⟩

def readState (pins : AbPins) : UInt8 :=
  let a : UInt8 := if pins.a then 1 else 0
  let b : UInt8 := if pins.b then 1 else 0
  (a <<< 1) ||| b

def decodeTable : Vector Int8 16 :=
  #v[0, -1, 1, 0,
     1, 0, 0, -1,
     -1, 0, 0, 1,
     0, 1, -1, 0]

/-- The index into the table, before it is masked. -/
def index (e : Encoder) (pins : AbPins) : UInt8 := (e.lastState <<< 2) ||| readState pins

theorem masked_lt (i : UInt8) : (i &&& 0x0F).toNat < 16 := by
  have hle : (i &&& 0x0F).toNat ≤ (0x0F : UInt8).toNat := by
    rw [UInt8.toNat_and]
    exact Nat.and_le_right
  exact Nat.lt_of_le_of_lt hle (by decide)

/-- `hcics_encoder_irq`, with the pins as it reads them. -/
def irq (e : Encoder) (pins : AbPins) : Encoder :=
  if !e.enabled then e
  else
    let index := e.index pins
    let e := { e with lastState := readState pins }
    let delta := decodeTable.get ⟨(index &&& 0x0F).toNat, masked_lt index⟩
    if delta = 0 then e
    else
      let delta := if e.reversed then -delta else delta
      { e with count := e.count + delta.toInt32 }

def deviceInit (e : Encoder) (pins : AbPins) : Encoder :=
  { e with lastState := readState pins, count := 0 }

def getCount (e : Encoder) : Int32 := e.count

def clearCount (e : Encoder) (pins : AbPins) : Encoder :=
  { e with count := 0, lastState := readState pins }

def attachIrqs (e : Encoder) (calls : PinIrqCalls) : Encoder × RtErr :=
  if e.attached then (e, RT_EOK)
  else if calls.attachA ≠ RT_EOK then (e, calls.attachA)
  else if calls.attachB ≠ RT_EOK then (e, calls.attachB)
  else ({ e with attached := true }, RT_EOK)

def enableIrqs (calls : PinIrqCalls) : RtErr :=
  if calls.enableA ≠ RT_EOK then calls.enableA
  else if calls.enableB ≠ RT_EOK then calls.enableB
  else RT_EOK

/-- `hcics_encoder_control` of `PULSE_ENCODER_CMD_ENABLE` up to the attached interrupts: the device
is initialised, and counts from here on where that succeeded. -/
def enable (e : Encoder) (pins : AbPins) (calls : PinIrqCalls) : Encoder × RtErr :=
  let (e, result) := (e.deviceInit pins).attachIrqs calls
  if result ≠ RT_EOK then (e, result) else ({ e with enabled := true }, RT_EOK)

def enableRest (e : Encoder) (calls : PinIrqCalls) : Encoder × RtErr :=
  let result := enableIrqs calls
  if result ≠ RT_EOK then ({ e with enabled := false }, result) else (e, RT_EOK)

/-- `hcics_encoder_control` of `PULSE_ENCODER_CMD_DISABLE`. -/
def disable (e : Encoder) : Encoder := { e with enabled := false }

end Encoder

/-- One encoder, with the pin states seen since its count was last set to 0, oldest first. -/
structure Counter where
  dev : Encoder
  seen : List AbPins
  deriving DecidableEq, Repr

namespace Counter

/-- The calls that reach an encoder, with the pins as they are read. An interrupt comes between the
two parts of enabling, too. -/
inductive Input where
  | irq (pins : AbPins)
  | deviceInit (pins : AbPins)
  | clearCount (pins : AbPins)
  | enable (pins : AbPins) (calls : PinIrqCalls)
  | enableRest (calls : PinIrqCalls)
  | disable
  deriving DecidableEq, Repr

def step (s : Counter) : Input → Option Counter
  | .irq pins => some ⟨s.dev.irq pins, if s.dev.enabled then s.seen ++ [pins] else s.seen⟩
  | .deviceInit pins => some ⟨s.dev.deviceInit pins, [pins]⟩
  | .clearCount pins => some ⟨s.dev.clearCount pins, [pins]⟩
  | .enable pins calls => some ⟨(s.dev.enable pins calls).1, [pins]⟩
  | .enableRest calls => some ⟨(s.dev.enableRest calls).1, s.seen⟩
  | .disable => some ⟨s.dev.disable, s.seen⟩

def machine : Machine Counter Input where
  start s := ∃ reversed, s = ⟨Encoder.registered reversed, []⟩
  step := step

end Counter

/-! ## The cycle of pin states -/

namespace AbPins

/-- The place of a state in the cycle 00, 10, 11, 01. -/
def position : AbPins → ℤ
  | ⟨false, false⟩ => 0
  | ⟨true, false⟩ => 1
  | ⟨true, true⟩ => 2
  | ⟨false, true⟩ => 3

/-- At most one pin differs. -/
def Adjacent (p q : AbPins) : Prop := p.a = q.a ∨ p.b = q.b

instance (p q : AbPins) : Decidable (Adjacent p q) := inferInstanceAs (Decidable (_ ∨ _))

/-- The quarter step from one state to another; 0 where the states are the same or opposite. -/
def quarterStep (p q : AbPins) : ℤ :=
  if (q.position - p.position) % 4 = 1 then 1
  else if (q.position - p.position) % 4 = 3 then -1
  else 0

/-- The pins of a wheel that has turned by a number of quarter steps. -/
def ofTurn (n : ℤ) : AbPins :=
  if n % 4 = 0 then ⟨false, false⟩
  else if n % 4 = 1 then ⟨true, false⟩
  else if n % 4 = 2 then ⟨true, true⟩
  else ⟨false, true⟩

theorem natAbs_quarterStep_le (p q : AbPins) : (p.quarterStep q).natAbs ≤ 1 := by
  unfold quarterStep
  split
  · decide
  · split <;> decide

theorem quarterStep_anti (p q : AbPins) : q.quarterStep p = -p.quarterStep q := by
  rcases p with ⟨_ | _, _ | _⟩ <;> rcases q with ⟨_ | _, _ | _⟩ <;> rfl

theorem quarterStep_modEq {p q : AbPins} (h : Adjacent p q) :
    p.quarterStep q ≡ q.position - p.position [ZMOD 4] := by
  revert h
  rcases p with ⟨_ | _, _ | _⟩ <;> rcases q with ⟨_ | _, _ | _⟩ <;> decide

/-- A change of both pins counts nothing, and is two quarter steps one way or the other. -/
theorem quarterStep_modEq_two (p q : AbPins) :
    p.quarterStep q ≡ q.position - p.position [ZMOD 2] := by
  rcases p with ⟨_ | _, _ | _⟩ <;> rcases q with ⟨_ | _, _ | _⟩ <;> decide

theorem position_injective {p q : AbPins} (h : p.position = q.position) : p = q := by
  revert h
  rcases p with ⟨_ | _, _ | _⟩ <;> rcases q with ⟨_ | _, _ | _⟩ <;> decide

theorem position_ofTurn (n : ℤ) : (ofTurn n).position = n % 4 := by
  have hlo := Int.emod_nonneg n (by decide : (4 : ℤ) ≠ 0)
  have hhi := Int.emod_lt_of_pos n (by decide : (0 : ℤ) < 4)
  unfold ofTurn
  split
  · next h => exact h.symm
  · split
    · next h => exact h.symm
    · split
      · next h => exact h.symm
      · next h0 h1 h2 =>
        simp only [position]
        omega

theorem quarterStep_ofTurn {m n : ℤ} (h : (n - m).natAbs ≤ 1) :
    (ofTurn m).quarterStep (ofTurn n) = n - m := by
  simp only [quarterStep, position_ofTurn]
  split
  · omega
  · split
    · omega
    · omega

theorem ofTurn_add_quarterStep {p q : AbPins} {m : ℤ} (hp : ofTurn m = p) (h : Adjacent p q) :
    ofTurn (m + p.quarterStep q) = q := by
  have hpos : m % 4 = p.position := by rw [← hp, position_ofTurn]
  have hmod := quarterStep_modEq h
  have hq : (ofTurn (m + p.quarterStep q)).position = q.position := by
    have hrange : 0 ≤ q.position ∧ q.position < 4 := by
      rcases q with ⟨_ | _, _ | _⟩ <;> decide
    rw [position_ofTurn]
    unfold Int.ModEq at hmod
    omega
  exact position_injective hq

/-- A wheel turned through these positions, seen at each of them; from one to the next it turned by a
quarter step at most. -/
structure Turned (turns : List ℤ) (seen : List AbPins) : Prop where
  seen : turns.map ofTurn = seen
  smooth : turns.IsChain fun m n => (n - m).natAbs ≤ 1

theorem exists_turned {p : AbPins} {ps : List AbPins} {m : ℤ} (hp : ofTurn m = p)
    (h : (p :: ps).IsChain Adjacent) : ∃ turns, Turned (m :: turns) (p :: ps) := by
  induction ps generalizing p m with
  | nil => exact ⟨[], by rw [← hp]; rfl, List.isChain_singleton m⟩
  | cons q ps ih =>
    rw [List.isChain_cons_cons] at h
    obtain ⟨turns, hturns⟩ := ih (ofTurn_add_quarterStep hp h.1) h.2
    refine ⟨(m + p.quarterStep q) :: turns, ?_, ?_⟩
    · rw [List.map_cons, hp, hturns.seen]
    · refine List.isChain_cons_cons.mpr ⟨?_, hturns.smooth⟩
      have hle := natAbs_quarterStep_le p q
      omega

theorem Turned.total_eq {m : ℤ} {turns : List ℤ} {seen : List AbPins}
    (h : Turned (m :: turns) seen) :
    Winding.total quarterStep seen =
      (m :: turns).getLast (List.cons_ne_nil m turns) - m := by
  rw [← h.seen, Winding.total_map]
  exact Winding.total_eq_sub id (fun _ _ => quarterStep_ofTurn) h.smooth

end AbPins

/-! ## What the interrupt handler counts -/

namespace Encoder

open Winding AbPins

/-- The sign of a quarter step in the count. -/
def sign (e : Encoder) : ℤ := if e.reversed then -1 else 1

theorem index_lt {e : Encoder} {p : AbPins} (hlast : e.lastState = readState p) (q : AbPins) :
    (e.index q).toNat < 16 := by
  unfold index
  rw [hlast]
  rcases p with ⟨_ | _, _ | _⟩ <;> rcases q with ⟨_ | _, _ | _⟩ <;> decide

theorem decodeTable_eq (p q : AbPins) :
    decodeTable.get ⟨(((readState p <<< 2) ||| readState q) &&& 0x0F).toNat, masked_lt _⟩ =
      Int8.ofInt (p.quarterStep q) := by
  rcases p with ⟨_ | _, _ | _⟩ <;> rcases q with ⟨_ | _, _ | _⟩ <;> decide

theorem irq_eq {e : Encoder} {p : AbPins} (hen : e.enabled = true)
    (hlast : e.lastState = readState p) (q : AbPins) :
    e.irq q = { e with
      lastState := readState q
      count := e.count + Int32.ofInt (e.sign * p.quarterStep q) } := by
  have htable := decodeTable_eq p q
  simp only [irq, index, hen, hlast, Bool.not_true, Bool.false_eq_true, if_false, htable, sign]
  have hstep : p.quarterStep q = 0 ∨ p.quarterStep q = 1 ∨ p.quarterStep q = -1 := by
    have hle := natAbs_quarterStep_le p q
    omega
  rcases hstep with h | h | h <;> rw [h] <;> cases e.reversed <;> simp

theorem enable_restarts (e : Encoder) (pins : AbPins) (calls : PinIrqCalls) :
    (e.enable pins calls).1.lastState = readState pins ∧ (e.enable pins calls).1.count = 0 := by
  have hattach : ∀ e' : Encoder, (e'.attachIrqs calls).1.lastState = e'.lastState ∧
      (e'.attachIrqs calls).1.count = e'.count := by
    intro e'
    unfold attachIrqs
    split_ifs <;> exact ⟨rfl, rfl⟩
  have hinit := hattach (e.deviceInit pins)
  unfold enable
  revert hinit
  rcases (e.deviceInit pins).attachIrqs calls with ⟨e', result⟩
  intro hinit
  by_cases hresult : result ≠ RT_EOK
  · simp only [if_pos hresult]
    exact hinit
  · simp only [if_neg hresult]
    exact hinit

theorem enableRest_cases (e : Encoder) (calls : PinIrqCalls) :
    (e.enableRest calls).1 = e ∨ (e.enableRest calls).1 = e.disable := by
  unfold enableRest
  by_cases hresult : enableIrqs calls ≠ RT_EOK
  · simp only [if_pos hresult]
    exact .inr rfl
  · rw [if_neg hresult]
    exact .inl rfl

end Encoder

namespace Counter

open Winding AbPins Encoder

/-- The count is the sum of the quarter steps between the states seen. -/
structure Counted (s : Counter) : Prop where
  off : s.seen = [] → s.dev.enabled = false
  last : ∀ xs p, s.seen = xs ++ [p] → s.dev.lastState = readState p
  count : s.dev.count = Int32.ofInt (s.dev.sign * total quarterStep s.seen)

theorem Counted.restart {e : Encoder} {pins : AbPins} (hlast : e.lastState = readState pins)
    (hcount : e.count = 0) : Counted ⟨e, [pins]⟩ := by
  refine ⟨?_, ?_, ?_⟩
  · intro h
    exact absurd h (List.cons_ne_nil _ _)
  · intro xs p h
    obtain ⟨-, rfl⟩ : xs = [] ∧ p = pins := by simpa using List.append_eq_singleton_iff.mp h.symm
    exact hlast
  · simp [hcount]

theorem Counted.irq {s : Counter} (h : Counted s) (pins : AbPins) :
    Counted ⟨s.dev.irq pins, if s.dev.enabled then s.seen ++ [pins] else s.seen⟩ := by
  cases hen : s.dev.enabled with
  | false =>
    have hdev : s.dev.irq pins = s.dev := by simp [Encoder.irq, hen]
    rw [hdev]
    exact h
  | true =>
    rcases List.eq_nil_or_concat s.seen with hnil | ⟨xs, p, hseen⟩
    · have hoff := h.off hnil
      rw [hen] at hoff
      cases hoff
    · have hseen' : s.seen = xs ++ [p] := by rw [hseen, List.concat_eq_append]
      have hcount := h.count
      rw [irq_eq hen (h.last xs p hseen') pins]
      simp only [if_true]
      refine ⟨?_, ?_, ?_⟩
      · intro hnil
        exact absurd hnil (by simp)
      · intro ys q hq
        obtain ⟨-, rfl⟩ : s.seen = ys ∧ pins = q := by simpa using List.append_inj' hq rfl
        rfl
      · rw [hseen'] at hcount ⊢
        show s.dev.count + _ = Int32.ofInt (s.dev.sign * _)
        rw [total_snoc, hcount, Int.mul_add, Int32.ofInt_add]

theorem counted {s : Counter} (h : machine.Reach Machine.free s) : Counted s := by
  refine h.inv ?_ ?_
  · rintro s ⟨reversed, rfl⟩
    exact ⟨fun _ => rfl, fun xs p hp => absurd hp (by simp), by simp [registered]⟩
  · intro s i t _ hs _ hstep
    cases i with
    | irq pins =>
      cases hstep
      exact hs.irq pins
    | deviceInit pins =>
      cases hstep
      exact .restart rfl rfl
    | clearCount pins =>
      cases hstep
      exact .restart rfl rfl
    | enable pins calls =>
      cases hstep
      obtain ⟨hlast, hcount⟩ := enable_restarts s.dev pins calls
      exact .restart hlast hcount
    | enableRest calls =>
      cases hstep
      rcases enableRest_cases s.dev calls with hdev | hdev
      · rw [hdev]
        exact hs
      · rw [hdev]
        exact ⟨fun _ => rfl, hs.last, hs.count⟩
    | disable =>
      cases hstep
      exact ⟨fun _ => rfl, hs.last, hs.count⟩

theorem toInt_ofInt_modEq {m : ℤ} (hm : m ∣ 4294967296) (n : ℤ) :
    (Int32.ofInt n).toInt ≡ n [ZMOD m] := by
  rw [Int32.toInt_ofInt]
  have hdvd : (4294967296 : ℤ) ∣ n.bmod 4294967296 - n := Int.dvd_bmod_sub_self
  exact (Int.modEq_iff_dvd.mpr (hm.trans hdvd)).symm

/-- What an encoder counts from a state `p` on, whatever calls and interrupts follow. The index is in
the table, and modulo 2 the count is the change of the place in the cycle. Where no interrupt saw
both pins changed, the count is the number of quarter steps, negated when reversed, and so that of
any wheel that shows these states; modulo 4 it is the change of the place in the cycle, and a way
back takes it to 0. -/
theorem count_net_rotation {s : Counter} (h : machine.Reach Machine.free s) {p : AbPins}
    {ps : List AbPins} (hseen : s.seen = p :: ps) :
    let q := (p :: ps).getLast (List.cons_ne_nil p ps)
    (∀ pins, (s.dev.index pins).toNat < 16) ∧
    s.dev.getCount.toInt ≡ q.position - p.position [ZMOD 2] ∧
    ((p :: ps).IsChain Adjacent →
      s.dev.getCount = Int32.ofInt (s.dev.sign * total quarterStep (p :: ps)) ∧
      (∃ turns, Turned turns (p :: ps)) ∧
      (∀ m turns, Turned (m :: turns) (p :: ps) → s.dev.getCount =
        Int32.ofInt (s.dev.sign * ((m :: turns).getLast (List.cons_ne_nil m turns) - m))) ∧
      s.dev.getCount.toInt ≡ s.dev.sign * (q.position - p.position) [ZMOD 4] ∧
      ∀ xs, p :: ps = xs ++ xs.reverse ∨ p :: ps = xs ++ xs.reverse.tail →
        s.dev.getCount = 0) := by
  intro q
  obtain ⟨-, hlast, hcount⟩ := counted h
  rw [hseen] at hlast hcount
  have hinit : p :: ps = (p :: ps).dropLast ++ [q] := (List.dropLast_append_getLast _).symm
  have hsign : s.dev.sign = 1 ∨ s.dev.sign = -1 := by
    unfold sign
    cases s.dev.reversed
    · exact .inl rfl
    · exact .inr rfl
  refine ⟨index_lt (hlast _ _ hinit), ?_, fun hchain => ⟨hcount, ?_, ?_, ?_, ?_⟩⟩
  · -- modulo 2 the sign does not matter
    have htotal : total quarterStep (p :: ps) ≡ q.position - p.position [ZMOD 2] :=
      total_modEq (r := fun _ _ => True) (fun a b _ => quarterStep_modEq_two a b)
        (List.pairwise_of_forall fun _ _ => trivial).isChain
    have hword := toInt_ofInt_modEq (m := 2) (by decide) (s.dev.sign * total quarterStep (p :: ps))
    rw [← hcount] at hword
    refine hword.trans ?_
    unfold Int.ModEq at htotal ⊢
    rcases hsign with hs | hs <;> rw [hs] <;> omega
  · have hrange : 0 ≤ p.position ∧ p.position < 4 := by
      rcases p with ⟨_ | _, _ | _⟩ <;> decide
    have hfirst : ofTurn p.position = p := by
      apply position_injective
      rw [position_ofTurn]
      omega
    obtain ⟨turns, hturns⟩ := exists_turned hfirst hchain
    exact ⟨_, hturns⟩
  · intro m turns hturns
    show s.dev.count = _
    rw [hcount, hturns.total_eq]
  · have htotal : total quarterStep (p :: ps) ≡ q.position - p.position [ZMOD 4] :=
      total_modEq (fun _ _ => quarterStep_modEq) hchain
    have hword := toInt_ofInt_modEq (m := 4) (by decide) (s.dev.sign * total quarterStep (p :: ps))
    rw [← hcount] at hword
    exact hword.trans (htotal.mul_left _)
  · intro xs hxs
    obtain ⟨hboth, honce⟩ := total_there_and_back quarterStep_anti xs
    have hzero : total quarterStep (p :: ps) = 0 := by
      rcases hxs with hxs | hxs
      · rw [hxs, hboth]
      · rw [hxs, honce]
    show s.dev.count = 0
    rw [hcount, hzero, Int.mul_zero]
    rfl

/-- A wheel goes forward by two quarter steps and back. -/
theorem count_net_rotation_back : ∃ s, machine.Reach Machine.free s ∧
    s.seen = [⟨false, false⟩, ⟨true, false⟩, ⟨true, true⟩, ⟨true, false⟩, ⟨false, false⟩] ∧
    s.dev.enabled = true ∧ s.dev.getCount = 0 := by
  have hreach := Machine.Reach.of_exec (M := machine) ⟨true, rfl⟩ (show machine.exec _
    [.enable ⟨false, false⟩ ⟨0, 0, 0, 0⟩, .enableRest ⟨0, 0, 0, 0⟩, .irq ⟨true, false⟩,
      .irq ⟨true, true⟩, .irq ⟨true, false⟩, .irq ⟨false, false⟩] = some _ from rfl)
  obtain ⟨-, -, hsingle⟩ := count_net_rotation hreach rfl
  obtain ⟨-, -, -, -, hback⟩ := hsingle (by decide)
  exact ⟨_, hreach, rfl, rfl, hback [⟨false, false⟩, ⟨true, false⟩, ⟨true, true⟩] (.inr rfl)⟩

end Counter

end Hcics
