import Mathlib.Data.UInt
import Mathlib.Tactic.Common

/-!
# Two-wire buses

A master and a device share two open-drain lines. While SCL is high SDA is still, but for a start (SDA
falls) and a stop (SDA rises); a high period without one carries a bit. A `Device` reacts to a start
and a stop at once, and to a bit when SCL falls, so it moves SDA while SCL is low. `Lines` are the lines
as the master drives them.

A `Target` is a device byte by byte, and `Talk` a transfer with one. `slave` is the device that shifts
the bits of a target: `write_bits`, `read_bits` and `ack_bit` are that nine clocks are a byte of the
`Talk`. `Registers` are the most common targets: the first byte written names a register, and those after
it, or those read, go on from there.
-/

universe u

namespace TwoWire

/-- What a device sees on the lines. -/
inductive Event where
  | start
  | stop
  | bit (b : Bool)
  deriving DecidableEq, Repr

/-- A device: the level to which it leaves SDA, where `true` is released, and its reactions. It does
not hold SDA right after a start or a stop. -/
structure Device (σ : Type u) where
  sda : σ → Bool
  react : σ → Event → σ
  start_released : ∀ s, sda (react s .start) = true
  stop_released : ∀ s, sda (react s .stop) = true

/-- The level of SCL, what the master puts on SDA, whether there was a start or a stop since SCL rose,
and the device. -/
structure Lines (σ : Type u) where
  scl : Bool
  out : Bool
  marked : Bool
  dev : σ
  deriving DecidableEq, Repr

section Lines

variable {σ : Type u} (D : Device σ)

/-- The level of SDA. -/
def level (l : Lines σ) : Bool := l.out && D.sda l.dev

def setSda (b : Bool) (l : Lines σ) : Lines σ :=
  let l' := { l with out := b }
  if l.scl = true ∧ level D l ≠ level D l' then
    { l' with marked := true, dev := D.react l.dev (if level D l' then .stop else .start) }
  else l'

def rise (l : Lines σ) : Lines σ := if l.scl then l else { l with scl := true, marked := false }

def fall (l : Lines σ) : Lines σ :=
  if l.scl then
    if l.marked then { l with scl := false }
    else { l with scl := false, dev := D.react l.dev (.bit (level D l)) }
  else l

/-- The device after a clock with `b` on the master's side. -/
def clock (s : σ) (b : Bool) : σ := D.react s (.bit (b && D.sda s))

variable {D} {l : Lines σ} {b out marked : Bool} {s : σ}

@[simp] theorem setSda_low : setSda D b ⟨false, out, marked, s⟩ = ⟨false, b, marked, s⟩ := rfl

@[simp] theorem rise_low : rise ⟨false, out, marked, s⟩ = ⟨true, out, false, s⟩ := rfl

@[simp] theorem fall_low : fall D ⟨false, out, marked, s⟩ = ⟨false, out, marked, s⟩ := rfl

@[simp] theorem fall_high : fall D ⟨true, out, false, s⟩ = ⟨false, out, false, clock D s out⟩ := rfl

theorem setSda_start (h : D.sda s = true) :
    setSda D false ⟨true, true, marked, s⟩ = ⟨true, false, true, D.react s .start⟩ := by
  simp [setSda, level, h]

theorem setSda_stop (h : D.sda s = true) :
    setSda D true ⟨true, false, marked, s⟩ = ⟨true, true, true, D.react s .stop⟩ := by
  simp [setSda, level, h]

end Lines

/-! ## Bytes -/

/-- The bits of a byte, the highest first. -/
def msbBits (b : UInt8) : List Bool := [7, 6, 5, 4, 3, 2, 1, 0].map b.toBitVec.getLsbD

/-- A byte with another bit shifted in. -/
def shiftIn (acc : UInt8) (b : Bool) : UInt8 := (acc <<< 1) ||| (if b then 1 else 0)

theorem getLsbD_shiftIn (acc : UInt8) (b : Bool) {i : ℕ} (h : i < 8) :
    (shiftIn acc b).toBitVec.getLsbD i = if i = 0 then b else acc.toBitVec.getLsbD (i - 1) := by
  unfold shiftIn
  cases i with
  | zero => cases b <;> simp
  | succ i => cases b <;> simp [h, BitVec.getLsbD_eq_getElem (show i < 8 by omega)]

theorem foldl_shiftIn (acc b : UInt8) : (msbBits b).foldl shiftIn acc = b := by
  apply UInt8.eq_of_toBitVec_eq
  apply BitVec.eq_of_getLsbD_eq
  intro i hi
  have hcases : i = 0 ∨ i = 1 ∨ i = 2 ∨ i = 3 ∨ i = 4 ∨ i = 5 ∨ i = 6 ∨ i = 7 := by omega
  rcases hcases with rfl | rfl | rfl | rfl | rfl | rfl | rfl | rfl <;>
    simp only [msbBits, List.map_cons, List.map_nil, List.foldl_cons, List.foldl_nil, getLsbD_shiftIn,
      Nat.reduceLT, Nat.reduceEqDiff, Nat.reduceSub, if_true, if_false]

/-! ## Devices byte by byte -/

/-- A device byte by byte: what it does with the byte after a start and with another one, where the
result says whether it acknowledges; the byte it gives, and what it does once the byte is taken, where
the result says whether the master wants another; and what it does at a stop. -/
structure Target (ρ : Type u) where
  address : ρ → UInt8 → ρ × Bool
  receive : ρ → UInt8 → ρ × Bool
  send : ρ → UInt8
  sent : ρ → Bool → ρ
  stop : ρ → ρ

/-- What a target expects: nothing until the next start, a byte with an address, a byte of data, to
give a byte, or the acknowledgement of the byte given. -/
inductive Mode where
  | off | addressing | receiving | sending | sent
  deriving DecidableEq, Repr

/-- A target in a transfer. -/
structure Talk (ρ : Type u) where
  mode : Mode
  mem : ρ
  deriving DecidableEq, Repr

/-- The lowest bit of an address asks to read. -/
def Mode.addressed (b : UInt8) : Mode := if b.toBitVec.getLsbD 0 then .sending else .receiving

section Talk

variable {ρ : Type u} (T : Target ρ)

namespace Talk

def start (t : Talk ρ) : Talk ρ := ⟨.addressing, t.mem⟩

def stop (t : Talk ρ) : Talk ρ := ⟨.off, T.stop t.mem⟩

/-- The master writes a byte; the result is whether it is acknowledged. -/
def write (t : Talk ρ) (b : UInt8) : Talk ρ × Bool :=
  match t.mode with
  | .addressing =>
    let (mem, ack) := T.address t.mem b
    (⟨if ack then .addressed b else .off, mem⟩, ack)
  | .receiving =>
    let (mem, ack) := T.receive t.mem b
    (⟨if ack then .receiving else .off, mem⟩, ack)
  | _ => (t, false)

def read (t : Talk ρ) : Talk ρ × UInt8 :=
  match t.mode with
  | .sending => (⟨.sent, t.mem⟩, T.send t.mem)
  | _ => (t, 0xFF)

/-- The master says whether it wants another byte. -/
def ack (t : Talk ρ) (more : Bool) : Talk ρ :=
  match t.mode with
  | .sent => ⟨if more then .sending else .off, T.sent t.mem more⟩
  | _ => t

end Talk

/-! ## The device that shifts the bits -/

/-- Where the device is in a byte: in none, after `count` bits of one that it receives, about to end an
acknowledgement, with `b` on SDA and `rest` to follow, or before an acknowledgement. -/
inductive Phase where
  | off
  | bits (addressing : Bool) (count : ℕ) (acc : UInt8)
  | ack (next : Mode)
  | sending (b : Bool) (rest : List Bool)
  | sent
  deriving DecidableEq, Repr

/-- A device that shifts the bits of a target. -/
structure Slave (ρ : Type u) where
  phase : Phase
  mem : ρ
  deriving DecidableEq, Repr

/-- The phase in which a byte begins. -/
def Talk.phase (t : Talk ρ) : Phase :=
  match t.mode with
  | .off => .off
  | .addressing => .bits true 0 0
  | .receiving => .bits false 0 0
  | .sending =>
    match msbBits (T.send t.mem) with
    | b :: rest => .sending b rest
    | [] => .off
  | .sent => .sent

def Talk.slave (t : Talk ρ) : Slave ρ := ⟨t.phase T, t.mem⟩

/-- The eighth bit of a byte that is received. -/
def Slave.received (s : Slave ρ) (addressing : Bool) (b : UInt8) : Slave ρ :=
  let (mem, ack) := if addressing then T.address s.mem b else T.receive s.mem b
  ⟨if ack then .ack (if addressing then .addressed b else .receiving) else .off, mem⟩

/-- A bit that the device sees. -/
def Slave.bit (s : Slave ρ) (b : Bool) : Slave ρ :=
  match s.phase with
  | .off => s
  | .bits addressing count acc =>
    if count + 1 < 8 then { s with phase := .bits addressing (count + 1) (shiftIn acc b) }
    else s.received T addressing (shiftIn acc b)
  | .ack next => (Talk.mk next s.mem).slave T
  | .sending _ (b :: rest) => { s with phase := .sending b rest }
  | .sending _ [] => { s with phase := .sent }
  | .sent => ((Talk.mk .sent s.mem).ack T (!b)).slave T

/-- The level to which the device leaves SDA. -/
def Slave.sda (s : Slave ρ) : Bool :=
  match s.phase with
  | .ack _ => false
  | .sending b _ => b
  | _ => true

/-- The device that shifts the bits of `T`. -/
def slave : Device (Slave ρ) where
  sda := Slave.sda
  react s e :=
    match e with
    | .start => (Talk.start ⟨.off, s.mem⟩).slave T
    | .stop => (Talk.stop T ⟨.off, s.mem⟩).slave T
    | .bit b => s.bit T b
  start_released _ := rfl
  stop_released _ := rfl

/-! ## Nine clocks are a byte -/

variable {T} {t : Talk ρ} {m : ρ}

@[simp] theorem slave_react_start (t : Talk ρ) : (slave T).react (t.slave T) .start = t.start.slave T := rfl

@[simp] theorem slave_react_stop (t : Talk ρ) : (slave T).react (t.slave T) .stop = (t.stop T).slave T := rfl

theorem slave_sda (h : t.mode ≠ .sending) : (slave T).sda (t.slave T) = true := by
  obtain ⟨mode, mem⟩ := t
  cases mode <;> first | rfl | exact absurd rfl h

theorem foldl_bits {bits : List Bool} {addressing : Bool} {count : ℕ} {acc : UInt8}
    (h : count + bits.length < 8) :
    bits.foldl (clock (slave T)) ⟨.bits addressing count acc, m⟩ =
      ⟨.bits addressing (count + bits.length) (bits.foldl shiftIn acc), m⟩ := by
  induction bits generalizing count acc with
  | nil => rfl
  | cons b bits ih =>
    rw [List.length_cons] at h
    have hclock : clock (slave T) ⟨.bits addressing count acc, m⟩ b =
        ⟨.bits addressing (count + 1) (shiftIn acc b), m⟩ := by
      simp [clock, slave, Slave.sda, Slave.bit, show count + 1 < 8 by omega]
    rw [List.foldl_cons, hclock, ih (by omega), List.length_cons, List.foldl_cons]
    congr 2
    omega

theorem foldl_received (addressing : Bool) (b : UInt8) :
    (msbBits b).foldl (clock (slave T)) ⟨.bits addressing 0 0, m⟩ =
      Slave.received T ⟨.off, m⟩ addressing b := by
  have hsplit : msbBits b = (msbBits b).take 7 ++ [b.toBitVec.getLsbD 0] := rfl
  have hseven : 0 + ((msbBits b).take 7).length < 8 := show 7 < 8 by decide
  have hlast : shiftIn (((msbBits b).take 7).foldl shiftIn 0) (b.toBitVec.getLsbD 0) = b := by
    have hall := foldl_shiftIn 0 b
    rwa [hsplit, List.foldl_append] at hall
  rw [hsplit, List.foldl_append, foldl_bits hseven]
  show Slave.bit T ⟨.bits addressing 7 _, m⟩ (b.toBitVec.getLsbD 0 && true) = _
  rw [Bool.and_true, Slave.bit]
  simp only [Nat.reduceAdd, Nat.lt_irrefl, if_false, hlast]
  rfl

theorem foldl_off (bits : List Bool) :
    bits.foldl (clock (slave T)) ⟨.off, m⟩ = ⟨.off, m⟩ := by
  induction bits with
  | nil => rfl
  | cons b bits ih => exact ih

/-- **Nine clocks write a byte.** The device acknowledges it by SDA in the ninth. -/
theorem write_bits (h : t.mode = .off ∨ t.mode = .addressing ∨ t.mode = .receiving) (b : UInt8) :
    (slave T).sda ((msbBits b).foldl (clock (slave T)) (t.slave T)) = !(t.write T b).2 ∧
      clock (slave T) ((msbBits b).foldl (clock (slave T)) (t.slave T)) true =
        (t.write T b).1.slave T := by
  obtain ⟨mode, mem⟩ := t
  rcases h with rfl | rfl | rfl
  · rw [Talk.slave, Talk.phase, foldl_off]
    exact ⟨rfl, rfl⟩
  · rw [Talk.slave, Talk.phase, foldl_received]
    simp only [Slave.received, Talk.write, if_true]
    cases (T.address mem b).2 <;> exact ⟨rfl, rfl⟩
  · rw [Talk.slave, Talk.phase, foldl_received]
    simp only [Slave.received, Talk.write, Bool.false_eq_true, if_false]
    cases (T.receive mem b).2 <;> exact ⟨rfl, rfl⟩

/-- The levels of SDA in some clocks with SDA released by the master, and the device after them. -/
def sample {σ : Type u} (D : Device σ) (s : σ) : ℕ → List Bool × σ
  | 0 => ([], s)
  | n + 1 =>
    let (levels, s') := sample D (clock D s true) n
    (D.sda s :: levels, s')

theorem sample_sending (b : Bool) (rest : List Bool) :
    sample (slave T) ⟨.sending b rest, m⟩ (rest.length + 1) = (b :: rest, ⟨.sent, m⟩) := by
  induction rest generalizing b with
  | nil => rfl
  | cons c rest ih =>
    rw [List.length_cons, sample]
    show (b :: (sample (slave T) ⟨.sending c rest, m⟩ (rest.length + 1)).1,
      (sample (slave T) ⟨.sending c rest, m⟩ (rest.length + 1)).2) = _
    rw [ih]

/-- **Eight clocks read a byte.** -/
theorem read_bits (h : t.mode = .off ∨ t.mode = .sending) :
    sample (slave T) (t.slave T) 8 = (msbBits (t.read T).2, (t.read T).1.slave T) := by
  obtain ⟨mode, mem⟩ := t
  rcases h with rfl | rfl
  · show (List.replicate 8 true, (⟨.off, mem⟩ : Slave ρ)) = (msbBits 0xFF, ⟨.off, mem⟩)
    rw [show msbBits 0xFF = List.replicate 8 true by decide]
  · exact sample_sending _ _

/-- **The ninth says whether another byte is wanted.** -/
theorem ack_bit (h : t.mode = .off ∨ t.mode = .sent) (more : Bool) :
    clock (slave T) (t.slave T) (!more) = (t.ack T more).slave T := by
  obtain ⟨mode, mem⟩ := t
  rcases h with rfl | rfl
  · rfl
  · show ((Talk.mk .sent mem).ack T (!(!more && true))).slave T = _
    rw [Bool.and_true, Bool.not_not]

end Talk

/-! ## Registers -/

/-- What a device does when a register is written, what a register holds, and what the device does when
it has been read. -/
structure Registers (μ : Type u) where
  write : μ → UInt8 → UInt8 → μ
  peek : μ → UInt8 → UInt8
  took : μ → UInt8 → μ

namespace Registers

variable {μ : Type u} (R : Registers μ)

def writeAll (mem : μ) (reg : UInt8) : List UInt8 → μ
  | [] => mem
  | b :: bs => writeAll (R.write mem reg b) (reg + 1) bs

/-- The bytes of a register and those after it, and the device that has been read. -/
def readAll (mem : μ) (reg : UInt8) : ℕ → List UInt8 × μ
  | 0 => ([], mem)
  | n + 1 =>
    let (bs, mem') := readAll (R.took mem reg) (reg + 1) n
    (R.peek mem reg :: bs, mem')

@[simp] theorem length_readAll (mem : μ) (reg : UInt8) (n : ℕ) : (R.readAll mem reg n).1.length = n := by
  induction n generalizing mem reg with
  | zero => rfl
  | succ n ih => rw [readAll, List.length_cons, ih]

/-- The device with the register that comes next, and whether the next byte names one. -/
structure Access (μ : Type u) where
  mem : μ
  next : UInt8
  naming : Bool
  deriving DecidableEq, Repr

/-- The device at an address of seven bits. -/
def target (address : UInt8) : Target (Access μ) where
  address s b :=
    if b >>> 1 = address then ({ s with naming := s.naming || !b.toBitVec.getLsbD 0 }, true) else (s, false)
  receive s b :=
    if s.naming then ({ s with next := b, naming := false }, true)
    else (⟨R.write s.mem s.next b, s.next + 1, false⟩, true)
  send s := R.peek s.mem s.next
  sent s _ := { s with mem := R.took s.mem s.next, next := s.next + 1 }
  stop s := s

end Registers

end TwoWire
