import Hcics.Basic
import Hcics.Driver.Delay
import Hcics.Lib.Serial
import Mathlib.Algebra.Order.Field.Rat
import Mathlib.Data.NNRat.Defs
import Mathlib.Tactic.FieldSimp
import Mathlib.Tactic.Ring

/-!
# The software UART of the axis

`hcics_axis.c` has no UART of its own: it writes the bits of a byte to a pin and waits between them,
for any `HCICS_AXIS_SOFT_BAUD` from 1 to 500000. A bit lasts a whole number of microseconds, and what
a bit is too short is carried on to the next. Pin writes take no time, and `rt_hw_us_delay` lasts as
long as it says; from 2500 baud on it does, and until the next reading of the timer
(`softDelayBit_lasts`).

`softDelayBit_spec` says what one bit does to the clock and the remainder, `dataBits_spec` where a
bit of a byte ends, and `line_carries` that the line carries the bytes written to it.
-/

namespace Hcics

namespace Axis

open Serial

/-- The pin of the software UART, with the time in microseconds. -/
abbrev TxPin := Wave ℚ

/-- `rt_hw_us_delay`. -/
def usDelay (pin : TxPin) (us : UInt32) : TxPin := pin.delay us.toNat

/-- `hcics_axis_soft_delay_bit`, with the accumulator it returns. -/
def softDelayBit (baud : UInt32) (pin : TxPin) (acc : UInt32) : TxPin × UInt32 :=
  let acc := acc + 1000000
  let delayUs := acc / baud
  let acc := acc - delayUs * baud
  let delayUs := if delayUs = 0 then 1 else delayUs
  (usDelay pin delayUs, acc)

def startBit (baud : UInt32) (pin : TxPin) : TxPin × UInt32 :=
  softDelayBit baud (pin.write false) 0

/-- The first rounds of its loop, with the byte shifted as it is then. -/
def dataBits (baud : UInt32) (pin : TxPin) (byte : UInt8) : Nat → (TxPin × UInt32) × UInt8
  | 0 => (startBit baud pin, byte)
  | bit + 1 =>
    let ((pin, acc), byte) := dataBits baud pin byte bit
    (softDelayBit baud (pin.write (byte &&& 0x01 ≠ 0)) acc, byte >>> 1)

def softWriteByte (baud : UInt32) (pin : TxPin) (byte : UInt8) : TxPin :=
  let ((pin, acc), _) := dataBits baud pin byte 8
  (softDelayBit baud (pin.write true) acc).1

def writeLocked (baud : UInt32) (pin : TxPin) (frame : List UInt8) : TxPin × RtErr :=
  if frame = [] then (pin, -RT_EINVAL)
  else (frame.foldl (softWriteByte baud) pin, RT_EOK)

/-- The pin after `hcics_axis_init` has set it high and waited for 2 ms. -/
def idlePin (now : ℚ) : TxPin := usDelay (Wave.write ⟨now, []⟩ true) 2000

/-- Calls of `hcics_axis_write_locked`, each with the time that passes before it. -/
def writes (baud : UInt32) (pin : TxPin) : List (ℚ≥0 × List UInt8) → TxPin
  | [] => pin
  | (gap, frame) :: calls => writes baud (writeLocked baud (pin.delay gap) frame).1 calls

/-- The length of a bit in microseconds, unrounded. -/
def bitUs (baud : UInt32) : ℚ := 1000000 / baud.toNat

theorem lowBit_eq {shifted byte : UInt8} {bit : ℕ} (h : shifted.toNat = byte.toNat >>> bit) :
    decide (shifted &&& 0x01 ≠ 0) = byte.toBitVec.getLsbD bit := by
  have hlow : decide (shifted &&& 0x01 ≠ 0) = shifted.toNat.testBit 0 := by
    rw [Nat.testBit_zero, Bool.eq_iff_iff, decide_eq_true_iff, decide_eq_true_iff, ne_eq,
      ← UInt8.toNat_inj, UInt8.toNat_and]
    show ¬ shifted.toNat &&& 1 = 0 ↔ _
    rw [Nat.and_one_is_mod]
    omega
  rw [hlow, h, Nat.testBit_shiftRight, Nat.add_zero]
  rfl

/-! ## Bit times -/

section Bits

variable {baud : UInt32} (hlo : 1 ≤ baud.toNat) (hhi : baud.toNat ≤ 500000)
include hlo hhi

/-- One bit: what is left of the microseconds is carried on, and no bit is lost to rounding. -/
theorem softDelayBit_spec {acc : UInt32} (hacc : acc.toNat < baud.toNat) (pin : TxPin) :
    (softDelayBit baud pin acc).1 = pin.delay (((acc.toNat + 1000000) / baud.toNat : ℕ) : ℚ) ∧
    (softDelayBit baud pin acc).2.toNat = (acc.toNat + 1000000) % baud.toNat := by
  have hsum : (acc + 1000000).toNat = acc.toNat + 1000000 := by
    rw [UInt32.toNat_add, Nat.mod_eq_of_lt]
    · rfl
    · show acc.toNat + 1000000 < 2 ^ 32
      omega
  have hdiv : ((acc + 1000000) / baud).toNat = (acc.toNat + 1000000) / baud.toNat := by
    rw [UInt32.toNat_div, hsum]
  have hpos : 0 < (acc.toNat + 1000000) / baud.toNat :=
    Nat.div_pos (by omega) (by omega)
  have hne : ¬ (acc + 1000000) / baud = 0 := by
    intro hzero
    rw [hzero] at hdiv
    simp at hdiv
    omega
  have hle : (acc.toNat + 1000000) / baud.toNat * baud.toNat ≤ acc.toNat + 1000000 :=
    Nat.div_mul_le_self _ _
  have hmul : ((acc + 1000000) / baud * baud).toNat =
      (acc.toNat + 1000000) / baud.toNat * baud.toNat := by
    rw [UInt32.toNat_mul, hdiv, Nat.mod_eq_of_lt]
    show _ < 2 ^ 32
    omega
  constructor
  · simp only [softDelayBit, if_neg hne, usDelay, hdiv]
  · simp only [softDelayBit]
    rw [UInt32.toNat_sub_of_le, hmul, hsum]
    · have := Nat.div_add_mod (acc.toNat + 1000000) baud.toNat
      rw [Nat.mul_comm] at this
      omega
    · rw [UInt32.le_iff_toNat_le, hmul, hsum]
      exact hle

/-- What the accumulator carries: after a bit that ends at `x` over the baud rate, the next one
ends a million further on. -/
theorem softDelayBit_carry {acc : UInt32} {x : ℕ} (hacc : acc.toNat = x % baud.toNat) (pin : TxPin) :
    ∃ d : ℕ, (softDelayBit baud pin acc).1 = pin.delay d ∧
      x / baud.toNat + d = (x + 1000000) / baud.toNat ∧
      (softDelayBit baud pin acc).2.toNat = (x + 1000000) % baud.toNat := by
  have hlt : acc.toNat < baud.toNat := by
    rw [hacc]
    exact Nat.mod_lt _ (by omega)
  obtain ⟨hpin, hrest⟩ := softDelayBit_spec hlo hhi hlt pin
  rw [hacc] at hpin hrest
  refine ⟨_, hpin, ?_, ?_⟩
  · have hsplit : x + 1000000 = baud.toNat * (x / baud.toNat) + (x % baud.toNat + 1000000) := by
      have := Nat.div_add_mod x baud.toNat
      omega
    conv_rhs => rw [hsplit, Nat.mul_add_div (by omega)]
  · rw [hrest, Nat.mod_add_mod]

/-- The start bit and the first data bits: where they end, what is carried on, and how far the byte
is shifted. -/
theorem dataBits_spec (pin : TxPin) (byte : UInt8) (bit : ℕ) :
    let r := dataBits baud pin byte bit
    r.1.1.now = pin.now + ((bit + 1) * 1000000 / baud.toNat : ℕ) ∧
    r.1.2.toNat = (bit + 1) * 1000000 % baud.toNat ∧
    r.2.toNat = byte.toNat >>> bit := by
  induction bit with
  | zero =>
    have hzero : (0 : UInt32).toNat = 0 % baud.toNat := by simp
    obtain ⟨d, hpin, hd, hrest⟩ := softDelayBit_carry hlo hhi hzero (pin.write false)
    rw [Nat.zero_div, Nat.zero_add] at hd
    refine ⟨?_, ?_, rfl⟩
    · show (softDelayBit baud (pin.write false) 0).1.now = _
      rw [hpin, hd]
      simp [Wave.delay, Wave.write]
    · show (softDelayBit baud (pin.write false) 0).2.toNat = _
      rw [hrest, Nat.zero_add, Nat.zero_add, Nat.one_mul]
  | succ bit ih =>
    obtain ⟨hnow, hacc, hbyte⟩ := ih
    rcases hr : dataBits baud pin byte bit with ⟨⟨p, acc⟩, shifted⟩
    rw [hr] at hnow hacc hbyte
    obtain ⟨d, hpin, hd, hrest⟩ := softDelayBit_carry hlo hhi hacc
      (p.write (shifted &&& 0x01 ≠ 0))
    have hnext : (bit + 1) * 1000000 + 1000000 = (bit + 1 + 1) * 1000000 := by omega
    rw [hnext] at hd hrest
    simp only [dataBits, hr]
    refine ⟨?_, hrest, ?_⟩
    · rw [hpin, ← hd]
      simp only [Wave.delay, Wave.write, Nat.cast_add] at hnow ⊢
      rw [hnow, add_assoc]
    · rw [UInt8.toNat_shiftRight, hbyte, ← Nat.shiftRight_add]
      rfl

theorem softDelayBit_extends {acc : UInt32} {x : ℕ} (hacc : acc.toNat = x % baud.toNat)
    (pin : TxPin) (bit : Bool) : pin.Extends (softDelayBit baud (pin.write bit) acc).1 := by
  obtain ⟨d, hpin, -, -⟩ := softDelayBit_carry hlo hhi hacc (pin.write bit)
  rw [hpin]
  exact (Wave.Extends.write pin bit).trans (Wave.Extends.delay _ (Nat.cast_nonneg d))

theorem softDelayBit_held {acc : UInt32} {x : ℕ} (hacc : acc.toNat = x % baud.toNat)
    {pin line : TxPin} {bit : Bool} (hline : (softDelayBit baud (pin.write bit) acc).1.Extends line)
    {t : ℚ} (hfrom : pin.now ≤ t) (huntil : t < (softDelayBit baud (pin.write bit) acc).1.now) :
    line.level t = bit := by
  obtain ⟨d, hpin, -, -⟩ := softDelayBit_carry hlo hhi hacc (pin.write bit)
  rw [hpin] at hline huntil
  exact hline.level_held hfrom huntil

theorem dataBits_extends (pin : TxPin) (byte : UInt8) {bit bit' : ℕ} (hle : bit ≤ bit') :
    (dataBits baud pin byte bit).1.1.Extends (dataBits baud pin byte bit').1.1 := by
  induction bit', hle using Nat.le_induction with
  | base => exact .refl _
  | succ n _ ih =>
    have hacc := (dataBits_spec hlo hhi pin byte n).2.1
    exact ih.trans (softDelayBit_extends hlo hhi hacc _ _)

theorem startBit_extends (pin : TxPin) (byte : UInt8) :
    pin.Extends (dataBits baud pin byte 0).1.1 :=
  softDelayBit_extends hlo hhi (x := 0) (by simp) pin false

theorem softWriteByte_extends (pin : TxPin) (byte : UInt8) :
    (dataBits baud pin byte 8).1.1.Extends (softWriteByte baud pin byte) :=
  softDelayBit_extends hlo hhi (dataBits_spec hlo hhi pin byte 8).2.1 _ true

theorem softWriteByte_now (pin : TxPin) (byte : UInt8) :
    (softWriteByte baud pin byte).now = pin.now + (10 * 1000000 / baud.toNat : ℕ) := by
  obtain ⟨hnow, hacc, -⟩ := dataBits_spec hlo hhi pin byte 8
  rcases hr : dataBits baud pin byte 8 with ⟨⟨p, acc⟩, shifted⟩
  rw [hr] at hnow hacc
  obtain ⟨d, hpin, hd, -⟩ := softDelayBit_carry hlo hhi hacc (p.write true)
  simp only [softWriteByte, hr]
  rw [hpin]
  simp only [Wave.delay, Wave.write] at hnow ⊢
  rw [hnow, add_assoc, ← Nat.cast_add, hd]

theorem byte_level {pin line : TxPin} {byte : UInt8}
    (hline : (softWriteByte baud pin byte).Extends line) {k : ℕ} (hk : k < 10) {t : ℚ}
    (hfrom : pin.now + (k * 1000000 / baud.toNat : ℕ) ≤ t)
    (huntil : t < pin.now + ((k + 1) * 1000000 / baud.toNat : ℕ)) :
    line.level t = Character.bit byte k := by
  have hend := (softWriteByte_extends hlo hhi pin byte).trans hline
  rcases k with _ | k
  · -- the start bit
    have hnow := (dataBits_spec hlo hhi pin byte 0).1
    have hzero : (0 : UInt32).toNat = 0 % baud.toNat := by simp
    have hwritten : (softDelayBit baud (pin.write false) 0).1.Extends line :=
      (dataBits_extends hlo hhi pin byte (Nat.zero_le 8)).trans hend
    refine softDelayBit_held hlo hhi hzero hwritten ?_ ?_
    · simpa using hfrom
    · show t < (dataBits baud pin byte 0).1.1.now
      rw [hnow]
      exact huntil
  · obtain ⟨hnow, hacc, hbyte⟩ := dataBits_spec hlo hhi pin byte k
    have hfrom' : (dataBits baud pin byte k).1.1.now ≤ t := by
      rw [hnow]
      exact hfrom
    by_cases hdata : k < 8
    · -- a data bit
      have hwritten : (softDelayBit baud ((dataBits baud pin byte k).1.1.write
          ((dataBits baud pin byte k).2 &&& 0x01 ≠ 0)) (dataBits baud pin byte k).1.2).1.Extends line :=
        (dataBits_extends hlo hhi pin byte (Nat.succ_le_of_lt hdata)).trans hend
      have hlevel := softDelayBit_held hlo hhi hacc hwritten hfrom' (by
          show t < (dataBits baud pin byte (k + 1)).1.1.now
          rw [(dataBits_spec hlo hhi pin byte (k + 1)).1]
          exact huntil)
      rw [hlevel, Character.bit, if_neg (by omega), if_pos (by omega), Nat.add_sub_cancel]
      exact lowBit_eq hbyte
    · -- the stop bit
      have hk8 : k = 8 := by omega
      subst hk8
      have hstop : (softDelayBit baud ((dataBits baud pin byte 8).1.1.write true)
        (dataBits baud pin byte 8).1.2).1.Extends line := hline
      have hlevel := softDelayBit_held hlo hhi hacc hstop hfrom' (by
        show t < (softWriteByte baud pin byte).now
        rw [softWriteByte_now hlo hhi]
        exact huntil)
      rw [hlevel]
      rfl

/-! ## What a receiver samples -/

/-- The middle of a bit lies in the bit as it is rounded: a bit is at least two microseconds long, and
its ends are less than one microsecond early. -/
theorem middle_in_bit (k : ℕ) :
    ((k * 1000000 / baud.toNat : ℕ) : ℚ) ≤ (k + 1 / 2) * bitUs baud ∧
    (k + 1 / 2) * bitUs baud < (((k + 1) * 1000000 / baud.toNat : ℕ) : ℚ) := by
  have hpos : (0 : ℚ) < baud.toNat := by exact_mod_cast hlo
  have hbit : bitUs baud * baud.toNat = 1000000 := by
    unfold bitUs
    field_simp
  have htwo : 2 ≤ bitUs baud := by
    unfold bitUs
    rw [le_div_iff₀ hpos]
    have hle : ((2 * baud.toNat : ℕ) : ℚ) ≤ (1000000 : ℕ) := by
      exact_mod_cast (by omega : 2 * baud.toNat ≤ 1000000)
    push_cast at hle
    exact hle
  constructor
  · have hcast : ((k * 1000000 / baud.toNat : ℕ) : ℚ) * baud.toNat ≤ k * 1000000 := by
      exact_mod_cast Nat.div_mul_le_self (k * 1000000) baud.toNat
    rw [← hbit, ← mul_assoc] at hcast
    have hfloor := le_of_mul_le_mul_right hcast hpos
    linarith
  · have hlt : (k + 1) * 1000000 < ((k + 1) * 1000000 / baud.toNat + 1) * baud.toNat :=
      (Nat.div_lt_iff_lt_mul (by omega)).mp (Nat.lt_succ_self _)
    have hcast : ((k : ℚ) + 1) * 1000000 <
        ((((k + 1) * 1000000 / baud.toNat : ℕ) : ℚ) + 1) * baud.toNat := by exact_mod_cast hlt
    rw [← hbit, ← mul_assoc] at hcast
    have hceil := lt_of_mul_lt_mul_right hcast hpos.le
    linarith

/-- The line of a pin is high from `s` on as far as it is written, and a receiver became ready at
`t`. -/
structure Ready (pin : TxPin) (s t : ℚ) : Prop where
  high : ∀ u, s ≤ u → pin.level u = true
  before : s < pin.now
  since : s ≤ t
  until_now : t ≤ pin.now

omit hlo hhi in
theorem Ready.gap {pin : TxPin} {s t g : ℚ} (h : Ready pin s t) (hg : 0 ≤ g) :
    Ready (pin.delay g) s t := by
  have hnow : pin.now ≤ (pin.delay g).now := le_add_of_nonneg_right hg
  exact ⟨h.high, h.before.trans_le hnow, h.since, h.until_now.trans hnow⟩

theorem softWriteByte_holds {pin line : TxPin} {s t : ℚ} {byte : UInt8} (h : Ready pin s t)
    (hline : (softWriteByte baud pin byte).Extends line) :
    Holds line.level (bitUs baud) pin.now byte := by
  have hpin : pin.Extends line :=
    ((startBit_extends hlo hhi pin byte).trans (dataBits_extends hlo hhi pin byte
      (Nat.zero_le 8))).trans ((softWriteByte_extends hlo hhi pin byte).trans hline)
  refine ⟨⟨?_, s, h.before, ?_⟩, ?_⟩
  · refine byte_level hlo hhi hline (k := 0) (by omega) (by simp) ?_
    exact lt_add_of_pos_right _ (Nat.cast_pos.mpr (Nat.div_pos (by omega) (by omega)))
  · intro u hsu hu
    rw [hpin.level hu]
    exact h.high u hsu
  · intro k hk
    obtain ⟨hge, hlt⟩ := middle_in_bit hlo hhi k
    exact byte_level hlo hhi hline hk (by linarith) (by linarith)

theorem softWriteByte_ready (pin : TxPin) (byte : UInt8) :
    Ready (softWriteByte baud pin byte) (pin.now + (9 * 1000000 / baud.toNat : ℕ))
      (pin.now + (9 + 1 / 2) * bitUs baud) := by
  obtain ⟨hnow, hacc, -⟩ := dataBits_spec hlo hhi pin byte 8
  obtain ⟨hge, hlt⟩ := middle_in_bit hlo hhi 9
  push_cast at hge hlt
  refine ⟨?_, ?_, ?_, ?_⟩
  · intro u hu
    rcases hr : dataBits baud pin byte 8 with ⟨⟨p, acc⟩, shifted⟩
    rw [hr] at hnow hacc
    obtain ⟨d, hpin, -, -⟩ := softDelayBit_carry hlo hhi hacc (p.write true)
    simp only [softWriteByte, hr]
    rw [hpin]
    apply Wave.level_write
    rw [hnow]
    exact hu
  · rw [softWriteByte_now hlo hhi]
    push_cast
    linarith
  · push_cast
    linarith
  · rw [softWriteByte_now hlo hhi]
    push_cast
    linarith

theorem foldl_extends (pin : TxPin) (frame : List UInt8) :
    pin.Extends (frame.foldl (softWriteByte baud) pin) := by
  induction frame generalizing pin with
  | nil => exact .refl pin
  | cons byte frame ih =>
    exact ((startBit_extends hlo hhi pin byte).trans (dataBits_extends hlo hhi pin byte
      (Nat.zero_le 8))).trans ((softWriteByte_extends hlo hhi pin byte).trans (ih _))

theorem frame_carries {pin line : TxPin} {s t : ℚ} {frame rest : List UInt8} (h : Ready pin s t)
    (hline : (frame.foldl (softWriteByte baud) pin).Extends line)
    (hrest : ∀ s' t', Ready (frame.foldl (softWriteByte baud) pin) s' t' →
      Carries line.level (bitUs baud) t' rest) :
    Carries line.level (bitUs baud) t (frame ++ rest) := by
  induction frame generalizing pin s t with
  | nil => exact hrest s t h
  | cons byte frame ih =>
    have hbyte : (softWriteByte baud pin byte).Extends line :=
      (foldl_extends hlo hhi _ frame).trans hline
    have hpin : pin.Extends line := (foldl_extends hlo hhi pin [byte]).trans hbyte
    refine .byte h.until_now ?_ (softWriteByte_holds hlo hhi h hbyte)
      (ih (softWriteByte_ready hlo hhi pin byte) hline hrest)
    intro u htu hu
    rw [hpin.level hu]
    exact h.high u (h.since.trans htu)

theorem writes_extends (pin : TxPin) (calls : List (ℚ≥0 × List UInt8)) :
    pin.Extends (writes baud pin calls) := by
  induction calls generalizing pin with
  | nil => exact .refl pin
  | cons call calls ih =>
    obtain ⟨gap, frame⟩ := call
    refine (Wave.Extends.delay pin gap.coe_nonneg).trans (.trans ?_ (ih _))
    unfold writeLocked
    split_ifs
    · exact .refl _
    · exact foldl_extends hlo hhi _ frame

theorem line_carries {pin : TxPin} {s t : ℚ} (h : Ready pin s t) (calls : List (ℚ≥0 × List UInt8)) :
    Carries (writes baud pin calls).level (bitUs baud) t (calls.flatMap Prod.snd) := by
  induction calls generalizing pin s t with
  | nil => exact .silent fun u hu => h.high u (h.since.trans hu)
  | cons call calls ih =>
    obtain ⟨gap, frame⟩ := call
    have hgap := h.gap gap.coe_nonneg
    have hfold : (writeLocked baud (pin.delay gap) frame).1 =
        frame.foldl (softWriteByte baud) (pin.delay gap) := by
      unfold writeLocked
      split_ifs with hnil
      · rw [hnil]
        rfl
      · rfl
    simp only [writes, hfold, List.flatMap_cons]
    exact frame_carries hlo hhi hgap (writes_extends hlo hhi _ calls) fun s' t' h' => ih h'

end Bits

/-- From 2500 baud on the system timer has room for a bit: its wait ends when it should, if the timer
is read twice in its period. -/
theorem softDelayBit_lasts {baud acc clock reload : UInt32} {gap : ℕ} (hlo : 2500 ≤ baud.toNat)
    (hhi : baud.toNat ≤ 500000) (hacc : acc.toNat < baud.toNat)
    (hconfig : SysTick.config (clock / 1000) = some reload) (hclock : 1000000 ≤ clock.toNat)
    (hgap : gap ≤ 500 * (clock.toNat / 1000000)) (pin : TxPin) :
    ∃ us : UInt32, (softDelayBit baud pin acc).1 = usDelay pin us ∧
      ∀ {first : ℕ} {cycles : List ℕ}, SysTick.Steady gap first cycles →
        (∃ cycle ∈ cycles, first + clock.toNat / 1000000 * us.toNat < cycle) →
        ∃ cycle, SysTick.usDelay reload clock us first cycles = some cycle ∧
          first + clock.toNat / 1000000 * us.toNat ≤ cycle ∧
          cycle ≤ first + clock.toNat / 1000000 * us.toNat + gap := by
  have hshort : (acc.toNat + 1000000) / baud.toNat < 500 := by
    rw [Nat.div_lt_iff_lt_mul (by omega)]
    omega
  have hus : (UInt32.ofNat ((acc.toNat + 1000000) / baud.toNat)).toNat =
      (acc.toNat + 1000000) / baud.toNat := by
    rw [UInt32.toNat_ofNat']
    exact Nat.mod_eq_of_lt (by omega)
  obtain ⟨hmul, hfit⟩ := SysTick.fits_of_lt_half hconfig hclock (hus.trans_lt hshort) hgap
  refine ⟨UInt32.ofNat ((acc.toNat + 1000000) / baud.toNat), ?_, ?_⟩
  · rw [(softDelayBit_spec (by omega) hhi hacc pin).1, usDelay, hus]
  · intro first cycles hsteady hend
    rw [← hmul] at hend ⊢
    exact SysTick.delayLoop_lasts (SysTick.config_lt hconfig) hfit (Nat.le_add_right _ _)
      (Nat.le_refl _) hsteady hend

theorem idlePin_ready (start : ℚ) : Ready (idlePin start) start start := by
  have hnow : (idlePin start).now = start + 2000 := rfl
  refine ⟨fun u hu => Wave.level_write hu, ?_, le_rfl, ?_⟩
  · rw [hnow]
    linarith
  · rw [hnow]
    linarith

/-- The software UART is decodable, at any baud rate up to 500000. Between bits the accumulator is
below the baud rate, and the bits of a byte end where the exact bit times, rounded down, say; so a
receiver that samples at the exact times gets the bytes of all calls and no others, in order, with
every stop bit high. -/
theorem soft_uart_decodable {baud : UInt32} (hlo : 1 ≤ baud.toNat) (hhi : baud.toNat ≤ 500000) :
    (∀ pin byte bit, bit ≤ 8 →
      (dataBits baud pin byte bit).1.2.toNat < baud.toNat ∧
      (dataBits baud pin byte bit).1.1.now =
        pin.now + ((bit + 1) * 1000000 / baud.toNat : ℕ)) ∧
    (∀ pin byte, (softWriteByte baud pin byte).now =
      pin.now + (10 * 1000000 / baud.toNat : ℕ)) ∧
    ∀ start calls cs,
      Receives (writes baud (idlePin start) calls).level (bitUs baud) start cs ↔
        cs = (calls.flatMap Prod.snd).map Character.ofByte := by
  refine ⟨?_, softWriteByte_now hlo hhi, ?_⟩
  · intro pin byte bit _
    obtain ⟨hnow, hacc, -⟩ := dataBits_spec hlo hhi pin byte bit
    refine ⟨?_, hnow⟩
    rw [hacc]
    exact Nat.mod_lt _ (by omega)
  · intro start calls cs
    exact (line_carries hlo hhi (idlePin_ready start) calls).receives_iff

/-- The frame that enables the motor, at 115200 baud. -/
theorem soft_uart_decodable_enable :
    Receives (writes 115200 (idlePin 0) [(0, [0x01, 0xF3, 0xAB, 0x9F])]).level (bitUs 115200) 0
      [⟨false, 0x01, true⟩, ⟨false, 0xF3, true⟩, ⟨false, 0xAB, true⟩, ⟨false, 0x9F, true⟩] :=
  ((soft_uart_decodable (by decide) (by decide)).2.2 0 _ _).mpr rfl

end Axis

end Hcics
