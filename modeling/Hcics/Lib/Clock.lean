import Mathlib.Algebra.Group.Nat.Defs
import Mathlib.Tactic.Common

/-!
# Wrapping 32-bit clocks

A counter of milliseconds read as `UInt32.ofNat t` at the absolute time `t : Nat`. The unsigned
difference of two readings is the elapsed time modulo `2 ^ 32`, so it never exceeds the elapsed
time; the signed difference tells a deadline apart from the time before it as long as the two are
less than `2 ^ 31` apart.
-/

namespace Clock

/-- The unsigned difference of two readings is the elapsed time modulo `2 ^ 32`. -/
theorem toNat_sub {start now : Nat} (h : start ≤ now) :
    (UInt32.ofNat now - UInt32.ofNat start).toNat = (now - start) % 2 ^ 32 := by
  rw [UInt32.toNat_sub, UInt32.toNat_ofNat', UInt32.toNat_ofNat']
  omega

/-- A duration that the unsigned difference reaches has really elapsed. -/
theorem elapsed_of_le_sub {start now : Nat} {duration : UInt32} (h : start ≤ now)
    (hd : duration ≤ UInt32.ofNat now - UInt32.ofNat start) : start + duration.toNat ≤ now := by
  have hle : duration.toNat ≤ (now - start) % 2 ^ 32 := toNat_sub h ▸ UInt32.le_iff_toNat_le.mp hd
  have := Nat.mod_le (now - start) (2 ^ 32)
  omega

/-- The unsigned difference reaches every duration that has elapsed in less than `2 ^ 32`. -/
theorem lt_of_sub_lt {start now : Nat} {duration : UInt32} (h : start ≤ now) (h' : now < start + 2 ^ 32)
    (hd : ¬ duration ≤ UInt32.ofNat now - UInt32.ofNat start) : now < start + duration.toNat := by
  rw [UInt32.le_iff_toNat_le, toNat_sub h, Nat.mod_eq_of_lt (by omega)] at hd
  omega

theorem ofNat_add_duration (start : Nat) (duration : UInt32) :
    UInt32.ofNat start + duration = UInt32.ofNat (start + duration.toNat) := by
  rw [UInt32.ofNat_add, UInt32.ofNat_toNat]

theorem signed_sub_neg_iff {deadline now : Nat} (h : now < deadline + 2 ^ 31)
    (h' : deadline ≤ now + 2 ^ 31) :
    (UInt32.ofNat now - UInt32.ofNat deadline).toInt32 < 0 ↔ now < deadline := by
  rw [UInt32.toInt32_sub, UInt32.toInt32_ofNat', UInt32.toInt32_ofNat', Int32.lt_iff_toInt_lt,
    Int32.toInt_sub, Int32.toInt_ofNat', Int32.toInt_ofNat', Int32.size,
    Int.bmod_sub_bmod, Int.sub_bmod_bmod, Int.bmod_eq_of_le (by omega) (by omega), Int32.toInt_zero]
  omega

/-- The unsigned difference of two readings is below half the range exactly when the first one is not
the earlier. -/
theorem sub_lt_half_iff {a b : Nat} (h : a < b + (2 ^ 31 - 1)) (h' : b ≤ a + (2 ^ 31 + 1)) :
    UInt32.ofNat a - UInt32.ofNat b < 0x7fffffff ↔ b ≤ a := by
  rw [UInt32.lt_iff_toNat_lt, UInt32.toNat_sub, UInt32.toNat_ofNat', UInt32.toNat_ofNat',
    show (0x7fffffff : UInt32).toNat = 2147483647 from rfl]
  omega

theorem sub_eq_zero_iff {a b : Nat} (h : a < b + 2 ^ 32) (h' : b < a + 2 ^ 32) :
    UInt32.ofNat a - UInt32.ofNat b = 0 ↔ a = b := by
  rw [← UInt32.toNat_inj, UInt32.toNat_sub, UInt32.toNat_ofNat', UInt32.toNat_ofNat',
    show (0 : UInt32).toNat = 0 from rfl]
  omega

end Clock
