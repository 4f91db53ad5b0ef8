import Hcics.Cleaner.Model
import Hcics.Lib.Approach
import Mathlib.Algebra.Group.Int.Defs
import Mathlib.Algebra.Group.Nat.Defs
import Mathlib.Logic.Function.Iterate

/-!
# Pulses as words

The pulses are unsigned 32-bit words, and what is computed of them is computed in words as well and
clamped after. `clampU32_ofInt_iff` says when a clamped word is the clamped integer, for any value that
is computed from a pulse within the limits. A step is that of `Approach.toward` exactly where its word
does not wrap, and `reaches_iff` is that for as many steps as the way takes.
-/

namespace Hcics

open Cleaner (clampU32 moveToward)

theorem toNat_ofInt (v : Int) : (UInt32.ofInt v).toNat = (v % 2 ^ 32).toNat := by
  rw [UInt32.ofInt, UInt32.toNat_ofNat']
  omega

/-! ## Clamping -/

def clampInt (v : Int) (lo hi : UInt32) : Int := max lo.toNat (min hi.toNat v)

theorem toNat_clampU32 {lo hi : UInt32} (h : lo ≤ hi) (value : UInt32) :
    ((clampU32 value lo hi).toNat : Int) = clampInt value.toNat lo hi := by
  have hle := UInt32.le_iff_toNat_le.mp h
  unfold clampU32 clampInt
  split_ifs with hlo hhi
  · have := UInt32.lt_iff_toNat_lt.mp hlo
    omega
  · have := UInt32.lt_iff_toNat_lt.mp hhi
    omega
  · have := UInt32.le_iff_toNat_le.mp (UInt32.not_lt.mp hlo)
    have := UInt32.le_iff_toNat_le.mp (UInt32.not_lt.mp hhi)
    omega

/-- **Clamping a word that may have wrapped.** For a value less than a word's range away from a point
within the limits, the clamped word is the clamped value if the value is a word, or the limits are
one; and only then. -/
theorem clampU32_ofInt_iff {lo hi base : UInt32} (hlo : lo ≤ base) (hhi : base ≤ hi) {v : Int}
    (hnear : (v - base.toNat).natAbs < 2 ^ 32) :
    ((clampU32 (UInt32.ofInt v) lo hi).toNat : Int) = clampInt v lo hi ↔
      0 ≤ v ∧ v < 2 ^ 32 ∨ lo = hi := by
  have hlo' := UInt32.le_iff_toNat_le.mp hlo
  have hhi' := UInt32.le_iff_toNat_le.mp hhi
  have hbase := base.toNat_lt
  have hmax := hi.toNat_lt
  rw [toNat_clampU32 (UInt32.le_trans hlo hhi), toNat_ofInt, ← UInt32.toNat_inj]
  unfold clampInt
  omega

/-! ## Steps -/

theorem toNat_moveToward (current target step : UInt32)
    (h : current < target → current.toNat + step.toNat < 2 ^ 32) :
    ((moveToward current target step).toNat : Int) =
      Approach.toward step.toNat current.toNat target.toNat := by
  unfold moveToward Approach.toward
  by_cases hup : current < target
  · rw [if_pos hup]
    have hroom := h hup
    have hlt := UInt32.lt_iff_toNat_lt.mp hup
    have hsum : (current + step).toNat = current.toNat + step.toNat := by
      rw [UInt32.toNat_add, Nat.mod_eq_of_lt hroom]
    by_cases hpast : current + step > target
    · have := UInt32.lt_iff_toNat_lt.mp hpast
      rw [if_pos hpast]
      omega
    · have := UInt32.le_iff_toNat_le.mp (UInt32.not_lt.mp hpast)
      rw [if_neg hpast]
      omega
  · rw [if_neg hup]
    by_cases hdown : current > target
    · rw [if_pos hdown]
      have hlt := UInt32.lt_iff_toNat_lt.mp hdown
      have hdiff := UInt32.toNat_sub_of_le current target (UInt32.le_of_lt hdown)
      by_cases hnear : current - target ≤ step
      · have := UInt32.le_iff_toNat_le.mp hnear
        rw [if_pos hnear]
        omega
      · have hfar := UInt32.lt_iff_toNat_lt.mp (UInt32.not_le.mp hnear)
        have hle : step ≤ current := by
          rw [UInt32.le_iff_toNat_le]
          omega
        rw [if_neg hnear, UInt32.toNat_sub_of_le current step hle]
        omega
    · have := UInt32.le_iff_toNat_le.mp (UInt32.not_lt.mp hup)
      have := UInt32.le_iff_toNat_le.mp (UInt32.not_lt.mp hdown)
      rw [if_neg hdown]
      omega

/-- A step ends between its start and the target exactly if it does not wrap on the way up. -/
theorem moveToward_between_iff (current target step : UInt32) :
    (min current.toNat target.toNat ≤ (moveToward current target step).toNat ∧
        (moveToward current target step).toNat ≤ max current.toNat target.toNat) ↔
      ¬(current < target ∧ 2 ^ 32 ≤ current.toNat + step.toNat) := by
  constructor
  · rintro ⟨hlow, -⟩ ⟨hup, hwrap⟩
    have hlt := UInt32.lt_iff_toNat_lt.mp hup
    have hsum : (current + step).toNat + 2 ^ 32 = current.toNat + step.toNat := by
      have := current.toNat_lt
      have := step.toNat_lt
      rw [UInt32.toNat_add]
      omega
    have hstep := step.toNat_lt
    have hshort : ¬ current + step > target := by
      intro hpast
      have := UInt32.lt_iff_toNat_lt.mp hpast
      omega
    rw [moveToward, if_pos hup, if_neg hshort] at hlow
    omega
  · intro h
    have hmove := toNat_moveToward current target step
      fun hup => Nat.lt_of_not_le fun hwrap => h ⟨hup, hwrap⟩
    have hbetween := Approach.toward_between step.toNat current.toNat target.toNat
    omega

theorem iterate_moveToward (current target step : UInt32) (n : Nat)
    (h : current.toNat + n * step.toNat < target.toNat) :
    ((fun z => moveToward z target step)^[n] current).toNat = current.toNat + n * step.toNat := by
  induction n with
  | zero => simp
  | succ n ih =>
    rw [Nat.succ_mul] at h ⊢
    have hbefore := ih (by omega)
    have htarget := target.toNat_lt
    rw [Function.iterate_succ_apply']
    generalize (fun z => moveToward z target step)^[n] current = z at hbefore ⊢
    have hmove := toNat_moveToward z target step
      fun _ => by omega
    rw [Approach.toward_of_lt (by omega)] at hmove
    omega

/-- **Steps up reach the target in the least number that can**, exactly if the last of them does not
wrap. -/
theorem reaches_iff {current target : UInt32} (step : UInt32) (h : current ≤ target) (least : Nat)
    (hleast : ∀ n < least, current.toNat + n * step.toNat < target.toNat)
    (henough : target.toNat ≤ current.toNat + least * step.toNat) :
    (∃ n ≤ least, (fun z => moveToward z target step)^[n] current = target) ↔
      current.toNat + least * step.toNat < 2 ^ 32 := by
  have hle := UInt32.le_iff_toNat_le.mp h
  cases least with
  | zero =>
    have htarget := target.toNat_lt
    refine iff_of_true ⟨0, Nat.le_refl 0, ?_⟩ (by omega)
    exact UInt32.toNat_inj.mp (by simp at henough ⊢; omega)
  | succ least =>
    rw [Nat.succ_mul] at henough ⊢
    have hbefore := iterate_moveToward current target step least
      (hleast least (Nat.lt_succ_self _))
    have hlt := hleast least (Nat.lt_succ_self _)
    have hlast : (fun z => moveToward z target step)^[least + 1] current =
        moveToward ((fun z => moveToward z target step)^[least] current) target step :=
      Function.iterate_succ_apply' _ _ _
    generalize (fun z => moveToward z target step)^[least] current = z at hbefore hlast
    constructor
    · rintro ⟨n, hn, hreach⟩
      by_contra hwrap
      rcases Nat.lt_or_eq_of_le hn with hn | rfl
      · have hshort := hleast n hn
        rw [← iterate_moveToward current target step n hshort, hreach] at hshort
        exact Nat.lt_irrefl _ hshort
      · -- the last step wraps, so it ends below its start
        have hz : z < target := by
          rw [UInt32.lt_iff_toNat_lt]
          omega
        have hbetween := mt (moveToward_between_iff z target step).mp
          (not_not.mpr ⟨hz, by omega⟩)
        rw [← hlast, hreach] at hbetween
        omega
    · intro hroom
      refine ⟨least + 1, Nat.le_refl _, ?_⟩
      have hmove := toNat_moveToward z target step
        fun _ => by omega
      rw [Approach.toward_eq_of_gap_le (by unfold Approach.gap; omega)] at hmove
      rw [hlast, ← UInt32.toNat_inj]
      omega

end Hcics
