import Mathlib.Tactic.Common

/-!
# Moving toward a target by bounded steps

`toward step current target` moves an integer by at most `step` toward a target and stops there. It
never passes the target (`toward_between`), and it moves by exactly `min step gap`
(`natAbs_toward_sub`), so the gap shrinks by `step` each time (`gap_toward`).
-/

namespace Approach

def gap (current target : Int) : Nat := (target - current).natAbs

/-- One move. -/
def toward (step : Nat) (current target : Int) : Int :=
  current + max (-(step : Int)) (min step (target - current))

variable {step : Nat} {current target : Int}

@[simp] theorem gap_self (target : Int) : gap target target = 0 := by simp [gap]

theorem gap_eq_zero : gap current target = 0 ↔ current = target := by
  unfold gap
  omega

@[simp] theorem toward_self (step : Nat) (target : Int) : toward step target target = target := by
  unfold toward
  omega

theorem toward_between (step : Nat) (current target : Int) :
    min current target ≤ toward step current target ∧
      toward step current target ≤ max current target := by
  unfold toward
  omega

theorem natAbs_toward_sub (step : Nat) (current target : Int) :
    (toward step current target - current).natAbs = min step (gap current target) := by
  unfold toward gap
  omega

theorem gap_toward (step : Nat) (current target : Int) :
    gap (toward step current target) target = gap current target - step := by
  unfold toward gap
  omega

theorem toward_eq_of_gap_le (h : gap current target ≤ step) : toward step current target = target := by
  unfold gap at h
  unfold toward
  omega

theorem toward_of_lt (h : current + step ≤ target) : toward step current target = current + step := by
  unfold toward
  omega

end Approach
