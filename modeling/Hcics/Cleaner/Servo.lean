import Hcics.Cleaner.Procedures
import Hcics.Cleaner.Pulses

/-!
# The arithmetic of the servos

A Y pulse from a target, a sweep to either side and a step toward a limit are words that may wrap, since
the sanitiser puts the limits in order and does not bound them; and then the clamp takes a value that
lies past one limit to the other. Each is exact precisely where its word does not wrap.
-/

namespace Hcics

open Cleaner (clampU32 moveToward)

namespace Gimbal

/-! ## The retract loop -/

/-- The steps that the ramp of a retract needs from `zNs`. -/
def rampPoses (g : Gimbal) (zNs : UInt32) : Nat :=
  (g.config.zRetractNs.toNat - zNs.toNat + 23999) / 24000

theorem rampRound_done {g : Gimbal} {zNs : UInt32} (hz : zNs = g.config.zRetractNs) (l : Look) :
    rampRound (g, zNs) l = ((g, zNs), some RT_EOK) := by
  simp only [rampRound, if_pos hz]

theorem rampRound_step {g : Gimbal} {zNs : UInt32} (hz : zNs ≠ g.config.zRetractNs) (l : Look) :
    rampRound (g, zNs) l =
      (((g.applyPose l.pwm g.config.ySafeNs (moveToward zNs g.config.zRetractNs 24000)).1,
          moveToward zNs g.config.zRetractNs 24000),
        if l.pwm.result ≠ RT_EOK then some l.pwm.result else none) := by
  have hstep : Cleaner.zStepNs * 2 = 24000 := rfl
  simp only [rampRound, if_neg hz, hstep, applyPose]
  split <;> rfl

/-- While the PWM works the ramp returns as soon as its steps reach the retracted pulse. -/
theorem run_ramp (looks : List Look) (hpwm : ∀ l ∈ looks, l.pwm.result = RT_EOK) (g : Gimbal)
    (zNs : UInt32) : (Polling.run rampRound (g, zNs) looks).1 = some RT_EOK ↔
      ∃ n < looks.length, (fun z => moveToward z g.config.zRetractNs 24000)^[n] zNs =
        g.config.zRetractNs := by
  induction looks generalizing g zNs with
  | nil => simp [Polling.run]
  | cons l looks ih =>
    by_cases hz : zNs = g.config.zRetractNs
    · rw [Polling.run, rampRound_done hz]
      exact iff_of_true rfl ⟨0, Nat.succ_pos _, hz⟩
    · have hok : ¬ l.pwm.result ≠ RT_EOK := not_not.mpr (hpwm l (List.mem_cons_self ..))
      rw [Polling.run, rampRound_step hz, if_neg hok]
      dsimp only
      rw [ih (fun k hk => hpwm k (List.mem_cons_of_mem _ hk))]
      constructor
      · rintro ⟨n, hn, hreach⟩
        exact ⟨n + 1, Nat.succ_lt_succ hn, hreach⟩
      · rintro ⟨n, hn, hreach⟩
        cases n with
        | zero => exact absurd hreach hz
        | succ n => exact ⟨n, Nat.lt_of_succ_lt_succ hn, hreach⟩

/-- The ramp has reached the retracted pulse after the least number of poses that can exactly if
none of its steps wraps. -/
theorem run_ramp_iff (g : Gimbal) {zNs : UInt32} (hz : zNs ≤ g.config.zRetractNs) (looks : List Look)
    (hpwm : ∀ l ∈ looks, l.pwm.result = RT_EOK) (hlen : looks.length = g.rampPoses zNs + 1) :
    (Polling.run rampRound (g, zNs) looks).1 = some RT_EOK ↔
      zNs.toNat + g.rampPoses zNs * 24000 < 2 ^ 32 := by
  have hle := UInt32.le_iff_toNat_le.mp hz
  have hstep : (24000 : UInt32).toNat = 24000 := rfl
  have hreaches := reaches_iff 24000 hz (g.rampPoses zNs)
    (by
      intro n hn
      rw [hstep]
      unfold rampPoses at hn
      omega)
    (by
      rw [hstep]
      unfold rampPoses
      omega)
  rw [run_ramp looks hpwm, hlen]
  exact (exists_congr fun n => and_congr_left' Nat.lt_succ_iff).trans hreaches

/-! ## Where the arithmetic is exact -/

/-- The Y pulse of a target, not clamped. -/
def exactY (config : SaneConfig) (target : CleanerTarget) : Int :=
  config.yCenterNs.toNat + 1000 * ((target.y.toNat : Int) - 350)

theorem yFromTarget_iff (config : SaneConfig) (target : CleanerTarget) :
    ((yFromTarget config target).toNat : Int) =
        clampInt (exactY config target) config.yMinNs config.yMaxNs ↔
      0 ≤ exactY config target ∧ exactY config target < 2 ^ 32 ∨ config.yMinNs = config.yMaxNs := by
  have hy := target.y.toNat_lt
  have hexact : (config.yCenterNs.toNat : Int) +
      ((target.y.toNat : Int) - Cleaner.brushTargetY) * Cleaner.yNsPerPx = exactY config target := by
    have hbrush : Cleaner.brushTargetY = 350 := rfl
    have hpx : Cleaner.yNsPerPx = 1000 := rfl
    rw [exactY, hbrush, hpx]
    omega
  unfold yFromTarget
  dsimp only
  rw [hexact]
  apply clampU32_ofInt_iff config.yCenter_mem.1 config.yCenter_mem.2
  unfold exactY
  omega

/-- A sweep by `ySweepNs` to one side, not clamped. -/
def exactSweep (right : Bool) (baseYNs : UInt32) : Int :=
  if right then baseYNs.toNat + 180000 else baseYNs.toNat - 180000

theorem sweepYNs_iff (config : SaneConfig) (right : Bool) {baseYNs : UInt32}
    (hbase : config.yMinNs ≤ baseYNs ∧ baseYNs ≤ config.yMaxNs) :
    ((sweepYNs config right baseYNs).toNat : Int) =
        clampInt (exactSweep right baseYNs) config.yMinNs config.yMaxNs ↔
      0 ≤ exactSweep right baseYNs ∧ exactSweep right baseYNs < 2 ^ 32 ∨
        config.yMinNs = config.yMaxNs := by
  have hword : (if right then baseYNs + Cleaner.ySweepNs else baseYNs - Cleaner.ySweepNs) =
      UInt32.ofInt (exactSweep right baseYNs) := by
    have hlt := baseYNs.toNat_lt
    have hsweep : Cleaner.ySweepNs.toNat = 180000 := rfl
    rw [← UInt32.toNat_inj, toNat_ofInt]
    cases right with
    | true =>
      simp only [exactSweep, if_true, UInt32.toNat_add, hsweep]
      omega
    | false =>
      simp only [exactSweep, Bool.false_eq_true, if_false, UInt32.toNat_sub, hsweep]
      omega
  unfold sweepYNs
  rw [hword]
  apply clampU32_ofInt_iff hbase.1 hbase.2
  unfold exactSweep
  split <;> omega

/-- **Exactly where servo arithmetic does not wrap.** For every configuration and target, every base Y
within its limits and every record of Z up to the retracted pulse: the Y pulse of a target, and a
sweep to either side, are the clamped integers if and only if these are words or the limits are one; a
step lies between its start and its target if and only if its sum does not wrap on the way up; and the
ramp of a retract, where the PWM works, has reached its end after the least number of poses that can
if and only if the last of them does not wrap. -/
theorem servo_arithmetic (g : Gimbal) (target : CleanerTarget) (baseYNs current goal step : UInt32)
    (hbase : g.config.yMinNs ≤ baseYNs ∧ baseYNs ≤ g.config.yMaxNs)
    (hz : g.zPulseNs ≤ g.config.zRetractNs) :
    (((yFromTarget g.config target).toNat : Int) =
        clampInt (exactY g.config target) g.config.yMinNs g.config.yMaxNs ↔
      0 ≤ exactY g.config target ∧ exactY g.config target < 2 ^ 32 ∨
        g.config.yMinNs = g.config.yMaxNs) ∧
    (∀ right, ((sweepYNs g.config right baseYNs).toNat : Int) =
        clampInt (exactSweep right baseYNs) g.config.yMinNs g.config.yMaxNs ↔
      0 ≤ exactSweep right baseYNs ∧ exactSweep right baseYNs < 2 ^ 32 ∨
        g.config.yMinNs = g.config.yMaxNs) ∧
    ((min current.toNat goal.toNat ≤ (moveToward current goal step).toNat ∧
        (moveToward current goal step).toNat ≤ max current.toNat goal.toNat) ↔
      ¬(current < goal ∧ 2 ^ 32 ≤ current.toNat + step.toNat)) ∧
    (∀ looks : List Look, (∀ l ∈ looks, l.pwm.result = RT_EOK) →
      looks.length = g.rampPoses g.zPulseNs + 1 →
        ((Polling.run rampRound (g, g.zPulseNs) looks).1 = some RT_EOK ↔
          g.zPulseNs.toNat + g.rampPoses g.zPulseNs * 24000 < 2 ^ 32)) :=
  ⟨yFromTarget_iff g.config target, fun right => sweepYNs_iff g.config right hbase,
    moveToward_between_iff current goal step, run_ramp_iff g hz⟩

/-- Limits from 0 on, with the middle at 100000 ns. -/
def lowConfig : CleanerConfig := { CleanerConfig.default with yMinNs := 0, yCenterNs := 100000 }

/-- Limits up to the last word. -/
def highConfig : CleanerConfig :=
  { CleanerConfig.default with yMaxNs := 0xFFFFFFFF, zRetractNs := 0xFFFFFFFF }

/-- Near the ends of the words every part of the arithmetic wraps. -/
theorem servo_arithmetic_wraps :
    let low := lowConfig.sanitize
    let high := highConfig.sanitize
    let target : CleanerTarget := ⟨2, 320, 0, 100, 0, true, 990⟩
    let g := { booted high with zPulseNs := 0xFFFFE000 }
    ((yFromTarget low target).toNat : Int) ≠ clampInt (exactY low target) low.yMinNs low.yMaxNs ∧
      ((sweepYNs low false 100000).toNat : Int) ≠
        clampInt (exactSweep false 100000) low.yMinNs low.yMaxNs ∧
      ((sweepYNs high true 0xFFFF0000).toNat : Int) ≠
        clampInt (exactSweep true 0xFFFF0000) high.yMinNs high.yMaxNs ∧
      ¬ 0xFFFFE000 ≤ (moveToward 0xFFFFE000 0xFFFFFFFF 24000).toNat ∧
      g.rampPoses g.zPulseNs = 1 ∧
      (Polling.run rampRound (g, g.zPulseNs) [Look.calm 1000, Look.calm 1025]).1 ≠ some RT_EOK := by
  decide

/-- With the default limits it is exact. -/
theorem servo_arithmetic_default :
    let g := { booted CleanerConfig.default.sanitize with zPulseNs := 1100000 }
    (∀ right, ((sweepYNs g.config right 1550000).toNat : Int) =
        clampInt (exactSweep right 1550000) g.config.yMinNs g.config.yMaxNs) ∧
      (Polling.run rampRound (g, g.zPulseNs) (List.replicate 47 (Look.calm 1000))).1 = some RT_EOK := by
  have h := servo_arithmetic { booted CleanerConfig.default.sanitize with zPulseNs := 1100000 }
    ⟨2, 320, 350, 100, 0, true, 990⟩ 1550000 0 0 0 (by decide) (by decide)
  refine ⟨?_, ?_⟩
  · intro right
    apply (h.2.1 right).mpr
    cases right <;> decide
  · apply (h.2.2.2 (List.replicate 47 (Look.calm 1000)) ?_ (by decide)).mpr (by decide)
    intro l hl
    rw [List.eq_of_mem_replicate hl]
    rfl

end Gimbal

end Hcics
