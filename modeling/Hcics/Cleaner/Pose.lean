import Hcics.Cleaner.Mission

/-!
# The recorded and the programmed pose

`hcics_cleaner_apply_pose` records both pulses first and then makes its PWM calls, up to the first that
fails. `programmedY` and `programmedZ` are what the calls have set, by the history of poses; the record
is the last pose, whatever became of its calls. `Held` says of the last pose that its calls left both
pulses as recorded. `hcics_cleaner_retract` goes by the record: where that says retracted it does not
pose at all.
-/

namespace Hcics.Gimbal

open Cleaner Polling

/-! ## What the calls have set -/

/-- The Z pulse is set last but one, after both calls for Y. -/
abbrev SetsZ (calls : PwmCalls) : Prop :=
  calls.ySet = RT_EOK ∧ calls.yEnable = RT_EOK ∧ calls.zSet = RT_EOK

/-- The Y pulse last set by `rt_pwm_set`. -/
def programmedY : List PoseCall → Option UInt32
  | [] => none
  | pose :: older => if pose.calls.ySet = RT_EOK then some pose.yNs else programmedY older

/-- The Z pulse last set by `rt_pwm_set`. -/
def programmedZ : List PoseCall → Option UInt32
  | [] => none
  | pose :: older => if SetsZ pose.calls then some pose.zNs else programmedZ older

/-- The calls of a pose leave the pulses as the pose has them: each is set, or was so before. -/
def Held (pose : PoseCall) (older : List PoseCall) : Prop :=
  (pose.calls.ySet = RT_EOK ∨ programmedY older = some pose.yNs) ∧
    (SetsZ pose.calls ∨ programmedZ older = some pose.zNs)

theorem programmedY_cons_iff (pose : PoseCall) (older : List PoseCall) :
    programmedY (pose :: older) = some pose.yNs ↔
      pose.calls.ySet = RT_EOK ∨ programmedY older = some pose.yNs := by
  rw [programmedY]
  by_cases hset : pose.calls.ySet = RT_EOK
  · rw [if_pos hset]
    simp [hset]
  · rw [if_neg hset]
    simp [hset]

theorem programmedZ_cons_iff (pose : PoseCall) (older : List PoseCall) :
    programmedZ (pose :: older) = some pose.zNs ↔
      SetsZ pose.calls ∨ programmedZ older = some pose.zNs := by
  rw [programmedZ]
  by_cases hset : SetsZ pose.calls
  · rw [if_pos hset]
    simp only [true_iff]
    exact .inl hset
  · rw [if_neg hset]
    exact (or_iff_right hset).symm

theorem setsZ_of_result {calls : PwmCalls} (h : calls.result = RT_EOK) : SetsZ calls := by
  unfold PwmCalls.result at h
  split_ifs at h with hySet hyEnable hzSet hzEnable
  · exact absurd h hySet
  · exact absurd h hyEnable
  · exact absurd h hzSet
  · exact absurd h hzEnable
  · exact ⟨not_not.mp hySet, not_not.mp hyEnable, not_not.mp hzSet⟩

/-! ## What is recorded -/

/-- The record is the last pose, or what `hcics_cleaner_init` wrote, and Z is at most retracted. -/
structure Recorded (config : SaneConfig) (g : Gimbal) : Prop where
  same : g.config = config
  record : ∀ pose ∈ g.poses.head?, g.yPulseNs = pose.yNs ∧ g.zPulseNs = pose.zNs
  limit : g.zPulseNs ≤ config.zRetractNs

variable {config : SaneConfig}

theorem recorded_booted (config : SaneConfig) : Recorded config (booted config) where
  same := rfl
  record := by simp [booted]
  limit := UInt32.le_refl _

theorem closed_recorded : Closed (Recorded config) where
  setState _ _ h := ⟨h.same, h.record, h.limit⟩
  relay _ _ h := ⟨h.same, h.record, h.limit⟩
  axis _ _ h := ⟨h.same, h.record, h.limit⟩
  applyPose g calls yNs zNs h := by
    refine ⟨h.same, ?_, ?_⟩
    · intro pose hpose
      obtain rfl := Option.some.inj hpose
      exact ⟨rfl, rfl⟩
    · have hle := UInt32.le_trans g.config.zWash_mem.1 g.config.zWash_mem.2
      exact h.same ▸ (clampU32_mem hle zNs).2

theorem kept_recorded : Kept (Recorded config) where
  toClosed := closed_recorded
  log _ _ h := ⟨h.same, h.record, h.limit⟩
  cycle _ _ h := ⟨h.same, h.record, h.limit⟩

theorem Recorded.programmed_iff {g : Gimbal} (h : Recorded config g) :
    (programmedY g.poses = some g.yPulseNs ∧ programmedZ g.poses = some g.zPulseNs) ↔
      ∃ pose older, g.poses = pose :: older ∧ Held pose older := by
  cases hposes : g.poses with
  | nil => simp [programmedY]
  | cons pose older =>
    obtain ⟨hy, hz⟩ := h.record pose (by rw [hposes]; rfl)
    rw [hy, hz, programmedY_cons_iff, programmedZ_cons_iff]
    constructor
    · intro hheld
      exact ⟨pose, older, rfl, hheld⟩
    · rintro ⟨pose', older', heq, hheld⟩
      obtain ⟨rfl, rfl⟩ := List.cons.inj heq
      exact hheld

/-! ## Retracting -/

/-- A retract that began with the poses `poses` and Z recorded at `zNs`: it has not posed, or its poses
have set what its ramp is at. -/
def Retracting (poses : List PoseCall) (zNs : UInt32) (s : Gimbal × UInt32) : Prop :=
  (s.1.poses = poses ∧ s.2 = zNs) ∨
    (zNs ≠ s.1.config.zRetractNs ∧
      programmedZ s.1.poses = some (clampU32 s.2 s.1.config.zExtendNs s.1.config.zRetractNs))

/-- Where a retract that succeeded has left Z: where it was, if the record said retracted. -/
def LeftZ (poses : List PoseCall) (zNs : UInt32) (g : Gimbal) : Prop :=
  (g.poses = poses ∧ zNs = g.config.zRetractNs) ∨
    (zNs ≠ g.config.zRetractNs ∧ programmedZ g.poses = some g.config.zRetractNs)

theorem retracting_rampRound {poses : List PoseCall} {z : UInt32} {s t : Gimbal × UInt32} {l : Look}
    {result : Option RtErr} (h : Retracting poses z s) (hround : rampRound s l = (t, result)) :
    (result = none → Retracting poses z t) ∧ (result = some RT_EOK → LeftZ poses z t.1) := by
  obtain ⟨g, zNs⟩ := s
  by_cases hz : zNs = g.config.zRetractNs
  · rw [rampRound_done hz, Prod.mk.injEq] at hround
    obtain ⟨rfl, rfl⟩ := hround
    refine ⟨by simp, fun _ => ?_⟩
    rcases h with ⟨hposes, hstart⟩ | ⟨hne, hset⟩
    · exact .inl ⟨hposes, hstart.symm.trans hz⟩
    · refine .inr ⟨hne, ?_⟩
      rw [hset]
      subst hz
      exact congrArg some (clamp_retract g.config)
  · rw [rampRound_step hz, Prod.mk.injEq] at hround
    obtain ⟨rfl, hresult⟩ := hround
    refine ⟨?_, ?_⟩
    · rintro rfl
      split at hresult
      · cases hresult
      · rename_i hpwm
        refine .inr ⟨?_, ?_⟩
        · rcases h with ⟨-, hstart⟩ | ⟨hne, -⟩
          · exact hstart ▸ hz
          · exact hne
        · exact if_pos (setsZ_of_result (not_not.mp hpwm))
    · rintro rfl
      split at hresult
      · rename_i hpwm
        exact absurd (Option.some.inj hresult) hpwm
      · cases hresult

/-- A retract that succeeds has posed exactly if the record did not say retracted. -/
theorem retract_leftZ (poses : List PoseCall) (zNs : UInt32) :
    Proc.Spec (fun g => g.poses = poses ∧ g.zPulseNs = zNs) retract (fun _ => True)
      fun result g => result = RT_EOK → LeftZ poses zNs g := by
  apply retract_spec (Retracting poses zNs)
  · exact fun g h => .inl h
  · exact fun s l t h hround => (retracting_rampRound h hround).1 rfl
  · exact fun s l t h hround => (retracting_rampRound h hround).2 rfl

/-! ## Runs -/

/-- The operations of the cleaner. `hcics_cleaner_apply_pose` is one with any pulses, so that those of
other threads may come between. -/
inductive Operation where
  | applyPose (yNs zNs : UInt32)
  | safeOutputs
  | waitStain
  | aim
  | extendZ (yNs : UInt32)
  | spray
  | scrub (baseYNs : UInt32)
  | retract
  | verifyClear
  | work (maxCycles : UInt8)

def Operation.proc : Operation → Proc Gimbal Look Unit
  | .applyPose yNs zNs => .act fun g l => ((g.applyPose l.pwm yNs zNs).1, ())
  | .safeOutputs => .act fun g l => ((g.safeOutputs l).1, ())
  | .waitStain => do let _ ← Gimbal.waitStain
  | .aim => do let _ ← Gimbal.aim
  | .extendZ yNs => do let _ ← Gimbal.extendZ yNs
  | .spray => do let _ ← Gimbal.spray
  | .scrub baseYNs => do let _ ← Gimbal.scrub baseYNs
  | .retract => do let _ ← Gimbal.retract
  | .verifyClear => do let _ ← Gimbal.verifyClear
  | .work maxCycles => do let _ ← Gimbal.work maxCycles

def operations : List Operation → Proc Gimbal Look Unit
  | [] => pure ()
  | op :: ops => do
    op.proc
    operations ops

/-- The module after operations that read `looks`; the last one may be waiting for more. -/
def after (config : SaneConfig) (ops : List Operation) (looks : List Look) : Gimbal :=
  (operations ops (booted config) looks).2.1

theorem keeps_recorded_proc (op : Operation) : Keeps (Recorded config) op.proc := by
  have hunit : ∀ {α : Type} {p : Proc Gimbal Look α}, Keeps (Recorded config) p →
      Keeps (Recorded config) (do let _ ← p) := by
    intro α p hp
    exact Proc.Spec.bind hp fun _ => keeps_pure _
  cases op with
  | applyPose yNs zNs =>
    exact .act (fun _ h => h) fun g l h => closed_recorded.applyPose g l.pwm yNs zNs h
  | safeOutputs => exact .act (fun _ h => h) fun _ l h => closed_recorded.safeOutputs h l
  | waitStain => exact hunit keeps_waitStain
  | aim => exact hunit closed_recorded.aim
  | extendZ yNs => exact hunit (closed_recorded.extendZ yNs)
  | spray => exact hunit closed_recorded.spray
  | scrub baseYNs => exact hunit (closed_recorded.scrub baseYNs)
  | retract => exact hunit closed_recorded.retract
  | verifyClear => exact hunit keeps_verifyClear
  | work maxCycles => exact hunit (kept_recorded.work maxCycles)

theorem keeps_recorded_operations (ops : List Operation) :
    Keeps (Recorded config) (operations ops) := by
  induction ops with
  | nil => exact keeps_pure _
  | cons op ops ih => exact Proc.Spec.bind (keeps_recorded_proc op) fun _ => ih

theorem recorded_after (config : SaneConfig) (ops : List Operation) (looks : List Look) :
    Recorded config (after config ops looks) := by
  obtain ⟨hret, hwait⟩ :=
    keeps_recorded_operations ops (booted config) looks (recorded_booted config)
  unfold after
  rcases hrun : operations ops (booted config) looks with ⟨_ | _, g, rest⟩
  · exact hwait g rest hrun
  · exact hret _ g rest hrun

/-- **Exactly when the recorded pose is the programmed one.** In every state that operations reach, the
record is what the PWM calls have set if and only if the last pose is held; and a retract from there
that succeeds leaves Z programmed retracted if and only if Z was, where the record said so. -/
theorem record_programmed (config : SaneConfig) (ops : List Operation) (looks : List Look) :
    let g := after config ops looks
    ((programmedY g.poses = some g.yPulseNs ∧ programmedZ g.poses = some g.zPulseNs) ↔
      ∃ pose older, g.poses = pose :: older ∧ Held pose older) ∧
    ∀ (looks' rest : List Look) (k : Gimbal), retract g looks' = (some RT_EOK, k, rest) →
      (programmedZ k.poses = some config.zRetractNs ↔
        (g.zPulseNs = config.zRetractNs → programmedZ g.poses = some config.zRetractNs)) := by
  intro g
  have hg : Recorded config g := recorded_after config ops looks
  refine ⟨hg.programmed_iff, ?_⟩
  intro looks' rest k hretract
  have hleft := (retract_leftZ g.poses g.zPulseNs g looks' ⟨rfl, rfl⟩).1 _ k rest hretract rfl
  have hconfig := ((closed_recorded.retract g looks' hg).1 _ k rest hretract).same
  rw [LeftZ, hconfig] at hleft
  rcases hleft with ⟨hposes, hz⟩ | ⟨hz, hset⟩
  · rw [hposes]
    exact ⟨fun h _ => h, fun h => h hz⟩
  · exact iff_of_true hset fun h => absurd h hz

/-- A wash pulse that is one step of a retract below the retracted one. -/
def nearConfig : SaneConfig := { CleanerConfig.default with zWashNs := 2180000 }.sanitize

/-- The looks of the safe outputs, of a scrub that sweeps once, and of a retract in whose only pose Y is
not set. -/
def failingLooks : List Look :=
  [Look.calm 1000, Look.calm 1000, Look.calm 3500, Look.calm 4000,
    { Look.calm 4000 with pwm := ⟨-RT_ERROR, RT_EOK, RT_EOK, RT_EOK⟩ }]

/-- The retract that fails records Z as retracted, and the next one succeeds with nothing done. -/
theorem record_programmed_fails :
    ¬ ∀ (config : SaneConfig) (ops : List Operation) (looks : List Look),
      let g := after config ops looks
      (∃ pose ∈ g.poses, pose.calls.result = RT_EOK) →
        (programmedY g.poses = some g.yPulseNs ∧ programmedZ g.poses = some g.zPulseNs) ∧
        ∀ (looks' rest : List Look) (k : Gimbal), retract g looks' = (some RT_EOK, k, rest) →
          programmedZ k.poses = some config.zRetractNs := by
  intro h
  obtain ⟨-, hretract⟩ := h nearConfig [.safeOutputs, .scrub 1550000, .retract] failingLooks
    (by decide)
  have hprogrammed := hretract (List.replicate 18 (Look.calm 4080)) [] _ rfl
  revert hprogrammed
  decide

/-- After safe outputs that succeeded, so does a retract. -/
theorem record_programmed_safe :
    let g := after nearConfig [.safeOutputs] [Look.calm 1000]
    (programmedY g.poses = some g.yPulseNs ∧ programmedZ g.poses = some g.zPulseNs) ∧
      programmedZ (retract g (List.replicate 18 (Look.calm 1100))).2.1.poses =
        some nearConfig.zRetractNs := by
  obtain ⟨hrecord, hretract⟩ := record_programmed nearConfig [.safeOutputs] [Look.calm 1000]
  refine ⟨hrecord.mpr ⟨_, _, rfl, ?_⟩, ?_⟩
  · exact ⟨.inl rfl, .inl ⟨rfl, rfl, rfl⟩⟩
  · exact (hretract (List.replicate 18 (Look.calm 1100)) [] _ rfl).mpr fun _ => by decide

end Hcics.Gimbal
