import Hcics.Cleaner.Model

/-!
# The cleaner only reads its camera

The frame in `g_cleaner.camera` is stored by `hcics_cleaner_update_camera_target` alone. The worker
takes copies of it, and no other operation looks at it.
-/

namespace Hcics

namespace Cleaner

variable (c : Cleaner) (io : CleanerIo)

/-! ## The worker -/

@[simp] theorem cycleEnded_camera (result : RtErr) : (c.cycleEnded result).camera = c.camera := by
  unfold cycleEnded
  split <;> rfl

@[simp] theorem verifyWait_camera (start clearStart : Tick) (clearActive : Bool) :
    (c.verifyWait io start clearStart clearActive).camera = c.camera := by
  unfold verifyWait
  split
  · exact cycleEnded_camera c _
  · rfl

@[simp] theorem verifyLoop_camera (start clearStart : Tick) (clearActive : Bool) :
    (c.verifyLoop io start clearStart clearActive).camera = c.camera := by
  unfold verifyLoop
  dsimp only
  split_ifs <;> simp

@[simp] theorem retracted_camera (after : AfterRetract) (result : RtErr) :
    (c.retracted io after result).camera = c.camera := by
  unfold retracted
  cases after
  · dsimp only
    split
    · exact cycleEnded_camera c result
    · exact verifyLoop_camera _ io _ _ _
  · dsimp only
    split <;> rfl

@[simp] theorem settleLoop_camera (after : AfterRetract) (left : UInt32) :
    (c.settleLoop io after left).camera = c.camera := by
  unfold settleLoop
  split
  · exact retracted_camera c io after _
  · rfl

@[simp] theorem rampLoop_camera (after : AfterRetract) (zNs : UInt32) :
    (c.rampLoop io after zNs).camera = c.camera := by
  unfold rampLoop
  split
  · exact settleLoop_camera c io after _
  · dsimp only
    split
    · exact retracted_camera _ io after _
    · rfl

@[simp] theorem retract_camera (after : AfterRetract) : (c.retract io after).camera = c.camera := by
  unfold retract
  dsimp only
  split
  · exact retracted_camera _ io after _
  · exact rampLoop_camera _ io after _

@[simp] theorem scrubbed_camera (result : RtErr) : (c.scrubbed io result).camera = c.camera := by
  unfold scrubbed
  dsimp only
  split
  · exact cycleEnded_camera _ result
  · exact retract_camera _ io _

@[simp] theorem scrubWait_camera (left startMs : UInt32) (right : Bool) (baseYNs : UInt32) :
    (c.scrubWait io left startMs right baseYNs).camera = c.camera := by
  unfold scrubWait
  split
  · exact scrubbed_camera c io _
  · rfl

@[simp] theorem scrubLoop_camera (startMs : UInt32) (right : Bool) (baseYNs : UInt32) :
    (c.scrubLoop io startMs right baseYNs).camera = c.camera := by
  unfold scrubLoop
  dsimp only
  split_ifs <;> (try rw [scrubbed_camera]) <;> (try rw [scrubWait_camera]) <;> rfl

@[simp] theorem sprayed_camera (result : RtErr) (baseYNs : UInt32) :
    (c.sprayed io result baseYNs).camera = c.camera := by
  unfold sprayed
  dsimp only
  split_ifs
  · exact cycleEnded_camera _ result
  · exact cycleEnded_camera _ _
  · exact scrubLoop_camera _ io _ _ _

@[simp] theorem sprayDelay_camera (left baseYNs : UInt32) :
    (c.sprayDelay io left baseYNs).camera = c.camera := by
  unfold sprayDelay
  split_ifs
  · exact sprayed_camera c io _ _
  · exact sprayed_camera c io _ _
  · rfl

@[simp] theorem spray_camera (baseYNs : UInt32) : (c.spray io baseYNs).camera = c.camera := by
  unfold spray
  dsimp only
  split
  · exact cycleEnded_camera _ _
  · exact sprayDelay_camera _ io _ _

@[simp] theorem extendLoop_camera (startMs baseYNs yNs zNs : UInt32) :
    (c.extendLoop io startMs baseYNs yNs zNs).camera = c.camera := by
  unfold extendLoop
  dsimp only
  split_ifs <;> (try rw [cycleEnded_camera]) <;> (try rw [spray_camera]) <;> rfl

@[simp] theorem aimWait_camera (start : Tick) (stable : UInt8) :
    (c.aimWait io start stable).camera = c.camera := by
  unfold aimWait
  split
  · exact cycleEnded_camera c _
  · rfl

@[simp] theorem aimLoop_camera (start : Tick) (stable : UInt8) :
    (c.aimLoop io start stable).camera = c.camera := by
  unfold aimLoop
  dsimp only
  split_ifs <;> (try rw [cycleEnded_camera]) <;> (try rw [aimWait_camera]) <;>
    (try rw [extendLoop_camera]) <;> rfl

@[simp] theorem waitStainLoop_camera (start : Tick) :
    (c.waitStainLoop io start).camera = c.camera := by
  unfold waitStainLoop
  split_ifs
  · exact cycleEnded_camera c _
  · exact aimLoop_camera c io _ _
  · exact cycleEnded_camera c _
  · rfl

@[simp] theorem nextCycle_camera : (c.nextCycle io).camera = c.camera := by
  unfold nextCycle
  split
  · exact waitStainLoop_camera _ io _
  · rfl

@[simp] theorem beginRun_camera : (c.beginRun io).camera = c.camera := by
  unfold beginRun
  dsimp only
  split
  · rfl
  · exact nextCycle_camera _ io

theorem workerStep_camera {c k : Cleaner} {io : CleanerIo} (h : c.workerStep io = some k) :
    k.camera = c.camera := by
  unfold workerStep at h
  split at h
  case h_1 =>
    split at h
    · cases h
    · obtain rfl := Option.some.inj h
      exact beginRun_camera c io
  case h_7 left startMs right baseYNs _ =>
    obtain rfl := Option.some.inj h
    unfold scrubDelay
    split
    · exact scrubLoop_camera c io _ _ _
    · exact scrubWait_camera c io _ _ _ _
  all_goals
    obtain rfl := Option.some.inj h
    first
      | rfl
      | simp

end Cleaner

namespace CleanerSys

theorem step_camera {s t : CleanerSys} {i : Input}
    (hi : ∀ target now, i ≠ .updateCameraTarget target now) (hstep : s.step i = some t) :
    t.cleaner.camera = s.cleaner.camera := by
  cases i <;> simp only [step] at hstep
  case worker io =>
    obtain ⟨c, hc, rfl⟩ := Option.map_eq_some_iff.mp hstep
    exact Cleaner.workerStep_camera hc
  case updateCameraTarget target now => exact absurd rfl (hi target now)
  case updateGuard | emergencyStop => exact Option.some.inj hstep ▸ rfl
  case guardOutputs | stopOutputs =>
    split at hstep
    · cases hstep
    · exact Option.some.inj hstep ▸ rfl
  case start maxCycles =>
    split at hstep
    · obtain rfl := Option.some.inj hstep
      show (s.cleaner.start maxCycles).1.camera = s.cleaner.camera
      unfold Cleaner.start
      dsimp only
      split_ifs <;> rfl
    · cases hstep
  case reset =>
    split at hstep
    · obtain rfl := Option.some.inj hstep
      show s.cleaner.resetSection.camera = s.cleaner.camera
      unfold Cleaner.resetSection
      split <;> rfl
    · cases hstep
  case resetOutputs | resetTimeout =>
    split at hstep
    · exact Option.some.inj hstep ▸ rfl
    · cases hstep
  case resetClear =>
    split at hstep
    · split at hstep
      · cases hstep
      · exact Option.some.inj hstep ▸ rfl
    · cases hstep

end CleanerSys

end Hcics
