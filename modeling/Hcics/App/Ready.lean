import Hcics.App.Cameras
import Hcics.Track.Blind

/-!
# The camera-ready wait and the path start

`hcics_wait_track_camera` looks at `latest_track`, and accepts a frame of up to 2500 ms;
`hcics_track_start_path` looks at the tracker's own copy, which it refuses from 1501 ms on. The copies
differ while the camera thread has stored a frame and not yet handed it to the tracker.
-/

namespace Hcics.App

variable {s s' t : App}

/-- The two copies: they are the same but for a frame that is still to be handed on. -/
structure Copies (s : App) : Prop where
  settled : s.trackFrame = none → s.track.camera = s.latestTrack
  moving : ∀ frame, s.trackFrame = some frame →
    s.latestTrack = frame ∧ frame.mode = HCICS_CAM_MODE_TRACK

theorem Copies.of_same (h : Copies s) (hsame : SameFrames s s') : Copies s' := by
  obtain ⟨hlatest, hframe, htrack, -⟩ := hsame
  refine ⟨fun hnone => ?_, fun frame hsome => ?_⟩
  · rw [htrack, hlatest]
    exact h.settled (hframe.symm.trans hnone)
  · rw [hlatest]
    exact h.moving frame (hframe.symm.trans hsome)

theorem step_copies {i : Input} (hinit : s.track.initialized = true) (h : Copies s)
    (hstep : s.step i = some s') : Copies s' := by
  cases hi : i.ofCamera with
  | false => exact h.of_same (step_frames hi hstep)
  | true =>
    cases i with
    | trackCamera frame =>
      simp only [step] at hstep
      split at hstep
      · cases hstep
      · cases hstep
        refine ⟨(fun hnone => by cases hnone), fun frame' hsome => ?_⟩
        cases hsome
        exact ⟨rfl, rfl⟩
    | trackForward =>
      obtain ⟨frame, hframe, rfl⟩ := Option.map_eq_some_iff.mp hstep
      obtain ⟨hlatest, hmode⟩ := h.moving frame hframe
      refine ⟨fun _ => ?_, fun frame' hsome => by cases hsome⟩
      show (s.track.updateCamera frame).camera = s.latestTrack
      have hstores : s.track.storesFrame frame = true := by
        simp [Track.storesFrame, hmode, hinit]
      rw [Track.updateCamera, if_pos hstores, hlatest]
    | cleanCamera frame now =>
      obtain ⟨c, hc, rfl⟩ := cleanerStep_some hstep
      exact ⟨h.settled, h.moving⟩
    | mission | udp | control | worker | guard | guardOutputs => cases hi

theorem copies_of_reach {ok : App → Input → Prop} (h : machine.Reach ok s) : Copies s := by
  refine h.inv ?_ fun _ _ _ hr hs _ hstep => step_copies (inv_of_reach hr).tracker.1 hs hstep
  rintro _ ⟨pins, io, -, rfl⟩
  exact ⟨fun _ => rfl, fun frame hsome => by cases hsome⟩

/-- `hcics_wait_track_camera` returns `RT_EOK` to the mission, with the clock that `io` gives. -/
def Waited (s : App) (io : AppIo) (s' : App) : Prop :=
  ∃ msg phase startMs, s.link.mission = .running msg ∧ s.work = .cameraRecent phase startMs ∧
    s.step (.mission io) = some s' ∧ s'.work = .startPath phase

def NoFrame (_ : App) (i : Input) : Prop := ∀ frame, i ≠ .trackCamera frame

/-- What the tracker has been handed is good for a start. -/
def Startable (t : App) (now : Tick) : Prop :=
  match t.trackFrame with
  | none => tickToMs now - tickToMs t.latestTrack.tick ≤ Track.targetStaleMs
  | some _ => t.track.camera.tick ≠ 0 ∧ Track.Sees t.track.camera (tickToMs now)

theorem Waited.accepts {io : AppIo} (h : Waited s io s') :
    latestTrackRecent s'.latestTrack io.now lostCameraMs = true ∧ SameFrames s s' := by
  obtain ⟨msg, phase, startMs, hmission, hwork, hstep, hnext⟩ := h
  have hsame := step_frames rfl hstep
  rw [hsame.latestTrack]
  refine ⟨?_, hsame⟩
  simp only [step, stepMission, hmission, stepWork, hwork] at hstep
  obtain rfl := Option.some.inj hstep
  by_contra hold
  rw [if_neg hold] at hnext
  split at hnext <;> cases hnext

theorem run_latestTrack (hrun : machine.Run NoFrame s t) : t.latestTrack = s.latestTrack := by
  refine hrun.inv (P := fun t => t.latestTrack = s.latestTrack) rfl ?_
  intro t i u _ ht hno hstep
  rw [← ht]
  cases hi : i.ofCamera with
  | false => exact (step_frames hi hstep).latestTrack
  | true =>
    cases i with
    | trackCamera frame => exact absurd rfl (hno frame)
    | trackForward =>
      obtain ⟨frame, -, rfl⟩ := Option.map_eq_some_iff.mp hstep
      rfl
    | cleanCamera frame now =>
      change t.step (.cleanCamera frame now) = some u at hstep
      obtain ⟨c, -, rfl⟩ := cleanerStep_some hstep
      rfl
    | mission | udp | control | worker | guard | guardOutputs => cases hi

/-- A start is refused for the camera exactly on the frame that the tracker has. -/
theorem startPath_timeout {t : Track} {target : UInt8} {nowMs : UInt32}
    (hready : t.initialized = true ∧ t.setMotor = true)
    (hplan : (Track.planPath t.currentLocation target).2 = RT_EOK) :
    (t.startPath target nowMs).2 ≠ -RT_ETIMEOUT ↔ Track.targetRecent t.camera nowMs = true := by
  unfold Track.startPath
  rw [if_neg (by simp [Track.motorReady, hready])]
  by_cases hrecent : Track.targetRecent t.camera nowMs = true
  · rw [if_neg (by simp [hrecent])]
    dsimp only
    rw [if_neg (not_not.mpr hplan)]
    exact iff_of_true (show RT_EOK ≠ -RT_ETIMEOUT by decide) hrecent
  · rw [if_pos (by simpa using hrecent)]
    exact iff_of_false (not_not.mpr rfl) hrecent

theorem sees_of_latestTrackRecent {target : CameraTarget} {now : Tick}
    (h : latestTrackRecent target now lostCameraMs = true) :
    Track.targetRecent target (tickToMs now) = true ↔
      tickToMs now - tickToMs target.tick ≤ Track.targetStaleMs := by
  unfold latestTrackRecent at h
  split at h
  · cases h
  · next hgood =>
    have hgood' : ¬ (target.mode ≠ HCICS_CAM_MODE_TRACK ∨ target.tick = 0 ∨
      target.width < Track.minTargetW) := hgood
    rw [Track.targetRecent, if_neg hgood', decide_eq_true_eq]

/-- When the wait and the start agree. In every run in which `hcics_wait_track_camera` returned
`RT_EOK`, and no other frame arrived since and the clock did not advance, whatever else the threads
did: a start with a target that can be planned is not refused for the camera exactly where the frame
that the wait accepted is at most 1500 ms old, or, while the tracker has not been handed it, where the
one before it is good for a start. -/
theorem wait_start_agree {io : AppIo} {target : UInt8} (hs : machine.Reach Machine.free s)
    (hwait : Waited s io s') (hrun : machine.Run NoFrame s' t)
    (hplan : (Track.planPath t.track.currentLocation target).2 = RT_EOK) :
    (t.track.startPath target (tickToMs io.now)).2 ≠ -RT_ETIMEOUT ↔ Startable t io.now := by
  obtain ⟨haccepts, -⟩ := hwait.accepts
  obtain ⟨msg, phase, startMs, -, -, hstep, -⟩ := hwait
  have hs' : machine.Reach Machine.free s' := .step (i := .mission io) hs trivial hstep
  have ht : machine.Reach Machine.free t := hs'.run (hrun.mono fun _ _ _ => trivial)
  have hcopies := copies_of_reach ht
  rw [← run_latestTrack hrun] at haccepts
  rw [startPath_timeout (inv_of_reach ht).tracker hplan]
  unfold Startable
  cases hframe : t.trackFrame with
  | none =>
    rw [hcopies.settled hframe]
    exact sees_of_latestTrackRecent haccepts
  | some frame => exact Track.targetRecent_iff

/-- A mission before it looks at the track camera, whose only frame came at 1000 ms. -/
def looking : App :=
  (machine.exec boot (faultRun ++ nodeAt 1000 ++ missionAt 1000 10)).get (by decide +kernel)

/-- The mission after it looked at 3000 ms, and at 2000 ms. -/
def lookedLate : App := (looking.step (.mission { now := 3000 })).get (by decide +kernel)
def lookedSoon : App := (looking.step (.mission { now := 2000 })).get (by decide +kernel)

theorem looking_reach : machine.Reach Machine.free looking := .get boot_start _

theorem waited_late : Waited looking { now := 3000 } lookedLate :=
  ⟨panel1, .nav, 1000, by decide +kernel, by decide +kernel, (Option.some_get _).symm,
    by decide +kernel⟩

theorem waited_soon : Waited looking { now := 2000 } lookedSoon :=
  ⟨panel1, .nav, 1000, by decide +kernel, by decide +kernel, (Option.some_get _).symm,
    by decide +kernel⟩

/-- A frame of 2000 ms: the wait returns `RT_EOK`, and the start that follows it at once, with a
target that can be planned, is refused for the camera. -/
theorem wait_start_agree_late : machine.Reach Machine.free looking ∧
    Waited looking { now := 3000 } lookedLate ∧
    (Track.planPath lookedLate.track.currentLocation 1).2 = RT_EOK ∧
    (lookedLate.track.startPath 1 (tickToMs 3000)).2 = -RT_ETIMEOUT :=
  ⟨looking_reach, waited_late, by decide +kernel, by decide +kernel⟩

/-- A frame of 1000 ms is good for both. -/
theorem wait_start_agree_soon : (lookedSoon.track.startPath 1 (tickToMs 2000)).2 ≠ -RT_ETIMEOUT :=
  (wait_start_agree looking_reach waited_soon .refl (by decide +kernel)).mpr
    (by decide +kernel : tickToMs 2000 - tickToMs 1000 ≤ Track.targetStaleMs)

end Hcics.App
