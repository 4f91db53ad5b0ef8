import Hcics.App.Model
import Hcics.App.Reports
import Hcics.Cleaner.Stop
import Hcics.Motion.Latch
import Hcics.Track.Spec

/-!
# What a step of the application can do

Every step keeps the invariants of the three modules and of the link, and a path runs only while a
mission is in the loop of `hcics_follow_track_path` or about to stop it.
-/

namespace Hcics

/-! ## The motion module -/

namespace Drive

variable {d : Drive} {io : MotionIo}

/-- The motion module is initialised and its outputs agree with its latch. -/
structure Ready (d : Drive) : Prop where
  initialized : d.motion.initialized = true
  settled : Motion.Settled d.motion

theorem Ready.call (h : Ready d) (io : MotionIo) (op : Motion.Op) : Ready (d.call io op).1 := by
  obtain ⟨h1, h2, -⟩ := Motion.call_ready h.initialized h.settled io op
  exact ⟨h1, h2⟩

theorem Ready.latch (h : Ready d) : Ready d.latchMotionFault := ⟨h.initialized, h.settled⟩

theorem Ready.stays (h : Ready d) (hs : d.motion.emergencyStop = true) (io : MotionIo)
    {op : Motion.Op} (hop : op ≠ .clearEmergencyStop) :
    (d.call io op).1.motion.emergencyStop = true :=
  (Motion.call_ready h.initialized h.settled io op).2.2 hs hop

theorem Ready.setTarget_stopped (h : Ready d) (hs : d.motion.emergencyStop = true)
    (left right : Int16) : d.call io (.setTarget left right) = (d, -RT_ERROR) := by
  simp [Drive.call, Motion.call, Motion.setTarget,
    Motion.ensureInit_of_initialized h.initialized, hs]

theorem Ready.setTarget_free (h : Ready d) (hs : d.motion.emergencyStop = false)
    (left right : Int16) :
    d.call io (.setTarget left right) = ({ d with motion := { d.motion with
      targetLeft := Motion.normalizeTarget left
      targetRight := Motion.normalizeTarget right } }, RT_EOK) := by
  simp [Drive.call, Motion.call, Motion.setTarget,
    Motion.ensureInit_of_initialized h.initialized, hs]

theorem Ready.setMotor_stopped (h : Ready d) (hs : d.motion.emergencyStop = true)
    (command : Int16 × Int16) : d.setMotor io (some command) = d.latchMotionFault := by
  simp only [Drive.setMotor, h.setTarget_stopped hs]
  rfl

theorem Ready.setMotor_free (h : Ready d) (hs : d.motion.emergencyStop = false)
    (command : Int16 × Int16) :
    d.setMotor io (some command) = { d with motion := { d.motion with
      targetLeft := Motion.normalizeTarget command.1
      targetRight := Motion.normalizeTarget command.2 } } := by
  simp only [Drive.setMotor, h.setTarget_free hs]
  rfl

theorem Ready.setMotor (h : Ready d) (io : MotionIo) (command : Option (Int16 × Int16)) :
    Ready (d.setMotor io command) := by
  unfold Drive.setMotor
  split
  · exact h
  · dsimp only
    split
    · exact (h.call io _).latch
    · exact h.call io _

theorem Ready.zeroTargets (h : Ready d) (io : MotionIo) : Ready (d.zeroTargets io) := h.call io _

end Drive

/-! ## The link -/

theorem Link.stepUdp_mission (l : Link) (io : NetIo) : (l.stepUdp io).mission = l.mission := by
  have hcase := stepUdp_case l io
  generalize l.stepUdp io = l' at hcase ⊢
  cases hcase with
  | clear sock next report =>
    unfold clearPendingIfCurrent
    split <;> rfl
  | _ => rfl

/-- The path of the loop of `hcics_follow_track_path`, where the mission is in it. -/
def WorkPc.loop : WorkPc → Option Phase
  | .follow phase _ | .faultTest phase _ _ | .finishedTest phase _ _ | .status phase _ _
  | .cameraLost phase _ _ => some phase
  | _ => none

namespace App

variable {s s' : App} {io : AppIo} {msg : Msg}

/-! ## The invariant -/

/-- The mission is in the loop that follows a path, or about to stop it. -/
def Following (s : App) : Prop :=
  (∃ msg, s.link.mission = .running msg) ∧ (s.work.loop.isSome = true ∨ s.work = .stopPath)

structure Inv (s : App) : Prop where
  link : s.link.Inv
  cleaner : s.cleaner.Inv
  plan : s.track.PlanInv
  tracker : s.track.initialized = true ∧ s.track.setMotor = true
  drive : s.drive.Ready
  running : s.track.running = true → Following s

theorem Inv.stopped (h : Inv s) (hw : s.work.loop = none) (hstop : s.work ≠ .stopPath) :
    s.track.running = false := by
  by_contra hr
  rcases (h.running (by simpa using hr)).2 with hl | hl
  · rw [hw] at hl
    cases hl
  · exact hstop hl

theorem Inv.stopped_of_link (h : Inv s) (hm : ∀ msg, s.link.mission ≠ .running msg) :
    s.track.running = false := by
  by_contra hr
  obtain ⟨⟨msg, hmsg⟩, -⟩ := h.running (by simpa using hr)
  exact hm msg hmsg

/-- A step that leaves the track and the link alone and ends anywhere while no path runs. -/
theorem Inv.move (h : Inv s) (hr : s.track.running = false) {state : AppState} {d : Drive}
    {c : CleanerSys} {pc : WorkPc} {trace : List Event} (hd : d.Ready) (hc : c.Inv) :
    Inv { s with state := state, drive := d, cleaner := c, work := pc, trace := trace } :=
  ⟨h.link, hc, h.plan, h.tracker, hd, fun hrun => by
    rw [show s.track.running = true from hrun] at hr
    cases hr⟩

theorem Inv.goto (h : Inv s) (hr : s.track.running = false) (pc : WorkPc) : Inv (s.goto pc) :=
  h.move hr h.drive h.cleaner

theorem Inv.follow (h : Inv s) (hm : s.link.mission = .running msg) {pc : WorkPc}
    (hpc : pc.loop.isSome = true ∨ pc = .stopPath) : Inv (s.goto pc) :=
  ⟨h.link, h.cleaner, h.plan, h.tracker, h.drive, fun _ => ⟨⟨msg, hm⟩, hpc⟩⟩

theorem Inv.cleaned (h : Inv s) {c : CleanerSys} {i : CleanerSys.Input} {trace : List Event}
    (hc : s.cleaner.step i = some c) : Inv { s with cleaner := c, trace := trace } :=
  ⟨h.link, CleanerSys.step_inv h.cleaner hc, h.plan, h.tracker, h.drive, h.running⟩

theorem Inv.driven (h : Inv s) {d : Drive} {pc : ControlPc} (hd : d.Ready) :
    Inv { s with drive := d, control := pc } :=
  ⟨h.link, h.cleaner, h.plan, h.tracker, hd, h.running⟩

/-- A step of the link that leaves the mission thread where it is, or ends while no path runs. -/
theorem Inv.linked (h : Inv s) {l : Link} (hl : l.Inv)
    (hm : l.mission = s.link.mission ∨ s.track.running = false) : Inv { s with link := l } := by
  refine ⟨hl, h.cleaner, h.plan, h.tracker, h.drive, fun hr => ?_⟩
  rcases hm with hm | hm
  · obtain ⟨⟨msg, hmsg⟩, hw⟩ := h.running hr
    exact ⟨⟨msg, hm.trans hmsg⟩, hw⟩
  · rw [show s.track.running = true from hr] at hm
    cases hm

theorem stop_track (h : Inv s) : s.track.stop.1.initialized = true ∧
    s.track.stop.1.setMotor = true ∧ s.track.stop.1.running = false ∧
    s.track.stop.1.finished = false ∧ s.track.stop.2 = some (0, 0) := by
  simp [Track.stop, h.tracker.1, Track.motionSet, h.tracker.2]

theorem Inv.trackStop (h : Inv s) (io : AppIo) :
    Inv (s.trackStop io) ∧ (s.trackStop io).track.running = false := by
  obtain ⟨h1, h2, h3, -, -⟩ := stop_track h
  refine ⟨⟨h.link, h.cleaner, Track.stop_planInv h.plan, ⟨h1, h2⟩, h.drive.setMotor _ _, fun hr => ?_⟩,
    h3⟩
  rw [show s.track.stop.1.running = true from hr] at h3
  cases h3

theorem cleanerStep_some {i : CleanerSys.Input} (h : s.cleanerStep i = some s') :
    ∃ c, s.cleaner.step i = some c ∧ s' = { s with cleaner := c } := by
  obtain ⟨c, hc, rfl⟩ := Option.map_eq_some_iff.mp h
  exact ⟨c, hc, rfl⟩

theorem cleanerReset_case {next : ResetPart → WorkPc} {after : WorkPc} {part : ResetPart}
    (hstep : s.cleanerReset io next after part = some s') :
    s' = s ∨ ∃ i c pc, (i = .reset ∨ i = .resetOutputs io.cleaner ∨ i = .resetClear ∨
      i = .resetTimeout ∧ s.cleaner.cleaner.busy = true) ∧ s.cleaner.step i = some c ∧
      (pc = next .outputs ∨ pc = next .wait ∨ pc = after) ∧
      s' = { s with cleaner := c, work := pc } := by
  unfold cleanerReset at hstep
  split at hstep
  · obtain ⟨t, ht, rfl⟩ := Option.map_eq_some_iff.mp hstep
    obtain ⟨c, hc, rfl⟩ := cleanerStep_some ht
    exact .inr ⟨_, c, _, .inl rfl, hc, .inl rfl, rfl⟩
  · obtain ⟨t, ht, rfl⟩ := Option.map_eq_some_iff.mp hstep
    obtain ⟨c, hc, rfl⟩ := cleanerStep_some ht
    exact .inr ⟨_, c, _, .inr (.inl rfl), hc, .inr (.inl rfl), rfl⟩
  · split at hstep
    · rename_i t ht
      obtain ⟨c, hc, rfl⟩ := cleanerStep_some ht
      exact .inr ⟨_, c, _, .inr (.inr (.inl rfl)), hc, .inr (.inr rfl), (Option.some.inj hstep).symm⟩
    · rename_i hnone
      split at hstep
      · obtain ⟨t, ht, rfl⟩ := Option.map_eq_some_iff.mp hstep
        obtain ⟨c, hc, rfl⟩ := cleanerStep_some ht
        have hbusy := CleanerSys.busy_of_resetTimeout hc (Option.map_eq_none_iff.mp hnone)
        exact .inr ⟨_, c, _, .inr (.inr (.inr ⟨rfl, hbusy⟩)), hc, .inr (.inr rfl), rfl⟩
      · exact .inl (Option.some.inj hstep).symm

theorem Inv.cleanerReset (h : Inv s) (hr : s.track.running = false) {next : ResetPart → WorkPc}
    {after : WorkPc} {part : ResetPart} (hstep : s.cleanerReset io next after part = some s') :
    Inv s' := by
  rcases cleanerReset_case hstep with rfl | ⟨i, c, pc, -, hc, -, rfl⟩
  · exact h
  · exact h.move hr h.drive (CleanerSys.step_inv h.cleaner hc)

/-! ## The mission -/

theorem Inv.startPath (h : Inv s) (hm : s.link.mission = .running msg) (hr : s.track.running = false)
    (target : UInt8) (nowMs : UInt32) (phase : Phase) (startMs : UInt32) :
    Inv ({ s with track := (s.track.startPath target nowMs).1 }.goto
      (if (s.track.startPath target nowMs).2 ≠ RT_EOK then .endStop false
        else .follow phase startMs)) := by
  have hplan := Track.startPath_planInv h.plan hr target nowMs
  by_cases hres : (s.track.startPath target nowMs).2 = RT_EOK
  · obtain ⟨-, -, p, -, he⟩ := Track.startPath_ok hres
    rw [if_neg (not_not.mpr hres)]
    refine ⟨h.link, h.cleaner, hplan, ?_, h.drive, fun _ => ⟨⟨msg, hm⟩, .inl rfl⟩⟩
    rw [App.goto, he]
    exact h.tracker
  · rw [if_pos hres]
    rcases Track.startPath_err hres with he | ⟨p, he⟩
    · refine ⟨h.link, h.cleaner, hplan, ?_, h.drive, fun hrun => ?_⟩
      · rw [App.goto, he]
        exact h.tracker
      · rw [App.goto, he, hr] at hrun
        cases hrun
    · refine ⟨h.link, h.cleaner, hplan, ?_, h.drive, fun hrun => ?_⟩
      · rw [App.goto, he]
        exact h.tracker
      · rw [App.goto, he] at hrun
        rw [show s.track.running = true from hrun] at hr
        cases hr

theorem Inv.followWait (h : Inv s) (hm : s.link.mission = .running msg) (phase : Phase)
    (startMs nowMs : UInt32) : Inv (s.followWait phase startMs nowMs) := by
  unfold App.followWait
  split
  · exact h.follow hm (.inr rfl)
  · exact h.follow hm (.inl rfl)

/-- A finished path does not run. -/
theorem Inv.stopped_of_finished (h : Inv s) (hfin : s.track.isFinished = true) : s.track.running = false := by
  by_contra hr
  rw [Track.isFinished, (h.plan.underway (by simpa using hr)).unfinished, Bool.and_false] at hfin
  cases hfin

/-- The loop of `hcics_follow_track_path`, once `now_ms` is read. -/
theorem follow_inv (h : Inv s) (hm : s.link.mission = .running msg) {phase : Phase} {startMs nowMs : UInt32}
    (hw : s.work = .faultTest phase startMs nowMs ∨ s.work = .finishedTest phase startMs nowMs ∨
      s.work = .status phase startMs nowMs ∨ s.work = .cameraLost phase startMs nowMs)
    (hstep : s.stepWork msg io = some s') : Inv s' := by
  rcases hw with hw | hw | hw | hw <;> simp only [stepWork, hw] at hstep <;>
    obtain rfl := Option.some.inj hstep <;> split
  · exact h.follow hm (.inr rfl)
  · exact h.follow hm (.inl rfl)
  · rename_i hfin
    exact h.goto (h.stopped_of_finished hfin) _
  · exact h.follow hm (.inl rfl)
  · exact h.follow hm (.inl rfl)
  · exact h.followWait hm _ _ _
  · exact h.followWait hm _ _ _
  · exact h.follow hm (.inr rfl)

theorem stepWork_inv (h : Inv s) (hm : s.link.mission = .running msg)
    (hstep : s.stepWork msg io = some s') : Inv s' := by
  cases hw : s.work
  case faultTest => exact follow_inv h hm (.inl hw) hstep
  case finishedTest => exact follow_inv h hm (.inr (.inl hw)) hstep
  case status => exact follow_inv h hm (.inr (.inr (.inl hw))) hstep
  case cameraLost => exact follow_inv h hm (.inr (.inr (.inr hw))) hstep
  all_goals simp only [stepWork, hw] at hstep
  case follow phase startMs =>
    obtain rfl := Option.some.inj hstep
    split
    · exact h.follow hm (.inr rfl)
    · exact h.follow hm (.inl rfl)
  case stopPath =>
    obtain rfl := Option.some.inj hstep
    obtain ⟨hinv, hr⟩ := h.trackStop io
    exact hinv.goto hr _
  -- elsewhere no path runs
  all_goals have hr := h.stopped (by rw [hw]; rfl) (by rw [hw]; nofun)
  case begin =>
    obtain rfl := Option.some.inj hstep
    exact h.move hr ⟨h.drive.initialized, h.drive.settled⟩ h.cleaner
  case clearStop =>
    obtain rfl := Option.some.inj hstep
    have hd := h.drive.call io.motion .clearEmergencyStop
    exact h.move hr ⟨hd.initialized, hd.settled⟩ h.cleaner
  case resetMotion =>
    obtain rfl := Option.some.inj hstep
    exact h.move hr (h.drive.call _ _) h.cleaner
  case snapshot =>
    split at hstep <;> obtain rfl := Option.some.inj hstep
    · exact h.move hr ⟨h.drive.initialized, h.drive.settled⟩ h.cleaner
    · exact h.goto hr _
  case reset | endReset => exact h.cleanerReset hr hstep
  case navigate =>
    split at hstep <;> obtain rfl := Option.some.inj hstep
    · exact h.move hr h.drive h.cleaner
    · exact h.move hr h.drive h.cleaner
  case waitCamera | clean =>
    obtain rfl := Option.some.inj hstep
    split <;> exact h.goto hr _
  case cameraRecent phase startMs =>
    obtain rfl := Option.some.inj hstep
    split
    · exact h.goto hr _
    · split <;> exact h.goto hr _
  case startPath phase =>
    have hinv := h.startPath hm hr (target msg phase) (tickToMs io.now) phase (tickToMs io.now)
    split at hstep
    · rename_i hres
      rw [if_pos hres] at hinv
      exact Option.some.inj hstep ▸ hinv
    · rename_i hres
      rw [if_neg hres] at hinv
      exact Option.some.inj hstep ▸ hinv
  case zeroFailed | endZero =>
    obtain rfl := Option.some.inj hstep
    exact h.move hr (h.drive.zeroTargets _) h.cleaner
  case zeroFinished phase =>
    cases phase <;> obtain rfl := Option.some.inj hstep
    · exact h.move hr (h.drive.zeroTargets _) h.cleaner
    · exact h.move hr (h.drive.zeroTargets _) h.cleaner
  case parked left =>
    obtain rfl := Option.some.inj hstep
    split
    · exact h.move hr h.drive h.cleaner
    · split <;> exact h.goto hr _
  case startCleaner =>
    obtain ⟨t, ht, rfl⟩ := Option.map_eq_some_iff.mp hstep
    obtain ⟨c, hc, rfl⟩ := cleanerStep_some ht
    have hc := CleanerSys.step_inv h.cleaner hc
    split <;> exact h.move hr h.drive hc
  case cleanStatus startMs =>
    split at hstep <;> obtain rfl := Option.some.inj hstep
    · split <;> exact h.goto hr _
    · exact h.goto hr _
    · exact h.goto hr _
    · split <;> exact h.goto hr _
  case stopCleaner | stopCleanerOutputs =>
    obtain ⟨t, ht, rfl⟩ := Option.map_eq_some_iff.mp hstep
    obtain ⟨c, hc, rfl⟩ := cleanerStep_some ht
    exact h.move hr h.drive (CleanerSys.step_inv h.cleaner hc)
  case setReturn =>
    obtain rfl := Option.some.inj hstep
    exact h.move hr h.drive h.cleaner
  case endStop done =>
    obtain rfl := Option.some.inj hstep
    obtain ⟨hinv, hr⟩ := h.trackStop io
    exact hinv.goto hr _
  case endState done =>
    obtain rfl := Option.some.inj hstep
    exact (h.move hr h.drive h.cleaner).linked (Link.finish_inv h.link done) (.inr hr)

/-! ## The other threads -/

theorem tick_frame {t : Track} (now : UInt32) (line : Int16 × Int16) :
    (t.tick now line).1.initialized = t.initialized ∧ (t.tick now line).1.setMotor = t.setMotor ∧
      (t.tick now line).1.plannedPath = t.plannedPath ∧
      ((t.tick now line).1.running = true → t.running = true) := by
  by_cases hrun : t.initialized = true ∧ t.running = true
  · have hcase := Track.tick_case hrun.1 hrun.2 now line
    generalize t.tick now line = r at hcase ⊢
    rcases hcase with ⟨-, -⟩ | ⟨-, -, -⟩ | ⟨-, -, -⟩ | ⟨step, -, -, -, -⟩ | ⟨-, -⟩ | ⟨-, -, -, -, -⟩
    case node => cases step <;> exact ⟨rfl, rfl, rfl, fun _ => hrun.2⟩
    all_goals exact ⟨rfl, rfl, rfl, fun _ => hrun.2⟩
  · rw [Track.tick_idle (by simpa [← Bool.not_eq_true, imp_iff_not_or] using hrun)]
    exact ⟨rfl, rfl, rfl, id⟩

theorem stepControl_inv (h : Inv s) (io : AppIo) : Inv (s.stepControl io) := by
  unfold stepControl
  split
  · obtain ⟨h1, h2, -, h4⟩ := tick_frame (t := s.track) (tickToMs io.now) io.line
    exact ⟨h.link, h.cleaner, Track.tick_planInv h.plan _ _, ⟨h1.trans h.tracker.1, h2.trans h.tracker.2⟩,
      h.drive.setMotor _ _, fun hr => h.running (h4 hr)⟩
  · exact h.driven (h.drive.call io.motion .update)
  · exact h.driven h.drive.latch

theorem stopPart_frame {pc : StopPc} (hstep : s.stopPart io pc = some s') :
    s'.link = s.link ∧ s'.state = s.state ∧ s'.work = s.work := by
  cases pc <;> simp only [stopPart] at hstep
  case abort | track | motion => exact Option.some.inj hstep ▸ ⟨rfl, rfl, rfl⟩
  case cleaner | cleanerOutputs =>
    obtain ⟨c, -, rfl⟩ := cleanerStep_some hstep
    exact ⟨rfl, rfl, rfl⟩

theorem stopPart_inv (h : Inv s) {pc : StopPc} (hstep : s.stopPart io pc = some s') : Inv s' := by
  cases pc <;> simp only [stopPart] at hstep
  case abort =>
    obtain rfl := Option.some.inj hstep
    exact h.driven ⟨h.drive.initialized, h.drive.settled⟩
  case track =>
    obtain rfl := Option.some.inj hstep
    exact (h.trackStop io).1
  case cleaner | cleanerOutputs =>
    obtain ⟨c, hc, rfl⟩ := cleanerStep_some hstep
    exact h.cleaned hc
  case motion =>
    obtain rfl := Option.some.inj hstep
    exact h.driven (h.drive.call _ _)

/-- The UDP thread takes a part of the stop, where it is in one, and then its own step. -/
theorem stepUdp_case (hstep : s.stepUdp io = some s') :
    ∃ t, (t = s ∨ ∃ pc, s.stopPart io pc = some t) ∧ t.link = s.link ∧
      s' = { t with link := s.link.stepUdp io.net } := by
  unfold stepUdp at hstep
  split at hstep
  · rename_i pc _
    obtain ⟨t, ht, rfl⟩ := Option.map_eq_some_iff.mp hstep
    obtain ⟨hl, -, -⟩ := stopPart_frame ht
    exact ⟨t, .inr ⟨pc, ht⟩, hl, by rw [hl]⟩
  · exact ⟨s, .inl rfl, rfl, (Option.some.inj hstep).symm⟩

theorem stepMission_case (hstep : s.stepMission io = some s') :
    (∃ msg, s.link.mission = .running msg ∧ s.stepWork msg io = some s') ∨
      (∀ msg, s.link.mission ≠ .running msg) ∧ ∃ l state work trace,
        s.link.stepMission io.net = some l ∧
          s' = { s with link := l, state := state, work := work, trace := trace } := by
  unfold stepMission at hstep
  cases hm : s.link.mission <;> simp only [hm] at hstep
  case running msg => exact .inl ⟨msg, rfl, hstep⟩
  all_goals
    obtain ⟨l, hl, rfl⟩ := Option.map_eq_some_iff.mp hstep
    exact .inr ⟨by simp, l, _, _, _, hl, rfl⟩

theorem stepUdp_inv (h : Inv s) (hstep : s.stepUdp io = some s') : Inv s' := by
  obtain ⟨t, ht, hl, rfl⟩ := stepUdp_case hstep
  have hinv : Inv t := by
    rcases ht with rfl | ⟨pc, ht⟩
    · exact h
    · exact stopPart_inv h ht
  exact hinv.linked (Link.stepUdp_inv h.link io.net) (.inl (by rw [Link.stepUdp_mission, hl]))

theorem stepMission_inv (h : Inv s) (hstep : s.stepMission io = some s') : Inv s' := by
  rcases stepMission_case hstep with ⟨msg, hm, hstep⟩ | ⟨hm, l, state, work, trace, hl, rfl⟩
  · exact stepWork_inv h hm hstep
  · have hr := h.stopped_of_link hm
    exact ⟨Link.stepMission_inv h.link hl, h.cleaner, h.plan, h.tracker, h.drive,
      fun hrun => Bool.noConfusion (hr.symm.trans hrun)⟩

inductive StepCase (s : App) : Input → App → Prop where
  | mission {io : AppIo} {s' : App} (step : s.stepMission io = some s') : StepCase s (.mission io) s'
  | udp {io : AppIo} {s' : App} (step : s.stepUdp io = some s') : StepCase s (.udp io) s'
  | control (io : AppIo) : StepCase s (.control io) (s.stepControl io)
  | worker {io : CleanerIo} {c : CleanerSys} (step : s.cleaner.step (.worker io) = some c) :
      StepCase s (.worker io) { s with
        cleaner := c, trace := s.trace ++ workerEvents s.cleaner.cleaner c.cleaner }
  /-- A frame of the track camera is stored. -/
  | stored (frame : CameraTarget) : StepCase s (.trackCamera frame) { s with
      latestTrack := { frame with mode := HCICS_CAM_MODE_TRACK }
      trackFrame := some { frame with mode := HCICS_CAM_MODE_TRACK } }
  /-- The stored frame is handed to the tracker. -/
  | forwarded (frame : CameraTarget) : StepCase s .trackForward { s with
      track := s.track.updateCamera frame, trackFrame := none }
  /-- The clean camera or the guard calls the cleaner. -/
  | cleaner {i : Input} {j : CleanerSys.Input} {s' : App} (worker : ∀ io, j ≠ .worker io)
      (start : ∀ n, j ≠ .start n) (step : s.cleanerStep j = some s') : StepCase s i s'

theorem step_case {i : Input} (hstep : s.step i = some s') : StepCase s i s' := by
  cases i with
  | mission io => exact .mission hstep
  | udp io => exact .udp hstep
  | control io => exact Option.some.inj hstep ▸ .control io
  | worker io =>
    obtain ⟨c, hc, rfl⟩ := Option.map_eq_some_iff.mp hstep
    exact .worker hc
  | trackCamera frame =>
    simp only [step] at hstep
    split at hstep
    · cases hstep
    · exact Option.some.inj hstep ▸ .stored frame
  | trackForward =>
    obtain ⟨frame, -, rfl⟩ := Option.map_eq_some_iff.mp hstep
    exact .forwarded frame
  | cleanCamera frame now => exact .cleaner (by simp) (by simp) hstep
  | guard reading now => exact .cleaner (by simp) (by simp) hstep
  | guardOutputs io => exact .cleaner (by simp) (by simp) hstep

theorem step_inv {i : Input} (h : Inv s) (hstep : s.step i = some s') : Inv s' := by
  cases step_case hstep with
  | mission hstep => exact stepMission_inv h hstep
  | udp hstep => exact stepUdp_inv h hstep
  | control io => exact stepControl_inv h io
  | worker hc => exact h.cleaned hc
  | stored frame => exact ⟨h.link, h.cleaner, h.plan, h.tracker, h.drive, h.running⟩
  | forwarded frame =>
    have hframe := Track.updateCamera_planInv h.plan frame
    rw [Track.updateCamera_eq] at hframe ⊢
    exact ⟨h.link, h.cleaner, hframe, h.tracker, h.drive, h.running⟩
  | cleaner _ _ hstep =>
    obtain ⟨c, hc, rfl⟩ := cleanerStep_some hstep
    exact h.cleaned hc

theorem booted_inv {pins : Pins} {io : MotionIo} (h : ((Motion.boot pins).init io).2 = RT_EOK) :
    Inv (booted ((Motion.boot pins).init io).1) := by
  have hready : Drive.Ready ⟨((Motion.boot pins).init io).1, false, false, 0, false⟩ := by
    rw [show (Motion.boot pins).init io = (Motion.boot pins).ensureInit io from rfl] at h ⊢
    rcases Motion.ensureInit_cases (Motion.boot pins) io with
      ⟨hi, -⟩ | ⟨-, k, -, -, -, -, ⟨-, r, hr, he⟩ | ⟨hk, -, -, -, he⟩⟩
    · cases hi
    · rw [he] at h
      exact absurd h hr
    · rw [he]
      exact ⟨(Motion.output_initialized k io.initPwm io.cbResult 0 0).trans hk,
        Motion.output_settled io.initPwm io.cbResult fun _ => ⟨rfl, rfl⟩⟩
  exact ⟨Link.booted_inv, CleanerSys.booted_inv,
    ⟨fun hr => Bool.noConfusion hr, List.prefix_rfl⟩, ⟨rfl, rfl⟩, hready, fun hr => Bool.noConfusion hr⟩

theorem inv_of_reach {ok : App → Input → Prop} (h : machine.Reach ok s) : Inv s := by
  refine h.inv ?_ fun _ _ _ _ hs _ hstep => step_inv hs hstep
  rintro _ ⟨pins, io, hinit, rfl⟩
  exact booted_inv hinit

end App

end Hcics
