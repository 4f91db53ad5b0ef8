import Hcics.App.Link
import Hcics.Motion.Model
import Hcics.Track.Model
import Hcics.Cleaner.Model

/-!
# The application

`hcics_app.c` with its context `g_hcics` and the three modules it drives, after `hcics_app_init` has
started the threads. Missions and reports are the `Link`; here are the mission itself, the control
thread, `hcics_app_stop` and the camera and guard threads.

A step of a thread is one call of a public operation of a module, one section under `camera_lock`, one
access of `abort` or `motion_fault`, or the code between two of these. `WorkPc` is the place of the
mission in `hcics_run_mission`, with the local variables that are read again. Result codes that only
the log reads are left out. `faulted` and `trace` are history: whether the motion layer latched an
emergency stop of its own since the mission cleared it, and what the mission's modules achieved,
oldest first.
-/

namespace Hcics

/-- `hcics_state_t`. -/
inductive AppState where
  | idle | navToFault | parked | cleaning | verifyClear | returnHome | error
  deriving DecidableEq, Repr

inductive Phase where
  | nav | home
  deriving DecidableEq, Repr

/-- Where a `hcics_cleaner_reset` of the mission thread is. -/
inductive ResetPart where
  | mark | outputs | wait
  deriving DecidableEq, Repr

inductive WorkPc where
  /-- Before `abort` and `motion_fault` are cleared. -/
  | begin
  /-- Before `hcics_motion_clear_emergency_stop`. -/
  | clearStop
  /-- Before `hcics_motion_reset`. -/
  | resetMotion
  /-- Before the `hcics_motion_get_snapshot` that follows it. -/
  | snapshot
  /-- In the first `hcics_cleaner_reset`. -/
  | reset (part : ResetPart)
  /-- Before the state NAV_TO_FAULT. -/
  | navigate
  /-- At the head of the loop of `hcics_wait_track_camera`. -/
  | waitCamera (phase : Phase) (startMs : UInt32)
  /-- In that loop, before `hcics_latest_track_recent`. -/
  | cameraRecent (phase : Phase) (startMs : UInt32)
  /-- Before `hcics_track_start_path`. -/
  | startPath (phase : Phase)
  /-- At the head of the loop of `hcics_follow_track_path`. -/
  | follow (phase : Phase) (startMs : UInt32)
  /-- Before the test of `motion_fault`. -/
  | faultTest (phase : Phase) (startMs nowMs : UInt32)
  /-- Before `hcics_track_is_finished`. -/
  | finishedTest (phase : Phase) (startMs nowMs : UInt32)
  /-- Before `hcics_track_status`. -/
  | status (phase : Phase) (startMs nowMs : UInt32)
  /-- Before the `hcics_latest_track_recent` of a path on the line. -/
  | cameraLost (phase : Phase) (startMs nowMs : UInt32)
  /-- Before the `hcics_track_stop` of a path that failed. -/
  | stopPath
  /-- Before the `hcics_motion_set_target_direct` after it. -/
  | zeroFailed
  /-- Before the `hcics_motion_set_target_direct` of a path that is finished. -/
  | zeroFinished (phase : Phase)
  /-- In the parked delay, with `left` ms to go. -/
  | parked (left : UInt32)
  /-- Before `hcics_cleaner_start`. -/
  | startCleaner
  /-- At the head of the loop of `hcics_clean_panel`. -/
  | clean (startMs : UInt32)
  /-- Before `hcics_cleaner_get_status`. -/
  | cleanStatus (startMs : UInt32)
  /-- Before the section of `hcics_cleaner_emergency_stop`. -/
  | stopCleaner
  /-- Before its outputs. -/
  | stopCleanerOutputs
  /-- Before the state RETURN_HOME. -/
  | setReturn
  /-- Before the `hcics_track_stop` of `hcics_safe_stop_outputs`. -/
  | endStop (done : Bool)
  /-- In its `hcics_cleaner_reset`. -/
  | endReset (done : Bool) (part : ResetPart)
  /-- Before its `hcics_motion_set_target_direct`. -/
  | endZero (done : Bool)
  /-- Before the state IDLE or ERROR. -/
  | endState (done : Bool)
  deriving DecidableEq, Repr

inductive ControlPc where
  | tick
  | update
  /-- After a failed update, before `hcics_latch_motion_fault`. -/
  | latch
  deriving DecidableEq, Repr

/-- What a mission's modules achieved. -/
inductive Event where
  /-- The tracker finished a path; `whole` is whether it had begun every step of it. -/
  | pathFinished (destination : UInt8) (whole : Bool)
  /-- `hcics_cleaner_start` returned `RT_EOK`; `run` counts the successful starts. -/
  | cleanerStarted (run : Nat)
  /-- `hcics_cleaner_verify_clear` returned `RT_EOK` in that run. -/
  | cleanerVerified (run : Nat)
  deriving DecidableEq, Repr

/-- The motion module with the flags of `hcics_context_t` that its faults set, and its history. -/
structure Drive where
  motion : Motion
  abort : Bool
  motionFault : Bool
  motionFaultReason : UInt8
  faulted : Bool
  deriving DecidableEq, Repr

/-- `hcics_context_t`, the modules and the threads. `trackFrame` is the frame the camera thread has
stored and not yet handed on. -/
structure App where
  state : AppState
  latestTrack : CameraTarget
  drive : Drive
  track : Track
  cleaner : CleanerSys
  link : Link
  work : WorkPc
  control : ControlPc
  trackFrame : Option CameraTarget
  trace : List Event
  deriving DecidableEq, Repr

/-- What a step reads of the hardware and the clock; `giveUp` is whether `hcics_cleaner_wait_not_busy`
times out. -/
structure AppIo where
  now : Tick := 0
  line : Int16 × Int16 := (0, 0)
  motion : MotionIo := {}
  cleaner : CleanerIo := { now := 0 }
  net : NetIo := {}
  giveUp : Bool := false

/-! ## The motion module -/

namespace Drive

/-- A call of the motion module. A stop that any call but `hcics_motion_emergency_stop` latches is a
fault of its own. -/
def call (d : Drive) (io : MotionIo) (op : Motion.Op) : Drive × RtErr :=
  let (motion, result) := d.motion.call io op
  let fault := match op with
    | .emergencyStop _ => false
    | _ => !d.motion.emergencyStop && motion.emergencyStop
  ({ d with motion := motion, faulted := d.faulted || fault }, result)

/-- The reason for `hcics_latch_motion_fault` that the snapshot of the motion module gives. -/
def snapshotReason (d : Drive) : UInt8 := if d.motion.stopReason ≠ 0 then d.motion.stopReason else 0xE0

def latchMotionFault (d : Drive) : Drive :=
  { d with
    motionFaultReason := if d.motionFault then d.motionFaultReason else d.snapshotReason
    motionFault := true
    abort := true }

/-- `hcics_track_set_motor`, where the tracker gives a command. -/
def setMotor (d : Drive) (io : MotionIo) (command : Option (Int16 × Int16)) : Drive :=
  match command with
  | none => d
  | some (left, right) =>
    let (d, result) := d.call io (.setTarget left right)
    if result ≠ RT_EOK then d.latchMotionFault else d

/-- `hcics_motion_set_target_direct(0, 0)`, whose result is ignored. -/
def zeroTargets (d : Drive) (io : MotionIo) : Drive := (d.call io (.setTargetDirect 0 0)).1

end Drive

namespace App

/-! ## Limits -/

abbrev cleanMaxCycles : UInt8 := 3
abbrev navTimeoutMs : UInt32 := 120000
abbrev waitCameraMs : UInt32 := 5000
abbrev lostCameraMs : UInt32 := 2500
abbrev minCameraW : UInt8 := 3
abbrev cleanTimeoutMs : UInt32 := 60000
/-- The delay in PARKED. -/
abbrev parkedMs : UInt32 := 500
/-- The reason `hcics_udp_thread` gives `hcics_app_stop`. -/
abbrev stopReason : UInt8 := 0xDD

def trackStop (s : App) (io : AppIo) : App :=
  { s with track := s.track.stop.1, drive := s.drive.setMotor io.motion s.track.stop.2 }

/-- `hcics_motion_set_target_direct(0, 0)` in the mission. -/
def zeroTargets (s : App) (io : AppIo) : App := { s with drive := s.drive.zeroTargets io.motion }

/-! ## Camera -/

def latestTrackRecent (target : CameraTarget) (now : Tick) (maxAgeMs : UInt32) : Bool :=
  if target.mode ≠ HCICS_CAM_MODE_TRACK ∨ target.tick = 0 ∨ target.width < minCameraW then false
  else decide (tickToMs now - tickToMs target.tick ≤ maxAgeMs)

def trackStateRequiresCamera (state : TrackState) : Bool := decide (state = .line)

/-! ## The control thread -/

/-- What the trace records of a step of the tracker from `t` to `t'`. -/
def trackEvents (t t' : Track) : List Event :=
  if !t.finished && t'.finished then
    [.pathFinished t'.plannedPath.destination (decide (t'.pathBegun = t'.plannedPath.steps))]
  else []

def trackTick (s : App) (io : AppIo) : App :=
  let (track, command) := s.track.tick (tickToMs io.now) io.line
  { s with
    track := track
    drive := s.drive.setMotor io.motion command
    trace := s.trace ++ trackEvents s.track track }

def stepControl (s : App) (io : AppIo) : App :=
  match s.control with
  | .tick => { s.trackTick io with control := .update }
  | .update =>
    let (drive, result) := s.drive.call io.motion .update
    { s with drive := drive, control := if result ≠ RT_EOK then .latch else .tick }
  | .latch => { s with drive := s.drive.latchMotionFault, control := .tick }

/-! ## The mission -/

def goto (s : App) (pc : WorkPc) : App := { s with work := pc }

def cleanerStep (s : App) (i : CleanerSys.Input) : Option App :=
  (s.cleaner.step i).map fun cleaner => { s with cleaner := cleaner }

/-- The target of a path: the panel of the fault by `hcics_fault_to_track_target`, or home. -/
def target (msg : Msg) : Phase → UInt8
  | .nav =>
    if faultIsValid msg.fault && decide (Track.targetMin ≤ msg.fault.id) &&
        decide (msg.fault.id ≤ Track.targetMax) then msg.fault.id
    else Track.targetHome
  | .home => Track.targetHome

def followWait (s : App) (phase : Phase) (startMs nowMs : UInt32) : App :=
  if nowMs - startMs ≥ navTimeoutMs then s.goto .stopPath else s.goto (.follow phase startMs)

/-- A part of `hcics_cleaner_reset`, and where it goes on. While the worker is busy its wait polls
every 20 ms. -/
def cleanerReset (s : App) (io : AppIo) (next : ResetPart → WorkPc) (after : WorkPc) :
    ResetPart → Option App
  | .mark => (s.cleanerStep .reset).map (goto · (next .outputs))
  | .outputs => (s.cleanerStep (.resetOutputs io.cleaner)).map (goto · (next .wait))
  | .wait =>
    match s.cleanerStep .resetClear with
    | some s => some (s.goto after)
    | none =>
      if io.giveUp then (s.cleanerStep .resetTimeout).map (goto · after) else some s

def stepWork (s : App) (msg : Msg) (io : AppIo) : Option App :=
  match s.work with
  | .begin =>
    some { s with
      drive := { s.drive with abort := false, motionFault := false, motionFaultReason := 0 }
      work := .clearStop }
  | .clearStop =>
    some { s with
      drive := { (s.drive.call io.motion .clearEmergencyStop).1 with faulted := false }
      work := .resetMotion }
  | .resetMotion =>
    some { s with drive := (s.drive.call io.motion .reset).1, work := .snapshot }
  | .snapshot =>
    if s.drive.motion.emergencyStop then
      some { s with
        drive := { s.drive with motionFault := true, motionFaultReason := s.drive.snapshotReason }
        work := .endStop false }
    else some (s.goto (.reset .mark))
  | .reset part => s.cleanerReset io .reset .navigate part
  | .navigate =>
    let s := { s with state := .navToFault }
    if target msg .nav = Track.targetHome then some (s.goto (.endStop false))
    else some (s.goto (.waitCamera .nav (tickToMs io.now)))
  | .waitCamera phase startMs =>
    some (if s.drive.abort then s.goto (.endStop false) else s.goto (.cameraRecent phase startMs))
  | .cameraRecent phase startMs =>
    some (if latestTrackRecent s.latestTrack io.now lostCameraMs then s.goto (.startPath phase)
      else if tickToMs io.now - startMs ≥ waitCameraMs then s.goto (.endStop false)
      else s.goto (.waitCamera phase startMs))
  | .startPath phase =>
    let (track, result) := s.track.startPath (target msg phase) (tickToMs io.now)
    let s := { s with track := track }
    some (if result ≠ RT_EOK then s.goto (.endStop false)
      else s.goto (.follow phase (tickToMs io.now)))
  | .follow phase startMs =>
    some (if s.drive.abort then s.goto .stopPath else s.goto (.faultTest phase startMs (tickToMs io.now)))
  | .faultTest phase startMs nowMs =>
    some (if s.drive.motionFault then s.goto .stopPath else s.goto (.finishedTest phase startMs nowMs))
  | .finishedTest phase startMs nowMs =>
    some (if s.track.isFinished then s.goto (.zeroFinished phase)
      else s.goto (.status phase startMs nowMs))
  | .status phase startMs nowMs =>
    some (if trackStateRequiresCamera s.track.visualMissionState then
        s.goto (.cameraLost phase startMs nowMs)
      else s.followWait phase startMs nowMs)
  | .cameraLost phase startMs nowMs =>
    some (if latestTrackRecent s.latestTrack io.now lostCameraMs then s.followWait phase startMs nowMs
      else s.goto .stopPath)
  | .stopPath => some ((s.trackStop io).goto .zeroFailed)
  | .zeroFailed => some ((s.zeroTargets io).goto (.endStop false))
  | .zeroFinished .nav => some ({ s.zeroTargets io with state := .parked }.goto (.parked parkedMs))
  | .zeroFinished .home => some ((s.zeroTargets io).goto (.endStop true))
  | .parked left =>
    some (if left = 0 then { s with state := .cleaning }.goto .startCleaner
      else if s.drive.abort then s.goto (.endStop false)
      else s.goto (.parked (if left ≥ 50 then left - 50 else 0)))
  | .startCleaner =>
    let started := decide ((s.cleaner.cleaner.start cleanMaxCycles).2 = RT_EOK)
    (s.cleanerStep (.start cleanMaxCycles)).map fun s =>
      if started then
        { s with
          trace := s.trace ++ [Event.cleanerStarted s.cleaner.cleaner.starts]
          work := .clean (tickToMs io.now) }
      else s.goto (.endStop false)
  | .clean startMs => some (if s.drive.abort then s.goto .stopCleaner else s.goto (.cleanStatus startMs))
  | .cleanStatus startMs =>
    match s.cleaner.cleaner.state with
    | .done =>
      some (if s.cleaner.cleaner.lastResult ≠ RT_EOK then s.goto (.endStop false)
        else s.goto .setReturn)
    | .error | .stopped => some (s.goto (.endStop false))
    | _ =>
      some (if tickToMs io.now - startMs ≥ cleanTimeoutMs then s.goto .stopCleaner
        else s.goto (.clean startMs))
  | .stopCleaner => (s.cleanerStep .emergencyStop).map (goto · .stopCleanerOutputs)
  | .stopCleanerOutputs =>
    (s.cleanerStep (.stopOutputs io.cleaner)).map (goto · (.endStop false))
  | .setReturn => some ({ s with state := .returnHome }.goto (.waitCamera .home (tickToMs io.now)))
  | .endStop done => some ((s.trackStop io).goto (.endReset done .mark))
  | .endReset done part => s.cleanerReset io (.endReset done) (.endZero done) part
  | .endZero done => some ((s.zeroTargets io).goto (.endState done))
  | .endState done =>
    some { s with state := if done then .idle else .error, link := s.link.finish done }

/-- The mission thread's next step. A mission begins when its fault is taken from the queue; after
its release the state is IDLE. -/
def stepMission (s : App) (io : AppIo) : Option App :=
  match s.link.mission with
  | .running msg => s.stepWork msg io
  | .recv => (s.link.stepMission io.net).map fun link =>
    { s with link := link, work := .begin, trace := [] }
  | .release _ _ => (s.link.stepMission io.net).map fun link =>
    { s with link := link, state := .idle }
  | _ => (s.link.stepMission io.net).map fun link => { s with link := link }

/-! ## The UDP thread -/

def stopPart (s : App) (io : AppIo) : StopPc → Option App
  | .abort => some { s with drive := { s.drive with abort := true } }
  | .track => some (s.trackStop io)
  | .cleaner => s.cleanerStep .emergencyStop
  | .cleanerOutputs => s.cleanerStep (.stopOutputs io.cleaner)
  | .motion => some { s with drive := (s.drive.call io.motion (.emergencyStop stopReason)).1 }

def stepUdp (s : App) (io : AppIo) : Option App :=
  match s.link.udp with
  | .stop _ pc => (s.stopPart io pc).map fun s => { s with link := s.link.stepUdp io.net }
  | _ => some { s with link := s.link.stepUdp io.net }

/-! ## The application as a machine -/

/-- A step of one thread. The camera threads force the mode of a frame to their own. -/
inductive Input where
  | mission (io : AppIo)
  | udp (io : AppIo)
  | control (io : AppIo)
  | worker (io : CleanerIo)
  /-- `hcics_app_update_camera` stores a frame of the track camera. -/
  | trackCamera (frame : CameraTarget)
  /-- It hands the frame to the tracker. -/
  | trackForward
  /-- `hcics_forward_clean_camera`. -/
  | cleanCamera (frame : CameraTarget) (now : Tick)
  /-- The guard thread publishes. -/
  | guard (reading : CleanerGuard) (now : Tick)
  | guardOutputs (io : CleanerIo)

/-- What the trace records of a step of the cleaner's worker. -/
def workerEvents (c c' : Cleaner) : List Event :=
  if c.verified = c'.verified then [] else [.cleanerVerified c'.starts]

/-- `hcics_forward_clean_camera`. -/
def cleanTarget (frame : CameraTarget) : CleanerTarget :=
  ⟨HCICS_CAM_MODE_CLEAN, frame.x, frame.y, frame.width, frame.type, decide (frame.width > 0),
    frame.tick⟩

def step (s : App) : Input → Option App
  | .mission io => s.stepMission io
  | .udp io => s.stepUdp io
  | .control io => some (s.stepControl io)
  | .worker io =>
    (s.cleaner.step (.worker io)).map fun cleaner =>
      { s with
        cleaner := cleaner
        trace := s.trace ++ workerEvents s.cleaner.cleaner cleaner.cleaner }
  | .trackCamera frame =>
    match s.trackFrame with
    | some _ => none
    | none =>
      let frame := { frame with mode := HCICS_CAM_MODE_TRACK }
      some { s with latestTrack := frame, trackFrame := some frame }
  | .trackForward =>
    s.trackFrame.map fun frame =>
      { s with track := s.track.updateCamera frame, trackFrame := none }
  | .cleanCamera frame now => s.cleanerStep (.updateCameraTarget (cleanTarget frame) now)
  | .guard reading now => s.cleanerStep (.updateGuard reading now)
  | .guardOutputs io => s.cleanerStep (.guardOutputs io)

/-- The application after `hcics_app_init`, with the motion module as its own init left it. -/
def booted (motion : Motion) : App where
  state := .idle
  latestTrack := ⟨0, 0, 0, 0, 0, 0⟩
  drive := ⟨motion, false, false, 0, false⟩
  track := (Track.zeroed.init (some true) RT_EOK).1
  cleaner := ⟨Cleaner.booted, 0, 0, .none⟩
  link := Link.booted
  work := .begin
  control := .tick
  trackFrame := none
  trace := []

/-- The application under every order of its threads' steps. -/
def machine : Machine App Input where
  start s := ∃ pins io, ((Motion.boot pins).init io).2 = RT_EOK ∧
    s = booted ((Motion.boot pins).init io).1
  step := step

end App

end Hcics
