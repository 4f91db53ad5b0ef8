import Hcics.Basic
import Hcics.Lib.Transition

/-!
# The cleaner

`hcics_cleaner.c` with its context `g_cleaner`, as `hcics_cleaner_init` leaves it with the default
configuration. Sections under the module's mutex are single operations.

The worker thread is cut at its delays: `WorkerPc` says in which delay it is and holds the local
variables that survive it, and `workerStep` runs the code from there to the next delay. Two points
of `hcics_cleaner_run_mission`, the head of its loop and the retry after a failed cycle, are cuts as
well, and so are the sections that end a run. Every relay write, axis command and pose is recorded
in `actions`, newest first; the hardware answers the one with `n` before it with `io.result n`.
-/

namespace Hcics

/-- `hcics_cleaner_camera_target_t`. -/
structure CleanerTarget where
  mode : UInt8
  x : UInt16
  y : UInt16
  width : UInt8
  type : UInt8
  valid : Bool
  tick : Tick
  deriving DecidableEq, Repr

structure CleanerGuard where
  tofMm : UInt16
  tofValid : Bool
  contact : Bool
  forceStop : Bool
  tick : Tick
  deriving DecidableEq, Repr

inductive CleanerState where
  | idle | aiming | extending | spraying | scrubbing | verifying | retracting | done | stopped | error
  deriving DecidableEq, Repr

inductive CleanerAction where
  | relay (on : Bool)
  | axis
  | pose (yNs zNs : UInt32)
  deriving DecidableEq, Repr

/-- Where `hcics_cleaner_retract` returns to: to the cycle, which verifies, or to the retry. -/
inductive AfterRetract where
  | verify | retry
  deriving DecidableEq, Repr

inductive WorkerPc where
  /-- In `rt_sem_take`. -/
  | idle
  /-- At the head of the loop of `hcics_cleaner_run_mission`. -/
  | nextCycle
  /-- In the delay of `hcics_cleaner_wait_stain`. -/
  | waitStain (start : Tick)
  /-- In the delay of `hcics_cleaner_aim`. -/
  | aim (start : Tick) (stable : UInt8)
  /-- In the delay of `hcics_cleaner_extend_z`. -/
  | extend (startMs : UInt32) (baseYNs yNs zNs : UInt32)
  /-- In the delay of `hcics_cleaner_spray`, with `left` ms left after it. -/
  | spray (left : UInt32) (baseYNs : UInt32)
  /-- In the delay of `hcics_cleaner_scrub`, with `left` ms left after it. -/
  | scrub (left : UInt32) (startMs : UInt32) (right : Bool) (baseYNs : UInt32)
  /-- In the delay of the ramp of `hcics_cleaner_retract`. -/
  | ramp (zNs : UInt32) (after : AfterRetract)
  /-- In the last delay of `hcics_cleaner_retract`, with `left` ms left after it. -/
  | settle (left : UInt32) (after : AfterRetract)
  /-- In the delay of `hcics_cleaner_verify_clear`. -/
  | verify (start clearStart : Tick) (clearActive : Bool)
  /-- Before the retract that follows a failed cycle. -/
  | retry
  /-- After `hcics_cleaner_run_mission`, before `stop_requested` is read. -/
  | ended (result : RtErr)
  /-- Before the safe outputs that end the run. -/
  | closing (result : RtErr) (stopped : Bool)
  /-- Before the section that releases the cleaner. -/
  | releasing (result : RtErr) (stopped : Bool)
  deriving DecidableEq, Repr

/-- `hcics_cleaner_context_t` and the worker. `runCycle` and `runMax` are the locals `cycle` and
`max_cycles` of `hcics_cleaner_run_mission`; `starts` counts the successful starts and `verified`
lists the runs, by that count, whose `hcics_cleaner_verify_clear` returned `RT_EOK`. -/
structure Cleaner where
  busy : Bool
  stopRequested : Bool
  relayOn : Bool
  lastResult : RtErr
  state : CleanerState
  cycle : UInt8
  maxCycles : UInt8
  yPulseNs : UInt32
  zPulseNs : UInt32
  camera : CleanerTarget
  guard : CleanerGuard
  startSem : Nat
  worker : WorkerPc
  runCycle : UInt8
  runMax : UInt8
  actions : List CleanerAction
  starts : Nat
  verified : List Nat
  deriving DecidableEq, Repr

/-- The tick of an operation and the results of the hardware. -/
structure CleanerIo where
  now : Tick
  result : Nat → RtErr := fun _ => RT_EOK

namespace Cleaner

/-! ## Limits and the default configuration -/

abbrev ySafeNs : UInt32 := 1860000
abbrev yCenterNs : UInt32 := 1550000
abbrev yMinNs : UInt32 := 270000
abbrev yMaxNs : UInt32 := 1950000
abbrev zRetractNs : UInt32 := 2200000
abbrev zExtendNs : UInt32 := 1000000
abbrev zWashNs : UInt32 := 1100000
abbrev targetStaleMs : Tick := 1200
abbrev waitTargetMs : Tick := 6000
abbrev aimTimeoutMs : Tick := 3000
abbrev verifyClearMs : Tick := 1800
/-- `HCICS_CLEANER_MAX_CYCLES`. -/
abbrev defaultMaxCycles : UInt8 := 3
abbrev minTargetW : UInt8 := 3
abbrev maxTargetW : UInt8 := 250
abbrev cameraCenterX : Int := 320
abbrev brushTargetY : Int := 350
abbrev lockErrX : Int := 130
abbrev lockErrY : Int := 55
abbrev yNsPerPx : Int := 1000
abbrev ySweepNs : UInt32 := 180000
abbrev zStepNs : UInt32 := 12000
abbrev sprayMs : UInt32 := 900
abbrev scrubMs : UInt32 := 2200
abbrev scrubStepMs : UInt32 := 160
abbrev retractMs : UInt32 := 600
abbrev zExtendTimeoutMs : UInt32 := 1800
abbrev guardStaleMs : Tick := 300
abbrev tofDangerMm : UInt16 := 50
abbrev tofWashEnterMm : UInt16 := 69
abbrev washHardDangerMm : UInt16 := 46
abbrev tofInvalidMm : UInt16 := 0xFFFF

/-! ## Hardware -/

def clampU32 (value minValue maxValue : UInt32) : UInt32 :=
  if value < minValue then minValue else if value > maxValue then maxValue else value

def moveToward (current target step : UInt32) : UInt32 :=
  if current < target then (if current + step > target then target else current + step)
  else if current > target then (if current - target ≤ step then target else current - step)
  else current

def act (c : Cleaner) (a : CleanerAction) : Cleaner := { c with actions := a :: c.actions }

def setState (c : Cleaner) (state : CleanerState) : Cleaner := { c with state := state }

def relay (c : Cleaner) (on : Bool) : Cleaner := { c with relayOn := on }.act (.relay on)

def axis (c : Cleaner) (io : CleanerIo) : Cleaner × RtErr := (c.act .axis, io.result c.actions.length)

/-- `hcics_cleaner_apply_pose`; the result stands for the four PWM calls. -/
def applyPose (c : Cleaner) (io : CleanerIo) (yNs zNs : UInt32) : Cleaner × RtErr :=
  let yNs := clampU32 yNs yMinNs yMaxNs
  let zNs := clampU32 zNs zExtendNs zRetractNs
  ({ c with yPulseNs := yNs, zPulseNs := zNs }.act (.pose yNs zNs), io.result c.actions.length)

def safeOutputs (c : Cleaner) (io : CleanerIo) : Cleaner × RtErr :=
  let c := c.relay false
  let (c, axisResult) := c.axis io
  let (c, poseResult) := c.applyPose io ySafeNs zRetractNs
  (c, if axisResult ≠ RT_EOK then axisResult else poseResult)

/-! ## Camera and guard -/

def cameraIsFresh (target : CleanerTarget) (now : Tick) : Bool :=
  target.valid && decide (target.tick ≠ 0) && decide (now - target.tick ≤ targetStaleMs)

def cleanFrameIsFresh (target : CleanerTarget) (now : Tick) : Bool :=
  decide (target.mode = HCICS_CAM_MODE_CLEAN) && decide (target.tick ≠ 0) &&
    decide (now - target.tick ≤ targetStaleMs)

def targetIsStain (target : CleanerTarget) (now : Tick) : Bool :=
  cameraIsFresh target now && decide (target.mode = HCICS_CAM_MODE_CLEAN) &&
    !(decide (target.x = 0) || decide (target.y = 0) || decide (target.x > 640) ||
      decide (target.y > 480)) &&
    !(decide (target.width < minTargetW) || decide (target.width > maxTargetW))

def yFromTarget (target : CleanerTarget) : UInt32 :=
  let yNs := 1550000 + ((target.y.toNat : Int) - brushTargetY) * yNsPerPx
  clampU32 (UInt32.ofInt yNs) yMinNs yMaxNs

def targetLocked (target : CleanerTarget) : Bool :=
  decide (((target.x.toNat : Int) - cameraCenterX).natAbs ≤ lockErrX ∧
    ((target.y.toNat : Int) - brushTargetY).natAbs ≤ lockErrY)

def guardIsFresh (guard : CleanerGuard) (now : Tick) : Bool :=
  decide (guard.tick ≠ 0) && decide (now - guard.tick ≤ guardStaleMs)

def guardForcesRetract (c : Cleaner) (io : CleanerIo) (washing : Bool) : Bool :=
  if c.guard.forceStop then true
  else if !guardIsFresh c.guard io.now then true
  else if !c.guard.tofValid then true
  else if c.guard.tofMm ≤ washHardDangerMm then true
  else !washing && decide (c.guard.tofMm ≤ tofDangerMm)

def surfaceReached (c : Cleaner) (io : CleanerIo) : Bool :=
  guardIsFresh c.guard io.now &&
    (c.guard.contact || (c.guard.tofValid && decide (c.guard.tofMm ≤ tofWashEnterMm)))

/-! ## The worker

Each definition is the code of one function from the point it names to the next delay, in the order
of the calls: a definition goes on to those before it. -/

/-- Enter a delay, or another cut of the worker. -/
def goto (c : Cleaner) (pc : WorkerPc) : Cleaner := { c with worker := pc }

/-- The ms left after the next delay of `hcics_cleaner_delay_abortable`. -/
def afterDelay (left : UInt32) : UInt32 := if left ≥ 40 then left - 40 else 0

/-- `hcics_cleaner_run_once` returned: the run ends or, after an error, is retried. -/
def cycleEnded (c : Cleaner) (result : RtErr) : Cleaner :=
  if result = RT_EOK ∨ result = -RT_EINTR then c.goto (.ended result) else c.goto .retry

def verifyWait (c : Cleaner) (io : CleanerIo) (start clearStart : Tick) (clearActive : Bool) :
    Cleaner :=
  if io.now - start ≥ waitTargetMs then c.cycleEnded (-RT_ETIMEOUT)
  else c.goto (.verify start clearStart clearActive)

def verifyLoop (c : Cleaner) (io : CleanerIo) (start clearStart : Tick) (clearActive : Bool) :
    Cleaner :=
  if c.stopRequested then c.cycleEnded (-RT_EINTR)
  else if c.guardForcesRetract io true then c.cycleEnded (-RT_EINTR)
  else if !cleanFrameIsFresh c.camera io.now then c.verifyWait io start clearStart false
  else if targetIsStain c.camera io.now then c.verifyWait io start io.now false
  else
    let clearStart := if clearActive then clearStart else io.now
    if io.now - clearStart ≥ verifyClearMs then
      { c with verified := c.starts :: c.verified }.cycleEnded RT_EOK
    else c.verifyWait io start clearStart true

/-- `hcics_cleaner_retract` returned. -/
def retracted (c : Cleaner) (io : CleanerIo) (after : AfterRetract) (result : RtErr) : Cleaner :=
  match after with
  | .verify =>
    if result ≠ RT_EOK then c.cycleEnded result
    else (c.setState .verifying).verifyLoop io io.now io.now false
  | .retry => if result ≠ RT_EOK then c.goto (.ended result) else c.goto .nextCycle

/-- The last delay of `hcics_cleaner_retract`, whose result is ignored. -/
def settleLoop (c : Cleaner) (io : CleanerIo) (after : AfterRetract) (left : UInt32) : Cleaner :=
  if left = 0 ∨ c.stopRequested then c.retracted io after RT_EOK
  else c.goto (.settle (afterDelay left) after)

def rampLoop (c : Cleaner) (io : CleanerIo) (after : AfterRetract) (zNs : UInt32) : Cleaner :=
  if zNs = zRetractNs then c.settleLoop io after retractMs
  else
    let zNs := moveToward zNs zRetractNs (zStepNs * 2)
    let (c, result) := c.applyPose io ySafeNs zNs
    if result ≠ RT_EOK then c.retracted io after result else c.goto (.ramp zNs after)

def retract (c : Cleaner) (io : CleanerIo) (after : AfterRetract) : Cleaner :=
  let (c, result) := ((c.setState .retracting).relay false).axis io
  if result ≠ RT_EOK then c.retracted io after result else c.rampLoop io after c.zPulseNs

/-- `hcics_cleaner_scrub` returned. -/
def scrubbed (c : Cleaner) (io : CleanerIo) (result : RtErr) : Cleaner :=
  let c := c.relay false
  if result ≠ RT_EOK then c.cycleEnded result else c.retract io .verify

/-- The delay of `hcics_cleaner_scrub`, with `left` ms to go. -/
def scrubWait (c : Cleaner) (io : CleanerIo) (left startMs : UInt32) (right : Bool)
    (baseYNs : UInt32) : Cleaner :=
  if c.stopRequested || c.guardForcesRetract io true then c.scrubbed io (-RT_EINTR)
  else c.goto (.scrub (afterDelay left) startMs right baseYNs)

/-- The Y pulse of a sweep to one side. -/
def sweepYNs (right : Bool) (baseYNs : UInt32) : UInt32 :=
  clampU32 (if right then baseYNs + ySweepNs else baseYNs - ySweepNs) yMinNs yMaxNs

def scrubLoop (c : Cleaner) (io : CleanerIo) (startMs : UInt32) (right : Bool) (baseYNs : UInt32) :
    Cleaner :=
  if c.stopRequested then c.scrubbed io (-RT_EINTR)
  else if c.guardForcesRetract io true then c.scrubbed io (-RT_EINTR)
  else
    let (c, result) := c.applyPose io (sweepYNs right baseYNs) zWashNs
    if result ≠ RT_EOK then c.scrubbed io result
    else
      let (c, result) := c.axis io
      if result ≠ RT_EOK then c.scrubbed io result
      else if tickToMs io.now - startMs ≥ scrubMs then c.scrubbed io RT_EOK
      else c.scrubWait io scrubStepMs startMs (!right) baseYNs

/-- A chunk of the delay of `hcics_cleaner_scrub` is over. -/
def scrubDelay (c : Cleaner) (io : CleanerIo) (left startMs : UInt32) (right : Bool)
    (baseYNs : UInt32) : Cleaner :=
  if left = 0 then c.scrubLoop io startMs right baseYNs
  else c.scrubWait io left startMs right baseYNs

def scrub (c : Cleaner) (io : CleanerIo) (baseYNs : UInt32) : Cleaner :=
  (c.relay true).scrubLoop io (tickToMs io.now) true baseYNs

/-- The end of `hcics_cleaner_spray`, after its delay. -/
def sprayed (c : Cleaner) (io : CleanerIo) (result : RtErr) (baseYNs : UInt32) : Cleaner :=
  let c := c.relay false
  if result ≠ RT_EOK then c.cycleEnded result
  else if c.guardForcesRetract io true then c.cycleEnded (-RT_EINTR)
  else (c.setState .scrubbing).scrub io baseYNs

def sprayDelay (c : Cleaner) (io : CleanerIo) (left baseYNs : UInt32) : Cleaner :=
  if left = 0 then c.sprayed io RT_EOK baseYNs
  else if c.stopRequested || c.guardForcesRetract io true then c.sprayed io (-RT_EINTR) baseYNs
  else c.goto (.spray (afterDelay left) baseYNs)

def spray (c : Cleaner) (io : CleanerIo) (baseYNs : UInt32) : Cleaner :=
  let c := c.setState .spraying
  if c.guardForcesRetract io true then c.cycleEnded (-RT_EINTR)
  else (c.relay true).sprayDelay io sprayMs baseYNs

/-- The Y pulse that follows the stain, where one is seen. -/
def followYNs (c : Cleaner) (io : CleanerIo) (yNs : UInt32) : UInt32 :=
  if targetIsStain c.camera io.now then yFromTarget c.camera else yNs

def extendLoop (c : Cleaner) (io : CleanerIo) (startMs baseYNs yNs zNs : UInt32) : Cleaner :=
  if c.stopRequested then c.cycleEnded (-RT_EINTR)
  else if c.guardForcesRetract io false then c.cycleEnded (-RT_EINTR)
  else
    let yNs := c.followYNs io yNs
    let zNs := moveToward zNs zWashNs zStepNs
    let (c, result) := c.applyPose io yNs zNs
    if result ≠ RT_EOK then c.cycleEnded result
    else if c.surfaceReached io then c.spray io baseYNs
    else if zNs = zWashNs then c.cycleEnded (-RT_ERROR)
    else if tickToMs io.now - startMs ≥ zExtendTimeoutMs then c.cycleEnded (-RT_ETIMEOUT)
    else c.goto (.extend startMs baseYNs yNs zNs)

def aimWait (c : Cleaner) (io : CleanerIo) (start : Tick) (stable : UInt8) : Cleaner :=
  if io.now - start ≥ aimTimeoutMs then c.cycleEnded (-RT_ETIMEOUT) else c.goto (.aim start stable)

def aimLoop (c : Cleaner) (io : CleanerIo) (start : Tick) (stable : UInt8) : Cleaner :=
  if c.stopRequested then c.cycleEnded (-RT_EINTR)
  else if !targetIsStain c.camera io.now then c.aimWait io start 0
  else
    let target := c.camera
    let (c, result) := c.applyPose io (yFromTarget target) zRetractNs
    if result ≠ RT_EOK then c.cycleEnded result
    else
      let (c, result) := c.axis io
      if result ≠ RT_EOK then c.cycleEnded result
      else if !targetLocked target then c.aimWait io start 0
      else if stable + 1 ≥ 3 then
        (c.setState .extending).extendLoop io (tickToMs io.now) (yFromTarget target)
          (yFromTarget target) zRetractNs
      else c.aimWait io start (stable + 1)

def waitStainLoop (c : Cleaner) (io : CleanerIo) (start : Tick) : Cleaner :=
  if c.stopRequested then c.cycleEnded (-RT_EINTR)
  else if targetIsStain c.camera io.now then c.aimLoop io io.now 0
  else if io.now - start ≥ waitTargetMs then c.cycleEnded (-RT_ETIMEOUT)
  else c.goto (.waitStain start)

def nextCycle (c : Cleaner) (io : CleanerIo) : Cleaner :=
  if c.runCycle < c.runMax then
    ({ c with cycle := c.runCycle + 1, runCycle := c.runCycle + 1 }.setState .aiming).waitStainLoop io
      io.now
  else c.goto (.ended (-RT_ERROR))

/-- `hcics_cleaner_worker` takes the semaphore. -/
def beginRun (c : Cleaner) (io : CleanerIo) : Cleaner :=
  let (c, result) := { c with startSem := c.startSem - 1 }.safeOutputs io
  if result ≠ RT_EOK then c.goto (.ended result)
  else { c with runCycle := 0, runMax := c.maxCycles }.nextCycle io

def release (c : Cleaner) (result : RtErr) (stopped : Bool) : Cleaner :=
  { c with
    lastResult := result
    busy := false
    state := if stopped then .stopped else if result = RT_EOK then .done else .error }.goto .idle

def workerStep (c : Cleaner) (io : CleanerIo) : Option Cleaner :=
  match c.worker with
  | .idle => if c.startSem = 0 then none else some (c.beginRun io)
  | .nextCycle => some (c.nextCycle io)
  | .waitStain start => some (c.waitStainLoop io start)
  | .aim start stable => some (c.aimLoop io start stable)
  | .extend startMs baseYNs yNs zNs => some (c.extendLoop io startMs baseYNs yNs zNs)
  | .spray left baseYNs => some (c.sprayDelay io left baseYNs)
  | .scrub left startMs right baseYNs => some (c.scrubDelay io left startMs right baseYNs)
  | .ramp zNs after => some (c.rampLoop io after zNs)
  | .settle left after => some (c.settleLoop io after left)
  | .verify start clearStart clearActive => some (c.verifyLoop io start clearStart clearActive)
  | .retry => some (c.retract io .retry)
  | .ended result => some (c.goto (.closing result c.stopRequested))
  | .closing result stopped => some ((c.safeOutputs io).1.goto (.releasing result stopped))
  | .releasing result stopped => some (c.release result stopped)

/-! ## Public operations -/

def updateCameraTarget (c : Cleaner) (target : CleanerTarget) (now : Tick) : Cleaner :=
  { c with camera := if target.tick = 0 then { target with tick := now } else target }

/-- The section of `hcics_cleaner_update_guard`; safe outputs follow where `force_stop` is set. -/
def updateGuard (c : Cleaner) (guard : CleanerGuard) (now : Tick) : Cleaner :=
  let snapshot := if guard.tick = 0 then { guard with tick := now } else guard
  let snapshot := if snapshot.tofMm = tofInvalidMm then { snapshot with tofValid := false } else snapshot
  { c with guard := snapshot, stopRequested := c.stopRequested || snapshot.forceStop }

abbrev semValueMax : Nat := 65535

def start (c : Cleaner) (maxCycles : UInt8) : Cleaner × RtErr :=
  if c.busy then (c, -RT_EBUSY)
  else
    let c := { c with
      busy := true
      stopRequested := false
      lastResult := RT_EOK
      cycle := 0
      maxCycles := if maxCycles = 0 then defaultMaxCycles else maxCycles
      state := .aiming }
    if c.startSem ≥ semValueMax then
      ({ c with
          busy := false
          stopRequested := true
          lastResult := -RT_EFULL
          state := .error }.relay false, -RT_EFULL)
    else ({ c with startSem := c.startSem + 1, starts := c.starts + 1 }, RT_EOK)

/-- The section of `hcics_cleaner_emergency_stop`; safe outputs follow. -/
def stopSection (c : Cleaner) : Cleaner := { c with stopRequested := true, state := .stopped }

/-- The first section of `hcics_cleaner_reset`; safe outputs follow. -/
def resetSection (c : Cleaner) : Cleaner := if c.busy then c.stopSection else c

def resetClear (c : Cleaner) : Cleaner :=
  { c with
    busy := false, stopRequested := false, lastResult := RT_EOK, cycle := 0, state := .idle }

/-- What follows the section of `hcics_cleaner_emergency_stop`, or the first of
`hcics_cleaner_reset`: safe outputs and a stop of the axis. -/
def stopOutputs (c : Cleaner) (io : CleanerIo) : Cleaner := ((c.safeOutputs io).1.axis io).1

/-- What follows the section of `hcics_cleaner_update_guard` where `force_stop` is set. -/
def guardOutputs (c : Cleaner) (io : CleanerIo) : Cleaner := (c.safeOutputs io).1

/-- The module after `hcics_cleaner_init`. -/
def booted : Cleaner where
  busy := false
  stopRequested := false
  relayOn := false
  lastResult := RT_EOK
  state := .idle
  cycle := 0
  maxCycles := defaultMaxCycles
  yPulseNs := ySafeNs
  zPulseNs := zRetractNs
  camera := ⟨0, 0, 0, 0, 0, false, 0⟩
  guard := ⟨tofInvalidMm, false, false, false, 0⟩
  startSem := 0
  worker := .idle
  runCycle := 0
  runMax := 0
  actions := [.pose ySafeNs zRetractNs, .axis, .relay false]
  starts := 0
  verified := []

end Cleaner

/-! ## The module as a machine -/

/-- Where the caller of `hcics_cleaner_reset` is; `wasBusy` is its local. -/
inductive ResetPc where
  | none
  | marked (wasBusy : Bool)
  | waiting (wasBusy : Bool)
  deriving DecidableEq, Repr

/-- The module with its callers. The mission thread alone calls start and reset, one after the
other; emergency stops and guard updates come from any thread, and their outputs follow the section
that sets the flag as a step of their own. -/
structure CleanerSys where
  cleaner : Cleaner
  /-- Emergency stops whose outputs are to come. -/
  stops : Nat
  /-- Guard updates with `force_stop` whose outputs are to come. -/
  guards : Nat
  reset : ResetPc
  deriving DecidableEq, Repr

namespace CleanerSys

inductive Input where
  | worker (io : CleanerIo)
  | updateCameraTarget (target : CleanerTarget) (now : Tick)
  | updateGuard (guard : CleanerGuard) (now : Tick)
  | guardOutputs (io : CleanerIo)
  | emergencyStop
  | stopOutputs (io : CleanerIo)
  | start (maxCycles : UInt8)
  | reset
  | resetOutputs (io : CleanerIo)
  | resetClear
  | resetTimeout

def step (s : CleanerSys) : Input → Option CleanerSys
  | .worker io => (s.cleaner.workerStep io).map fun c => { s with cleaner := c }
  | .updateCameraTarget target now =>
    some { s with cleaner := s.cleaner.updateCameraTarget target now }
  | .updateGuard guard now =>
    some { s with
      cleaner := s.cleaner.updateGuard guard now
      guards := if guard.forceStop then s.guards + 1 else s.guards }
  | .guardOutputs io =>
    if s.guards = 0 then none
    else some { s with cleaner := s.cleaner.guardOutputs io, guards := s.guards - 1 }
  | .emergencyStop => some { s with cleaner := s.cleaner.stopSection, stops := s.stops + 1 }
  | .stopOutputs io =>
    if s.stops = 0 then none
    else some { s with cleaner := s.cleaner.stopOutputs io, stops := s.stops - 1 }
  | .start maxCycles =>
    match s.reset with
    | .none => some { s with cleaner := (s.cleaner.start maxCycles).1 }
    | _ => none
  | .reset =>
    match s.reset with
    | .none => some { s with cleaner := s.cleaner.resetSection, reset := .marked s.cleaner.busy }
    | _ => none
  | .resetOutputs io =>
    match s.reset with
    | .marked wasBusy => some { s with cleaner := s.cleaner.stopOutputs io, reset := .waiting wasBusy }
    | _ => none
  | .resetClear =>
    match s.reset with
    | .waiting wasBusy =>
      if wasBusy && s.cleaner.busy then none
      else some { s with cleaner := s.cleaner.resetClear, reset := .none }
    | _ => none
  | .resetTimeout =>
    match s.reset with
    | .waiting true => some { s with reset := .none }
    | _ => none

/-- The module under every order of the worker's and the callers' steps. -/
def machine : Machine CleanerSys Input where
  start s := s = ⟨Cleaner.booted, 0, 0, .none⟩
  step := step

end CleanerSys

end Hcics
