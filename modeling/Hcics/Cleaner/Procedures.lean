import Hcics.Cleaner.Runs
import Hcics.Lib.Polling

/-!
# The cleaning procedures

The functions of `hcics_cleaner.c` that make up a run of the worker, for any configuration. What they
share with other threads, the stop flag, the camera and the guard, they read anew in every round of
their loops, with the clock: a round reads one `Look`, whose fields may change from round to round in
any way. A pose makes four PWM calls, each with a result of its own. The commands of `hcics_axis.c`
are what they ask of the motor.

`poses`, `commands` and `mission` are history, newest first: the poses applied, the commands given to
the axis, and what `hcics_cleaner_run_mission` did.
-/

namespace Hcics

/-! ## The axis -/

/-- What a command of `hcics_axis.c` asks of the motor. -/
inductive AxisCommand where
  | stop
  | move (positive : Bool) (pulses : UInt32)
  deriving DecidableEq, Repr

namespace Axis

abbrev centerDeadbandPx : Nat := 18
abbrev pulsesPerPixel : UInt32 := 6
abbrev centerMaxPulses : UInt32 := 1200
abbrev sweepPulses : UInt32 := 700

def movePulses (positive : Bool) (pulses : UInt32) : AxisCommand :=
  if pulses = 0 then .stop else .move positive pulses

def centerFromError (errorX : Int) : AxisCommand :=
  if errorX.natAbs ≤ centerDeadbandPx then .stop
  else
    let pulses := UInt32.ofNat errorX.natAbs * pulsesPerPixel
    movePulses (decide (errorX > 0)) (if pulses > centerMaxPulses then centerMaxPulses else pulses)

def sweepStep (positive : Bool) : AxisCommand := movePulses positive sweepPulses

end Axis

/-! ## What the procedures read -/

/-- The results of the four PWM calls of `hcics_cleaner_apply_pose`; a call that is not made has
one that is not read. -/
structure PwmCalls where
  ySet : RtErr
  yEnable : RtErr
  zSet : RtErr
  zEnable : RtErr
  deriving DecidableEq, Repr

/-- What `hcics_cleaner_apply_pose` returns. -/
def PwmCalls.result (calls : PwmCalls) : RtErr :=
  if calls.ySet ≠ RT_EOK then calls.ySet
  else if calls.yEnable ≠ RT_EOK then calls.yEnable
  else if calls.zSet ≠ RT_EOK then calls.zSet
  else if calls.zEnable ≠ RT_EOK then calls.zEnable
  else RT_EOK

/-- What a round of a loop reads: the clock at its head and again at its end, in ms since boot, the
shared data, and the results of the hardware. -/
structure Look where
  now : Nat
  later : Nat
  stop : Bool
  camera : CleanerTarget
  guard : CleanerGuard
  /-- The guard as it is read again at the end of a round. -/
  surface : CleanerGuard
  axis : RtErr
  pwm : PwmCalls
  deriving DecidableEq, Repr

namespace Look

/-- `rt_tick_get` at the head of the round. -/
def tick (l : Look) : Tick := UInt32.ofNat l.now

/-- `rt_tick_get` at its end. -/
def laterTick (l : Look) : Tick := UInt32.ofNat l.later

/-- A look at which all is well: no blob in the picture, 60 mm to the surface, and hardware that
works. -/
def calm (now : Nat) : Look where
  now := now
  later := now
  stop := false
  camera := ⟨HCICS_CAM_MODE_CLEAN, 0, 0, 0, 0, false, UInt32.ofNat (now - 20)⟩
  guard := ⟨60, true, false, false, UInt32.ofNat (now - 20)⟩
  surface := ⟨60, true, false, false, UInt32.ofNat (now - 20)⟩
  axis := RT_EOK
  pwm := ⟨RT_EOK, RT_EOK, RT_EOK, RT_EOK⟩

end Look

/-- `hcics_cleaner_guard_forces_retract`. -/
def CleanerGuard.forcesRetract (guard : CleanerGuard) (now : Tick) (washing : Bool) : Bool :=
  if guard.forceStop then true
  else if !Cleaner.guardIsFresh guard now then true
  else if !guard.tofValid then true
  else if guard.tofMm ≤ Cleaner.washHardDangerMm then true
  else !washing && decide (guard.tofMm ≤ Cleaner.tofDangerMm)

def CleanerGuard.surfaceReached (guard : CleanerGuard) (now : Tick) : Bool :=
  Cleaner.guardIsFresh guard now &&
    (guard.contact || (guard.tofValid && decide (guard.tofMm ≤ Cleaner.tofWashEnterMm)))

/-! ## What they write -/

/-- A call of `hcics_cleaner_apply_pose`, with the pulses as clamped. -/
structure PoseCall where
  yNs : UInt32
  zNs : UInt32
  calls : PwmCalls
  deriving DecidableEq, Repr

/-- What `hcics_cleaner_run_mission` did. -/
inductive MissionEvent where
  /-- `hcics_cleaner_run_once` entered AIMING, with this recorded. -/
  | aiming (relayOn : Bool) (zPulseNs : UInt32)
  /-- `hcics_cleaner_verify_clear` returned. -/
  | verified (result : RtErr)
  /-- `hcics_cleaner_run_once` returned. -/
  | ran (result : RtErr)
  /-- The retract after a failed cycle returned. -/
  | retracted (result : RtErr)
  deriving DecidableEq, Repr

/-- What the procedures write of `hcics_cleaner_context_t`, and its configuration. -/
structure Gimbal where
  config : SaneConfig
  state : CleanerState
  cycle : UInt8
  relayOn : Bool
  yPulseNs : UInt32
  zPulseNs : UInt32
  poses : List PoseCall
  commands : List AxisCommand
  mission : List MissionEvent
  deriving DecidableEq, Repr

namespace Gimbal

open Cleaner (clampU32 moveToward targetIsStain cleanFrameIsFresh targetLocked afterDelay)

def setState (g : Gimbal) (state : CleanerState) : Gimbal := { g with state := state }

def relay (g : Gimbal) (on : Bool) : Gimbal := { g with relayOn := on }

def axis (g : Gimbal) (command : AxisCommand) : Gimbal :=
  { g with commands := command :: g.commands }

def log (g : Gimbal) (event : MissionEvent) : Gimbal := { g with mission := event :: g.mission }

def applyPose (g : Gimbal) (calls : PwmCalls) (yNs zNs : UInt32) : Gimbal × RtErr :=
  let yNs := clampU32 yNs g.config.yMinNs g.config.yMaxNs
  let zNs := clampU32 zNs g.config.zExtendNs g.config.zRetractNs
  ({ g with yPulseNs := yNs, zPulseNs := zNs, poses := ⟨yNs, zNs, calls⟩ :: g.poses }, calls.result)

def safeOutputs (g : Gimbal) (l : Look) : Gimbal × RtErr :=
  let g := (g.relay false).axis .stop
  let (g, poseResult) := g.applyPose l.pwm g.config.ySafeNs g.config.zRetractNs
  (g, if l.axis ≠ RT_EOK then l.axis else poseResult)

/-- `hcics_cleaner_y_from_target`; the sum is that of 32-bit words. -/
def yFromTarget (config : SaneConfig) (target : CleanerTarget) : UInt32 :=
  let errY := (target.y.toNat : Int) - Cleaner.brushTargetY
  clampU32 (UInt32.ofInt (config.yCenterNs.toNat + errY * Cleaner.yNsPerPx))
    config.yMinNs config.yMaxNs

/-- The Y pulse of a sweep of `hcics_cleaner_scrub` to one side. -/
def sweepYNs (config : SaneConfig) (right : Bool) (baseYNs : UInt32) : UInt32 :=
  clampU32 (if right then baseYNs + Cleaner.ySweepNs else baseYNs - Cleaner.ySweepNs)
    config.yMinNs config.yMaxNs

/-- The module after `hcics_cleaner_init`, with the history still to come. -/
def booted (config : SaneConfig) : Gimbal where
  config := config
  state := .idle
  cycle := 0
  relayOn := false
  yPulseNs := config.ySafeNs
  zPulseNs := config.zRetractNs
  poses := []
  commands := []
  mission := []

/-! ## The loops

Each is one round of a loop: the state after it and, where the function returns there, its result. -/

/-- The loop of `hcics_cleaner_delay_abortable`, with `left` ms to go. -/
def delayRound (checkGuard washing : Bool) (left : UInt32) (l : Look) : UInt32 × Option Bool :=
  if left = 0 then (left, some true)
  else if l.stop then (left, some false)
  else if checkGuard && l.guard.forcesRetract l.tick washing then (left, some false)
  else (afterDelay left, none)

def waitStainRound (start : Tick) (l : Look) : Option (Except RtErr CleanerTarget) :=
  if l.stop then some (.error (-RT_EINTR))
  else if targetIsStain l.camera l.tick then some (.ok l.camera)
  else if l.laterTick - start ≥ Cleaner.waitTargetMs then some (.error (-RT_ETIMEOUT))
  else none

def aimWait (start : Tick) (l : Look) : Option (Except RtErr CleanerTarget) :=
  if l.laterTick - start ≥ Cleaner.aimTimeoutMs then some (.error (-RT_ETIMEOUT)) else none

/-- The loop of `hcics_cleaner_aim`, with its local `stable`. -/
def aimRound (start : Tick) (s : Gimbal × UInt8) (l : Look) :
    (Gimbal × UInt8) × Option (Except RtErr CleanerTarget) :=
  let (g, stable) := s
  if l.stop then (s, some (.error (-RT_EINTR)))
  else if !targetIsStain l.camera l.tick then ((g, 0), aimWait start l)
  else
    let errX := (l.camera.x.toNat : Int) - Cleaner.cameraCenterX
    let (g, result) := g.applyPose l.pwm (yFromTarget g.config l.camera) g.config.zRetractNs
    if result ≠ RT_EOK then ((g, stable), some (.error result))
    else
      let g := g.axis (Axis.centerFromError errX)
      if l.axis ≠ RT_EOK then ((g, stable), some (.error l.axis))
      else if !targetLocked l.camera then ((g, 0), aimWait start l)
      else if stable + 1 ≥ 3 then ((g, stable + 1), some (.ok l.camera))
      else ((g, stable + 1), aimWait start l)

/-- The loop of `hcics_cleaner_extend_z`, with its variables `y_ns` and `z_ns`. -/
def extendRound (startMs : UInt32) (s : Gimbal × UInt32 × UInt32) (l : Look) :
    (Gimbal × UInt32 × UInt32) × Option RtErr :=
  let (g, yNs, zNs) := s
  if l.stop then (s, some (-RT_EINTR))
  else if l.guard.forcesRetract l.tick false then (s, some (-RT_EINTR))
  else
    let yNs := if targetIsStain l.camera l.tick then yFromTarget g.config l.camera else yNs
    let zNs := moveToward zNs g.config.zWashNs Cleaner.zStepNs
    let (g, result) := g.applyPose l.pwm yNs zNs
    if result ≠ RT_EOK then ((g, yNs, zNs), some result)
    else if l.surface.surfaceReached l.laterTick then ((g, yNs, zNs), some RT_EOK)
    else if zNs = g.config.zWashNs then ((g, yNs, zNs), some (-RT_ERROR))
    else if tickToMs l.laterTick - startMs ≥ Cleaner.zExtendTimeoutMs then
      ((g, yNs, zNs), some (-RT_ETIMEOUT))
    else ((g, yNs, zNs), none)

/-- The loop of `hcics_cleaner_scrub`, with its local `right` and the `left` ms of the delay at its
end, whose rounds are rounds of the loop. -/
def scrubRound (startMs baseYNs : UInt32) (s : Gimbal × Bool × UInt32) (l : Look) :
    (Gimbal × Bool × UInt32) × Option RtErr :=
  let (g, right, left) := s
  if left ≠ 0 then
    match delayRound true true left l with
    | (left, some _) => ((g, right, left), some (-RT_EINTR))
    | (left, none) => ((g, right, left), none)
  else if l.stop then (s, some (-RT_EINTR))
  else if l.guard.forcesRetract l.tick true then (s, some (-RT_EINTR))
  else
    let (g, result) := g.applyPose l.pwm (sweepYNs g.config right baseYNs) g.config.zWashNs
    if result ≠ RT_EOK then ((g, right, left), some result)
    else
      let g := g.axis (Axis.sweepStep right)
      if l.axis ≠ RT_EOK then ((g, right, left), some l.axis)
      else if tickToMs l.laterTick - startMs ≥ Cleaner.scrubMs then ((g, !right, left), some RT_EOK)
      else ((g, !right, Cleaner.scrubStepMs), none)

/-- The ramp of `hcics_cleaner_retract`, with its local `z_ns`. -/
def rampRound (s : Gimbal × UInt32) (l : Look) : (Gimbal × UInt32) × Option RtErr :=
  let (g, zNs) := s
  if zNs = g.config.zRetractNs then (s, some RT_EOK)
  else
    let zNs := moveToward zNs g.config.zRetractNs (Cleaner.zStepNs * 2)
    let (g, result) := g.applyPose l.pwm g.config.ySafeNs zNs
    if result ≠ RT_EOK then ((g, zNs), some result) else ((g, zNs), none)

/-- The clear window of `hcics_cleaner_verify_clear`: its locals `clear_start` and `clear_active`. -/
structure ClearWindow where
  start : Tick
  active : Bool
  deriving DecidableEq, Repr

def verifyWait (start : Tick) (l : Look) : Option RtErr :=
  if l.tick - start ≥ Cleaner.waitTargetMs then some (-RT_ETIMEOUT) else none

/-- The loop of `hcics_cleaner_verify_clear`, a round of which is one poll at one time. -/
def verifyRound (start : Tick) (clear : ClearWindow) (l : Look) : ClearWindow × Option RtErr :=
  if l.stop then (clear, some (-RT_EINTR))
  else if l.guard.forcesRetract l.tick true then (clear, some (-RT_EINTR))
  else if !cleanFrameIsFresh l.camera l.tick then ({ clear with active := false }, verifyWait start l)
  else if targetIsStain l.camera l.tick then (⟨l.tick, false⟩, verifyWait start l)
  else
    let clear := if clear.active then clear else ⟨l.tick, true⟩
    if l.tick - clear.start ≥ Cleaner.verifyClearMs then (clear, some RT_EOK)
    else (clear, verifyWait start l)

/-! ## The procedures -/

/-- `rt_tick_get`. -/
def tickGet : Proc Gimbal Look Tick := .act fun g l => (g, l.tick)

/-- `hcics_cleaner_guard_forces_retract` outside of a loop. -/
def guardForcesRetract (washing : Bool) : Proc Gimbal Look Bool :=
  .act fun g l => (g, l.guard.forcesRetract l.tick washing)

def delayAbortable (ms : UInt32) (checkGuard washing : Bool) : Proc Gimbal Look Bool :=
  .poll (Polling.beside (delayRound checkGuard washing)) ms

/-- `hcics_cleaner_wait_stain`, with the timeout of its only caller. -/
def waitStain : Proc Gimbal Look (Except RtErr CleanerTarget) := do
  let start ← tickGet
  .poll (Polling.beside fun (_ : Unit) l => ((), waitStainRound start l)) ()

def aim : Proc Gimbal Look (Except RtErr CleanerTarget) := do
  let start ← tickGet
  .poll (aimRound start) 0

def extendZ (yNs : UInt32) : Proc Gimbal Look RtErr := do
  let start ← tickGet
  let zNs ← .gets (·.config.zRetractNs)
  .poll (extendRound (tickToMs start)) (yNs, zNs)

def spray : Proc Gimbal Look RtErr := do
  if ← guardForcesRetract true then
    return -RT_EINTR
  .modify (·.relay true)
  let completed ← delayAbortable Cleaner.sprayMs true true
  .modify (·.relay false)
  if !completed then
    return -RT_EINTR
  return if ← guardForcesRetract true then -RT_EINTR else RT_EOK

def scrub (baseYNs : UInt32) : Proc Gimbal Look RtErr := do
  let start ← tickGet
  .modify (·.relay true)
  .poll (scrubRound (tickToMs start) baseYNs) (true, 0)

def retract : Proc Gimbal Look RtErr := do
  .modify (·.setState .retracting)
  .modify (·.relay false)
  let result ← .act fun g l => (g.axis .stop, l.axis)
  if result ≠ RT_EOK then
    return result
  let zNs ← .gets (·.zPulseNs)
  let result ← .poll rampRound zNs
  if result ≠ RT_EOK then
    return result
  let _ ← delayAbortable Cleaner.retractMs false false
  return RT_EOK

def verifyClear : Proc Gimbal Look RtErr := do
  let start ← tickGet
  .poll (Polling.beside (verifyRound start)) ⟨start, false⟩

/-- The head of `hcics_cleaner_run_once`. -/
def enterAiming (g : Gimbal) : Gimbal := (g.setState .aiming).log (.aiming g.relayOn g.zPulseNs)

/-- `hcics_cleaner_run_once` from the brush being aimed at `target`. -/
def runLocked (target : CleanerTarget) : Proc Gimbal Look RtErr := do
  let baseYNs ← .gets (yFromTarget ·.config target)
  .modify (·.setState .extending)
  let result ← extendZ baseYNs
  if result ≠ RT_EOK then
    return result
  .modify (·.setState .spraying)
  let result ← spray
  if result ≠ RT_EOK then
    return result
  .modify (·.setState .scrubbing)
  let result ← scrub baseYNs
  .modify (·.relay false)
  if result ≠ RT_EOK then
    return result
  let result ← retract
  if result ≠ RT_EOK then
    return result
  .modify (·.setState .verifying)
  let result ← verifyClear
  .modify (·.log (.verified result))
  return result

def runOnce : Proc Gimbal Look RtErr := do
  .modify enterAiming
  match ← waitStain with
  | .error result => return result
  | .ok _ =>
    match ← aim with
    | .error result => return result
    | .ok target => runLocked target

/-- The loop of `hcics_cleaner_run_mission`, with the cycles left. -/
def runCycles (cycle : UInt8) : Nat → Proc Gimbal Look RtErr
  | 0 => return -RT_ERROR
  | left + 1 => do
    .modify fun g => { g with cycle := cycle + 1 }
    let result ← runOnce
    .modify (·.log (.ran result))
    if result = RT_EOK then
      return RT_EOK
    if result = -RT_EINTR then
      return result
    let result ← retract
    .modify (·.log (.retracted result))
    if result ≠ RT_EOK then
      return result
    runCycles (cycle + 1) left

def runMission (maxCycles : UInt8) : Proc Gimbal Look RtErr := runCycles 0 maxCycles.toNat

/-- The run of `hcics_cleaner_worker` up to the result of the mission. -/
def work (maxCycles : UInt8) : Proc Gimbal Look RtErr := do
  let result ← .act safeOutputs
  if result ≠ RT_EOK then
    return result
  runMission maxCycles

end Gimbal

end Hcics
