import Hcics.Basic
import Hcics.Lib.Transition

/-!
# The chassis motion adapter

`hcics_motion.c` with its context `g_motion`, the five direction pins and the two PWM channels. The
context is not protected by a lock: every public operation runs to its end as one call.

What the hardware answers during a call is the argument `Io`: the tick, the two encoder counts, the
result of each PWM call and of the output callback, and, for a call that initialises the module,
which devices are found. `outputs` is the history of `hcics_motion_output` calls, newest first.
-/

namespace Hcics

inductive ActualSource where
  | none | external | encoder
  deriving DecidableEq, Repr

/-- The levels of the motor pins, `true` for `PIN_HIGH`. -/
structure Pins where
  leftA : Bool
  leftB : Bool
  rightA : Bool
  rightB : Bool
  stby : Bool
  deriving DecidableEq, Repr

/-- A PWM channel: the pulse last set on it, in nanoseconds, and whether it is enabled. -/
structure PwmChannel where
  pulse : UInt32
  enabled : Bool
  deriving DecidableEq, Repr

/-- `hcics_motion_context_t`; a device pointer is kept as whether it is non-null. -/
structure Motion where
  initialized : Bool
  outputReady : Bool
  emergencyStop : Bool
  stopReason : UInt8
  actualSource : ActualSource
  targetLeft : Int16
  targetRight : Int16
  commandLeft : Int16
  commandRight : Int16
  actualLeft : Int16
  actualRight : Int16
  outputLeft : Int16
  outputRight : Int16
  encoderLeftTotal : Int32
  encoderRightTotal : Int32
  encoderLeftLast : Int32
  encoderRightLast : Int32
  encoderLeftFailCount : UInt8
  encoderRightFailCount : UInt8
  stuckStartMs : UInt32
  boostUntilMs : UInt32
  stuckBoostCount : UInt8
  lastUpdateTick : Tick
  leftEncoder : Bool
  rightEncoder : Bool
  pwm : Bool
  outputCb : Bool
  pins : Pins
  leftPwm : PwmChannel
  rightPwm : PwmChannel
  outputs : List (Int16 × Int16)
  deriving DecidableEq, Repr

/-- The results of `rt_pwm_set` and `rt_pwm_enable` on the left and then the right channel. -/
structure PwmResults where
  leftSet : RtErr := RT_EOK
  leftEnable : RtErr := RT_EOK
  rightSet : RtErr := RT_EOK
  rightEnable : RtErr := RT_EOK
  deriving DecidableEq, Repr

/-- What the hardware answers during one call. An encoder count is `none` where `rt_device_read`
does not return one item. The last four fields are read by `hcics_motion_init` only: whether the
PWM device is found, the encoders' first counts (`none` where the device is missing or does not
open; 0 where it opens and the first read fails) and the results of the first output. -/
structure MotionIo where
  now : Tick := 0
  leftCount : Option Int32 := none
  rightCount : Option Int32 := none
  pwm : PwmResults := {}
  cbResult : RtErr := RT_EOK
  findPwm : Bool := true
  openLeft : Option Int32 := some 0
  openRight : Option Int32 := some 0
  initPwm : PwmResults := {}
  deriving DecidableEq, Repr

namespace Motion

/-! ## Limits -/

abbrev speedMax : Int16 := 250
/-- `HCICS_MOTION_RAMP_STEP`, the default ramp step. -/
abbrev rampStep : Int16 := 15
abbrev minNonzeroCmd : Int16 := 25
abbrev stuckMinCmd : Int16 := 35
abbrev stuckBoostCmd : Int16 := 90
abbrev stuckActualMax : Int16 := 3
abbrev stuckTriggerMs : UInt32 := 220
abbrev stuckHoldMs : UInt32 := 450
abbrev stuckFailMs : UInt32 := 1800
abbrev stuckMaxBoosts : UInt8 := 2
abbrev encoderSanityLimit : Int32 := 1200
abbrev encoderFailLimit : UInt8 := 20
abbrev pwmFullPulseNs : UInt32 := 900000
/-- `HCICS_MOTION_STBY_ACTIVE_LEVEL`, which is `PIN_HIGH`. -/
abbrev stbyActiveLevel : Bool := true

/-! ## Arithmetic on wheel commands -/

/-- `hcics_motion_abs16`; the cast back to 16 bits leaves `-32768` unchanged. -/
def abs16 (value : Int16) : Int16 := if value ≥ 0 then value else -value

def clampRaw (speed : Int16) : Int16 :=
  if speed > speedMax then speedMax else if speed < -speedMax then -speedMax else speed

def normalizeTarget (speed : Int16) : Int16 :=
  let clamped := clampRaw speed
  let absSpeed := abs16 clamped
  if absSpeed = 0 then 0
  else if absSpeed < minNonzeroCmd then (if clamped > 0 then minNonzeroCmd else -minNonzeroCmd)
  else clamped

def rampToward (current target : Int16) : Int16 :=
  if target > current then
    (if current + rampStep > target then target else current + rampStep)
  else if target < current then
    (if current - rampStep < target then target else current - rampStep)
  else current

def preserveDirection (speed minAbs : Int16) : Int16 :=
  if speed = 0 ∨ abs16 speed ≥ minAbs then speed
  else if speed > 0 then minAbs else -minAbs

/-! ## Outputs -/

/-- The pins as `hcics_motion_gpio_safe` leaves them: directions low, STBY inactive. -/
def safePins : Pins := ⟨false, false, false, false, !stbyActiveLevel⟩

def gpioSafe (m : Motion) : Motion := { m with pins := safePins }

/-- `hcics_motion_write_dir`: the levels of a wheel's pins A and B. -/
def writeDir (speed : Int16) : Bool × Bool :=
  if speed > 0 then (true, false) else if speed < 0 then (false, true) else (false, false)

/-- The pulse `hcics_motion_output_pwm` computes for a wheel. -/
def pulseNs (speed : Int16) : UInt32 :=
  (abs16 speed).toInt32.toUInt32 * pwmFullPulseNs / speedMax.toInt32.toUInt32

def pwmFail (m : Motion) (result : RtErr) : Motion × RtErr :=
  ({ m.gpioSafe with
      leftPwm := { m.leftPwm with enabled := false }
      rightPwm := { m.rightPwm with enabled := false }
      emergencyStop := true
      stopReason := 0xE1 }, result)

def outputPwm (m : Motion) (io : PwmResults) (left right : Int16) : Motion × RtErr :=
  if !m.pwm then (m.gpioSafe, -RT_ENOSYS)
  else
    let (leftA, leftB) := writeDir left
    let (rightA, rightB) := writeDir right
    let stby := if left ≠ 0 ∨ right ≠ 0 then stbyActiveLevel else !stbyActiveLevel
    let m := { m with pins := ⟨leftA, leftB, rightA, rightB, stby⟩ }
    if io.leftSet ≠ RT_EOK then pwmFail m io.leftSet
    else
      let m := { m with leftPwm := { m.leftPwm with pulse := pulseNs left } }
      if io.leftEnable ≠ RT_EOK then pwmFail m io.leftEnable
      else
        let m := { m with leftPwm := { m.leftPwm with enabled := true } }
        if io.rightSet ≠ RT_EOK then pwmFail m io.rightSet
        else
          let m := { m with rightPwm := { m.rightPwm with pulse := pulseNs right } }
          if io.rightEnable ≠ RT_EOK then pwmFail m io.rightEnable
          else ({ m with rightPwm := { m.rightPwm with enabled := true } }, RT_EOK)

def output (m : Motion) (io : PwmResults) (cbResult : RtErr) (left right : Int16) : Motion × RtErr :=
  let m := { m with
    outputLeft := left
    outputRight := right
    outputs := (left, right) :: m.outputs }
  let result := if m.outputCb then cbResult else RT_EOK
  let (m, pwmResult) := m.outputPwm io left right
  (m, if pwmResult ≠ RT_EOK then -RT_ERROR else result)

/-! ## Initialisation -/

def refreshOutputMode (m : Motion) : Motion := { m with outputReady := m.pwm }

/-- The first part of `hcics_motion_init`: zero commands, safe pins, the PWM device looked up and
the encoders opened. The calls of `rt_pin_mode` leave no trace in the model. -/
def openDevices (m : Motion) (io : MotionIo) : Motion :=
  { m.gpioSafe with
    targetLeft := 0, targetRight := 0, commandLeft := 0, commandRight := 0
    actualLeft := 0, actualRight := 0
    actualSource := .none
    pwm := io.findPwm
    leftEncoder := io.openLeft.isSome
    encoderLeftLast := io.openLeft.getD m.encoderLeftLast
    rightEncoder := io.openRight.isSome
    encoderRightLast := io.openRight.getD m.encoderRightLast }

def init (m : Motion) (io : MotionIo) : Motion × RtErr :=
  if m.initialized then (m, RT_EOK)
  else
    let m := m.openDevices io
    if !m.leftEncoder || !m.rightEncoder then (m, -RT_ENOSYS)
    else
      let m := m.refreshOutputMode
      if !m.outputReady then (m, -RT_ENOSYS)
      else (({ m with initialized := true }.output io.initPwm io.cbResult 0 0).1, RT_EOK)

def ensureInit (m : Motion) (io : MotionIo) : Motion × RtErr :=
  if !m.initialized then m.init io else (m, RT_EOK)

/-! ## Feedback -/

/-- `hcics_motion_read_encoder_delta`: whether a delta was read, the new last count and the delta
(0 where none was read). -/
def readEncoderDelta (dev : Bool) (lastCount : Int32) (count : Option Int32) :
    Bool × Int32 × Int16 :=
  match dev, count with
  | true, some count =>
    let diff := count - lastCount
    if diff > encoderSanityLimit ∨ diff < -encoderSanityLimit then (false, count, 0)
    else (true, count, diff.toInt16)
  | _, _ => (false, lastCount, 0)

/-- The failure count of an encoder after a read. -/
def nextFailCount (ok motionRequested : Bool) (count : UInt8) : UInt8 :=
  if ok then 0 else if motionRequested && decide (count < 255) then count + 1 else count

def motionRequested (m : Motion) : Bool :=
  m.targetLeft != 0 || m.targetRight != 0 || m.commandLeft != 0 || m.commandRight != 0

/-- The latch the encoder and stall faults share: emergency stop with targets and commands zero. -/
def latchStopped (m : Motion) (reason : UInt8) : Motion :=
  { m with
    emergencyStop := true
    stopReason := reason
    targetLeft := 0, targetRight := 0, commandLeft := 0, commandRight := 0 }

def pollActualSpeed (m : Motion) (io : MotionIo) : Motion × RtErr :=
  let (leftOk, leftLast, leftDelta) :=
    readEncoderDelta m.leftEncoder m.encoderLeftLast io.leftCount
  let (rightOk, rightLast, rightDelta) :=
    readEncoderDelta m.rightEncoder m.encoderRightLast io.rightCount
  let requested := m.motionRequested
  let m := { m with
    encoderLeftLast := leftLast
    encoderRightLast := rightLast
    encoderLeftFailCount := nextFailCount leftOk requested m.encoderLeftFailCount
    encoderRightFailCount := nextFailCount rightOk requested m.encoderRightFailCount }
  if requested && (decide (m.encoderLeftFailCount ≥ encoderFailLimit) ||
      decide (m.encoderRightFailCount ≥ encoderFailLimit)) then
    (m.latchStopped 0xE2, -RT_ERROR)
  else if leftOk || rightOk then
    let left := if leftOk then leftDelta else 0
    let right := if rightOk then rightDelta else 0
    ({ m with
        actualLeft := left
        actualRight := right
        encoderLeftTotal := m.encoderLeftTotal + left.toInt32
        encoderRightTotal := m.encoderRightTotal + right.toInt32
        actualSource := .encoder }, RT_EOK)
  else (m, RT_EOK)

/-- What `hcics_motion_apply_stuck_boost` leaves: the context, the wheel commands and its result. -/
structure Boosted where
  motion : Motion
  left : Int16
  right : Int16
  result : RtErr

/-- Whether a wheel command is large enough to expect movement. -/
def commandNonzero (left right : Int16) : Bool :=
  decide (abs16 left ≥ stuckMinCmd) || decide (abs16 right ≥ stuckMinCmd)

def actualStalled (m : Motion) : Bool :=
  decide (abs16 m.actualLeft ≤ stuckActualMax) && decide (abs16 m.actualRight ≤ stuckActualMax)

/-- The end of `hcics_motion_apply_stuck_boost`: the long-stall rule, then the boost in force. -/
def boostTail (m : Motion) (nowMs : UInt32) (stuck : Bool) (left right : Int16) : Boosted :=
  if stuck && decide (nowMs - m.stuckStartMs ≥ stuckFailMs) then
    ⟨{ m.latchStopped 0xE3 with boostUntilMs := 0 }, left, right, -RT_ERROR⟩
  else if m.boostUntilMs ≠ 0 ∧ nowMs < m.boostUntilMs then
    ⟨m, preserveDirection left stuckBoostCmd, preserveDirection right stuckBoostCmd, RT_EOK⟩
  else if m.boostUntilMs ≠ 0 ∧ nowMs ≥ m.boostUntilMs then
    ⟨{ m with boostUntilMs := 0, stuckStartMs := 0 }, left, right, RT_EOK⟩
  else ⟨m, left, right, RT_EOK⟩

def applyStuckBoost (m : Motion) (nowMs : UInt32) (left right : Int16) : Boosted :=
  if m.actualSource = .none then
    ⟨{ m with stuckStartMs := 0, boostUntilMs := 0, stuckBoostCount := 0 }, left, right, RT_EOK⟩
  else
    let stuck := commandNonzero left right && m.actualStalled
    if stuck then
      if m.stuckStartMs = 0 then
        boostTail { m with stuckStartMs := nowMs } nowMs stuck left right
      else if nowMs - m.stuckStartMs ≥ stuckTriggerMs ∧ m.boostUntilMs = 0 then
        if m.stuckBoostCount ≥ stuckMaxBoosts then
          ⟨{ m.latchStopped 0xE3 with boostUntilMs := 0 }, left, right, -RT_ERROR⟩
        else
          boostTail { m with
            boostUntilMs := nowMs + stuckHoldMs
            stuckBoostCount := m.stuckBoostCount + 1 } nowMs stuck left right
      else boostTail m nowMs stuck left right
    else boostTail { m with stuckStartMs := 0, stuckBoostCount := 0 } nowMs stuck left right

/-! ## The service routine -/

/-- The commands of a direct service: the targets, with the stall bookkeeping cleared. -/
def directCommands (m : Motion) : Motion :=
  { m with
    commandLeft := m.targetLeft
    commandRight := m.targetRight
    stuckStartMs := 0, boostUntilMs := 0 }

def rampCommands (m : Motion) : Motion :=
  { m with
    commandLeft := rampToward m.commandLeft m.targetLeft
    commandRight := rampToward m.commandRight m.targetRight }

/-- The targets, commands and stall bookkeeping a service clears under emergency stop. -/
def clearCommands (m : Motion) : Motion :=
  { m with
    targetLeft := 0, targetRight := 0, commandLeft := 0, commandRight := 0
    stuckStartMs := 0, boostUntilMs := 0 }

/-- The assignment `g_motion.last_update_tick = rt_tick_get()`. -/
def stamp (m : Motion) (now : Tick) : Motion := { m with lastUpdateTick := now }

/-- The body of `hcics_motion_service` once the module is initialised. -/
def serviceReady (m : Motion) (io : MotionIo) (direct : Bool) : Motion × RtErr :=
  let (m, result) := m.pollActualSpeed io
  if result ≠ RT_EOK then m.output io.pwm io.cbResult 0 0
  else if m.emergencyStop then (m.clearCommands.stamp io.now).output io.pwm io.cbResult 0 0
  else if direct then
    let m := m.directCommands
    (m.stamp io.now).output io.pwm io.cbResult
      (clampRaw (clampRaw m.commandLeft)) (clampRaw (clampRaw m.commandRight))
  else
    let m := m.rampCommands
    let b := m.applyStuckBoost (tickToMs io.now) (clampRaw m.commandLeft) (clampRaw m.commandRight)
    if b.result ≠ RT_EOK then b.motion.output io.pwm io.cbResult 0 0
    else
      (b.motion.stamp io.now).output io.pwm io.cbResult (clampRaw b.left) (clampRaw b.right)

def service (m : Motion) (io : MotionIo) (direct : Bool) : Motion × RtErr :=
  let (m, result) := m.ensureInit io
  if result ≠ RT_EOK then (m, -RT_ERROR) else m.serviceReady io direct

/-! ## Public operations -/

/-- `hcics_motion_set_output_callback`; only whether a callback is installed is kept. -/
def setOutputCallback (m : Motion) (io : MotionIo) (callback : Bool) : Motion × RtErr :=
  let (m, result) := m.ensureInit io
  if result ≠ RT_EOK then (m, -RT_ERROR)
  else ({ m with outputCb := callback }.refreshOutputMode, RT_EOK)

def setTarget (m : Motion) (io : MotionIo) (left right : Int16) : Motion × RtErr :=
  let (m, result) := m.ensureInit io
  if result ≠ RT_EOK then (m, -RT_ERROR)
  else if m.emergencyStop then (m, -RT_ERROR)
  else ({ m with targetLeft := normalizeTarget left, targetRight := normalizeTarget right }, RT_EOK)

def setTargetDirect (m : Motion) (io : MotionIo) (left right : Int16) : Motion × RtErr :=
  let (m, result) := m.ensureInit io
  if result ≠ RT_EOK then (m, -RT_ERROR)
  else if m.emergencyStop then (m, -RT_ERROR)
  else
    { m with
      targetLeft := normalizeTarget left
      targetRight := normalizeTarget right }.service io true

def update (m : Motion) (io : MotionIo) : Motion × RtErr := m.service io false

/-- `hcics_motion_emergency_stop`. -/
def doEmergencyStop (m : Motion) (io : MotionIo) (reason : UInt8) : Motion :=
  let (m, result) := m.ensureInit io
  if result ≠ RT_EOK then m
  else
    ({ m.latchStopped reason with
        stuckStartMs := 0, boostUntilMs := 0 }.output io.pwm io.cbResult 0 0).1

def clearEmergencyStop (m : Motion) (io : MotionIo) : Motion :=
  let (m, result) := m.ensureInit io
  if result ≠ RT_EOK then m else { m with emergencyStop := false, stopReason := 0 }

def reset (m : Motion) (io : MotionIo) : Motion :=
  let (m, result) := m.ensureInit io
  if result ≠ RT_EOK then m
  else
    ({ m with
        targetLeft := 0, targetRight := 0, commandLeft := 0, commandRight := 0
        actualLeft := 0, actualRight := 0
        outputLeft := 0, outputRight := 0
        encoderLeftTotal := 0, encoderRightTotal := 0
        encoderLeftFailCount := 0, encoderRightFailCount := 0
        stuckStartMs := 0, boostUntilMs := 0, stuckBoostCount := 0
        actualSource := .none }.output io.pwm io.cbResult 0 0).1

def setActualSpeed (m : Motion) (io : MotionIo) (left right : Int16) : Motion × RtErr :=
  let (m, result) := m.ensureInit io
  if result ≠ RT_EOK then (m, -RT_ERROR)
  else ({ m with actualLeft := left, actualRight := right, actualSource := .external }, RT_EOK)

def setEncoderDelta (m : Motion) (io : MotionIo) (left right : Int16) : Motion × RtErr :=
  let (m, result) := m.ensureInit io
  if result ≠ RT_EOK then (m, -RT_ERROR)
  else
    ({ m with
        actualLeft := left
        actualRight := right
        encoderLeftTotal := m.encoderLeftTotal + left.toInt32
        encoderRightTotal := m.encoderRightTotal + right.toInt32
        actualSource := .external }, RT_EOK)

/-! ## The module as a machine -/

inductive Op where
  | setTarget (left right : Int16)
  | setTargetDirect (left right : Int16)
  | update
  | emergencyStop (reason : UInt8)
  | clearEmergencyStop
  | reset
  | setActualSpeed (left right : Int16)
  | setEncoderDelta (left right : Int16)
  | setOutputCallback (callback : Bool)
  deriving DecidableEq, Repr

/-- A call and its result; the operations without a result count as successful. -/
def call (m : Motion) (io : MotionIo) : Op → Motion × RtErr
  | .setTarget left right => m.setTarget io left right
  | .setTargetDirect left right => m.setTargetDirect io left right
  | .update => m.update io
  | .emergencyStop reason => (m.doEmergencyStop io reason, RT_EOK)
  | .clearEmergencyStop => (m.clearEmergencyStop io, RT_EOK)
  | .reset => (m.reset io, RT_EOK)
  | .setActualSpeed left right => m.setActualSpeed io left right
  | .setEncoderDelta left right => m.setEncoderDelta io left right
  | .setOutputCallback callback => m.setOutputCallback io callback

/-- `g_motion` at boot, in zeroed memory, with the pins as the reset left them. -/
def boot (pins : Pins) : Motion where
  initialized := false
  outputReady := false
  emergencyStop := false
  stopReason := 0
  actualSource := .none
  targetLeft := 0
  targetRight := 0
  commandLeft := 0
  commandRight := 0
  actualLeft := 0
  actualRight := 0
  outputLeft := 0
  outputRight := 0
  encoderLeftTotal := 0
  encoderRightTotal := 0
  encoderLeftLast := 0
  encoderRightLast := 0
  encoderLeftFailCount := 0
  encoderRightFailCount := 0
  stuckStartMs := 0
  boostUntilMs := 0
  stuckBoostCount := 0
  lastUpdateTick := 0
  leftEncoder := false
  rightEncoder := false
  pwm := false
  outputCb := false
  pins := pins
  leftPwm := ⟨0, false⟩
  rightPwm := ⟨0, false⟩
  outputs := []

/-- The module under every sequence of its public operations. -/
def machine : Machine Motion (Op × MotionIo) where
  start m := ∃ pins, m = boot pins
  step m i := some (m.call i.2 i.1).1

def after (m : Motion) (calls : List (Op × MotionIo)) : Motion :=
  calls.foldl (fun m i => (m.call i.2 i.1).1) m

theorem run_after (m : Motion) (calls : List (Op × MotionIo)) :
    machine.Run Machine.free m (m.after calls) := by
  induction calls generalizing m with
  | nil => exact .refl
  | cons i calls ih => exact .head trivial rfl (ih _)

theorem reach_after (pins : Pins) (calls : List (Op × MotionIo)) :
    machine.Reach Machine.free ((boot pins).after calls) :=
  ⟨_, ⟨pins, rfl⟩, run_after _ _⟩

end Motion

end Hcics
