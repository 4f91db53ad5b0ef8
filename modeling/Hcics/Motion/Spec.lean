import Hcics.Motion.Model

/-!
# What the routines of the motion adapter can do

One inversion lemma per routine, from which every property of the module is derived:
`outputPwm_eq` and `output_cases` for an output, `pollActualSpeed_rule` and `pollActualSpeed_cases`
for the encoder poll, `applyStuckBoost_cases` for the stall rules, `ensureInit_cases` for the
initialisation and `serviceReady_cases` for a whole service. Each says which fields change and to
what.
-/

namespace Hcics

/-- The first of the four calls that fails, or the success of all. -/
def PwmResults.first (io : PwmResults) : RtErr :=
  if io.leftSet ≠ RT_EOK then io.leftSet
  else if io.leftEnable ≠ RT_EOK then io.leftEnable
  else if io.rightSet ≠ RT_EOK then io.rightSet
  else io.rightEnable

/-- The pulse of the left channel after the calls that are made. -/
def PwmResults.leftPulse (io : PwmResults) (m : Motion) (left : Int16) : UInt32 :=
  if io.leftSet = RT_EOK then Motion.pulseNs left else m.leftPwm.pulse

/-- The pulse of the right channel after them. -/
def PwmResults.rightPulse (io : PwmResults) (m : Motion) (right : Int16) : UInt32 :=
  if io.leftSet = RT_EOK ∧ io.leftEnable = RT_EOK ∧ io.rightSet = RT_EOK then Motion.pulseNs right
  else m.rightPwm.pulse

end Hcics

namespace Hcics.Motion

/-- The pins after `hcics_motion_write_dir` on both wheels and the STBY write of an output. -/
def drivenPins (left right : Int16) : Pins :=
  ⟨(writeDir left).1, (writeDir left).2, (writeDir right).1, (writeDir right).2,
    if left ≠ 0 ∨ right ≠ 0 then stbyActiveLevel else !stbyActiveLevel⟩

@[simp] theorem drivenPins_zero : drivenPins 0 0 = safePins := by decide

theorem drivenPins_stby {left right : Int16} (h : (drivenPins left right).stby = stbyActiveLevel) :
    left ≠ 0 ∨ right ≠ 0 := by
  by_contra hz
  simp [drivenPins, hz] at h

/-! ## Outputs -/

theorem outputPwm_eq (m : Motion) (io : PwmResults) (left right : Int16) :
    m.outputPwm io left right =
      if m.pwm = true then
        if io.first = RT_EOK then
          ({ m with
              pins := drivenPins left right
              leftPwm := ⟨pulseNs left, true⟩
              rightPwm := ⟨pulseNs right, true⟩ }, RT_EOK)
        else
          ({ m with
              pins := safePins
              leftPwm := ⟨io.leftPulse m left, false⟩
              rightPwm := ⟨io.rightPulse m right, false⟩
              emergencyStop := true
              stopReason := 0xE1 }, io.first)
      else ({ m with pins := safePins }, -RT_ENOSYS) := by
  unfold outputPwm PwmResults.first PwmResults.leftPulse PwmResults.rightPulse
  by_cases hp : m.pwm = true
  · by_cases h1 : io.leftSet = RT_EOK
    · by_cases h2 : io.leftEnable = RT_EOK
      · by_cases h3 : io.rightSet = RT_EOK
        · by_cases h4 : io.rightEnable = RT_EOK
          · simp [hp, h1, h2, h3, h4, drivenPins]
          · simp [hp, h1, h2, h3, h4, pwmFail, gpioSafe]
        · simp [hp, h1, h2, h3, pwmFail, gpioSafe]
      · simp [hp, h1, h2, pwmFail, gpioSafe]
    · simp [hp, h1, pwmFail, gpioSafe]
  · simp [hp, gpioSafe]

/-- `outputPwm` changes pins and channels, and latches 0xE1 exactly when a PWM call fails. -/
theorem outputPwm_cases (m : Motion) (io : PwmResults) (left right : Int16) :
    ∃ lp rp, (∃ res, m.outputPwm io left right =
        ({ m with
            pins := if m.pwm then drivenPins left right else safePins
            leftPwm := lp, rightPwm := rp }, res) ∧ (res = RT_EOK ↔ m.pwm = true)) ∨
      (∃ res, m.outputPwm io left right =
        ({ m with
            pins := safePins, leftPwm := lp, rightPwm := rp
            emergencyStop := true, stopReason := 0xE1 }, res) ∧ res ≠ RT_EOK ∧ m.pwm = true) := by
  rw [outputPwm_eq]
  by_cases hp : m.pwm = true
  · rw [if_pos hp]
    by_cases hok : io.first = RT_EOK
    · rw [if_pos hok]
      exact ⟨_, _, .inl ⟨RT_EOK, by rw [if_pos hp], iff_of_true rfl hp⟩⟩
    · rw [if_neg hok]
      exact ⟨_, _, .inr ⟨io.first, rfl, hok, hp⟩⟩
  · rw [if_neg hp, if_neg hp]
    exact ⟨m.leftPwm, m.rightPwm, .inl ⟨-RT_ENOSYS, rfl, iff_of_false (by decide) hp⟩⟩

/-- An output records the wheel commands, and either drives the pins accordingly and leaves the
latch alone, or latches 0xE1 with safe pins and returns an error. -/
theorem output_cases (m : Motion) (io : PwmResults) (cb : RtErr) (left right : Int16) :
    ∃ lp rp, (∃ res, m.output io cb left right =
        ({ m with
            outputLeft := left, outputRight := right, outputs := (left, right) :: m.outputs
            pins := if m.pwm then drivenPins left right else safePins
            leftPwm := lp, rightPwm := rp }, res) ∧
        (m.pwm = true → res = if m.outputCb then cb else RT_EOK)) ∨
      (m.output io cb left right =
        ({ m with
            outputLeft := left, outputRight := right, outputs := (left, right) :: m.outputs
            pins := safePins, leftPwm := lp, rightPwm := rp
            emergencyStop := true, stopReason := 0xE1 }, -RT_ERROR) ∧ m.pwm = true) := by
  obtain ⟨lp, rp, ⟨res, h, hres⟩ | ⟨res, h, hres, hp⟩⟩ := outputPwm_cases
    { m with outputLeft := left, outputRight := right, outputs := (left, right) :: m.outputs }
    io left right
  · refine ⟨lp, rp, .inl ⟨_, by simp only [output, h]; rfl, fun hp => ?_⟩⟩
    have : res = RT_EOK := hres.mpr hp
    simp [this]
  · exact ⟨lp, rp, .inr ⟨by simp [output, h, hres], hp⟩⟩

/-! ## Feedback and stall rules -/

/-- `m'` is `m` up to the feedback fields, the stall bookkeeping and the update tick. -/
structure Kept (m m' : Motion) : Prop where
  initialized : m'.initialized = m.initialized
  emergencyStop : m'.emergencyStop = m.emergencyStop
  stopReason : m'.stopReason = m.stopReason
  targetLeft : m'.targetLeft = m.targetLeft
  targetRight : m'.targetRight = m.targetRight
  commandLeft : m'.commandLeft = m.commandLeft
  commandRight : m'.commandRight = m.commandRight
  leftEncoder : m'.leftEncoder = m.leftEncoder
  rightEncoder : m'.rightEncoder = m.rightEncoder
  pwm : m'.pwm = m.pwm
  outputCb : m'.outputCb = m.outputCb
  pins : m'.pins = m.pins
  outputs : m'.outputs = m.outputs

theorem Kept.refl (m : Motion) : Kept m m := by constructor <;> rfl

theorem Kept.trans {m m' m'' : Motion} (h : Kept m m') (h' : Kept m' m'') : Kept m m'' := by
  obtain ⟨h1, h2, h3, h4, h5, h6, h7, h8, h9, h10, h11, h12, h13⟩ := h
  obtain ⟨g1, g2, g3, g4, g5, g6, g7, g8, g9, g10, g11, g12, g13⟩ := h'
  constructor <;> simp [*]

/-- What a poll does: it stores the counts and the failures, and then latches 0xE2, or takes new
speeds over, or leaves it at that. -/
theorem pollActualSpeed_rule {P : Motion × RtErr → Prop} (m : Motion) (io : MotionIo)
    (h : ∀ leftLast rightLast leftFails rightFails,
      let k := { m with
        encoderLeftLast := leftLast
        encoderRightLast := rightLast
        encoderLeftFailCount := leftFails
        encoderRightFailCount := rightFails }
      P (k.latchStopped 0xE2, -RT_ERROR) ∧ P (k, RT_EOK) ∧
        ∀ left right leftTotal rightTotal, P ({ k with
          actualLeft := left
          actualRight := right
          encoderLeftTotal := leftTotal
          encoderRightTotal := rightTotal
          actualSource := .encoder }, RT_EOK)) : P (m.pollActualSpeed io) := by
  unfold pollActualSpeed
  obtain ⟨leftOk, leftLast, leftDelta⟩ := readEncoderDelta m.leftEncoder m.encoderLeftLast io.leftCount
  obtain ⟨rightOk, rightLast, rightDelta⟩ :=
    readEncoderDelta m.rightEncoder m.encoderRightLast io.rightCount
  simp only
  obtain ⟨hfault, hnone, hspeeds⟩ := h leftLast rightLast
    (nextFailCount leftOk m.motionRequested m.encoderLeftFailCount)
    (nextFailCount rightOk m.motionRequested m.encoderRightFailCount)
  split
  · exact hfault
  · split
    · exact hspeeds _ _ _ _
    · exact hnone

theorem pollActualSpeed_cases (m : Motion) (io : MotionIo) :
    ((m.pollActualSpeed io).2 = RT_EOK ∧ Kept m (m.pollActualSpeed io).1) ∨
      ((m.pollActualSpeed io).2 = -RT_ERROR ∧
        Kept (m.latchStopped 0xE2) (m.pollActualSpeed io).1) := by
  refine pollActualSpeed_rule (P := fun r => (r.2 = RT_EOK ∧ Kept m r.1) ∨
    (r.2 = -RT_ERROR ∧ Kept (m.latchStopped 0xE2) r.1)) m io fun _ _ _ _ => ?_
  refine ⟨.inr ⟨rfl, ?_⟩, .inl ⟨rfl, ?_⟩, fun _ _ _ _ => .inl ⟨rfl, ?_⟩⟩ <;> constructor <;> rfl

/-- A wheel command after the boost: itself, or itself raised to the boost command. -/
def BoostOf (speed boosted : Int16) : Prop :=
  boosted = speed ∨ boosted = preserveDirection speed stuckBoostCmd

theorem boostTail_cases (m : Motion) (nowMs : UInt32) (stuck : Bool) (left right : Int16) :
    ((boostTail m nowMs stuck left right).result = RT_EOK ∧
        Kept m (boostTail m nowMs stuck left right).motion ∧
        BoostOf left (boostTail m nowMs stuck left right).left ∧
        BoostOf right (boostTail m nowMs stuck left right).right) ∨
      ((boostTail m nowMs stuck left right).result = -RT_ERROR ∧
        Kept (m.latchStopped 0xE3) (boostTail m nowMs stuck left right).motion) := by
  unfold boostTail
  split_ifs
  · exact .inr ⟨rfl, by constructor <;> rfl⟩
  · exact .inl ⟨rfl, .refl m, .inr rfl, .inr rfl⟩
  · exact .inl ⟨rfl, by constructor <;> rfl, .inl rfl, .inl rfl⟩
  · exact .inl ⟨rfl, .refl m, .inl rfl, .inl rfl⟩

theorem applyStuckBoost_cases (m : Motion) (nowMs : UInt32) (left right : Int16) :
    ((m.applyStuckBoost nowMs left right).result = RT_EOK ∧
        Kept m (m.applyStuckBoost nowMs left right).motion ∧
        BoostOf left (m.applyStuckBoost nowMs left right).left ∧
        BoostOf right (m.applyStuckBoost nowMs left right).right) ∨
      ((m.applyStuckBoost nowMs left right).result = -RT_ERROR ∧
        Kept (m.latchStopped 0xE3) (m.applyStuckBoost nowMs left right).motion) := by
  have tail : ∀ (k : Motion) (stuck : Bool), Kept m k →
      ((boostTail k nowMs stuck left right).result = RT_EOK ∧
        Kept m (boostTail k nowMs stuck left right).motion ∧
        BoostOf left (boostTail k nowMs stuck left right).left ∧
        BoostOf right (boostTail k nowMs stuck left right).right) ∨
      ((boostTail k nowMs stuck left right).result = -RT_ERROR ∧
        Kept (m.latchStopped 0xE3) (boostTail k nowMs stuck left right).motion) := by
    intro k stuck hk
    have hlatch : Kept (m.latchStopped 0xE3) (k.latchStopped 0xE3) := by
      obtain ⟨h1, -, -, -, -, -, -, h8, h9, h10, h11, h12, h13⟩ := hk
      constructor <;> simp [latchStopped, *]
    rcases boostTail_cases k nowMs stuck left right with ⟨h, hkept, hl, hr⟩ | ⟨h, hkept⟩
    · exact .inl ⟨h, hk.trans hkept, hl, hr⟩
    · exact .inr ⟨h, hlatch.trans hkept⟩
  unfold applyStuckBoost
  simp only
  split_ifs
  · exact .inl ⟨rfl, by constructor <;> rfl, .inl rfl, .inl rfl⟩
  · exact tail _ _ (by constructor <;> rfl)
  · exact .inr ⟨rfl, by constructor <;> rfl⟩
  · exact tail _ _ (by constructor <;> rfl)
  · exact tail _ _ (.refl m)
  · exact tail _ _ (by constructor <;> rfl)

/-! ## The service routine -/

/-- Targets and commands are zero. -/
structure Halted (m : Motion) : Prop where
  targetLeft : m.targetLeft = 0
  targetRight : m.targetRight = 0
  commandLeft : m.commandLeft = 0
  commandRight : m.commandRight = 0

theorem halted_latchStopped (m : Motion) (reason : UInt8) : Halted (m.latchStopped reason) :=
  ⟨rfl, rfl, rfl, rfl⟩

theorem Kept.halted {m m' : Motion} (h : Kept m m') (hm : Halted m) : Halted m' :=
  ⟨h.targetLeft.trans hm.1, h.targetRight.trans hm.2, h.commandLeft.trans hm.3,
    h.commandRight.trans hm.4⟩

/-- The commands a service moves to. -/
def nextCommand (direct : Bool) (command target : Int16) : Int16 :=
  if direct then target else rampToward command target

/-- What is left of the module when a service outputs: no output was made yet, and either the
emergency stop holds, everything is halted and zero is output, or no stop holds and the new commands
are output, clamped and possibly boosted. -/
structure Served (m : Motion) (direct : Bool) (k : Motion) (left right : Int16) : Prop where
  initialized : k.initialized = m.initialized
  leftEncoder : k.leftEncoder = m.leftEncoder
  rightEncoder : k.rightEncoder = m.rightEncoder
  outputs : k.outputs = m.outputs
  cases : (k.emergencyStop = true ∧ Halted k ∧ left = 0 ∧ right = 0) ∨
    (m.emergencyStop = false ∧ k.emergencyStop = false ∧
      k.targetLeft = m.targetLeft ∧ k.targetRight = m.targetRight ∧
      k.commandLeft = nextCommand direct m.commandLeft m.targetLeft ∧
      k.commandRight = nextCommand direct m.commandRight m.targetRight ∧
      (∃ b, BoostOf (clampRaw k.commandLeft) b ∧ left = clampRaw b) ∧
      (∃ b, BoostOf (clampRaw k.commandRight) b ∧ right = clampRaw b))

theorem serviceReady_cases (m : Motion) (io : MotionIo) (direct : Bool) :
    ∃ k left right, m.serviceReady io direct = k.output io.pwm io.cbResult left right ∧
      Served m direct k left right := by
  have hpoll := pollActualSpeed_cases m io
  unfold serviceReady
  generalize m.pollActualSpeed io = poll at hpoll ⊢
  obtain ⟨p, r⟩ := poll
  simp only at hpoll ⊢
  rcases hpoll with ⟨rfl, hk⟩ | ⟨rfl, hk⟩
  · simp only [ne_eq, not_true_eq_false, if_false]
    by_cases he : p.emergencyStop = true
    · rw [if_pos he]
      exact ⟨_, 0, 0, rfl, ⟨hk.initialized, hk.leftEncoder, hk.rightEncoder, hk.outputs,
        .inl ⟨he, ⟨rfl, rfl, rfl, rfl⟩, rfl, rfl⟩⟩⟩
    · rw [if_neg he]
      have hef : p.emergencyStop = false := by simpa using he
      have hmf : m.emergencyStop = false := hk.emergencyStop ▸ hef
      cases direct with
      | true =>
        exact ⟨_, _, _, rfl, ⟨hk.initialized, hk.leftEncoder, hk.rightEncoder, hk.outputs,
          .inr ⟨hmf, hef, hk.targetLeft, hk.targetRight, hk.targetLeft, hk.targetRight,
            ⟨_, .inl rfl, rfl⟩, ⟨_, .inl rfl, rfl⟩⟩⟩⟩
      | false =>
        simp only [Bool.false_eq_true, if_false]
        have hramp : p.rampCommands.emergencyStop = false := hef
        rcases applyStuckBoost_cases p.rampCommands (tickToMs io.now)
            (clampRaw p.rampCommands.commandLeft) (clampRaw p.rampCommands.commandRight) with
          ⟨hb, hkb, hbl, hbr⟩ | ⟨hb, hkb⟩
        · rw [if_neg (not_not.mpr hb)]
          refine ⟨_, _, _, rfl, ⟨hkb.initialized.trans hk.initialized,
            hkb.leftEncoder.trans hk.leftEncoder, hkb.rightEncoder.trans hk.rightEncoder,
            hkb.outputs.trans hk.outputs, .inr ⟨hmf, ?_⟩⟩⟩
          refine ⟨hkb.emergencyStop.trans hramp, hkb.targetLeft.trans hk.targetLeft,
            hkb.targetRight.trans hk.targetRight, ?_, ?_, ⟨_, ?_, rfl⟩, ⟨_, ?_, rfl⟩⟩
          · exact hkb.commandLeft.trans
              (by simp [rampCommands, nextCommand, hk.commandLeft, hk.targetLeft])
          · exact hkb.commandRight.trans
              (by simp [rampCommands, nextCommand, hk.commandRight, hk.targetRight])
          · exact (congrArg clampRaw hkb.commandLeft).symm ▸ hbl
          · exact (congrArg clampRaw hkb.commandRight).symm ▸ hbr
        · rw [if_pos (by rw [hb]; decide)]
          exact ⟨_, 0, 0, rfl, ⟨hkb.initialized.trans hk.initialized,
            hkb.leftEncoder.trans hk.leftEncoder, hkb.rightEncoder.trans hk.rightEncoder,
            hkb.outputs.trans hk.outputs,
            .inl ⟨hkb.emergencyStop, hkb.halted (halted_latchStopped _ _), rfl, rfl⟩⟩⟩
  · exact ⟨_, 0, 0, rfl, ⟨hk.initialized, hk.leftEncoder, hk.rightEncoder, hk.outputs,
      .inl ⟨hk.emergencyStop, hk.halted (halted_latchStopped _ _), rfl, rfl⟩⟩⟩

theorem service_of_initialized {m : Motion} (h : m.initialized = true) (io : MotionIo)
    (direct : Bool) : m.service io direct = m.serviceReady io direct := by
  simp [service, ensureInit, h]

/-! ## Initialisation -/

/-- The module after `hcics_motion_ensure_init`: untouched if it was initialised; else the pins are
safe and everything halted, and either a device is missing or a first zero output was made. -/
theorem ensureInit_cases (m : Motion) (io : MotionIo) :
    (m.initialized = true ∧ m.ensureInit io = (m, RT_EOK)) ∨
      (m.initialized = false ∧ ∃ k : Motion, k.emergencyStop = m.emergencyStop ∧
        k.outputs = m.outputs ∧ k.pins = safePins ∧ Halted k ∧
        ((k.initialized = false ∧ ∃ r, r ≠ RT_EOK ∧ m.ensureInit io = (k, r)) ∨
          (k.initialized = true ∧ k.leftEncoder = true ∧ k.rightEncoder = true ∧ k.pwm = true ∧
            m.ensureInit io = ((k.output io.initPwm io.cbResult 0 0).1, RT_EOK)))) := by
  by_cases h : m.initialized = true
  · exact .inl ⟨h, by simp [ensureInit, h]⟩
  · have hf : m.initialized = false := by simpa using h
    refine .inr ⟨hf, ?_⟩
    simp only [ensureInit, init, hf, Bool.not_false, if_true, Bool.false_eq_true, if_false]
    split
    · exact ⟨m.openDevices io, rfl, rfl, rfl, ⟨rfl, rfl, rfl, rfl⟩,
        .inl ⟨hf, -RT_ENOSYS, by decide, rfl⟩⟩
    · split
      · exact ⟨(m.openDevices io).refreshOutputMode, rfl, rfl, rfl, ⟨rfl, rfl, rfl, rfl⟩,
          .inl ⟨hf, -RT_ENOSYS, by decide, rfl⟩⟩
      · rename_i hopen hready
        have hopen' : (m.openDevices io).leftEncoder = true ∧
            (m.openDevices io).rightEncoder = true := by simpa using hopen
        exact ⟨{ (m.openDevices io).refreshOutputMode with initialized := true }, rfl, rfl, rfl,
          ⟨rfl, rfl, rfl, rfl⟩,
          .inr ⟨rfl, hopen'.1, hopen'.2, by simpa [refreshOutputMode] using hready, rfl⟩⟩

theorem call_of_ensureInit_fail {m k : Motion} {io : MotionIo} {r : RtErr}
    (h : m.ensureInit io = (k, r)) (hr : r ≠ RT_EOK) (op : Op) : (m.call io op).1 = k := by
  have hr : ¬ r = 0 := hr
  cases op <;>
    simp [call, setTarget, setTargetDirect, update, service, doEmergencyStop, clearEmergencyStop,
      reset, setActualSpeed, setEncoderDelta, setOutputCallback, h, hr]

theorem ensureInit_of_initialized {m : Motion} (h : m.initialized = true) (io : MotionIo) :
    m.ensureInit io = (m, RT_EOK) := by
  simp [ensureInit, h]

theorem call_of_ensureInit_ok {m k : Motion} {io : MotionIo} (h : m.ensureInit io = (k, RT_EOK))
    (hk : k.initialized = true) (op : Op) : m.call io op = k.call io op := by
  have hk' := ensureInit_of_initialized hk io
  cases op <;>
    simp only [call, setTarget, setTargetDirect, update, service, doEmergencyStop,
      clearEmergencyStop, reset, setActualSpeed, setEncoderDelta, setOutputCallback, h, hk']

/-! ## Calls -/

/-- The target a service reads: that of a direct call's argument, or the stored one. -/
def servedTarget (op : Op) (m : Motion) : Int16 × Int16 :=
  match op with
  | .setTargetDirect left right => (normalizeTarget left, normalizeTarget right)
  | _ => (m.targetLeft, m.targetRight)

/-- What a call does on the initialised module `m`. -/
inductive CallCase (m : Motion) (op : Op) (m' : Motion) : Prop where
  /-- No output: the commands stay, the targets stay or are those of an accepted `setTarget`, and
  the latch stays or is cleared. -/
  | silent (initialized : m'.initialized = true) (leftEncoder : m'.leftEncoder = m.leftEncoder)
      (rightEncoder : m'.rightEncoder = m.rightEncoder) (outputs : m'.outputs = m.outputs)
      (pins : m'.pins = m.pins) (commandLeft : m'.commandLeft = m.commandLeft)
      (commandRight : m'.commandRight = m.commandRight)
      (targets : (m'.targetLeft = m.targetLeft ∧ m'.targetRight = m.targetRight) ∨
        ∃ left right, op = .setTarget left right ∧ m.emergencyStop = false ∧
          m'.targetLeft = normalizeTarget left ∧ m'.targetRight = normalizeTarget right)
      (latch : m'.emergencyStop = m.emergencyStop ∨
        (op = .clearEmergencyStop ∧ m'.emergencyStop = false))
  /-- A zero output with everything halted. -/
  | halt (k : Motion) (io : PwmResults) (cb : RtErr) (eq : m' = (k.output io cb 0 0).1)
      (initialized : k.initialized = true) (leftEncoder : k.leftEncoder = m.leftEncoder)
      (rightEncoder : k.rightEncoder = m.rightEncoder) (outputs : k.outputs = m.outputs)
      (halted : Halted k) (latch : m.emergencyStop = true → k.emergencyStop = true)
  /-- An output of the next commands, with no stop latched. -/
  | serve (k : Motion) (io : PwmResults) (cb : RtErr) (direct : Bool) (left right : Int16)
      (eq : m' = (k.output io cb left right).1)
      (initialized : k.initialized = true) (leftEncoder : k.leftEncoder = m.leftEncoder)
      (rightEncoder : k.rightEncoder = m.rightEncoder) (outputs : k.outputs = m.outputs)
      (free : m.emergencyStop = false) (free' : k.emergencyStop = false)
      (kind : direct = true ∨ op = .update)
      (targetLeft : k.targetLeft = (servedTarget op m).1)
      (targetRight : k.targetRight = (servedTarget op m).2)
      (commandLeft : k.commandLeft = nextCommand direct m.commandLeft k.targetLeft)
      (commandRight : k.commandRight = nextCommand direct m.commandRight k.targetRight)
      (outLeft : ∃ b, BoostOf (clampRaw k.commandLeft) b ∧ left = clampRaw b)
      (outRight : ∃ b, BoostOf (clampRaw k.commandRight) b ∧ right = clampRaw b)

/-- A service, of `m` itself or of `m` with the targets of a direct call, is a call's case. -/
theorem serviceReady_callCase {m m₀ : Motion} {op : Op} {direct : Bool} (io : MotionIo)
    (hinit : m₀.initialized = true) (hleft : m₀.leftEncoder = m.leftEncoder)
    (hright : m₀.rightEncoder = m.rightEncoder) (houts : m₀.outputs = m.outputs)
    (hstop : m₀.emergencyStop = m.emergencyStop) (hop : direct = true ∨ op = .update)
    (htl : m₀.targetLeft = (servedTarget op m).1) (htr : m₀.targetRight = (servedTarget op m).2)
    (hcl : m₀.commandLeft = m.commandLeft) (hcr : m₀.commandRight = m.commandRight) :
    CallCase m op (m₀.serviceReady io direct).1 := by
  obtain ⟨k, left, right, he, hs⟩ := serviceReady_cases m₀ io direct
  rcases hs.cases with ⟨hk, hhalt, rfl, rfl⟩ | ⟨hf, hf', h1, h2, h3, h4, h5, h6⟩
  · exact .halt k io.pwm io.cbResult (by rw [he]) (hs.initialized.trans hinit)
      (hs.leftEncoder.trans hleft) (hs.rightEncoder.trans hright) (hs.outputs.trans houts) hhalt
      fun _ => hk
  · exact .serve k io.pwm io.cbResult direct left right (by rw [he]) (hs.initialized.trans hinit)
      (hs.leftEncoder.trans hleft) (hs.rightEncoder.trans hright) (hs.outputs.trans houts)
      (hstop ▸ hf) hf' hop (h1.trans htl) (h2.trans htr) (by rw [h3, h1, hcl]) (by rw [h4, h2, hcr])
      h5 h6

theorem call_cases {m : Motion} (hi : m.initialized = true) (io : MotionIo) (op : Op) :
    CallCase m op (m.call io op).1 := by
  have he := ensureInit_of_initialized hi io
  cases op with
  | setTarget left right =>
    simp only [call, setTarget, he, ne_eq, not_true_eq_false, if_false]
    split
    · exact .silent hi rfl rfl rfl rfl rfl rfl (.inl ⟨rfl, rfl⟩) (.inl rfl)
    · rename_i hs
      exact .silent hi rfl rfl rfl rfl rfl rfl (.inr ⟨left, right, rfl, by simpa using hs, rfl, rfl⟩)
        (.inl rfl)
  | setTargetDirect left right =>
    simp only [call, setTargetDirect, he, ne_eq, not_true_eq_false, if_false]
    split
    · exact .silent hi rfl rfl rfl rfl rfl rfl (.inl ⟨rfl, rfl⟩) (.inl rfl)
    · rw [service_of_initialized (by exact hi)]
      exact serviceReady_callCase io hi rfl rfl rfl rfl (.inl rfl) rfl rfl rfl rfl
  | update =>
    simp only [call, update, service_of_initialized hi]
    exact serviceReady_callCase io hi rfl rfl rfl rfl (.inr rfl) rfl rfl rfl rfl
  | emergencyStop reason =>
    simp only [call, doEmergencyStop, he, ne_eq, not_true_eq_false, if_false]
    exact .halt _ _ _ rfl hi rfl rfl rfl ⟨rfl, rfl, rfl, rfl⟩ fun _ => rfl
  | clearEmergencyStop =>
    simp only [call, clearEmergencyStop, he, ne_eq, not_true_eq_false, if_false]
    exact .silent hi rfl rfl rfl rfl rfl rfl (.inl ⟨rfl, rfl⟩) (.inr ⟨rfl, rfl⟩)
  | reset =>
    simp only [call, reset, he, ne_eq, not_true_eq_false, if_false]
    exact .halt _ _ _ rfl hi rfl rfl rfl ⟨rfl, rfl, rfl, rfl⟩ fun h => h
  | setActualSpeed left right =>
    simp only [call, setActualSpeed, he, ne_eq, not_true_eq_false, if_false]
    exact .silent hi rfl rfl rfl rfl rfl rfl (.inl ⟨rfl, rfl⟩) (.inl rfl)
  | setEncoderDelta left right =>
    simp only [call, setEncoderDelta, he, ne_eq, not_true_eq_false, if_false]
    exact .silent hi rfl rfl rfl rfl rfl rfl (.inl ⟨rfl, rfl⟩) (.inl rfl)
  | setOutputCallback callback =>
    simp only [call, setOutputCallback, he, ne_eq, not_true_eq_false, if_false]
    exact .silent hi rfl rfl rfl rfl rfl rfl (.inl ⟨rfl, rfl⟩) (.inl rfl)

end Hcics.Motion
