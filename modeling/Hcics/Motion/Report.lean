import Hcics.Motion.Latch

/-!
# Which faults a call reports

`hcics_control_thread` learns of a fault from the result of `hcics_motion_update` alone. A PWM failure
is returned; a fault found by the encoder poll or the stall rules is returned only as the result of the
zero output that follows it, and one of the first output of `hcics_motion_init` not at all.
`Unreported` lists the calls that latch a stop and return `RT_EOK`.
-/

namespace Hcics

def PwmResults.Ok (io : PwmResults) : Prop :=
  io.leftSet = RT_EOK ∧ io.leftEnable = RT_EOK ∧ io.rightSet = RT_EOK ∧ io.rightEnable = RT_EOK

instance (io : PwmResults) : Decidable io.Ok := inferInstanceAs (Decidable (_ ∧ _))

theorem PwmResults.first_eq_ok {io : PwmResults} : io.first = RT_EOK ↔ io.Ok := by
  unfold PwmResults.first PwmResults.Ok
  split_ifs with h1 h2 h3
  · exact iff_of_false h1 fun h => h1 h.1
  · exact iff_of_false h2 fun h => h2 h.2.1
  · exact iff_of_false h3 fun h => h3 h.2.2.1
  · rw [and_iff_right (not_not.mp h1), and_iff_right (not_not.mp h2), and_iff_right (not_not.mp h3)]

namespace Motion

/-! ## Outputs -/

def OutputOk (m : Motion) (io : PwmResults) (cb : RtErr) : Prop :=
  m.pwm = true ∧ io.Ok ∧ (m.outputCb = true → cb = RT_EOK)

theorem outputPwm_ok (m : Motion) (io : PwmResults) (left right : Int16) :
    ((m.outputPwm io left right).2 = RT_EOK ↔ m.pwm = true ∧ io.Ok) ∧
      ((m.outputPwm io left right).1.emergencyStop = true ↔
        m.emergencyStop = true ∨ m.pwm = true ∧ ¬ io.Ok) := by
  rw [outputPwm_eq, ← PwmResults.first_eq_ok]
  by_cases hp : m.pwm = true
  · by_cases hok : io.first = RT_EOK <;> simp [hp, hok]
  · simp [hp]

theorem output_ok (m : Motion) (io : PwmResults) (cb : RtErr) (left right : Int16) :
    ((m.output io cb left right).2 = RT_EOK ↔ OutputOk m io cb) ∧
      ((m.output io cb left right).1.emergencyStop = true ↔
        m.emergencyStop = true ∨ m.pwm = true ∧ ¬ io.Ok) := by
  obtain ⟨hres, hstop⟩ := outputPwm_ok
    { m with outputLeft := left, outputRight := right, outputs := (left, right) :: m.outputs }
    io left right
  refine ⟨?_, hstop⟩
  unfold OutputOk
  by_cases hok : m.pwm = true ∧ io.Ok
  · have hzero := hres.mpr hok
    simp only [output, hzero, ne_eq, not_true_eq_false, if_false]
    cases m.outputCb <;> simp [hok.1, hok.2]
  · have hne : (outputPwm { m with
        outputLeft := left, outputRight := right, outputs := (left, right) :: m.outputs }
        io left right).2 ≠ RT_EOK := fun h => hok (hres.mp h)
    simp only [output, if_pos hne]
    constructor
    · intro h
      cases h
    · intro h
      exact absurd ⟨h.1, h.2.1⟩ hok

/-! ## Faults -/

/-- The targets that a call sets before its service. -/
def aimed (m : Motion) : Op → Motion
  | .setTargetDirect left right =>
    { m with targetLeft := normalizeTarget left, targetRight := normalizeTarget right }
  | _ => m

/-- While motion is requested, the reads of this call bring an encoder to the failure limit. -/
def EncoderFault (m : Motion) (io : MotionIo) : Prop :=
  m.motionRequested = true ∧
    (encoderFailLimit ≤ nextFailCount
        (readEncoderDelta m.leftEncoder m.encoderLeftLast io.leftCount).1 true m.encoderLeftFailCount ∨
      encoderFailLimit ≤ nextFailCount
        (readEncoderDelta m.rightEncoder m.encoderRightLast io.rightCount).1 true
        m.encoderRightFailCount)

/-- The wheels are commanded to move and do not, either since the boosts are used up, or for too
long. -/
def StallRule (m : Motion) (nowMs : UInt32) : Prop :=
  m.actualSource ≠ .none ∧
    commandNonzero (clampRaw m.commandLeft) (clampRaw m.commandRight) = true ∧
    m.actualStalled = true ∧ m.stuckStartMs ≠ 0 ∧
    (nowMs - m.stuckStartMs ≥ stuckTriggerMs ∧ m.boostUntilMs = 0 ∧
        m.stuckBoostCount ≥ stuckMaxBoosts ∨
      nowMs - m.stuckStartMs ≥ stuckFailMs)

/-- The feedback of this call completes a stall. -/
def StallFault (m : Motion) (io : MotionIo) : Prop :=
  StallRule (m.pollActualSpeed io).1.rampCommands (tickToMs io.now)

theorem pollActualSpeed_fault (m : Motion) (io : MotionIo) :
    (m.pollActualSpeed io).2 ≠ RT_EOK ↔ EncoderFault m io := by
  unfold pollActualSpeed EncoderFault
  obtain ⟨leftOk, leftLast, leftDelta⟩ := readEncoderDelta m.leftEncoder m.encoderLeftLast io.leftCount
  obtain ⟨rightOk, rightLast, rightDelta⟩ :=
    readEncoderDelta m.rightEncoder m.encoderRightLast io.rightCount
  cases hreq : m.motionRequested with
  | false =>
    simp only [Bool.false_and, Bool.false_eq_true, if_false, false_and, iff_false, not_not]
    split <;> rfl
  | true =>
    simp only [Bool.true_and, true_and]
    by_cases hfault : encoderFailLimit ≤ nextFailCount leftOk true m.encoderLeftFailCount ∨
        encoderFailLimit ≤ nextFailCount rightOk true m.encoderRightFailCount
    · rw [if_pos (by simpa using hfault)]
      simpa using hfault
    · rw [if_neg (by simpa using hfault)]
      simp only [hfault, iff_false, not_not]
      split <;> rfl

theorem boostTail_fault (m : Motion) (nowMs : UInt32) (stuck : Bool) (left right : Int16) :
    (boostTail m nowMs stuck left right).result ≠ RT_EOK ↔
      stuck = true ∧ nowMs - m.stuckStartMs ≥ stuckFailMs := by
  unfold boostTail
  by_cases h : stuck = true ∧ nowMs - m.stuckStartMs ≥ stuckFailMs
  · rw [if_pos (by simpa using h)]
    simpa using h
  · rw [if_neg (by simpa using h)]
    simp only [h, iff_false, not_not]
    split_ifs <;> rfl

theorem applyStuckBoost_fault (m : Motion) (nowMs : UInt32) :
    (m.applyStuckBoost nowMs (clampRaw m.commandLeft) (clampRaw m.commandRight)).result ≠ RT_EOK ↔
      StallRule m nowMs := by
  unfold applyStuckBoost StallRule
  by_cases hsource : m.actualSource = .none
  · simp [hsource]
  · rw [if_neg hsource]
    by_cases hstuck : commandNonzero (clampRaw m.commandLeft) (clampRaw m.commandRight) = true ∧
        m.actualStalled = true
    · simp only [hstuck.1, hstuck.2, Bool.and_self, if_true, hsource, not_false_eq_true, true_and,
        ne_eq]
      by_cases hstart : m.stuckStartMs = 0
      · rw [if_pos hstart, ← ne_eq, boostTail_fault]
        simp [hstart, stuckFailMs]
      · rw [if_neg hstart]
        by_cases htrigger : nowMs - m.stuckStartMs ≥ stuckTriggerMs ∧ m.boostUntilMs = 0
        · rw [if_pos htrigger]
          by_cases hcount : m.stuckBoostCount ≥ stuckMaxBoosts
          · rw [if_pos hcount]
            simp [hstart, htrigger.1, htrigger.2, hcount]
          · rw [if_neg hcount, ← ne_eq, boostTail_fault]
            simp [hstart, hcount]
        · rw [if_neg htrigger, ← ne_eq, boostTail_fault]
          have hno : ¬ (nowMs - m.stuckStartMs ≥ stuckTriggerMs ∧ m.boostUntilMs = 0 ∧
              m.stuckBoostCount ≥ stuckMaxBoosts) := fun h => htrigger ⟨h.1, h.2.1⟩
          simp only [hstart, hno, true_and, false_or, not_false_eq_true]
    · have hfalse : (commandNonzero (clampRaw m.commandLeft) (clampRaw m.commandRight) &&
          m.actualStalled) = false := by
        rw [← Bool.not_eq_true, Bool.and_eq_true]
        exact hstuck
      simp only [hfalse, Bool.false_eq_true, if_false]
      rw [boostTail_fault]
      constructor
      · intro h
        cases h.1
      · intro h
        exact absurd ⟨h.2.1, h.2.2.1⟩ hstuck

/-! ## The service routine -/

theorem Kept.outputOk {m k : Motion} (h : Kept m k) (io : PwmResults) (cb : RtErr) :
    OutputOk k io cb ↔ OutputOk m io cb := by
  rw [OutputOk, OutputOk, h.pwm, h.outputCb]

/-- An output reports its own failure, so only a stop that was latched before it goes unreported. -/
theorem output_reports (k : Motion) (io : PwmResults) (cb : RtErr) (left right : Int16) :
    ((k.output io cb left right).1.emergencyStop = true →
        (k.output io cb left right).2 ≠ RT_EOK) ↔
      ¬ (k.emergencyStop = true ∧ OutputOk k io cb) := by
  obtain ⟨hres, hstop⟩ := output_ok k io cb left right
  rw [hstop, ne_eq, hres]
  constructor
  · rintro h ⟨hs, hok⟩
    exact h (.inl hs) hok
  · rintro h (hs | ⟨-, hfail⟩) hok
    · exact h ⟨hs, hok⟩
    · exact hfail hok.2.1

theorem serviceReady_reports {m : Motion} (hs : m.emergencyStop = false) (io : MotionIo)
    (direct : Bool) :
    ((m.serviceReady io direct).1.emergencyStop = true → (m.serviceReady io direct).2 ≠ RT_EOK) ↔
      ¬ ((EncoderFault m io ∨ direct = false ∧ StallFault m io) ∧
        OutputOk m io.pwm io.cbResult) := by
  have hpoll := pollActualSpeed_cases m io
  have hfault := pollActualSpeed_fault m io
  rw [StallFault]
  unfold serviceReady
  generalize m.pollActualSpeed io = poll at hpoll hfault ⊢
  obtain ⟨p, r⟩ := poll
  simp only at hpoll hfault ⊢
  rcases hpoll with ⟨rfl, hk⟩ | ⟨rfl, hk⟩
  · have hno : ¬ EncoderFault m io := fun h => hfault.mpr h rfl
    have hps : p.emergencyStop = false := hk.emergencyStop.trans hs
    rw [if_neg (not_not.mpr rfl), if_neg (by simp [hps])]
    cases direct with
    | true =>
      simp only [if_true, output_reports, hno]
      simp [stamp, directCommands, hps]
    | false =>
      have hboost := applyStuckBoost_cases p.rampCommands (tickToMs io.now)
        (clampRaw p.rampCommands.commandLeft) (clampRaw p.rampCommands.commandRight)
      have hstall := applyStuckBoost_fault p.rampCommands (tickToMs io.now)
      simp only [Bool.false_eq_true, if_false, true_and, hno, false_or]
      rcases hboost with ⟨hb, hkb, -⟩ | ⟨hb, hkb⟩
      · rw [if_neg (not_not.mpr hb), output_reports]
        have hnostall : ¬ StallRule p.rampCommands (tickToMs io.now) := fun h => hstall.mpr h hb
        simp only [hnostall, false_and, not_false_eq_true, iff_true]
        rintro ⟨hstop, -⟩
        exact Bool.noConfusion ((hkb.emergencyStop.trans hps).symm.trans hstop)
      · have hne : (p.rampCommands.applyStuckBoost (tickToMs io.now)
            (clampRaw p.rampCommands.commandLeft) (clampRaw p.rampCommands.commandRight)).result ≠
            RT_EOK := by rw [hb]; decide
        rw [if_pos hne, output_reports, hkb.outputOk]
        have hok : OutputOk (p.rampCommands.latchStopped 0xE3) io.pwm io.cbResult ↔
            OutputOk m io.pwm io.cbResult := hk.outputOk _ _
        rw [hok]
        simp only [hstall.mp hne, true_and]
        constructor
        · exact fun h hok => h ⟨hkb.emergencyStop, hok⟩
        · exact fun h hok => h hok.2
  · have hyes : EncoderFault m io := hfault.mp (by decide)
    rw [if_pos (by decide), output_reports, hk.outputOk]
    have hok : OutputOk (m.latchStopped 0xE2) io.pwm io.cbResult ↔
        OutputOk m io.pwm io.cbResult := Iff.rfl
    rw [hok]
    simp only [hyes, true_or, true_and]
    constructor
    · exact fun h hok => h ⟨hk.emergencyStop, hok⟩
    · exact fun h hok => h hok.2

/-- Under a stop that is latched already the service reports its zero output only. -/
theorem serviceReady_reports_stopped {m : Motion} (hs : m.emergencyStop = true) (io : MotionIo)
    (direct : Bool) :
    ((m.serviceReady io direct).1.emergencyStop = true → (m.serviceReady io direct).2 ≠ RT_EOK) ↔
      ¬ OutputOk m io.pwm io.cbResult := by
  have hpoll := pollActualSpeed_cases m io
  unfold serviceReady
  generalize m.pollActualSpeed io = poll at hpoll ⊢
  obtain ⟨p, r⟩ := poll
  simp only at hpoll ⊢
  rcases hpoll with ⟨rfl, hk⟩ | ⟨rfl, hk⟩
  · have hps : p.emergencyStop = true := hk.emergencyStop.trans hs
    rw [if_neg (not_not.mpr rfl), if_pos hps, output_reports, ← hk.outputOk]
    exact not_congr (and_iff_right hps)
  · have hok : OutputOk (m.latchStopped 0xE2) io.pwm io.cbResult ↔
        OutputOk m io.pwm io.cbResult := Iff.rfl
    rw [if_pos (by decide), output_reports, hk.outputOk, hok]
    exact not_congr (and_iff_right hk.emergencyStop)

/-! ## Calls -/

/-- The call finds a fault on the module `k`, or its initialisation did, and its own output succeeds. -/
def UnreportedBy (k : Motion) (io : MotionIo) (op : Op) : Prop :=
  OutputOk k io.pwm io.cbResult ∧
    (k.emergencyStop = true ∧ op = .update ∨
      k.emergencyStop = false ∧ (EncoderFault (k.aimed op) io ∨ op = .update ∧ StallFault k io))

/-- A call on the module `m` latches a stop and does not report it. -/
def Unreported (m : Motion) (io : MotionIo) (op : Op) : Prop :=
  m.emergencyStop = false ∧ ∃ k, m.ensureInit io = (k, RT_EOK) ∧ UnreportedBy k io op

theorem call_reports_ready {k : Motion} (hi : k.initialized = true) (io : MotionIo) {op : Op}
    (hop : op = .update ∨ ∃ left right, op = .setTargetDirect left right) :
    ((k.call io op).1.emergencyStop = true → (k.call io op).2 ≠ RT_EOK) ↔ ¬ UnreportedBy k io op := by
  unfold UnreportedBy
  rcases hop with rfl | ⟨left, right, rfl⟩
  · rw [show k.call io .update = k.serviceReady io false from service_of_initialized hi io false]
    cases hs : k.emergencyStop with
    | true =>
      rw [serviceReady_reports_stopped hs]
      simp
    | false =>
      rw [serviceReady_reports hs]
      simp only [aimed, Bool.false_eq_true, false_and, true_and, false_or]
      rw [and_comm]
  · have hinit := ensureInit_of_initialized hi io
    cases hs : k.emergencyStop with
    | true =>
      have hcall : k.call io (.setTargetDirect left right) = (k, -RT_ERROR) := by
        simp [call, setTargetDirect, hinit, hs]
      rw [hcall]
      simp
    | false =>
      have hcall : k.call io (.setTargetDirect left right) =
          (k.aimed (.setTargetDirect left right)).serviceReady io true := by
        have haimed : (k.aimed (.setTargetDirect left right)).initialized = true := hi
        rw [← service_of_initialized haimed]
        simp [call, setTargetDirect, hinit, hs, aimed]
      rw [hcall, serviceReady_reports (by exact hs)]
      have hok : OutputOk (k.aimed (.setTargetDirect left right)) io.pwm io.cbResult ↔
          OutputOk k io.pwm io.cbResult := Iff.rfl
      rw [hok]
      simp [and_comm]

/-- **What an update reports.** Whatever the state of the module, the tick, the encoder readings and
the PWM results: an update or a direct target that is entered with no stop latched and returns with
one returns an error, exactly unless its own output succeeds and the fault was found by the encoder
poll, by the stall rules, or in the first output of the initialisation. -/
theorem call_reports_iff (m : Motion) (io : MotionIo) {op : Op}
    (hop : op = .update ∨ ∃ left right, op = .setTargetDirect left right) :
    (m.emergencyStop = false → (m.call io op).1.emergencyStop = true →
        (m.call io op).2 ≠ RT_EOK) ↔ ¬ Unreported m io op := by
  unfold Unreported
  cases hs : m.emergencyStop with
  | true => simp
  | false =>
    simp only [true_implies, true_and]
    rcases ensureInit_cases m io with ⟨hi, he⟩ | ⟨-, k, -, -, -, -, ⟨-, r, hr, he⟩ | ⟨hk, -, -, -, he⟩⟩
    · rw [call_reports_ready hi io hop, he]
      simp
    · have hres : (m.call io op).2 ≠ RT_EOK := by
        have hr : ¬ r = 0 := hr
        rcases hop with rfl | ⟨left, right, rfl⟩
        · simp [call, update, service, he, hr]
        · simp [call, setTargetDirect, he, hr]
      rw [he]
      constructor
      · rintro - ⟨k', hk', -⟩
        exact hr (Prod.mk.inj hk').2
      · exact fun _ _ => hres
    · have hready : (k.output io.initPwm io.cbResult 0 0).1.initialized = true := by simp [hk]
      rw [call_of_ensureInit_ok he hready, call_reports_ready hready io hop, he]
      simp

/-- Both encoders fail to answer while the wheels are asked to move. -/
def deafCalls : List (Op × MotionIo) :=
  (.setTarget 100 100, {}) :: List.replicate 19 (.update, {})

/-- The 20th update latches 0xE2 and returns `RT_EOK`. -/
theorem update_unreported :
    let m := after (boot ⟨true, true, true, true, true⟩) deafCalls
    m.emergencyStop = false ∧ (m.call {} .update).1.emergencyStop = true ∧
      (m.call {} .update).1.stopReason = 0xE2 ∧ (m.call {} .update).2 = RT_EOK := by
  decide +kernel

/-- The same update reports the fault if one of its PWM calls fails. -/
theorem call_reports_pwmFailure :
    let m := after (boot ⟨true, true, true, true, true⟩) deafCalls
    let io : MotionIo := { pwm := { leftSet := -RT_ERROR } }
    (m.call io .update).1.emergencyStop = true ∧ (m.call io .update).2 ≠ RT_EOK := by
  intro m io
  have hs : m.emergencyStop = false := by decide +kernel
  have hi : m.initialized = true := by decide +kernel
  have hstop : (m.call io .update).1.emergencyStop = true := by decide +kernel
  refine ⟨hstop, (call_reports_iff m io (.inl rfl)).mpr ?_ hs hstop⟩
  rintro ⟨-, k, -, hok, -⟩
  exact absurd hok.2.1.1 (by decide)

end Motion

end Hcics
