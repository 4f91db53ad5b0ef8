import Hcics.Motion.Latch

/-!
# Clearing the emergency stop

After `hcics_motion_clear_emergency_stop` the wheels should stay still until a nonzero target is
accepted. Three of the four latch sites zero the targets and commands (`latchStopped`), and so does
every service under emergency stop; `hcics_motion_pwm_fail` does not. A clear that comes before the
next service then finds the old targets and the ramp resumes. `clearEmergencyStop_quiet_iff` is the
exact condition at the clear: both targets zero and both commands within one ramp step of zero.
-/

namespace Hcics.Motion

/-! ## Ranges -/

/-- A wheel speed the module may command. -/
def InRange (speed : Int16) : Prop := -speedMax ≤ speed ∧ speed ≤ speedMax

instance (speed : Int16) : Decidable (InRange speed) := inferInstanceAs (Decidable (_ ∧ _))

theorem inRange_zero : InRange 0 := by decide

theorem clampRaw_inRange (speed : Int16) : InRange (clampRaw speed) := by
  unfold InRange clampRaw
  grind

theorem normalizeTarget_inRange (speed : Int16) : InRange (normalizeTarget speed) := by
  unfold normalizeTarget
  simp only
  split_ifs
  · decide
  · decide
  · decide
  · exact clampRaw_inRange speed

theorem normalizeTarget_zero : normalizeTarget 0 = 0 := by decide

theorem inRange_iff {speed : Int16} : InRange speed ↔ -250 ≤ speed.toInt ∧ speed.toInt ≤ 250 := by
  simp only [InRange, Int16.le_iff_toInt_le]
  exact Iff.rfl

theorem toInt_rampStep {command : Int16} (h : InRange command) :
    (command + rampStep).toInt = command.toInt + 15 ∧
      (command - rampStep).toInt = command.toInt - 15 := by
  rw [inRange_iff] at h
  rw [Int16.toInt_add, Int16.toInt_sub, show rampStep.toInt = 15 from rfl]
  constructor <;> exact Int.bmod_eq_of_le (by omega) (by omega)

theorem rampToward_inRange {current target : Int16} (hc : InRange current) (ht : InRange target) :
    InRange (rampToward current target) := by
  obtain ⟨hadd, hsub⟩ := toInt_rampStep hc
  rw [inRange_iff] at *
  simp only [rampToward, gt_iff_lt, Int16.lt_iff_toInt_lt]
  split_ifs <;> constructor <;> omega

theorem nextCommand_ramp (command target : Int16) :
    nextCommand false command target = rampToward command target := by
  simp [nextCommand]

theorem nextCommand_inRange {direct : Bool} {command target : Int16} (hc : InRange command)
    (ht : InRange target) : InRange (nextCommand direct command target) := by
  unfold nextCommand
  split
  · exact ht
  · exact rampToward_inRange hc ht

theorem eq_zero_of_clampRaw {speed : Int16} (h : clampRaw speed = 0) : speed = 0 := by
  unfold clampRaw at h
  split_ifs at h
  · exact absurd h (by decide)
  · exact absurd h (by decide)
  · exact h

theorem eq_zero_of_preserveDirection {speed : Int16}
    (h : preserveDirection speed stuckBoostCmd = 0) : speed = 0 := by
  unfold preserveDirection at h
  split_ifs at h with h1 h2
  · exact h
  · exact absurd h (by decide)
  · exact absurd h (by decide)

theorem eq_zero_of_boostOf {command boosted : Int16} (h : BoostOf (clampRaw command) boosted)
    (h0 : clampRaw boosted = 0) : command = 0 := by
  have hb := eq_zero_of_clampRaw h0
  rcases h with rfl | rfl
  · exact eq_zero_of_clampRaw hb
  · exact eq_zero_of_clampRaw (eq_zero_of_preserveDirection hb)

theorem boostOf_zero {boosted : Int16} (h : BoostOf (clampRaw 0) boosted) : clampRaw boosted = 0 := by
  rcases h with rfl | rfl <;> decide

/-- At most one ramp step from zero. -/
def NearZero (command : Int16) : Prop := -rampStep ≤ command ∧ command ≤ rampStep

theorem nextCommand_zero {direct : Bool} {command : Int16} (h : NearZero command) :
    nextCommand direct command 0 = 0 := by
  unfold NearZero at h
  unfold nextCommand rampToward
  grind

/-- Two ramp steps that both end at zero started within one step of a zero target. -/
theorem nearZero_of_ramps {command target : Int16} (hc : InRange command)
    (h1 : rampToward command target = 0) (h2 : rampToward 0 target = 0) :
    target = 0 ∧ NearZero command := by
  unfold InRange NearZero rampToward at *
  grind

/-- In an initialised module both encoders are open and every target and command is in range. -/
structure Tuned (m : Motion) : Prop where
  leftEncoder : m.leftEncoder = true
  rightEncoder : m.rightEncoder = true
  targetLeft : InRange m.targetLeft
  targetRight : InRange m.targetRight
  commandLeft : InRange m.commandLeft
  commandRight : InRange m.commandRight

theorem servedTarget_inRange {m : Motion} (hm : Tuned m) (op : Op) :
    InRange (servedTarget op m).1 ∧ InRange (servedTarget op m).2 := by
  cases op
  case setTargetDirect left right =>
    exact ⟨normalizeTarget_inRange left, normalizeTarget_inRange right⟩
  all_goals exact ⟨hm.targetLeft, hm.targetRight⟩

theorem output_tuned {k : Motion} (io : PwmResults) (cb : RtErr) (left right : Int16)
    (hk : Tuned k) : Tuned (k.output io cb left right).1 := by
  obtain ⟨h1, h2, h3, h4, h5, h6⟩ := hk
  obtain ⟨lp, rp, ⟨res, he, -⟩ | ⟨he, -⟩⟩ := output_cases k io cb left right
  · rw [he]; exact ⟨h1, h2, h3, h4, h5, h6⟩
  · rw [he]; exact ⟨h1, h2, h3, h4, h5, h6⟩

theorem Halted.tuned {k : Motion} (h : Halted k) (hl : k.leftEncoder = true)
    (hr : k.rightEncoder = true) : Tuned k :=
  ⟨hl, hr, h.targetLeft ▸ inRange_zero, h.targetRight ▸ inRange_zero,
    h.commandLeft ▸ inRange_zero, h.commandRight ▸ inRange_zero⟩

theorem call_initialized {m : Motion} (hi : m.initialized = true) (io : MotionIo) (op : Op) :
    (m.call io op).1.initialized = true := by
  rcases call_cases hi io op with ⟨h, -⟩ | ⟨k, pwm, cb, he, h, -⟩ | ⟨k, pwm, cb, _, _, _, he, h, -⟩
  · exact h
  · rw [he]; simpa using h
  · rw [he]; simpa using h

theorem call_tuned {m : Motion} (hi : m.initialized = true) (hm : Tuned m) (io : MotionIo)
    (op : Op) : Tuned (m.call io op).1 := by
  rcases call_cases hi io op with
    ⟨-, hl, hr, -, -, hcl, hcr, htargets, -⟩ |
      ⟨k, pwm, cb, he, -, hl, hr, -, hhalt, -⟩ |
      ⟨k, pwm, cb, direct, left, right, he, -, hl, hr, -, -, -, -, htl, htr, hcl, hcr, -⟩
  · have htargets : InRange (m.call io op).1.targetLeft ∧ InRange (m.call io op).1.targetRight := by
      rcases htargets with ⟨h1, h2⟩ | ⟨left, right, -, -, h1, h2⟩
      · exact ⟨h1 ▸ hm.targetLeft, h2 ▸ hm.targetRight⟩
      · exact ⟨h1 ▸ normalizeTarget_inRange left, h2 ▸ normalizeTarget_inRange right⟩
    exact ⟨hl.trans hm.leftEncoder, hr.trans hm.rightEncoder, htargets.1, htargets.2,
      hcl ▸ hm.commandLeft, hcr ▸ hm.commandRight⟩
  · rw [he]
    exact output_tuned _ _ _ _ (hhalt.tuned (hl.trans hm.leftEncoder) (hr.trans hm.rightEncoder))
  · rw [he]
    have htL : InRange k.targetLeft := htl ▸ (servedTarget_inRange hm op).1
    have htR : InRange k.targetRight := htr ▸ (servedTarget_inRange hm op).2
    exact output_tuned _ _ _ _ ⟨hl.trans hm.leftEncoder, hr.trans hm.rightEncoder, htL, htR,
      hcl ▸ nextCommand_inRange hm.commandLeft htL, hcr ▸ nextCommand_inRange hm.commandRight htR⟩

theorem tuned_of_reach {ok : Motion → Op × MotionIo → Prop} {m : Motion}
    (h : machine.Reach ok m) (hi : m.initialized = true) : Tuned m := by
  refine h.inv (P := fun m => m.initialized = true → Tuned m) ?_ (fun s i t _ hs _ hstep => ?_) hi
  · rintro _ ⟨pins, rfl⟩ hi
    cases hi
  · obtain rfl : (s.call i.2 i.1).1 = t := by simpa [machine] using hstep
    intro hi
    rcases ensureInit_cases s i.2 with
      ⟨hs', -⟩ | ⟨-, k, -, -, -, hhalt, ⟨hk, r, hr, he⟩ | ⟨hk, hl, hright, -, he⟩⟩
    · exact call_tuned hs' (hs hs') i.2 i.1
    · rw [call_of_ensureInit_fail he hr, hk] at hi
      cases hi
    · have hout : (k.output i.2.initPwm i.2.cbResult 0 0).1.initialized = true := by simp [hk]
      rw [call_of_ensureInit_ok he hout]
      exact call_tuned hout (output_tuned _ _ _ _ (hhalt.tuned hl hright)) i.2 i.1

/-! ## The runs after a clear -/

/-- A target setter that is not refused and asks for motion. -/
def StartsMotion (m : Motion) (i : Op × MotionIo) : Prop :=
  (m.ensureInit i.2).2 = RT_EOK ∧ (m.ensureInit i.2).1.emergencyStop = false ∧
    ∃ left right, (i.1 = .setTarget left right ∨ i.1 = .setTargetDirect left right) ∧
      (left ≠ 0 ∨ right ≠ 0)

/-- A call that does not start motion. -/
def Quiet (m : Motion) (i : Op × MotionIo) : Prop := ¬ StartsMotion m i

/-- Every output made between `m` and the later `m'` is zero. -/
def ZeroSince (m m' : Motion) : Prop :=
  ∀ new, m'.outputs = new ++ m.outputs → ∀ out ∈ new, out = (0, 0)

/-- The module at rest: zero targets, and commands that the next ramp step ends. -/
structure Coasting (m : Motion) : Prop where
  initialized : m.initialized = true
  targetLeft : m.targetLeft = 0
  targetRight : m.targetRight = 0
  commandLeft : NearZero m.commandLeft
  commandRight : NearZero m.commandRight

theorem nearZero_zero : NearZero 0 := by
  constructor <;> decide

theorem output_coasting {k : Motion} (io : PwmResults) (cb : RtErr) (left right : Int16)
    (hk : Coasting k) : Coasting (k.output io cb left right).1 := by
  obtain ⟨h1, h2, h3, h4, h5⟩ := hk
  obtain ⟨lp, rp, ⟨res, he, -⟩ | ⟨he, -⟩⟩ := output_cases k io cb left right
  · rw [he]; exact ⟨h1, h2, h3, h4, h5⟩
  · rw [he]; exact ⟨h1, h2, h3, h4, h5⟩

theorem Halted.coasting {k : Motion} (h : Halted k) (hi : k.initialized = true) : Coasting k :=
  ⟨hi, h.targetLeft, h.targetRight, h.commandLeft ▸ nearZero_zero, h.commandRight ▸ nearZero_zero⟩

@[simp] theorem output_outputs (m : Motion) (io : PwmResults) (cb : RtErr) (left right : Int16) :
    (m.output io cb left right).1.outputs = (left, right) :: m.outputs := by
  obtain ⟨lp, rp, ⟨res, he, -⟩ | ⟨he, -⟩⟩ := output_cases m io cb left right <;> rw [he]

theorem output_keeps_commands (m : Motion) (io : PwmResults) (cb : RtErr) (left right : Int16) :
    (m.output io cb left right).1.targetLeft = m.targetLeft ∧
      (m.output io cb left right).1.targetRight = m.targetRight ∧
      (m.output io cb left right).1.commandLeft = m.commandLeft ∧
      (m.output io cb left right).1.commandRight = m.commandRight := by
  obtain ⟨lp, rp, ⟨res, he, -⟩ | ⟨he, -⟩⟩ := output_cases m io cb left right
  · rw [he]; exact ⟨rfl, rfl, rfl, rfl⟩
  · rw [he]; exact ⟨rfl, rfl, rfl, rfl⟩

theorem Quiet.servedTarget {m : Motion} (hi : m.initialized = true) (hl : m.targetLeft = 0)
    (hr : m.targetRight = 0) {io : MotionIo} {op : Op} (hq : Quiet m (op, io))
    (hs : m.emergencyStop = false) : Motion.servedTarget op m = (0, 0) := by
  have hinit := ensureInit_of_initialized hi io
  cases op
  case setTargetDirect left right =>
    have hz : left = 0 ∧ right = 0 := by
      by_contra hne
      refine hq ⟨by simp [hinit], by simp [hinit, hs], left, right, .inr rfl, ?_⟩
      by_contra h
      exact hne (by simpa using h)
    simp [Motion.servedTarget, hz.1, hz.2, normalizeTarget_zero]
  all_goals simp [Motion.servedTarget, hl, hr]

theorem call_still {m : Motion} (hi : m.initialized = true) (hl : m.targetLeft = 0)
    (hr : m.targetRight = 0) (io : MotionIo) {op : Op} (hq : Quiet m (op, io)) :
    (m.call io op).1.targetLeft = 0 ∧ (m.call io op).1.targetRight = 0 := by
  have hinit := ensureInit_of_initialized hi io
  rcases call_cases hi io op with
    ⟨-, -, -, -, -, -, -, htargets, -⟩ |
      ⟨k, pwm, cb, he, -, -, -, -, hhalt, -⟩ |
      ⟨k, pwm, cb, direct, left, right, he, -, -, -, -, hfree, -, -, htl, htr, -⟩
  · rcases htargets with ⟨h1, h2⟩ | ⟨left, right, rfl, hs, h1, h2⟩
    · exact ⟨h1.trans hl, h2.trans hr⟩
    · have hz : left = 0 ∧ right = 0 := by
        by_contra hne
        refine hq ⟨by simp [hinit], by simp [hinit, hs], left, right, .inl rfl, ?_⟩
        by_contra h
        exact hne (by simpa using h)
      rw [h1, h2, hz.1, hz.2]
      exact ⟨normalizeTarget_zero, normalizeTarget_zero⟩
  · obtain ⟨h1, h2, -⟩ := output_keeps_commands k pwm cb 0 0
    rw [he]
    exact ⟨h1.trans hhalt.targetLeft, h2.trans hhalt.targetRight⟩
  · obtain ⟨h1, h2, -⟩ := output_keeps_commands k pwm cb left right
    rw [hq.servedTarget hi hl hr hfree] at htl htr
    rw [he]
    exact ⟨h1.trans htl, h2.trans htr⟩

theorem call_coasting {m : Motion} (hm : Coasting m) (io : MotionIo) {op : Op}
    (hq : Quiet m (op, io)) :
    Coasting (m.call io op).1 ∧ ((m.call io op).1.outputs = m.outputs ∨
      (m.call io op).1.outputs = (0, 0) :: m.outputs) := by
  obtain ⟨hleft, hright⟩ := call_still hm.initialized hm.targetLeft hm.targetRight io hq
  rcases call_cases hm.initialized io op with
    ⟨hi, -, -, houts, -, hcl, hcr, -, -⟩ |
      ⟨k, pwm, cb, he, hi, -, -, houts, hhalt, -⟩ |
      ⟨k, pwm, cb, direct, left, right, he, hi, -, -, houts, hfree, -, -, htl, htr, hcl, hcr,
        ⟨bl, hbl, rfl⟩, ⟨br, hbr, rfl⟩⟩
  · exact ⟨⟨hi, hleft, hright, hcl ▸ hm.commandLeft, hcr ▸ hm.commandRight⟩, .inl houts⟩
  · rw [he, output_outputs, houts]
    exact ⟨output_coasting _ _ _ _ (hhalt.coasting hi), .inr rfl⟩
  · rw [hq.servedTarget hm.initialized hm.targetLeft hm.targetRight hfree] at htl htr
    have hl : k.commandLeft = 0 := by rw [hcl, htl, nextCommand_zero hm.commandLeft]
    have hr : k.commandRight = 0 := by rw [hcr, htr, nextCommand_zero hm.commandRight]
    rw [hl] at hbl
    rw [hr] at hbr
    rw [he, output_outputs, houts, boostOf_zero hbl, boostOf_zero hbr]
    exact ⟨output_coasting _ _ _ _ ⟨hi, htl, htr, hl ▸ nearZero_zero, hr ▸ nearZero_zero⟩, .inr rfl⟩

theorem run_coasting {m m' : Motion} (hm : Coasting m) (h : machine.Run Quiet m m') :
    Coasting m' ∧ ∃ n, m'.outputs = List.replicate n (0, 0) ++ m.outputs := by
  refine h.inv (P := fun t => Coasting t ∧ ∃ n, t.outputs = List.replicate n (0, 0) ++ m.outputs)
    ⟨hm, 0, rfl⟩ fun t i t' _ ht hok hstep => ?_
  obtain ⟨hcoast, n, hn⟩ := ht
  obtain rfl : (t.call i.2 i.1).1 = t' := by simpa [machine] using hstep
  obtain ⟨h1, h2 | h2⟩ := call_coasting hcoast i.2 hok
  · exact ⟨h1, n, h2.trans hn⟩
  · exact ⟨h1, n + 1, by rw [h2, hn]; rfl⟩

theorem zeroSince_of_replicate {m m' : Motion} {n : Nat}
    (h : m'.outputs = List.replicate n (0, 0) ++ m.outputs) : ZeroSince m m' := by
  intro new hnew out hout
  rw [h, List.append_cancel_right_eq] at hnew
  exact List.eq_of_mem_replicate (hnew ▸ hout)

/-! ## The ramp resumed -/

/-- Answers under which the vehicle moves: both encoders advance by 100 and no PWM call fails. -/
def movingIo (m : Motion) : MotionIo where
  leftCount := some (m.encoderLeftLast + 100)
  rightCount := some (m.encoderRightLast + 100)

theorem readEncoderDelta_moving (last : Int32) :
    readEncoderDelta true last (some (last + 100)) = (true, last + 100, 100) := by
  have hdiff : last + 100 - last = 100 := by grind
  simp only [readEncoderDelta, hdiff]
  rfl

theorem pollActualSpeed_moving {m : Motion} (hl : m.leftEncoder = true)
    (hr : m.rightEncoder = true) :
    (m.pollActualSpeed (movingIo m)).2 = RT_EOK ∧
      (m.pollActualSpeed (movingIo m)).1.actualStalled = false := by
  have hcount : ¬ (0 : UInt8) ≥ encoderFailLimit := by decide
  simp only [pollActualSpeed, movingIo, hl, hr, readEncoderDelta_moving, nextFailCount, if_true,
    hcount, decide_false, Bool.or_false, Bool.and_false, Bool.false_eq_true, if_false]
  exact ⟨rfl, rfl⟩

theorem boostTail_not_stuck (m : Motion) (nowMs : UInt32) (left right : Int16) :
    (boostTail m nowMs false left right).result = RT_EOK := by
  unfold boostTail
  simp only [Bool.false_and, Bool.false_eq_true, if_false]
  split_ifs <;> rfl

theorem applyStuckBoost_not_stalled {m : Motion} (h : m.actualStalled = false) (nowMs : UInt32)
    (left right : Int16) : (m.applyStuckBoost nowMs left right).result = RT_EOK := by
  unfold applyStuckBoost
  simp only [h, Bool.and_false, Bool.false_eq_true, if_false]
  split_ifs
  · rfl
  · exact boostTail_not_stuck _ _ _ _

theorem output_pwmOk (m : Motion) (cb : RtErr) (left right : Int16) :
    (m.output {} cb left right).1.emergencyStop = m.emergencyStop := by
  by_cases hp : m.pwm = true <;> simp [output, outputPwm, hp, gpioSafe]

theorem update_moving_free {m : Motion} (hi : m.initialized = true) (hm : Tuned m)
    (hs : m.emergencyStop = false) : (m.update (movingIo m)).1.emergencyStop = false := by
  obtain ⟨hok, hstall⟩ := pollActualSpeed_moving hm.leftEncoder hm.rightEncoder
  have hk : Kept m (m.pollActualSpeed (movingIo m)).1 := by
    rcases pollActualSpeed_cases m (movingIo m) with ⟨-, hk⟩ | ⟨herr, -⟩
    · exact hk
    · rw [hok] at herr
      exact absurd herr (by decide)
  rw [update, service_of_initialized hi]
  unfold serviceReady
  generalize m.pollActualSpeed (movingIo m) = poll at hok hstall hk ⊢
  obtain ⟨p, r⟩ := poll
  simp only at hok hstall hk
  have hp : p.emergencyStop = false := hk.emergencyStop.trans hs
  have hstall' : p.rampCommands.actualStalled = false := hstall
  simp only [hok, hp, ne_eq, not_true_eq_false, if_false, Bool.false_eq_true]
  have hboost := applyStuckBoost_not_stalled hstall' (tickToMs (movingIo m).now)
    (clampRaw p.rampCommands.commandLeft) (clampRaw p.rampCommands.commandRight)
  rw [if_neg (not_not.mpr hboost)]
  refine (output_pwmOk _ _ _ _).trans ?_
  rcases applyStuckBoost_cases p.rampCommands (tickToMs (movingIo m).now)
    (clampRaw p.rampCommands.commandLeft) (clampRaw p.rampCommands.commandRight) with
    ⟨-, hkb, -⟩ | ⟨herr, -⟩
  · exact hkb.emergencyStop.trans hp
  · rw [hboost] at herr
    exact absurd herr (by decide)

/-- A moving update takes one ramp step and outputs zero on a wheel only if its command is zero. -/
theorem update_moving {m : Motion} (hi : m.initialized = true) (hm : Tuned m)
    (hs : m.emergencyStop = false) :
    let m' := (m.update (movingIo m)).1
    m'.targetLeft = m.targetLeft ∧ m'.targetRight = m.targetRight ∧
      m'.commandLeft = rampToward m.commandLeft m.targetLeft ∧
      m'.commandRight = rampToward m.commandRight m.targetRight ∧
      ∃ left right, m'.outputs = (left, right) :: m.outputs ∧
        (left = 0 → m'.commandLeft = 0) ∧ (right = 0 → m'.commandRight = 0) := by
  have hfree := update_moving_free hi hm hs
  rw [update, service_of_initialized hi] at *
  obtain ⟨k, left, right, he, hk⟩ := serviceReady_cases m (movingIo m) false
  obtain ⟨h1, h2, h3, h4⟩ :=
    output_keeps_commands k (movingIo m).pwm (movingIo m).cbResult left right
  rw [he] at hfree ⊢
  simp only [h1, h2, h3, h4, output_outputs, hk.outputs]
  rcases hk.cases with ⟨hstop, -⟩ | ⟨-, -, htl, htr, hcl, hcr, ⟨bl, hbl, hl⟩, ⟨br, hbr, hr⟩⟩
  · rw [output_emergencyStop _ _ _ _ hstop] at hfree
    cases hfree
  · rw [nextCommand_ramp] at hcl hcr
    exact ⟨htl, htr, hcl, hcr, left, right, rfl, fun h => eq_zero_of_boostOf hbl (hl ▸ h),
      fun h => eq_zero_of_boostOf hbr (hr ▸ h)⟩

/-! ## Old motion after a clear -/

theorem clearEmergencyStop_of_initialized {m : Motion} (hi : m.initialized = true)
    (io : MotionIo) :
    m.clearEmergencyStop io = { m with emergencyStop := false, stopReason := 0 } := by
  simp [clearEmergencyStop, ensureInit_of_initialized hi]

theorem coasting_of_zeroSince {m : Motion} (hi : m.initialized = true) (hm : Tuned m)
    (hs : m.emergencyStop = false)
    (hz : ∀ m', machine.Run Quiet m m' → ZeroSince m m') : Coasting m := by
  have hquiet : ∀ (k : Motion) (io : MotionIo), Quiet k (.update, io) := by
    rintro k io ⟨-, -, left, right, h | h, -⟩ <;> cases h
  -- the first update outputs zero, so both commands ramp to zero
  obtain ⟨htl, htr, hcl, hcr, l₁, r₁, hout₁, hl₁, hr₁⟩ := update_moving hi hm hs
  have hrun₁ : machine.Run Quiet m (m.update (movingIo m)).1 :=
    .single (i := (.update, movingIo m)) (hquiet _ _) rfl
  obtain ⟨rfl, rfl⟩ : l₁ = 0 ∧ r₁ = 0 := by
    simpa using hz _ hrun₁ [(l₁, r₁)] hout₁ _ (List.mem_singleton_self _)
  have hcl₁ := hl₁ rfl
  have hcr₁ := hr₁ rfl
  -- so does the second, which starts from zero commands
  have hi₁ : (m.update (movingIo m)).1.initialized = true := call_initialized hi _ .update
  obtain ⟨-, -, hcl', hcr', l₂, r₂, hout₂, hl₂, hr₂⟩ := update_moving hi₁
    (call_tuned hi hm (movingIo m) .update) (update_moving_free hi hm hs)
  have hrun₂ := Machine.Run.step (i := (.update, movingIo (m.update (movingIo m)).1)) hrun₁
    (hquiet _ _) rfl
  obtain ⟨rfl, rfl⟩ : l₂ = 0 ∧ r₂ = 0 := by
    simpa using hz _ hrun₂ [(l₂, r₂), (0, 0)] (hout₂.trans (by rw [hout₁]; rfl)) (l₂, r₂) (by simp)
  rw [hl₂ rfl, hcl₁, htl] at hcl'
  rw [hr₂ rfl, hcr₁, htr] at hcr'
  rw [hcl₁] at hcl
  rw [hcr₁] at hcr
  obtain ⟨h1, h2⟩ := nearZero_of_ramps hm.commandLeft hcl.symm hcl'.symm
  obtain ⟨h3, h4⟩ := nearZero_of_ramps hm.commandRight hcr.symm hcr'.symm
  exact ⟨hi, h1, h3, h2, h4⟩

/-- **Exactly when clearing an emergency stop does not resume old motion.** From a reachable state
with the stop latched, every output after the clear and before a nonzero target is accepted is
(0,0), whatever the calls, ticks, encoder readings and PWM results, if and only if at the clear
both targets are zero and both commands are within one ramp step of zero. -/
theorem clearEmergencyStop_quiet_iff {m : Motion} (h : machine.Reach Machine.free m)
    (hs : m.emergencyStop = true) (io : MotionIo) :
    (∀ m', machine.Run Quiet (m.clearEmergencyStop io) m' →
        ZeroSince (m.clearEmergencyStop io) m') ↔
      m.targetLeft = 0 ∧ m.targetRight = 0 ∧ NearZero m.commandLeft ∧ NearZero m.commandRight := by
  have hi := (latchInv_of_reach h).stopped hs
  have hm := tuned_of_reach h hi
  rw [clearEmergencyStop_of_initialized hi io]
  constructor
  · intro hz
    have htuned : Tuned { m with emergencyStop := false, stopReason := 0 } :=
      ⟨hm.leftEncoder, hm.rightEncoder, hm.targetLeft, hm.targetRight, hm.commandLeft,
        hm.commandRight⟩
    have hc := coasting_of_zeroSince (by exact hi) htuned rfl hz
    exact ⟨hc.targetLeft, hc.targetRight, hc.commandLeft, hc.commandRight⟩
  · rintro ⟨h1, h2, h3, h4⟩ m' hrun
    have hc : Coasting { m with emergencyStop := false, stopReason := 0 } := ⟨hi, h1, h2, h3, h4⟩
    obtain ⟨-, n, hn⟩ := run_coasting hc hrun
    exact zeroSince_of_replicate hn

/-- The calls of the failing run: a target, and a ramp step whose first PWM call fails. -/
def failingCalls : List (Op × MotionIo) :=
  [(.setTarget 100 100, {}), (.update, { pwm := { leftSet := -RT_ERROR } })]

/-- A PWM failure in the middle of a ramp latches the stop and keeps the targets of 100; the update
after the clear drives both wheels forward again with no target accepted in between. -/
theorem clearEmergencyStop_resumes :
    let m := (boot safePins).after failingCalls
    let cleared := m.clearEmergencyStop {}
    let m' := (cleared.call {} .update).1
    m.emergencyStop = true ∧ m.targetLeft = 100 ∧ machine.Run Quiet cleared m' ∧
      m'.outputs = (30, 30) :: cleared.outputs ∧ m'.pins.stby = stbyActiveLevel ∧
      ¬ ZeroSince cleared m' := by
  refine ⟨by decide, by decide, .single (i := (.update, {})) ?_ rfl, by decide, by decide, ?_⟩
  · rintro ⟨-, -, left, right, h | h, -⟩ <;> cases h
  · intro h
    exact absurd (h [(30, 30)] (by decide) _ (List.mem_singleton_self _)) (by decide)

/-- A stop requested while the wheels ramp halts everything, so the clear resumes nothing. -/
theorem clearEmergencyStop_quiet_requested :
    let m := (boot safePins).after
      [(.setTarget 100 100, {}), (.update, {}), (.emergencyStop 1, {})]
    ∀ m', machine.Run Quiet (m.clearEmergencyStop {}) m' → ZeroSince (m.clearEmergencyStop {}) m' :=
  (clearEmergencyStop_quiet_iff (reach_after _ _) (by decide) {}).mpr (by
    unfold NearZero
    decide)

end Hcics.Motion
