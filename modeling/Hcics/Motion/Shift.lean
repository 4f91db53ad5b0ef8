import Hcics.Motion.StallRuns

/-!
# Motion control and the absolute time

A run and the same run with every tick shifted by `c` behave alike as long as the three uses of absolute
time in the stall rules do: the test `now_ms < boost_limitms`, and the value 0 that means "not set" in
`stuck_start_ms` and `boost_limitms`. `delay` shifts the time fields of a state, every routine commutes
with it (`delay_call`), and `RulesSafe` is the condition under which the stall rules do. The snapshot
compares the same boost end by a signed difference, so near the wrap the two disagree.
-/

namespace Hcics

def MotionIo.shift (io : MotionIo) (c : UInt32) : MotionIo := { io with now := io.now + c }

namespace Motion

/-! ## Shifted states -/

/-- A time field `c` ticks later; 0 stays "not set". -/
def shiftField (c t : UInt32) : UInt32 := if t = 0 then 0 else t + c

@[simp] theorem shiftField_zero (c : UInt32) : shiftField c 0 = 0 := rfl

theorem shiftField_of_ne {c t : UInt32} (h : t ≠ 0) : shiftField c t = t + c := if_neg h

/-- The state with its time fields shifted and with the update tick `tick`. -/
def delay (c tick : UInt32) (m : Motion) : Motion :=
  { m with
    stuckStartMs := shiftField c m.stuckStartMs
    boostUntilMs := shiftField c m.boostUntilMs
    lastUpdateTick := tick }

def delayed (c tick : UInt32) (r : Motion × RtErr) : Motion × RtErr := (r.1.delay c tick, r.2)

/-- The stall rules' result with its state shifted. -/
def Boosted.delay (c tick : UInt32) (b : Boosted) : Boosted :=
  { b with motion := b.motion.delay c tick }

/-- No field that is set becomes "not set" by the shift. -/
structure Shiftable (c : UInt32) (m : Motion) : Prop where
  start : m.stuckStartMs ≠ 0 → m.stuckStartMs + c ≠ 0
  boost : m.boostUntilMs ≠ 0 → m.boostUntilMs + c ≠ 0

theorem shiftable_of_zero {c : UInt32} {m : Motion} (hs : m.stuckStartMs = 0)
    (hb : m.boostUntilMs = 0) : Shiftable c m :=
  ⟨fun h => absurd hs h, fun h => absurd hb h⟩

theorem Shiftable.boost_eq_zero {c : UInt32} {m : Motion} (h : Shiftable c m) :
    shiftField c m.boostUntilMs = 0 ↔ m.boostUntilMs = 0 := by
  by_cases h0 : m.boostUntilMs = 0
  · rw [h0, shiftField_zero]
  · rw [shiftField_of_ne h0]
    simp [h0, h.boost h0]

/-! ## Routines that read no time -/

theorem delay_outputPwm (c tick : UInt32) (m : Motion) (io : PwmResults) (left right : Int16) :
    (m.delay c tick).outputPwm io left right = delayed c tick (m.outputPwm io left right) := by
  rw [outputPwm_eq, outputPwm_eq]
  show (if m.pwm = true then _ else _) = _
  by_cases hp : m.pwm = true
  · rw [if_pos hp, if_pos hp]
    by_cases hok : io.first = RT_EOK
    · rw [if_pos hok, if_pos hok]
      rfl
    · rw [if_neg hok, if_neg hok]
      rfl
  · rw [if_neg hp, if_neg hp]
    rfl

theorem delay_output (c tick : UInt32) (m : Motion) (io : PwmResults) (cb : RtErr)
    (left right : Int16) :
    (m.delay c tick).output io cb left right = delayed c tick (m.output io cb left right) := by
  have h := delay_outputPwm c tick
    { m with outputLeft := left, outputRight := right, outputs := (left, right) :: m.outputs }
    io left right
  exact congrArg (fun r : Motion × RtErr => (r.1, if r.2 ≠ RT_EOK then -RT_ERROR
    else if m.outputCb then cb else RT_EOK)) h

theorem delay_pollActualSpeed (c tick : UInt32) (m : Motion) (io : MotionIo) :
    (m.delay c tick).pollActualSpeed (io.shift c) = delayed c tick (m.pollActualSpeed io) := by
  have hleft : readEncoderDelta (m.delay c tick).leftEncoder (m.delay c tick).encoderLeftLast
      (io.shift c).leftCount = readEncoderDelta m.leftEncoder m.encoderLeftLast io.leftCount := rfl
  have hright : readEncoderDelta (m.delay c tick).rightEncoder (m.delay c tick).encoderRightLast
      (io.shift c).rightCount = readEncoderDelta m.rightEncoder m.encoderRightLast io.rightCount := rfl
  unfold pollActualSpeed
  rw [hleft, hright]
  obtain ⟨leftOk, leftLast, leftDelta⟩ := readEncoderDelta m.leftEncoder m.encoderLeftLast io.leftCount
  obtain ⟨rightOk, rightLast, rightDelta⟩ :=
    readEncoderDelta m.rightEncoder m.encoderRightLast io.rightCount
  simp only
  rw [apply_ite (delayed c tick), apply_ite (delayed c tick)]
  rfl

theorem delay_ensureInit (c tick : UInt32) (m : Motion) (io : MotionIo) :
    (m.delay c tick).ensureInit (io.shift c) = delayed c tick (m.ensureInit io) := by
  have hopen : (m.delay c tick).openDevices (io.shift c) = (m.openDevices io).delay c tick := rfl
  have hout := delay_output c tick
    { (m.openDevices io).refreshOutputMode with initialized := true } io.initPwm io.cbResult 0 0
  unfold ensureInit init
  rw [hopen, apply_ite (delayed c tick), apply_ite (delayed c tick)]
  simp only
  rw [apply_ite (delayed c tick), apply_ite (delayed c tick)]
  have hlast : (Motion.output { ((m.openDevices io).delay c tick).refreshOutputMode with
      initialized := true } (io.shift c).initPwm (io.shift c).cbResult 0 0).1 =
      (Motion.output { (m.openDevices io).refreshOutputMode with initialized := true }
        io.initPwm io.cbResult 0 0).1.delay c tick := congrArg Prod.fst hout
  rw [hlast]
  rfl

/-! ## The stall rules -/

theorem add_sub_add_tick (now start c : UInt32) : now + c - (start + c) = now - start := by
  grind

/-- Both wheels are stalled under a command. -/
def Stuck (p : Motion) : Prop :=
  commandNonzero (clampRaw p.commandLeft) (clampRaw p.commandRight) = true ∧
    p.actualStalled = true

/-- The stall is seen for the first time. -/
def BeginsStall (p : Motion) : Prop := Stuck p ∧ p.stuckStartMs = 0

/-- The stall is old enough for a boost and none is in force. -/
def BeginsBoost (p : Motion) (now : UInt32) : Prop :=
  Stuck p ∧ p.stuckStartMs ≠ 0 ∧ now - p.stuckStartMs ≥ stuckTriggerMs ∧ p.boostUntilMs = 0

/-- The boost window compares the same for `now` and `c` ticks later. -/
def SameWindow (c now limit : UInt32) : Prop := now < limit ↔ now + c < limit + c

/-- What the stall rules need of the tick, when they find no fault, to be blind to a shift by `c`: the
window of a boost in force compares the same, a stall begins at a tick that is 0 in neither run, and a
new boost ends at one that is not, with a window that compares the same. -/
structure RulesSafe (c : UInt32) (p : Motion) (now : UInt32) : Prop where
  window : p.boostUntilMs ≠ 0 → SameWindow c now p.boostUntilMs
  stall : BeginsStall p → now ≠ 0 ∧ now + c ≠ 0
  boost : BeginsBoost p now → now + stuckHoldMs ≠ 0 ∧ now + stuckHoldMs + c ≠ 0 ∧
    SameWindow c now (now + stuckHoldMs)

theorem delay_boostTail {c : UInt32} (tick : UInt32) {m : Motion} {now : UInt32} {stuck : Bool}
    (left right : Int16) (hstart : stuck = true → m.stuckStartMs ≠ 0)
    (hclean : m.stuckStartMs ≠ 0 → m.stuckStartMs + c ≠ 0)
    (hboost : ¬ (stuck = true ∧ now - m.stuckStartMs ≥ stuckFailMs) → m.boostUntilMs ≠ 0 →
      m.boostUntilMs + c ≠ 0 ∧ SameWindow c now m.boostUntilMs) :
    boostTail (m.delay c tick) (now + c) stuck left right =
        (boostTail m now stuck left right).delay c tick ∧
      Shiftable c (boostTail m now stuck left right).motion := by
  have hfail : (stuck && decide (now + c - (m.delay c tick).stuckStartMs ≥ stuckFailMs)) =
      (stuck && decide (now - m.stuckStartMs ≥ stuckFailMs)) := by
    cases hs : stuck with
    | false => rfl
    | true =>
      have : (m.delay c tick).stuckStartMs = m.stuckStartMs + c := shiftField_of_ne (hstart hs)
      rw [this, add_sub_add_tick]
  unfold boostTail
  rw [hfail]
  by_cases hf : (stuck && decide (now - m.stuckStartMs ≥ stuckFailMs)) = true
  · rw [if_pos hf, if_pos hf]
    exact ⟨rfl, hclean, fun h => absurd rfl h⟩
  · rw [if_neg hf, if_neg hf]
    by_cases hb : m.boostUntilMs = 0
    · have hb' : (m.delay c tick).boostUntilMs = 0 := by
        unfold delay
        rw [hb, shiftField_zero]
      rw [if_neg (by simp [hb']), if_neg (by simp [hb']), if_neg (by simp [hb]),
        if_neg (by simp [hb])]
      exact ⟨rfl, hclean, fun h => absurd hb h⟩
    · obtain ⟨hset, hwindow⟩ := hboost (by simpa using hf) hb
      have hshift : (m.delay c tick).boostUntilMs = m.boostUntilMs + c := shiftField_of_ne hb
      have hne : ¬ (m.delay c tick).boostUntilMs = 0 := by
        rw [hshift]
        exact hset
      have hsame : now < m.boostUntilMs ↔ now + c < (m.delay c tick).boostUntilMs := by
        rw [hshift]
        exact hwindow
      by_cases hlt : now < m.boostUntilMs
      · rw [if_pos ⟨hne, hsame.mp hlt⟩, if_pos ⟨hb, hlt⟩]
        exact ⟨rfl, hclean, fun _ => hset⟩
      · have hlt' : ¬ now + c < (m.delay c tick).boostUntilMs := fun h => hlt (hsame.mpr h)
        rw [if_neg (fun h => hlt' h.2), if_pos ⟨hne, UInt32.not_lt.mp hlt'⟩,
          if_neg (fun h => hlt h.2), if_pos ⟨hb, UInt32.not_lt.mp hlt⟩]
        exact ⟨rfl, fun h => absurd rfl h, fun h => absurd rfl h⟩

/-- The stall begins: its start is the tick, which is set in both runs. -/
theorem delay_newStall {c : UInt32} (tick : UInt32) {m : Motion} {now : UInt32} (left right : Int16)
    (hclean : Shiftable c m) (hsafe : RulesSafe c m now) (hstuck : Stuck m) (h0 : m.stuckStartMs = 0) :
    boostTail { m.delay c tick with stuckStartMs := now + c } (now + c) true left right =
        (boostTail { m with stuckStartMs := now } now true left right).delay c tick ∧
      Shiftable c (boostTail { m with stuckStartMs := now } now true left right).motion := by
  obtain ⟨hnow, hnow'⟩ := hsafe.stall ⟨hstuck, h0⟩
  have hmark : { m.delay c tick with stuckStartMs := now + c } =
      Motion.delay c tick { m with stuckStartMs := now } := by
    unfold delay
    simp only [shiftField_of_ne hnow]
  rw [hmark]
  apply delay_boostTail tick
  · intro _
    exact hnow
  · intro _
    exact hnow'
  · intro _ hb
    exact ⟨hclean.boost hb, hsafe.window hb⟩

/-- A boost begins, unless the stall is so long that the last rule zeroes it at once. -/
theorem delay_newBoost {c : UInt32} (tick : UInt32) {m : Motion} {now : UInt32} (left right : Int16)
    (hclean : Shiftable c m) (h0 : m.stuckStartMs ≠ 0)
    (hsafe : ¬ now - m.stuckStartMs ≥ stuckFailMs →
      now + stuckHoldMs ≠ 0 ∧ now + stuckHoldMs + c ≠ 0 ∧ SameWindow c now (now + stuckHoldMs)) :
    boostTail { m.delay c tick with
          boostUntilMs := now + c + stuckHoldMs
          stuckBoostCount := m.stuckBoostCount + 1 } (now + c) true left right =
        (boostTail { m with
          boostUntilMs := now + stuckHoldMs
          stuckBoostCount := m.stuckBoostCount + 1 } now true left right).delay c tick ∧
      Shiftable c (boostTail { m with
          boostUntilMs := now + stuckHoldMs
          stuckBoostCount := m.stuckBoostCount + 1 } now true left right).motion := by
  by_cases hfail : now - m.stuckStartMs ≥ stuckFailMs
  · have hshift : (m.delay c tick).stuckStartMs = m.stuckStartMs + c := shiftField_of_ne h0
    have hold : (true && decide (now - m.stuckStartMs ≥ stuckFailMs)) = true := by
      simpa using hfail
    have hold' : (true && decide (now + c - (m.delay c tick).stuckStartMs ≥ stuckFailMs)) = true := by
      rw [hshift, add_sub_add_tick]
      exact hold
    unfold boostTail
    rw [if_pos hold, if_pos hold']
    exact ⟨rfl, hclean.start, fun h => absurd rfl h⟩
  · obtain ⟨hend, hend', hwindow⟩ := hsafe hfail
    have hmark : { m.delay c tick with
          boostUntilMs := now + c + stuckHoldMs
          stuckBoostCount := m.stuckBoostCount + 1 } =
        Motion.delay c tick { m with
          boostUntilMs := now + stuckHoldMs
          stuckBoostCount := m.stuckBoostCount + 1 } := by
      have hcomm : now + c + stuckHoldMs = now + stuckHoldMs + c := by grind
      unfold delay
      simp only [shiftField_of_ne hend, hcomm]
    rw [hmark]
    apply delay_boostTail tick
    · intro _
      exact h0
    · exact hclean.start
    · intro _ _
      exact ⟨hend', hwindow⟩

/-- **The stall rules commute with the shift** where they are safe. -/
theorem delay_applyStuckBoost {c : UInt32} (tick : UInt32) {m : Motion} (now : UInt32)
    (hclean : Shiftable c m)
    (hsafe : m.actualSource ≠ .none → ¬ StallRule m now → RulesSafe c m now) :
    (m.delay c tick).applyStuckBoost (now + c) (clampRaw m.commandLeft) (clampRaw m.commandRight) =
        (m.applyStuckBoost now (clampRaw m.commandLeft) (clampRaw m.commandRight)).delay c tick ∧
      Shiftable c
        (m.applyStuckBoost now (clampRaw m.commandLeft) (clampRaw m.commandRight)).motion := by
  have hstalled : (m.delay c tick).actualStalled = m.actualStalled := rfl
  unfold applyStuckBoost
  simp only [hstalled]
  by_cases hsource : m.actualSource = .none
  · have hsource' : (m.delay c tick).actualSource = .none := hsource
    rw [if_pos hsource, if_pos hsource']
    exact ⟨rfl, shiftable_of_zero rfl rfl⟩
  · have hsource' : ¬ (m.delay c tick).actualSource = .none := hsource
    have hsafe := hsafe hsource
    rw [if_neg hsource, if_neg hsource']
    by_cases hstuck : Stuck m
    · have hstuck' : (commandNonzero (clampRaw m.commandLeft) (clampRaw m.commandRight) &&
          m.actualStalled) = true := by simpa [Stuck] using hstuck
      simp only [hstuck', if_true]
      by_cases h0 : m.stuckStartMs = 0
      · have h0' : (m.delay c tick).stuckStartMs = 0 := by
          unfold delay
          rw [h0, shiftField_zero]
        rw [if_pos h0, if_pos h0']
        exact delay_newStall tick _ _ hclean (hsafe fun h => h.2.2.2.1 h0) hstuck h0
      · have hshift : (m.delay c tick).stuckStartMs = m.stuckStartMs + c := shiftField_of_ne h0
        have h0' : ¬ (m.delay c tick).stuckStartMs = 0 := by
          rw [hshift]
          exact hclean.start h0
        have hcond : now + c - (m.delay c tick).stuckStartMs ≥ stuckTriggerMs ∧
            (m.delay c tick).boostUntilMs = 0 ↔
            now - m.stuckStartMs ≥ stuckTriggerMs ∧ m.boostUntilMs = 0 := by
          rw [hshift, add_sub_add_tick]
          exact and_congr_right fun _ => hclean.boost_eq_zero
        have hcount : (m.delay c tick).stuckBoostCount = m.stuckBoostCount := rfl
        rw [if_neg h0, if_neg h0']
        by_cases htrigger : now - m.stuckStartMs ≥ stuckTriggerMs ∧ m.boostUntilMs = 0
        · rw [if_pos htrigger, if_pos (hcond.mpr htrigger), hcount]
          by_cases hmax : m.stuckBoostCount ≥ stuckMaxBoosts
          · rw [if_pos hmax, if_pos hmax]
            exact ⟨rfl, hclean.start, fun h => absurd rfl h⟩
          · rw [if_neg hmax, if_neg hmax]
            refine delay_newBoost tick _ _ hclean h0 fun hfail => ?_
            have hsafe := hsafe fun h => by
              rcases h.2.2.2.2 with ⟨-, -, hc⟩ | hf
              · exact hmax hc
              · exact hfail hf
            exact hsafe.boost ⟨hstuck, h0, htrigger⟩
        · rw [if_neg htrigger, if_neg (fun h => htrigger (hcond.mp h))]
          apply delay_boostTail tick
          · intro _
            exact h0
          · exact hclean.start
          · intro hf hb
            have hsafe := hsafe fun h => by
              rcases h.2.2.2.2 with ⟨-, hz, -⟩ | hfail
              · exact hb hz
              · exact hf ⟨rfl, hfail⟩
            exact ⟨hclean.boost hb, hsafe.window hb⟩
    · have hstuck' : (commandNonzero (clampRaw m.commandLeft) (clampRaw m.commandRight) &&
          m.actualStalled) = false := by
        rw [← Bool.not_eq_true, Bool.and_eq_true]
        exact hstuck
      simp only [hstuck', Bool.false_eq_true, if_false]
      have hsafe := hsafe fun h => hstuck ⟨h.2.1, h.2.2.1⟩
      exact delay_boostTail (m := { m with stuckStartMs := 0, stuckBoostCount := 0 }) tick _ _
        (fun h => Bool.noConfusion h) (fun h => absurd rfl h)
        fun _ hb => ⟨hclean.boost hb, hsafe.window hb⟩

/-! ## Calls -/

/-- The update consults the stall rules: nothing stops it before, and feedback is present. -/
def Consults (m : Motion) (io : MotionIo) : Prop :=
  (m.ensureInit io).2 = RT_EOK ∧ ((m.ensureInit io).1.pollActualSpeed io).2 = RT_EOK ∧
    (m.polled io).emergencyStop = false ∧ (m.polled io).actualSource ≠ .none

/-- The condition on a step: where an update consults the stall rules and they find no fault, they are
blind to a shift by `c`. -/
def ClockSafe (c : UInt32) (m : Motion) (i : Op × MotionIo) : Prop :=
  i.1 = .update → Consults m i.2 → ¬ StallRule (m.polled i.2) i.2.now →
    RulesSafe c (m.polled i.2) i.2.now

theorem delay_rampCommands (c tick : UInt32) (m : Motion) :
    (m.delay c tick).rampCommands = m.rampCommands.delay c tick := rfl

theorem shiftable_output {c : UInt32} {m : Motion} (h : Shiftable c m) (io : PwmResults) (cb : RtErr)
    (left right : Int16) : Shiftable c (m.output io cb left right).1 := by
  obtain ⟨lp, rp, ⟨res, he, -⟩ | ⟨he, -⟩⟩ := output_cases m io cb left right <;> rw [he] <;>
    exact ⟨h.start, h.boost⟩

theorem pollActualSpeed_shiftable {c : UInt32} {m : Motion} (h : Shiftable c m) (io : MotionIo) :
    Shiftable c (m.pollActualSpeed io).1 := by
  refine pollActualSpeed_rule (P := fun r => Shiftable c r.1) m io fun _ _ _ _ => ?_
  exact ⟨⟨h.start, h.boost⟩, ⟨h.start, h.boost⟩, fun _ _ _ _ => ⟨h.start, h.boost⟩⟩

/-- A result that is the same in the shifted run, up to the time fields. -/
def Follows (c : UInt32) (r r' : Motion × RtErr) : Prop :=
  (∃ tick', r' = delayed c tick' r) ∧ Shiftable c r.1

theorem follows_output {c : UInt32} (tick : UInt32) {m : Motion} (h : Shiftable c m) (io : PwmResults)
    (cb : RtErr) (left right : Int16) :
    Follows c (m.output io cb left right) ((m.delay c tick).output io cb left right) :=
  ⟨⟨tick, delay_output c tick m io cb left right⟩, shiftable_output h io cb left right⟩

theorem follows_serviceReady {c : UInt32} (tick : UInt32) {m : Motion} (io : MotionIo)
    {direct : Bool} (hclean : Shiftable c m)
    (hsafe : direct = false → (m.pollActualSpeed io).2 = RT_EOK →
      (m.pollActualSpeed io).1.emergencyStop = false →
      (m.pollActualSpeed io).1.actualSource ≠ .none →
      ¬ StallRule (m.pollActualSpeed io).1.rampCommands io.now →
      RulesSafe c (m.pollActualSpeed io).1.rampCommands io.now) :
    Follows c (m.serviceReady io direct)
      ((m.delay c tick).serviceReady (io.shift c) direct) := by
  have hp := pollActualSpeed_shiftable hclean io
  have hpoll := delay_pollActualSpeed c tick m io
  unfold serviceReady
  generalize (m.delay c tick).pollActualSpeed (io.shift c) = poll' at hpoll ⊢
  generalize m.pollActualSpeed io = poll at hp hsafe hpoll ⊢
  obtain ⟨p, r₀⟩ := poll
  obtain ⟨p', r⟩ := poll'
  obtain ⟨rfl, rfl⟩ : p' = p.delay c tick ∧ r = r₀ := Prod.mk.inj hpoll
  simp only at hp hsafe ⊢
  by_cases hr : r ≠ RT_EOK
  · rw [if_pos hr, if_pos hr]
    exact follows_output _ hp io.pwm io.cbResult 0 0
  · rw [if_neg hr, if_neg hr]
    by_cases hs : p.emergencyStop = true
    · rw [if_pos hs, if_pos (show (p.delay c tick).emergencyStop = true from hs)]
      have hclear : (p.delay c tick).clearCommands.stamp (io.shift c).now =
          (p.clearCommands.stamp io.now).delay c (io.now + c) := rfl
      rw [hclear]
      exact follows_output _ (shiftable_of_zero rfl rfl) io.pwm io.cbResult 0 0
    · rw [if_neg hs, if_neg (show ¬ (p.delay c tick).emergencyStop = true from hs)]
      cases direct with
      | true =>
        have hdirect : (p.delay c tick).directCommands.stamp (io.shift c).now =
            (p.directCommands.stamp io.now).delay c (io.now + c) := rfl
        simp only [if_true]
        rw [hdirect]
        exact follows_output _ (shiftable_of_zero rfl rfl) io.pwm io.cbResult _ _
      | false =>
        simp only [Bool.false_eq_true, if_false, tickToMs_eq, delay_rampCommands]
        obtain ⟨hboost, hclean'⟩ := delay_applyStuckBoost tick (m := p.rampCommands)
          io.now ⟨hp.start, hp.boost⟩
          fun hsource hrule => hsafe rfl (by simpa using hr) (by simpa using hs) hsource hrule
        have hb : (p.rampCommands.delay c tick).applyStuckBoost (io.shift c).now
            (clampRaw (p.rampCommands.delay c tick).commandLeft)
            (clampRaw (p.rampCommands.delay c tick).commandRight) =
            (p.rampCommands.applyStuckBoost io.now (clampRaw p.rampCommands.commandLeft)
              (clampRaw p.rampCommands.commandRight)).delay c tick := hboost
        rw [hb]
        generalize p.rampCommands.applyStuckBoost io.now (clampRaw p.rampCommands.commandLeft)
          (clampRaw p.rampCommands.commandRight) = b at hclean' ⊢
        by_cases hbr : b.result ≠ RT_EOK
        · rw [if_pos hbr, if_pos (show (b.delay c tick).result ≠ RT_EOK from hbr)]
          exact follows_output _ hclean' io.pwm io.cbResult 0 0
        · rw [if_neg hbr, if_neg (show ¬ (b.delay c tick).result ≠ RT_EOK from hbr)]
          have hstamp : (b.delay c tick).motion.stamp (io.shift c).now =
              (b.motion.stamp io.now).delay c (io.now + c) := rfl
          have hclean'' : Shiftable c (b.motion.stamp io.now) := ⟨hclean'.start, hclean'.boost⟩
          rw [hstamp]
          exact follows_output _ hclean'' io.pwm io.cbResult (clampRaw b.left) (clampRaw b.right)

theorem ensureInit_shiftable {c : UInt32} {m : Motion} (h : Shiftable c m) (io : MotionIo) :
    Shiftable c (m.ensureInit io).1 := by
  unfold ensureInit init
  simp only
  split_ifs
  · exact h
  · exact ⟨h.start, h.boost⟩
  · exact ⟨h.start, h.boost⟩
  · refine shiftable_output ?_ io.initPwm io.cbResult 0 0
    exact ⟨h.start, h.boost⟩
  · exact h

theorem ensureInit_both {c : UInt32} (tick : UInt32) {m : Motion} (hclean : Shiftable c m)
    (io : MotionIo) : ∃ k r, m.ensureInit io = (k, r) ∧
      (m.delay c tick).ensureInit (io.shift c) = (k.delay c tick, r) ∧ Shiftable c k :=
  ⟨_, _, rfl, delay_ensureInit c tick m io, ensureInit_shiftable hclean io⟩

theorem follows_service {c : UInt32} (tick : UInt32) {m : Motion} (io : MotionIo) {direct : Bool}
    (hclean : Shiftable c m)
    (hsafe : direct = false → Consults m io → ¬ StallRule (m.polled io) io.now →
      RulesSafe c (m.polled io) io.now) :
    Follows c (m.service io direct) ((m.delay c tick).service (io.shift c) direct) := by
  obtain ⟨k, r, he, he', hk⟩ := ensureInit_both tick hclean io
  unfold Consults polled at hsafe
  rw [he] at hsafe
  unfold service
  rw [he, he']
  simp only
  by_cases hr : r ≠ RT_EOK
  · rw [if_pos hr, if_pos hr]
    exact ⟨⟨tick, rfl⟩, hk⟩
  · rw [if_neg hr, if_neg hr]
    apply follows_serviceReady tick io hk
    intro hdirect hpoll hstop hsource hrule
    exact hsafe hdirect ⟨by simpa using hr, hpoll, hstop, hsource⟩ hrule

/-- **Every call commutes with the shift** where its step is safe. -/
theorem follows_call {c : UInt32} (tick : UInt32) {m : Motion} {i : Op × MotionIo}
    (hclean : Shiftable c m) (hsafe : ClockSafe c m i) :
    Follows c (m.call i.2 i.1) ((m.delay c tick).call (i.2.shift c) i.1) := by
  obtain ⟨op, io⟩ := i
  obtain ⟨k, r, he, he', hk⟩ := ensureInit_both tick hclean io
  have hsame : Follows c (k, -RT_ERROR) (k.delay c tick, -RT_ERROR) := ⟨⟨tick, rfl⟩, hk⟩
  cases op with
  | setTarget left right =>
    simp only [call, setTarget, he, he']
    by_cases hr : r ≠ RT_EOK
    · rw [if_pos hr, if_pos hr]
      exact hsame
    · rw [if_neg hr, if_neg hr]
      by_cases hs : k.emergencyStop = true
      · rw [if_pos hs, if_pos (show (k.delay c tick).emergencyStop = true from hs)]
        exact hsame
      · rw [if_neg hs, if_neg (show ¬ (k.delay c tick).emergencyStop = true from hs)]
        exact ⟨⟨tick, rfl⟩, hk.start, hk.boost⟩
  | setTargetDirect left right =>
    simp only [call, setTargetDirect, he, he']
    by_cases hr : r ≠ RT_EOK
    · rw [if_pos hr, if_pos hr]
      exact hsame
    · rw [if_neg hr, if_neg hr]
      by_cases hs : k.emergencyStop = true
      · rw [if_pos hs, if_pos (show (k.delay c tick).emergencyStop = true from hs)]
        exact hsame
      · rw [if_neg hs, if_neg (show ¬ (k.delay c tick).emergencyStop = true from hs)]
        exact follows_service (m := { k with
          targetLeft := normalizeTarget left, targetRight := normalizeTarget right }) tick io
          ⟨hk.start, hk.boost⟩ fun h => Bool.noConfusion h
  | update => exact follows_service tick io hclean fun _ => hsafe rfl
  | emergencyStop reason =>
    simp only [call, doEmergencyStop, he, he']
    by_cases hr : r ≠ RT_EOK
    · rw [if_pos hr, if_pos hr]
      exact ⟨⟨tick, rfl⟩, hk⟩
    · rw [if_neg hr, if_neg hr]
      obtain ⟨⟨tick', h⟩, hclean'⟩ := follows_output tick
        (m := { k.latchStopped reason with stuckStartMs := 0, boostUntilMs := 0 })
        (shiftable_of_zero rfl rfl) io.pwm io.cbResult 0 0
      exact ⟨⟨tick', congrArg (fun r : Motion × RtErr => (r.1, RT_EOK)) h⟩, hclean'⟩
  | clearEmergencyStop =>
    simp only [call, clearEmergencyStop, he, he']
    by_cases hr : r ≠ RT_EOK
    · rw [if_pos hr, if_pos hr]
      exact ⟨⟨tick, rfl⟩, hk⟩
    · rw [if_neg hr, if_neg hr]
      exact ⟨⟨tick, rfl⟩, hk.start, hk.boost⟩
  | reset =>
    simp only [call, reset, he, he']
    by_cases hr : r ≠ RT_EOK
    · rw [if_pos hr, if_pos hr]
      exact ⟨⟨tick, rfl⟩, hk⟩
    · rw [if_neg hr, if_neg hr]
      obtain ⟨⟨tick', h⟩, hclean'⟩ := follows_output tick
        (m := { k with
          targetLeft := 0, targetRight := 0, commandLeft := 0, commandRight := 0
          actualLeft := 0, actualRight := 0
          outputLeft := 0, outputRight := 0
          encoderLeftTotal := 0, encoderRightTotal := 0
          encoderLeftFailCount := 0, encoderRightFailCount := 0
          stuckStartMs := 0, boostUntilMs := 0, stuckBoostCount := 0
          actualSource := .none })
        (shiftable_of_zero rfl rfl) io.pwm io.cbResult 0 0
      exact ⟨⟨tick', congrArg (fun r : Motion × RtErr => (r.1, RT_EOK)) h⟩, hclean'⟩
  | setActualSpeed left right =>
    simp only [call, setActualSpeed, he, he']
    by_cases hr : r ≠ RT_EOK
    · rw [if_pos hr, if_pos hr]
      exact hsame
    · rw [if_neg hr, if_neg hr]
      exact ⟨⟨tick, rfl⟩, hk.start, hk.boost⟩
  | setEncoderDelta left right =>
    simp only [call, setEncoderDelta, he, he']
    by_cases hr : r ≠ RT_EOK
    · rw [if_pos hr, if_pos hr]
      exact hsame
    · rw [if_neg hr, if_neg hr]
      exact ⟨⟨tick, rfl⟩, hk.start, hk.boost⟩
  | setOutputCallback callback =>
    simp only [call, setOutputCallback, he, he']
    by_cases hr : r ≠ RT_EOK
    · rw [if_pos hr, if_pos hr]
      exact hsame
    · rw [if_neg hr, if_neg hr]
      exact ⟨⟨tick, rfl⟩, hk.start, hk.boost⟩

/-! ## Runs -/

def shiftCalls (c : UInt32) (calls : List (Op × MotionIo)) : List (Op × MotionIo) :=
  calls.map fun i => (i.1, i.2.shift c)

theorem after_delay {c : UInt32} (tick : UInt32) {m : Motion} {calls : List (Op × MotionIo)}
    (hclean : Shiftable c m) (hsafe : machine.Meets (ClockSafe c) m calls) :
    (∃ tick', (m.delay c tick).after (shiftCalls c calls) = (m.after calls).delay c tick') ∧
      Shiftable c (m.after calls) := by
  induction calls generalizing m tick with
  | nil => exact ⟨⟨tick, rfl⟩, hclean⟩
  | cons i calls ih =>
    obtain ⟨⟨tick', hcall⟩, hclean'⟩ := follows_call tick hclean hsafe.1
    have hstep : ((m.delay c tick).call (i.2.shift c) i.1).1 =
        (m.call i.2 i.1).1.delay c tick' := congrArg Prod.fst hcall
    obtain ⟨⟨tick'', h⟩, hclean''⟩ := ih tick' hclean' (hsafe.2 _ rfl)
    refine ⟨⟨tick'', ?_⟩, hclean''⟩
    calc (m.delay c tick).after (shiftCalls c (i :: calls))
        = ((m.delay c tick).call (i.2.shift c) i.1).1.after (shiftCalls c calls) := rfl
      _ = ((m.call i.2 i.1).1.delay c tick').after (shiftCalls c calls) := by rw [hstep]
      _ = (m.after (i :: calls)).delay c tick'' := h

/-- Two states that differ in absolute times only: in particular the same targets, commands, outputs
and stop, and a boost in force in both or in neither. -/
def SameBehaviour (m m' : Motion) : Prop :=
  m' = { m with
    stuckStartMs := m'.stuckStartMs
    boostUntilMs := m'.boostUntilMs
    lastUpdateTick := m'.lastUpdateTick } ∧
  (m'.boostUntilMs = 0 ↔ m.boostUntilMs = 0)

theorem sameBehaviour_delay {c : UInt32} (tick : UInt32) {m : Motion} (h : Shiftable c m) :
    SameBehaviour m (m.delay c tick) :=
  ⟨rfl, h.boost_eq_zero⟩

theorem reset_shift (m : Motion) (io : MotionIo) (c : UInt32) : m.reset (io.shift c) = m.reset io :=
  rfl

theorem reset_delay {m : Motion} (h : machine.Reach Machine.free m) (io : MotionIo) (c : UInt32) :
    Shiftable c (m.reset io) ∧
      (m.reset io).delay c (m.reset io).lastUpdateTick = m.reset io := by
  have hdog := (reset_watched h io).2
  have hs : (m.reset io).stuckStartMs = 0 :=
    timeField_eq_none.mp (congrArg Watchdog.State.start hdog)
  have hb : (m.reset io).boostUntilMs = 0 :=
    timeField_eq_none.mp (congrArg Watchdog.State.boost hdog)
  refine ⟨shiftable_of_zero hs hb, ?_⟩
  generalize m.reset io = r at hs hb ⊢
  obtain ⟨⟩ := r
  simp only at hs hb
  subst hs hb
  rfl

theorem run_shift {m : Motion} (h : machine.Reach Machine.free m) (io : MotionIo) {c : UInt32}
    {calls : List (Op × MotionIo)} (hsafe : machine.Meets (ClockSafe c) (m.reset io) calls) :
    SameBehaviour ((m.reset io).after calls)
      ((m.reset (io.shift c)).after (shiftCalls c calls)) := by
  obtain ⟨hclean, hdelay⟩ := reset_delay h io c
  obtain ⟨⟨tick, hafter⟩, hclean'⟩ := after_delay (m.reset io).lastUpdateTick hclean hsafe
  rw [hdelay] at hafter
  rw [reset_shift, hafter]
  exact sameBehaviour_delay tick hclean'

end Motion

end Hcics
