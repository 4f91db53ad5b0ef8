import Hcics.Lib.Watchdog
import Hcics.Motion.Clear
import Hcics.Motion.Report

/-!
# Stall detection

`hcics_motion_apply_stuck_boost` keeps three fields across updates; in a run whose ticks do not wrap
they are the state of a `Watchdog`. `update_watchdog` is the step: an update that ends without a stop
is a reading of the watchdog, and one that latches 0xE3 is a reading at which it gives up. Soundness
and completeness of the stall rules are then those of the watchdog.
-/

namespace Hcics.Motion

/-! ## The stall rules as a watchdog -/

def stuckLimits : Watchdog.Limits where
  trigger := stuckTriggerMs.toNat
  hold := stuckHoldMs.toNat
  fail := stuckFailMs.toNat
  boosts := stuckMaxBoosts.toNat

@[simp] theorem stuckLimits_trigger : stuckLimits.trigger = 220 := rfl
@[simp] theorem stuckLimits_hold : stuckLimits.hold = 450 := rfl
@[simp] theorem stuckLimits_fail : stuckLimits.fail = 1800 := rfl
@[simp] theorem stuckLimits_boosts : stuckLimits.boosts = 2 := rfl

/-- A time field, in which 0 stands for "not set". -/
def timeField (t : UInt32) : Option Nat := if t = 0 then none else some t.toNat

@[simp] theorem timeField_zero : timeField 0 = none := rfl

theorem timeField_of_ne {t : UInt32} (h : t ≠ 0) : timeField t = some t.toNat := if_neg h

theorem timeField_eq_none {t : UInt32} : timeField t = none ↔ t = 0 := by
  unfold timeField
  split <;> simp [*]

theorem timeField_eq_some {t : UInt32} {n : Nat} (h : timeField t = some n) :
    t ≠ 0 ∧ t.toNat = n := by
  unfold timeField at h
  split at h
  · cases h
  · exact ⟨‹_›, Option.some.inj h⟩

def watchdog (m : Motion) : Watchdog.State where
  start := timeField m.stuckStartMs
  boost := timeField m.boostUntilMs
  count := m.stuckBoostCount.toNat

/-- What the stall rules read off the wheel commands and the measured speeds. -/
def stuckReading (m : Motion) (left right : Int16) : Watchdog.Reading :=
  if m.actualSource = .none then .absent
  else if commandNonzero left right && m.actualStalled then .stuck
  else .moving

/-- The bookkeeping is of the past and no sum with `now` wraps. -/
structure Clocked (m : Motion) (now : UInt32) : Prop where
  pos : 1 ≤ now.toNat
  room : now.toNat ≤ 2 ^ 32 - 451
  start : m.stuckStartMs.toNat ≤ now.toNat
  count : m.stuckBoostCount.toNat ≤ 2

theorem sub_ge_iff {a b d : UInt32} (h : b.toNat ≤ a.toNat) :
    a - b ≥ d ↔ b.toNat + d.toNat ≤ a.toNat := by
  rw [ge_iff_le, UInt32.le_iff_toNat_le, UInt32.toNat_sub_of_le _ _ (UInt32.le_iff_toNat_le.mpr h)]
  omega

/-- The end of the stall rules, where they find no fault, ends a boost whose time has come. -/
theorem boostTail_expire (m : Motion) {now : UInt32} {stuck : Bool} (left right : Int16)
    (h : ¬ (stuck = true ∧ now - m.stuckStartMs ≥ stuckFailMs)) :
    (boostTail m now stuck left right).result = RT_EOK ∧
      watchdog (boostTail m now stuck left right).motion =
        Watchdog.expire (watchdog m) now.toNat := by
  unfold boostTail
  rw [if_neg (by simpa using h)]
  by_cases hb : m.boostUntilMs = 0
  · rw [if_neg (by simp [hb]), if_neg (by simp [hb])]
    refine ⟨rfl, ?_⟩
    simp only [Watchdog.expire, watchdog, hb, timeField_zero]
  · by_cases hlt : now < m.boostUntilMs
    · rw [if_pos ⟨hb, hlt⟩]
      refine ⟨rfl, ?_⟩
      simp only [Watchdog.expire, watchdog, timeField_of_ne hb]
      rw [if_pos (UInt32.lt_iff_toNat_lt.mp hlt)]
    · rw [if_neg (by simp [hlt]), if_pos ⟨hb, UInt32.not_lt.mp hlt⟩]
      refine ⟨rfl, ?_⟩
      simp only [Watchdog.expire, watchdog, timeField_of_ne hb]
      rw [if_neg (fun h => hlt (UInt32.lt_iff_toNat_lt.mpr h))]
      rfl

/-- The stall rules do what a step of the watchdog does, and find a fault where it gives up. -/
def Mirrors (step : Option Watchdog.State) (b : Boosted) : Prop :=
  (∃ d, step = some d ∧ b.result = RT_EOK ∧ watchdog b.motion = d) ∨
    (step = none ∧ b.result = -RT_ERROR ∧ b.motion.boostUntilMs = 0)

theorem boostTail_mirrors {m : Motion} {now : UInt32} (hstart : m.stuckStartMs.toNat ≤ now.toNat)
    (left right : Int16) :
    Mirrors (if m.stuckStartMs.toNat + 1800 ≤ now.toNat then none
        else some (Watchdog.expire (watchdog m) now.toNat))
      (boostTail m now true left right) := by
  have hfail : now - m.stuckStartMs ≥ stuckFailMs ↔ m.stuckStartMs.toNat + 1800 ≤ now.toNat :=
    sub_ge_iff hstart
  by_cases hf : m.stuckStartMs.toNat + 1800 ≤ now.toNat
  · rw [if_pos hf]
    refine .inr ⟨rfl, ?_⟩
    unfold boostTail
    rw [if_pos (by simpa using hfail.mpr hf)]
    exact ⟨rfl, rfl⟩
  · rw [if_neg hf]
    have hyoung : ¬ (true = true ∧ now - m.stuckStartMs ≥ stuckFailMs) := fun h => hf (hfail.mp h.2)
    obtain ⟨hres, hdog⟩ := boostTail_expire m left right hyoung
    exact .inl ⟨_, rfl, hres, hdog⟩

theorem expire_boosted {m : Motion} {now : UInt32} (hroom : now.toNat ≤ 2 ^ 32 - 451)
    (hcount : m.stuckBoostCount.toNat < 2) :
    Watchdog.expire (watchdog { m with
        boostUntilMs := now + stuckHoldMs
        stuckBoostCount := m.stuckBoostCount + 1 }) now.toNat =
      { watchdog m with boost := some (now.toNat + 450), count := m.stuckBoostCount.toNat + 1 } := by
  have hend : (now + stuckHoldMs).toNat = now.toNat + 450 := by
    rw [UInt32.toNat_add, show stuckHoldMs.toNat = 450 from rfl]
    omega
  have hend0 : now + stuckHoldMs ≠ 0 := by
    intro h
    rw [h] at hend
    simp at hend
  have hinc : (m.stuckBoostCount + 1).toNat = m.stuckBoostCount.toNat + 1 := by
    rw [UInt8.toNat_add, show (1 : UInt8).toNat = 1 from rfl]
    omega
  simp only [Watchdog.expire, watchdog, timeField_of_ne hend0, hend, hinc]
  rw [if_pos (by omega)]

theorem step_stuck {m : Motion} (h0 : m.stuckStartMs ≠ 0) (now : Nat) :
    Watchdog.step stuckLimits (watchdog m) now .stuck =
      if m.stuckStartMs.toNat + 1800 ≤ now then none
      else if m.boostUntilMs = 0 ∧ m.stuckStartMs.toNat + 220 ≤ now then
        if 2 ≤ m.stuckBoostCount.toNat then none
        else some { watchdog m with boost := some (now + 450), count := m.stuckBoostCount.toNat + 1 }
      else some (Watchdog.expire (watchdog m) now) := by
  simp only [Watchdog.step, watchdog, timeField_of_ne h0, stuckLimits_fail, stuckLimits_trigger,
    stuckLimits_boosts, stuckLimits_hold, timeField_eq_none]

theorem knownStall_mirrors {m : Motion} {now : UInt32} (h : Clocked m now) (h0 : m.stuckStartMs ≠ 0)
    (left right : Int16) :
    Mirrors (Watchdog.step stuckLimits (watchdog m) now.toNat .stuck)
      (if now - m.stuckStartMs ≥ stuckTriggerMs ∧ m.boostUntilMs = 0 then
        if m.stuckBoostCount ≥ stuckMaxBoosts then
          ⟨{ m.latchStopped 0xE3 with boostUntilMs := 0 }, left, right, -RT_ERROR⟩
        else
          boostTail { m with
            boostUntilMs := now + stuckHoldMs
            stuckBoostCount := m.stuckBoostCount + 1 } now true left right
      else boostTail m now true left right) := by
  have htrigger : now - m.stuckStartMs ≥ stuckTriggerMs ∧ m.boostUntilMs = 0 ↔
      m.boostUntilMs = 0 ∧ m.stuckStartMs.toNat + 220 ≤ now.toNat := by
    rw [and_comm]
    exact and_congr_right fun _ => sub_ge_iff h.start
  have hmax : m.stuckBoostCount ≥ stuckMaxBoosts ↔ 2 ≤ m.stuckBoostCount.toNat :=
    UInt8.le_iff_toNat_le
  rw [step_stuck h0]
  by_cases hboost : now - m.stuckStartMs ≥ stuckTriggerMs ∧ m.boostUntilMs = 0
  · rw [if_pos hboost, if_pos (htrigger.mp hboost)]
    by_cases hc : m.stuckBoostCount ≥ stuckMaxBoosts
    · rw [if_pos hc, if_pos (hmax.mp hc)]
      exact .inr ⟨by simp, rfl, rfl⟩
    · rw [if_neg hc, if_neg (fun h => hc (hmax.mpr h)),
        ← expire_boosted h.room (not_le.mp fun h => hc (hmax.mpr h))]
      exact boostTail_mirrors (m := { m with
        boostUntilMs := now + stuckHoldMs
        stuckBoostCount := m.stuckBoostCount + 1 }) h.start left right
  · rw [if_neg hboost, if_neg (fun h => hboost (htrigger.mpr h))]
    exact boostTail_mirrors h.start left right

/-- **The stall rules are a watchdog**: they find a fault exactly where it gives up. -/
theorem applyStuckBoost_watchdog {m : Motion} {now : UInt32} (h : Clocked m now)
    (left right : Int16) :
    Mirrors (Watchdog.step stuckLimits (watchdog m) now.toNat (m.stuckReading left right))
      (m.applyStuckBoost now left right) := by
  have hne : now ≠ 0 := by
    intro h0
    exact absurd (h0 ▸ h.pos) (by decide)
  unfold stuckReading applyStuckBoost
  by_cases hsource : m.actualSource = .none
  · rw [if_pos hsource, if_pos hsource]
    exact .inl ⟨_, rfl, rfl, rfl⟩
  · rw [if_neg hsource, if_neg hsource]
    cases hstuck : commandNonzero left right && m.actualStalled with
    | false =>
      simp only [Bool.false_eq_true, if_false]
      obtain ⟨hres, hdog⟩ := boostTail_expire
        { m with stuckStartMs := 0, stuckBoostCount := 0 } left right
        (show ¬(false = true ∧ now - 0 ≥ stuckFailMs) by simp)
      exact .inl ⟨_, rfl, hres, hdog⟩
    | true =>
      simp only [if_true]
      by_cases h0 : m.stuckStartMs = 0
      · -- the stall is seen for the first time, so it is too young for a fault
        rw [if_pos h0]
        have hyoung : ¬ (true = true ∧ now - now ≥ stuckFailMs) := by
          rw [UInt32.sub_self]
          decide
        obtain ⟨hres, hdog⟩ := boostTail_expire { m with stuckStartMs := now }
          left right hyoung
        refine .inl ⟨_, ?_, hres, rfl⟩
        rw [hdog]
        simp only [Watchdog.step, watchdog, h0, timeField_zero, timeField_of_ne hne]
      · rw [if_neg h0]
        exact knownStall_mirrors h h0 left right

/-! ## One update -/

/-- The module as the stall rules of an update see it: initialised, polled and ramped. -/
def polled (m : Motion) (io : MotionIo) : Motion :=
  ((m.ensureInit io).1.pollActualSpeed io).1.rampCommands

/-- The update is stalled: feedback is present, a ramped command asks for motion, and neither wheel
moves. -/
def Stalled (m : Motion) (io : MotionIo) : Prop :=
  (m.polled io).actualSource ≠ .none ∧
    (35 ≤ (m.polled io).commandLeft.toInt.natAbs ∨ 35 ≤ (m.polled io).commandRight.toInt.natAbs) ∧
    (m.polled io).actualLeft.toInt.natAbs ≤ 3 ∧ (m.polled io).actualRight.toInt.natAbs ≤ 3

instance (m : Motion) (io : MotionIo) : Decidable (Stalled m io) :=
  inferInstanceAs (Decidable (_ ∧ _))

def reading (m : Motion) (io : MotionIo) : Watchdog.Reading :=
  (m.polled io).stuckReading (clampRaw (m.polled io).commandLeft)
    (clampRaw (m.polled io).commandRight)

theorem outputPwm_latch (m : Motion) (io : PwmResults) (left right : Int16) :
    (io.Ok → (m.outputPwm io left right).1.emergencyStop = m.emergencyStop ∧
        (m.outputPwm io left right).1.stopReason = m.stopReason) ∧
      ((m.outputPwm io left right).1.emergencyStop = m.emergencyStop ∧
          (m.outputPwm io left right).1.stopReason = m.stopReason ∨
        (m.outputPwm io left right).1.emergencyStop = true ∧
          (m.outputPwm io left right).1.stopReason = 0xE1) := by
  rw [outputPwm_eq, ← PwmResults.first_eq_ok]
  split
  · split
    · exact ⟨fun _ => ⟨rfl, rfl⟩, .inl ⟨rfl, rfl⟩⟩
    · next hfail => exact ⟨fun hok => absurd hok hfail, .inr ⟨rfl, rfl⟩⟩
  · exact ⟨fun _ => ⟨rfl, rfl⟩, .inl ⟨rfl, rfl⟩⟩

/-- An output leaves the latch alone or latches 0xE1, the latter only where a PWM call fails. -/
theorem output_latch (m : Motion) (io : PwmResults) (cb : RtErr) (left right : Int16) :
    (io.Ok → (m.output io cb left right).1.emergencyStop = m.emergencyStop ∧
        (m.output io cb left right).1.stopReason = m.stopReason) ∧
      ((m.output io cb left right).1.emergencyStop = m.emergencyStop ∧
          (m.output io cb left right).1.stopReason = m.stopReason ∨
        (m.output io cb left right).1.emergencyStop = true ∧
          (m.output io cb left right).1.stopReason = 0xE1) :=
  outputPwm_latch { m with
    outputLeft := left, outputRight := right, outputs := (left, right) :: m.outputs } io left right

@[simp] theorem output_watchdog (m : Motion) (io : PwmResults) (cb : RtErr) (left right : Int16) :
    watchdog (m.output io cb left right).1 = watchdog m := by
  obtain ⟨lp, rp, ⟨res, he, -⟩ | ⟨he, -⟩⟩ := output_cases m io cb left right <;> rw [he] <;> rfl

theorem pollActualSpeed_watchdog (m : Motion) (io : MotionIo) :
    watchdog (m.pollActualSpeed io).1 = watchdog m := by
  refine pollActualSpeed_rule (P := fun r => watchdog r.1 = watchdog m) m io fun _ _ _ _ => ?_
  exact ⟨rfl, rfl, fun _ _ _ _ => rfl⟩

/-- What an update that ends in `m` tells of the watchdog's step; `fine` says that no encoder and no PWM
call failed in it. -/
structure Answers (fine : Prop) (step : Option Watchdog.State) (m : Motion) : Prop where
  survives : m.emergencyStop = false → step = some (watchdog m)
  gives_up : m.emergencyStop = true → m.stopReason = 0xE3 → step = none
  latches : fine → step = none →
    m.emergencyStop = true ∧ m.stopReason = 0xE3 ∧ m.boostUntilMs = 0
  unlatched : fine → ∀ d, step = some d → m.emergencyStop = false

section Answers

variable {m : Motion} {io : PwmResults} {cb : RtErr} {fine : Prop}

/-- Where the update drives the wheels, only a PWM call can stop it. -/
theorem answers_drive {left right : Int16} (hs : m.emergencyStop = false) (hfine : fine → io.Ok) :
    Answers fine (some (watchdog m)) (m.output io cb left right).1 := by
  obtain ⟨hok, hlatch⟩ := output_latch m io cb left right
  refine ⟨?_, ?_, ?_, ?_⟩
  · intro _
    rw [output_watchdog]
  · intro hstop hreason
    rcases hlatch with ⟨h1, -⟩ | ⟨-, h2⟩
    · rw [h1, hs] at hstop
      cases hstop
    · rw [h2] at hreason
      exact absurd hreason (by decide)
  · intro _ hnone
    cases hnone
  · intro h _ _
    rw [(hok (hfine h)).1, hs]

theorem output_stopped (hs : m.emergencyStop = true) : (m.output io cb 0 0).1.emergencyStop = true := by
  rcases (output_latch m io cb 0 0).2 with ⟨h1, -⟩ | ⟨h1, -⟩
  · exact h1.trans hs
  · exact h1

/-- Where the stall rules stop the update, the watchdog gave up. -/
theorem answers_stall (hs : m.emergencyStop = true) (hr : m.stopReason = 0xE3) (hb : m.boostUntilMs = 0)
    (hfine : fine → io.Ok) : Answers fine none (m.output io cb 0 0).1 := by
  refine ⟨?_, ?_, ?_, ?_⟩
  · intro hoff
    rw [output_stopped hs] at hoff
    cases hoff
  · intro _ _
    rfl
  · intro h _
    have hdog : timeField (m.output io cb 0 0).1.boostUntilMs = timeField m.boostUntilMs :=
      congrArg Watchdog.State.boost (output_watchdog m io cb 0 0)
    rw [hb, timeField_zero] at hdog
    exact ⟨output_stopped hs, ((output_latch m io cb 0 0).1 (hfine h)).2.trans hr, timeField_eq_none.mp hdog⟩
  · intro _ d hd
    cases hd

/-- Where an encoder stops the update, nothing is said. -/
theorem answers_encoder {step : Option Watchdog.State} (hs : m.emergencyStop = true)
    (hr : m.stopReason = 0xE2) (hfine : ¬ fine) : Answers fine step (m.output io cb 0 0).1 := by
  refine ⟨?_, ?_, ?_, ?_⟩
  · intro hoff
    rw [output_stopped hs] at hoff
    cases hoff
  · intro _ hreason
    rcases (output_latch m io cb 0 0).2 with ⟨-, h2⟩ | ⟨-, h2⟩
    · rw [h2, hr] at hreason
      exact absurd hreason (by decide)
    · rw [h2] at hreason
      exact absurd hreason (by decide)
  · intro h
    exact absurd h hfine
  · intro h
    exact absurd h hfine

end Answers

/-- The bookkeeping is all that `Clocked` is about. -/
theorem Clocked.of_watchdog {m m' : Motion} {now : UInt32} (h : Clocked m now)
    (hdog : watchdog m' = watchdog m) : Clocked m' now := by
  have hstart : timeField m'.stuckStartMs = timeField m.stuckStartMs :=
    congrArg Watchdog.State.start hdog
  have hcount : m'.stuckBoostCount.toNat = m.stuckBoostCount.toNat := congrArg Watchdog.State.count hdog
  refine ⟨h.pos, h.room, ?_, hcount ▸ h.count⟩
  by_cases h0 : m'.stuckStartMs = 0
  · simp [h0]
  · rw [timeField_of_ne h0] at hstart
    exact (timeField_eq_some hstart.symm).2 ▸ h.start

theorem boosted_answers {m : Motion} {io : MotionIo} {fine : Prop} (hs : m.emergencyStop = false)
    (hclock : Clocked m io.now) (hfine : fine → io.pwm.Ok) {left right : Int16} {b : Boosted}
    (hb : b = m.applyStuckBoost io.now left right) :
    Answers fine (Watchdog.step stuckLimits (watchdog m) io.now.toNat (m.stuckReading left right))
      (if b.result ≠ RT_EOK then b.motion.output io.pwm io.cbResult 0 0
        else (b.motion.stamp io.now).output io.pwm io.cbResult (clampRaw b.left) (clampRaw b.right)).1 := by
  have hboost := applyStuckBoost_cases m io.now left right
  have hwatch := applyStuckBoost_watchdog hclock left right
  rw [← hb] at hboost hwatch
  rcases hwatch with ⟨d, hstep, hres, hd⟩ | ⟨hstep, hres, hoff⟩
  · rw [if_neg (not_not.mpr hres), hstep, ← hd]
    have hk : Kept m b.motion := by
      rcases hboost with ⟨-, hk, -⟩ | ⟨hbad, -⟩
      · exact hk
      · rw [hres] at hbad
        exact absurd hbad (by decide)
    exact answers_drive (m := b.motion.stamp io.now) (hk.emergencyStop.trans hs) hfine
  · rw [if_pos (by rw [hres]; decide), hstep]
    have hk : Kept (m.latchStopped 0xE3) b.motion := by
      rcases hboost with ⟨hbad, -⟩ | ⟨-, hk⟩
      · rw [hres] at hbad
        exact absurd hbad (by decide)
      · exact hk
    exact answers_stall hk.emergencyStop hk.stopReason hoff hfine

theorem serviceReady_watchdog {m : Motion} (io : MotionIo) (hs : m.emergencyStop = false)
    (hclock : Clocked m io.now) {r : Watchdog.Reading}
    (hr : r = (m.pollActualSpeed io).1.rampCommands.stuckReading
      (clampRaw (m.pollActualSpeed io).1.rampCommands.commandLeft)
      (clampRaw (m.pollActualSpeed io).1.rampCommands.commandRight)) :
    Answers (¬ EncoderFault m io ∧ io.pwm.Ok)
      (Watchdog.step stuckLimits (watchdog m) io.now.toNat r) (m.serviceReady io false).1 := by
  have hpoll := pollActualSpeed_cases m io
  have hfault := pollActualSpeed_fault m io
  have hdog := pollActualSpeed_watchdog m io
  unfold serviceReady
  generalize m.pollActualSpeed io = poll at hpoll hfault hdog hr ⊢
  obtain ⟨p, res⟩ := poll
  simp only at hpoll hfault hdog hr ⊢
  rcases hpoll with ⟨rfl, hk⟩ | ⟨rfl, hk⟩
  · have hps : p.emergencyStop = false := hk.emergencyStop.trans hs
    rw [if_neg (not_not.mpr rfl), if_neg (by simp [hps]), tickToMs_eq]
    simp only [Bool.false_eq_true, if_false]
    have hdog' : watchdog p.rampCommands = watchdog m := hdog
    rw [hr, ← hdog']
    exact boosted_answers (m := p.rampCommands) hps (hclock.of_watchdog hdog') And.right rfl
  · rw [if_pos (by decide)]
    have hyes : EncoderFault m io := hfault.mp (by decide)
    exact answers_encoder hk.emergencyStop hk.stopReason fun h => h.1 hyes

/-! ## Measured speeds -/

/-- A measured speed as the encoders deliver it. -/
def Plausible (speed : Int16) : Prop := -1200 ≤ speed.toInt ∧ speed.toInt ≤ 1200

theorem plausible_zero : Plausible 0 := by
  constructor <;> decide

theorem readEncoderDelta_plausible (dev : Bool) (last : Int32) (count : Option Int32) :
    Plausible (readEncoderDelta dev last count).2.2 := by
  unfold readEncoderDelta
  split
  · simp only
    split
    · exact plausible_zero
    · rename_i count hsane
      rw [not_or, gt_iff_lt, Int32.lt_iff_toInt_lt, Int32.lt_iff_toInt_lt] at hsane
      have h1 : encoderSanityLimit.toInt = 1200 := rfl
      have h2 : (-encoderSanityLimit).toInt = -1200 := rfl
      rw [h1, h2] at hsane
      unfold Plausible
      rw [Int32.toInt_toInt16, Int.bmod_eq_of_le (by omega) (by omega)]
      omega
  · exact plausible_zero

/-- Both measured speeds are as the encoders deliver them. -/
def Measured (m : Motion) : Prop := Plausible m.actualLeft ∧ Plausible m.actualRight

theorem pollActualSpeed_measured {m : Motion} (hm : Measured m) (io : MotionIo) :
    Measured (m.pollActualSpeed io).1 := by
  have hleft := readEncoderDelta_plausible m.leftEncoder m.encoderLeftLast io.leftCount
  have hright := readEncoderDelta_plausible m.rightEncoder m.encoderRightLast io.rightCount
  unfold pollActualSpeed
  generalize readEncoderDelta m.leftEncoder m.encoderLeftLast io.leftCount = left at hleft ⊢
  generalize readEncoderDelta m.rightEncoder m.encoderRightLast io.rightCount = right at hright ⊢
  obtain ⟨leftOk, leftLast, leftDelta⟩ := left
  obtain ⟨rightOk, rightLast, rightDelta⟩ := right
  simp only at hleft hright ⊢
  split
  · exact hm
  · split
    · refine ⟨?_, ?_⟩
      · cases leftOk
        · exact plausible_zero
        · exact hleft
      · cases rightOk
        · exact plausible_zero
        · exact hright
    · exact hm

theorem output_measured {m : Motion} (hm : Measured m) (io : PwmResults) (cb : RtErr)
    (left right : Int16) : Measured (m.output io cb left right).1 := by
  obtain ⟨lp, rp, ⟨res, he, -⟩ | ⟨he, -⟩⟩ := output_cases m io cb left right <;> rw [he] <;> exact hm

/-- `m'` is `m` as far as the feedback, the channels and the outputs go. -/
structure SameBody (m m' : Motion) : Prop where
  actualSource : m'.actualSource = m.actualSource
  actualLeft : m'.actualLeft = m.actualLeft
  actualRight : m'.actualRight = m.actualRight
  leftPwm : m'.leftPwm = m.leftPwm
  rightPwm : m'.rightPwm = m.rightPwm
  outputs : m'.outputs = m.outputs

theorem boostTail_body (m : Motion) (now : UInt32) (stuck : Bool) (left right : Int16) :
    SameBody m (boostTail m now stuck left right).motion := by
  unfold boostTail
  split_ifs <;> constructor <;> rfl

theorem applyStuckBoost_body (m : Motion) (now : UInt32) (left right : Int16) :
    SameBody m (m.applyStuckBoost now left right).motion := by
  have tail : ∀ (k : Motion) (stuck : Bool), SameBody m k →
      SameBody m (boostTail k now stuck left right).motion := by
    intro k stuck ⟨h1, h2, h3, h4, h5, h6⟩
    obtain ⟨g1, g2, g3, g4, g5, g6⟩ := boostTail_body k now stuck left right
    exact ⟨g1.trans h1, g2.trans h2, g3.trans h3, g4.trans h4, g5.trans h5, g6.trans h6⟩
  unfold applyStuckBoost
  simp only
  split_ifs
  · constructor <;> rfl
  · exact tail _ _ (by constructor <;> rfl)
  · constructor <;> rfl
  · exact tail _ _ (by constructor <;> rfl)
  · exact tail _ _ (by constructor <;> rfl)
  · exact tail _ _ (by constructor <;> rfl)

theorem SameBody.measured {m m' : Motion} (h : SameBody m m') (hm : Measured m) : Measured m' := by
  refine ⟨?_, ?_⟩
  · rw [h.actualLeft]
    exact hm.1
  · rw [h.actualRight]
    exact hm.2

theorem serviceReady_measured {m : Motion} (hm : Measured m) (io : MotionIo) (direct : Bool) :
    Measured (m.serviceReady io direct).1 := by
  have hp := pollActualSpeed_measured hm io
  unfold serviceReady
  generalize m.pollActualSpeed io = poll at hp ⊢
  obtain ⟨p, res⟩ := poll
  simp only at hp ⊢
  have hramp : Measured p.rampCommands := ⟨hp.1, hp.2⟩
  split_ifs
  · apply output_measured
    exact hp
  · apply output_measured
    exact ⟨hp.1, hp.2⟩
  · apply output_measured
    exact ⟨hp.1, hp.2⟩
  · apply output_measured
    exact (applyStuckBoost_body p.rampCommands _ _ _).measured hramp
  · have hb := (applyStuckBoost_body p.rampCommands (tickToMs io.now)
      (clampRaw p.rampCommands.commandLeft) (clampRaw p.rampCommands.commandRight)).measured hramp
    apply output_measured
    exact ⟨hb.1, hb.2⟩

/-! ## Initialisation -/

theorem ensureInit_fresh {m : Motion} (h : m.initialized = false) (io : MotionIo) :
    watchdog (m.ensureInit io).1 = watchdog m ∧ Halted (m.ensureInit io).1 ∧
      Measured (m.ensureInit io).1 ∧
      ((m.ensureInit io).1.emergencyStop = m.emergencyStop ∨
        (m.ensureInit io).1.stopReason = 0xE1) := by
  have hmeasured : Measured (m.openDevices io) := ⟨plausible_zero, plausible_zero⟩
  simp only [ensureInit, init, h, Bool.not_false, if_true, Bool.false_eq_true, if_false]
  split_ifs
  · exact ⟨rfl, ⟨rfl, rfl, rfl, rfl⟩, hmeasured, .inl rfl⟩
  · exact ⟨rfl, ⟨rfl, rfl, rfl, rfl⟩, hmeasured, .inl rfl⟩
  · refine ⟨?_, ?_, ?_, ?_⟩
    · rw [output_watchdog]
      rfl
    · obtain ⟨h1, h2, h3, h4⟩ := output_keeps_commands
        { (m.openDevices io).refreshOutputMode with initialized := true } io.initPwm io.cbResult 0 0
      exact ⟨h1, h2, h3, h4⟩
    · refine output_measured ?_ io.initPwm io.cbResult 0 0
      exact ⟨hmeasured.1, hmeasured.2⟩
    · rcases (output_latch { (m.openDevices io).refreshOutputMode with initialized := true }
          io.initPwm io.cbResult 0 0).2 with ⟨h1, -⟩ | ⟨-, h2⟩
      · exact .inl h1
      · exact .inr h2

theorem clampRaw_of_inRange {speed : Int16} (h : InRange speed) : clampRaw speed = speed := by
  unfold InRange at h
  unfold clampRaw
  rw [if_neg (by rw [gt_iff_lt, Int16.not_lt]; exact h.2), if_neg (by rw [Int16.not_lt]; exact h.1)]

theorem toInt_abs16 {v : Int16} (h : -32768 < v.toInt) : (abs16 v).toInt = v.toInt.natAbs := by
  unfold abs16
  by_cases h0 : v ≥ 0
  · rw [if_pos h0]
    have : 0 ≤ v.toInt := Int16.le_iff_toInt_le.mp h0
    omega
  · rw [if_neg h0]
    have hneg : v.toInt < 0 := by
      rw [ge_iff_le, Int16.le_iff_toInt_le] at h0
      have : (0 : Int16).toInt = 0 := rfl
      omega
    have hle := Int16.toInt_le v
    rw [Int16.toInt_neg, Int.bmod_eq_of_le (by omega) (by omega)]
    omega

theorem InRange.gt_min {speed : Int16} (h : InRange speed) : -32768 < speed.toInt := by
  rw [inRange_iff] at h
  omega

theorem commandNonzero_iff {left right : Int16} (hl : InRange left) (hr : InRange right) :
    commandNonzero (clampRaw left) (clampRaw right) = true ↔
      35 ≤ left.toInt.natAbs ∨ 35 ≤ right.toInt.natAbs := by
  have hmin : stuckMinCmd.toInt = 35 := rfl
  rw [clampRaw_of_inRange hl, clampRaw_of_inRange hr, commandNonzero, Bool.or_eq_true,
    decide_eq_true_iff, decide_eq_true_iff, ge_iff_le, ge_iff_le, Int16.le_iff_toInt_le,
    Int16.le_iff_toInt_le, toInt_abs16 hl.gt_min, toInt_abs16 hr.gt_min, hmin]
  omega

theorem actualStalled_iff {m : Motion} (hm : Measured m) :
    m.actualStalled = true ↔ m.actualLeft.toInt.natAbs ≤ 3 ∧ m.actualRight.toInt.natAbs ≤ 3 := by
  have hmax : stuckActualMax.toInt = 3 := rfl
  obtain ⟨⟨hl, -⟩, hr, -⟩ := hm
  rw [actualStalled, Bool.and_eq_true, decide_eq_true_iff, decide_eq_true_iff,
    Int16.le_iff_toInt_le, Int16.le_iff_toInt_le, toInt_abs16 (by omega), toInt_abs16 (by omega),
    hmax]
  omega

/-! ## The invariant of a driven run -/

/-- A call of the run: a target or an update. -/
def Driving (op : Op) : Prop := op = .update ∨ ∃ left right, op = .setTarget left right

/-- What holds of the module in a run of targets and updates after its last reset. -/
structure Driven (m : Motion) : Prop where
  reach : machine.Reach Machine.free m
  measured : Measured m
  dormant : m.initialized = false → watchdog m = {}

theorem reach_call {m : Motion} (h : machine.Reach Machine.free m) (io : MotionIo) (op : Op) :
    machine.Reach Machine.free (m.call io op).1 :=
  h.step (i := (op, io)) trivial rfl

theorem call_setTarget (m : Motion) (io : MotionIo) (left right : Int16) :
    watchdog (m.call io (.setTarget left right)).1 = watchdog (m.ensureInit io).1 ∧
      (Measured (m.ensureInit io).1 → Measured (m.call io (.setTarget left right)).1) := by
  simp only [call, setTarget]
  split_ifs
  · exact ⟨rfl, id⟩
  · exact ⟨rfl, id⟩
  · exact ⟨rfl, id⟩

theorem Driven.ensureInit {m : Motion} (hm : Driven m) (io : MotionIo) :
    watchdog (m.ensureInit io).1 = watchdog m ∧ Measured (m.ensureInit io).1 := by
  cases hi : m.initialized with
  | true =>
    rw [ensureInit_of_initialized hi]
    exact ⟨rfl, hm.measured⟩
  | false =>
    obtain ⟨h1, -, h3, -⟩ := ensureInit_fresh hi io
    exact ⟨h1, h3⟩

theorem Driven.polled_inRange {m : Motion} (hm : Driven m) (io : MotionIo) :
    InRange (m.polled io).commandLeft ∧ InRange (m.polled io).commandRight := by
  have hramp : ∀ {k : Motion}, InRange k.targetLeft ∧ InRange k.targetRight ∧
      InRange k.commandLeft ∧ InRange k.commandRight →
      InRange (k.pollActualSpeed io).1.rampCommands.commandLeft ∧
        InRange (k.pollActualSpeed io).1.rampCommands.commandRight := by
    intro k ⟨h1, h2, h3, h4⟩
    rcases pollActualSpeed_cases k io with ⟨-, hk⟩ | ⟨-, hk⟩
    · refine ⟨rampToward_inRange ?_ ?_, rampToward_inRange ?_ ?_⟩
      · rw [hk.commandLeft]; exact h3
      · rw [hk.targetLeft]; exact h1
      · rw [hk.commandRight]; exact h4
      · rw [hk.targetRight]; exact h2
    · have hhalt := hk.halted (halted_latchStopped k 0xE2)
      refine ⟨rampToward_inRange ?_ ?_, rampToward_inRange ?_ ?_⟩
      · rw [hhalt.commandLeft]; exact inRange_zero
      · rw [hhalt.targetLeft]; exact inRange_zero
      · rw [hhalt.commandRight]; exact inRange_zero
      · rw [hhalt.targetRight]; exact inRange_zero
  cases hi : m.initialized with
  | true =>
    have htuned := tuned_of_reach hm.reach hi
    unfold polled
    rw [ensureInit_of_initialized hi]
    exact hramp ⟨htuned.targetLeft, htuned.targetRight, htuned.commandLeft, htuned.commandRight⟩
  | false =>
    obtain ⟨-, hhalt, -⟩ := ensureInit_fresh hi io
    apply hramp
    rw [hhalt.targetLeft, hhalt.targetRight, hhalt.commandLeft, hhalt.commandRight]
    exact ⟨inRange_zero, inRange_zero, inRange_zero, inRange_zero⟩

theorem Driven.reading_stuck_iff {m : Motion} (hm : Driven m) (io : MotionIo) :
    reading m io = .stuck ↔ Stalled m io := by
  obtain ⟨hl, hr⟩ := hm.polled_inRange io
  have hmeasured : Measured (m.polled io) := pollActualSpeed_measured (hm.ensureInit io).2 io
  have hstuck : (commandNonzero (clampRaw (m.polled io).commandLeft)
      (clampRaw (m.polled io).commandRight) && (m.polled io).actualStalled) = true ↔
      (35 ≤ (m.polled io).commandLeft.toInt.natAbs ∨
        35 ≤ (m.polled io).commandRight.toInt.natAbs) ∧
      (m.polled io).actualLeft.toInt.natAbs ≤ 3 ∧ (m.polled io).actualRight.toInt.natAbs ≤ 3 := by
    rw [Bool.and_eq_true, commandNonzero_iff hl hr, actualStalled_iff hmeasured]
  unfold reading stuckReading Stalled
  rw [← hstuck]
  by_cases hsource : (m.polled io).actualSource = .none
  · simp [hsource]
  · rw [if_neg hsource]
    split <;> simp [*]

end Hcics.Motion
