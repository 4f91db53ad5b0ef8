import Hcics.Motion.Shift

/-!
# The boost in the snapshot

`hcics_motion_get_snapshot` compares the end of a boost by a signed difference, an update by a plain
comparison, and an update ends a boost for reasons that the snapshot does not look at. `SnapshotSafe` is
where the two agree; `absolute_time` puts it beside the runs of `Motion.Shift`.
-/

namespace Hcics.Motion

/-! ## The snapshot -/

structure Snapshot where
  initialized : Bool
  outputReady : Bool
  emergencyStop : Bool
  stopReason : UInt8
  actualSource : ActualSource
  targetLeft : Int16
  targetRight : Int16
  commandLeft : Int16
  commandRight : Int16
  actualLeft : Int16
  actualRight : Int16
  outputLeft : Int16
  outputRight : Int16
  encoderLeftTotal : Int32
  encoderRightTotal : Int32
  boostActiveMs : UInt32
  lastUpdateTick : Tick

def getSnapshot (m : Motion) (now : Tick) : Snapshot where
  initialized := m.initialized
  outputReady := m.outputReady
  emergencyStop := m.emergencyStop
  stopReason := m.stopReason
  actualSource := m.actualSource
  targetLeft := m.targetLeft
  targetRight := m.targetRight
  commandLeft := m.commandLeft
  commandRight := m.commandRight
  actualLeft := m.actualLeft
  actualRight := m.actualRight
  outputLeft := m.outputLeft
  outputRight := m.outputRight
  encoderLeftTotal := m.encoderLeftTotal
  encoderRightTotal := m.encoderRightTotal
  boostActiveMs :=
    if m.boostUntilMs ≠ 0 ∧ (m.boostUntilMs - tickToMs now).toInt32 > 0 then
      m.boostUntilMs - tickToMs now
    else 0
  lastUpdateTick := m.lastUpdateTick

/-- The boost ends later than `now` by the signed difference. -/
def Ahead (m : Motion) (now : UInt32) : Prop := (m.boostUntilMs - now).toInt32 > 0

theorem boostActiveMs_pos (m : Motion) (now : Tick) :
    (m.getSnapshot now).boostActiveMs > 0 ↔ m.boostUntilMs ≠ 0 ∧ Ahead m now := by
  simp only [getSnapshot, tickToMs_eq]
  by_cases h : m.boostUntilMs ≠ 0 ∧ (m.boostUntilMs - now).toInt32 > 0
  · rw [if_pos h]
    refine ⟨fun _ => h, fun _ => ?_⟩
    rw [gt_iff_lt, UInt32.pos_iff_ne_zero]
    intro h0
    have := h.2
    rw [h0] at this
    exact absurd this (by decide)
  · rw [if_neg h]
    exact ⟨fun h0 => absurd h0 (by decide), fun h' => absurd h' h⟩

/-- The poll of this call succeeds and reads the feedback that the module has. -/
structure Unchanged (m : Motion) (io : MotionIo) : Prop where
  poll : (m.pollActualSpeed io).2 = RT_EOK
  source : (m.pollActualSpeed io).1.actualSource = m.actualSource
  left : (m.pollActualSpeed io).1.actualLeft = m.actualLeft
  right : (m.pollActualSpeed io).1.actualRight = m.actualRight

/-- An update finds the boost in force and leaves it in force. -/
def StillBoosting (m : Motion) (io : MotionIo) : Prop :=
  m.boostUntilMs ≠ 0 ∧ (m.call io .update).1.boostUntilMs = m.boostUntilMs

/-- A boost is in force only where there is feedback. -/
def BoostFed (m : Motion) : Prop := m.boostUntilMs ≠ 0 → m.actualSource ≠ .none

theorem boostTail_boost (m : Motion) (now : UInt32) (stuck : Bool) (left right : Int16)
    (hok : ¬ (stuck = true ∧ now - m.stuckStartMs ≥ stuckFailMs)) (hb : m.boostUntilMs ≠ 0) :
    (boostTail m now stuck left right).motion.boostUntilMs =
      if now < m.boostUntilMs then m.boostUntilMs else 0 := by
  unfold boostTail
  rw [if_neg (by simpa using hok)]
  by_cases hlt : now < m.boostUntilMs
  · rw [if_pos ⟨hb, hlt⟩, if_pos hlt]
  · rw [if_neg (fun h => hlt h.2), if_pos ⟨hb, UInt32.not_lt.mp hlt⟩, if_neg hlt]

theorem applyStuckBoost_boost {m : Motion} (now : UInt32) (hb : m.boostUntilMs ≠ 0)
    (hsource : m.actualSource ≠ .none) (hrule : ¬ StallRule m now) :
    (m.applyStuckBoost now (clampRaw m.commandLeft)
        (clampRaw m.commandRight)).motion.boostUntilMs =
      if now < m.boostUntilMs then m.boostUntilMs else 0 := by
  unfold applyStuckBoost
  rw [if_neg hsource]
  by_cases hstuck : Stuck m
  · have hstuck' : (commandNonzero (clampRaw m.commandLeft) (clampRaw m.commandRight) &&
        m.actualStalled) = true := by simpa [Stuck] using hstuck
    simp only [hstuck', if_true]
    by_cases h0 : m.stuckStartMs = 0
    · rw [if_pos h0]
      refine boostTail_boost { m with stuckStartMs := now } now true _ _ ?_ hb
      rintro ⟨-, h⟩
      rw [UInt32.sub_self] at h
      exact absurd h (by decide)
    · rw [if_neg h0, if_neg (fun h => hb h.2)]
      refine boostTail_boost m now true _ _ ?_ hb
      rintro ⟨-, h⟩
      exact hrule ⟨hsource, hstuck.1, hstuck.2, h0, .inr h⟩
  · have hstuck' : (commandNonzero (clampRaw m.commandLeft) (clampRaw m.commandRight) &&
        m.actualStalled) = false := by
      rw [← Bool.not_eq_true, Bool.and_eq_true]
      exact hstuck
    simp only [hstuck', Bool.false_eq_true, if_false]
    refine boostTail_boost { m with stuckStartMs := 0, stuckBoostCount := 0 } now false _ _ ?_ hb
    rintro ⟨h, -⟩
    cases h

theorem boostTail_fault_boost {m : Motion} {now : UInt32} {stuck : Bool} {left right : Int16}
    (h : (boostTail m now stuck left right).result ≠ RT_EOK) :
    (boostTail m now stuck left right).motion.boostUntilMs = 0 := by
  rw [boostTail_fault] at h
  unfold boostTail
  rw [if_pos (by simpa using h)]

theorem applyStuckBoost_fault_boost {m : Motion} {now : UInt32} {left right : Int16}
    (h : (m.applyStuckBoost now left right).result ≠ RT_EOK) :
    (m.applyStuckBoost now left right).motion.boostUntilMs = 0 := by
  unfold applyStuckBoost at h ⊢
  simp only at h ⊢
  split_ifs at h ⊢
  · rfl
  · exact boostTail_fault_boost h
  · rfl
  · exact boostTail_fault_boost h
  · exact boostTail_fault_boost h
  · exact boostTail_fault_boost h

@[simp] theorem output_boostUntilMs (m : Motion) (io : PwmResults) (cb : RtErr)
    (left right : Int16) : (m.output io cb left right).1.boostUntilMs = m.boostUntilMs := by
  obtain ⟨lp, rp, ⟨res, he, -⟩ | ⟨he, -⟩⟩ := output_cases m io cb left right <;> rw [he]

@[simp] theorem output_actualSource (m : Motion) (io : PwmResults) (cb : RtErr)
    (left right : Int16) : (m.output io cb left right).1.actualSource = m.actualSource := by
  obtain ⟨lp, rp, ⟨res, he, -⟩ | ⟨he, -⟩⟩ := output_cases m io cb left right <;> rw [he]

theorem pollActualSpeed_times (m : Motion) (io : MotionIo) :
    (m.pollActualSpeed io).1.stuckStartMs = m.stuckStartMs ∧
      (m.pollActualSpeed io).1.boostUntilMs = m.boostUntilMs ∧
      (m.pollActualSpeed io).1.stuckBoostCount = m.stuckBoostCount := by
  refine pollActualSpeed_rule (P := fun r => r.1.stuckStartMs = m.stuckStartMs ∧
    r.1.boostUntilMs = m.boostUntilMs ∧ r.1.stuckBoostCount = m.stuckBoostCount) m io
    fun _ _ _ _ => ?_
  exact ⟨⟨rfl, rfl, rfl⟩, ⟨rfl, rfl, rfl⟩, fun _ _ _ _ => ⟨rfl, rfl, rfl⟩⟩

theorem stillBoosting_iff {m : Motion} {io : MotionIo} (hi : m.initialized = true)
    (hb : m.boostUntilMs ≠ 0) (hsource : m.actualSource ≠ .none) (hio : Unchanged m io) :
    StillBoosting m io ↔ m.emergencyStop = false ∧ ¬ StallRule m.rampCommands io.now ∧
      io.now < m.boostUntilMs := by
  have hkept : Kept m (m.pollActualSpeed io).1 := by
    rcases pollActualSpeed_cases m io with ⟨-, hk⟩ | ⟨hbad, -⟩
    · exact hk
    · rw [hio.poll] at hbad
      exact absurd hbad (by decide)
  have htimes := pollActualSpeed_times m io
  obtain ⟨hpoll, hsrc, hleft, hright⟩ := hio
  unfold StillBoosting
  rw [show m.call io .update = m.serviceReady io false from service_of_initialized hi io false]
  unfold serviceReady
  generalize m.pollActualSpeed io = poll at hkept htimes hpoll hsrc hleft hright ⊢
  obtain ⟨p, r⟩ := poll
  simp only at hkept htimes hpoll hsrc hleft hright ⊢
  obtain ⟨hps, hpb, hpc⟩ := htimes
  rw [if_neg (not_not.mpr hpoll), tickToMs_eq]
  have hrule : StallRule p.rampCommands io.now ↔ StallRule m.rampCommands io.now := by
    have hcmd : p.rampCommands.commandLeft = m.rampCommands.commandLeft ∧
        p.rampCommands.commandRight = m.rampCommands.commandRight := by
      unfold rampCommands
      rw [hkept.commandLeft, hkept.commandRight, hkept.targetLeft, hkept.targetRight]
      exact ⟨rfl, rfl⟩
    have hstalled : p.rampCommands.actualStalled = m.rampCommands.actualStalled := by
      unfold actualStalled rampCommands
      rw [hleft, hright]
    have hs : p.rampCommands.stuckStartMs = m.rampCommands.stuckStartMs := hps
    have hu : p.rampCommands.boostUntilMs = m.rampCommands.boostUntilMs := hpb
    have hc : p.rampCommands.stuckBoostCount = m.rampCommands.stuckBoostCount := hpc
    have hsrc' : p.rampCommands.actualSource = m.rampCommands.actualSource := hsrc
    unfold StallRule
    rw [hcmd.1, hcmd.2, hstalled, hs, hu, hc, hsrc']
  cases hs : m.emergencyStop with
  | true =>
    rw [if_pos (hkept.emergencyStop.trans hs), output_boostUntilMs]
    have hzero : (p.clearCommands.stamp io.now).boostUntilMs = 0 := rfl
    rw [hzero]
    constructor
    · rintro ⟨-, h⟩
      exact absurd h.symm hb
    · rintro ⟨h, -⟩
      cases h
  | false =>
    rw [if_neg (by rw [hkept.emergencyStop, hs]; decide)]
    simp only [Bool.false_eq_true, if_false, true_and]
    have hfault := applyStuckBoost_fault p.rampCommands io.now
    by_cases hstall : StallRule p.rampCommands io.now
    · have hres := hfault.mpr hstall
      rw [if_pos hres, output_boostUntilMs, applyStuckBoost_fault_boost hres]
      constructor
      · rintro ⟨-, h⟩
        exact absurd h.symm hb
      · rintro ⟨h, -⟩
        exact absurd (hrule.mp hstall) h
    · have hres : (p.rampCommands.applyStuckBoost io.now (clampRaw p.rampCommands.commandLeft)
          (clampRaw p.rampCommands.commandRight)).result = RT_EOK := by
        by_contra h
        exact hstall (hfault.mp h)
      have hpb' : p.rampCommands.boostUntilMs = m.boostUntilMs := hpb
      have hsource' : p.rampCommands.actualSource ≠ .none := fun h => hsource (hsrc.symm.trans h)
      have hboost := applyStuckBoost_boost (m := p.rampCommands) io.now
        (fun h => hb (hpb'.symm.trans h)) hsource' hstall
      rw [if_neg (not_not.mpr hres), output_boostUntilMs]
      simp only [stamp]
      rw [hboost, hpb', ← hrule]
      by_cases hlt : io.now < m.boostUntilMs
      · rw [if_pos hlt]
        exact ⟨fun _ => ⟨hstall, hlt⟩, fun _ => ⟨hb, rfl⟩⟩
      · rw [if_neg hlt]
        constructor
        · rintro ⟨-, h⟩
          exact absurd h.symm hb
        · rintro ⟨-, h⟩
          exact absurd h hlt

/-! ## A boost is in force only with feedback -/

theorem boostFed_of_zero {m : Motion} (h : m.boostUntilMs = 0) : BoostFed m :=
  fun hb => absurd h hb

theorem pollActualSpeed_fed {m : Motion} (hm : BoostFed m) (io : MotionIo) :
    BoostFed (m.pollActualSpeed io).1 := by
  refine pollActualSpeed_rule (P := fun r => BoostFed r.1) m io fun _ _ _ _ => ?_
  exact ⟨hm, hm, fun _ _ _ _ _ hsource => by cases hsource⟩

theorem applyStuckBoost_fed (m : Motion) (now : UInt32) (left right : Int16) :
    BoostFed (m.applyStuckBoost now left right).motion := by
  by_cases hsource : m.actualSource = .none
  · apply boostFed_of_zero
    unfold applyStuckBoost
    rw [if_pos hsource]
  · intro _ h
    rw [(applyStuckBoost_body m now left right).actualSource] at h
    exact hsource h

theorem output_fed {m : Motion} (hm : BoostFed m) (io : PwmResults) (cb : RtErr)
    (left right : Int16) : BoostFed (m.output io cb left right).1 := by
  unfold BoostFed
  rw [output_boostUntilMs, output_actualSource]
  exact hm

theorem service_fed {m : Motion} (hm : BoostFed m) (io : MotionIo) (direct : Bool) :
    BoostFed (m.serviceReady io direct).1 := by
  have hp := pollActualSpeed_fed hm io
  unfold serviceReady
  generalize m.pollActualSpeed io = poll at hp ⊢
  obtain ⟨p, res⟩ := poll
  simp only at hp ⊢
  have hb := applyStuckBoost_fed p.rampCommands (tickToMs io.now)
    (clampRaw p.rampCommands.commandLeft) (clampRaw p.rampCommands.commandRight)
  split_ifs
  · apply output_fed
    exact hp
  · apply output_fed
    exact boostFed_of_zero rfl
  · apply output_fed
    exact boostFed_of_zero rfl
  · apply output_fed
    exact hb
  · apply output_fed
    exact hb

theorem call_fed {m : Motion} (hi : m.initialized = true) (hm : BoostFed m) (io : MotionIo)
    (op : Op) : BoostFed (m.call io op).1 := by
  have he := ensureInit_of_initialized hi io
  cases op with
  | setTarget left right =>
    simp only [call, setTarget, he]
    split_ifs <;> exact hm
  | setTargetDirect left right =>
    simp only [call, setTargetDirect, he]
    split_ifs
    · exact hm
    · exact hm
    · rw [service_of_initialized (by exact hi)]
      apply service_fed
      exact hm
  | update =>
    rw [show m.call io .update = m.serviceReady io false from service_of_initialized hi io false]
    exact service_fed hm io false
  | emergencyStop reason =>
    simp only [call, doEmergencyStop, he]
    split_ifs
    · exact hm
    · apply output_fed
      exact boostFed_of_zero rfl
  | clearEmergencyStop =>
    simp only [call, clearEmergencyStop, he]
    split_ifs <;> exact hm
  | reset =>
    simp only [call, reset, he]
    split_ifs
    · exact hm
    · apply output_fed
      exact boostFed_of_zero rfl
  | setActualSpeed left right =>
    simp only [call, setActualSpeed, he]
    split_ifs
    · exact hm
    · intro _ hsource
      cases hsource
  | setEncoderDelta left right =>
    simp only [call, setEncoderDelta, he]
    split_ifs
    · exact hm
    · intro _ hsource
      cases hsource
  | setOutputCallback callback =>
    simp only [call, setOutputCallback, he]
    split_ifs <;> exact hm

theorem boostFed_of_reach {m : Motion} (h : machine.Reach Machine.free m) : BoostFed m := by
  refine h.inv ?_ fun s i t hreach hs _ hstep => ?_
  · rintro _ ⟨pins, rfl⟩
    exact boostFed_of_zero rfl
  · obtain rfl : (s.call i.2 i.1).1 = t := by simpa [machine] using hstep
    rcases ensureInit_cases s i.2 with ⟨hi, -⟩ | ⟨hi, k, -, -, -, -, ⟨hk, r, hr, he⟩ | ⟨hk, -, -, -, he⟩⟩
    · exact call_fed hi hs i.2 i.1
    · have hdog := (ensureInit_fresh hi i.2).1
      rw [he, dormant_of_reach hreach hi] at hdog
      rw [call_of_ensureInit_fail he hr]
      exact boostFed_of_zero (timeField_eq_none.mp (congrArg Watchdog.State.boost hdog))
    · have hout : (k.output i.2.initPwm i.2.cbResult 0 0).1.initialized = true := by simp [hk]
      have hdog := (ensureInit_fresh hi i.2).1
      rw [he, dormant_of_reach hreach hi] at hdog
      rw [call_of_ensureInit_ok he hout]
      exact call_fed hout
        (boostFed_of_zero (timeField_eq_none.mp (congrArg Watchdog.State.boost hdog))) i.2 i.1

/-! ## What depends on the absolute time -/

/-- Where the snapshot and an update at the tick `now` agree on the boost: none is in force; or its end
is ahead by the signed difference and by the plain comparison, no stop is latched and no stall is old
enough for a fault; or it is not ahead, and one of the other three ends it. -/
def SnapshotSafe (m : Motion) (now : UInt32) : Prop :=
  m.boostUntilMs = 0 ∨
    (Ahead m now ∧ now < m.boostUntilMs ∧ m.emergencyStop = false ∧
      ¬ StallRule m.rampCommands now) ∨
    (¬ Ahead m now ∧ (m.boostUntilMs ≤ now ∨ m.emergencyStop = true ∨
      StallRule m.rampCommands now))

/-- **Motion control and the absolute time.** In every run whose steps are all safe for a shift by `c`
the shifted run behaves the same; and in every reachable state the snapshot reports a boost exactly when
an update at that instant with unchanged inputs would still be boosting, if and only if `SnapshotSafe`. -/
theorem absolute_time {m : Motion} (h : machine.Reach Machine.free m) :
    (∀ io c calls, machine.Meets (ClockSafe c) (m.reset io) calls →
      SameBehaviour ((m.reset io).after calls)
        ((m.reset (io.shift c)).after (shiftCalls c calls))) ∧
    (∀ io, Unchanged m io →
      (((m.getSnapshot io.now).boostActiveMs > 0 ↔ StillBoosting m io) ↔
        SnapshotSafe m io.now)) := by
  constructor
  · intro io c calls hsafe
    exact run_shift h io hsafe
  · intro io hio
    rw [boostActiveMs_pos]
    unfold SnapshotSafe
    by_cases hb : m.boostUntilMs = 0
    · have hoff : ¬ StillBoosting m io := fun hs => hs.1 hb
      simp [hb, hoff]
    · have hi : m.initialized = true := by
        by_contra hi
        have hdog := dormant_of_reach h (by simpa using hi)
        exact hb (timeField_eq_none.mp (congrArg Watchdog.State.boost hdog))
      rw [stillBoosting_iff hi hb (boostFed_of_reach h hb) hio, ← UInt32.not_lt,
        ← Bool.not_eq_false]
      simp only [hb, ne_eq, not_false_eq_true, true_and, false_or]
      tauto

/-! ## The failing runs -/

instance (m : Motion) (now : UInt32) : Decidable (StallRule m now) :=
  inferInstanceAs (Decidable (_ ∧ _))

instance (p : Motion) : Decidable (Stuck p) := inferInstanceAs (Decidable (_ ∧ _))

instance (c now limit : UInt32) : Decidable (SameWindow c now limit) :=
  inferInstanceAs (Decidable (_ ↔ _))

instance (p : Motion) : Decidable (BeginsStall p) := inferInstanceAs (Decidable (_ ∧ _))

instance (p : Motion) (now : UInt32) : Decidable (BeginsBoost p now) :=
  inferInstanceAs (Decidable (_ ∧ _))

instance (c : UInt32) (p : Motion) (now : UInt32) : Decidable (RulesSafe c p now) :=
  decidable_of_iff
    ((p.boostUntilMs ≠ 0 → SameWindow c now p.boostUntilMs) ∧
      (BeginsStall p → now ≠ 0 ∧ now + c ≠ 0) ∧
      (BeginsBoost p now → now + stuckHoldMs ≠ 0 ∧ now + stuckHoldMs + c ≠ 0 ∧
        SameWindow c now (now + stuckHoldMs)))
    ⟨fun h => ⟨h.1, h.2.1, h.2.2⟩, fun h => ⟨h.1, h.2, h.3⟩⟩

instance (m : Motion) (io : MotionIo) : Decidable (Consults m io) :=
  inferInstanceAs (Decidable (_ ∧ _))

instance (c : UInt32) (m : Motion) (i : Op × MotionIo) : Decidable (ClockSafe c m i) :=
  inferInstanceAs (Decidable (_ → _))

/-- Both wheels are asked for 50 and blocked; the fourth update starts a boost that ends at 850. -/
def boostedCalls : List (Op × MotionIo) :=
  (.setTarget 50 50, {}) :: [100, 120, 140, 400].map fun now =>
    (.update, { now := now, leftCount := some 0, rightCount := some 0 })

/-- Shifted so that the boost would end after the wrap, the same run does not boost: its wheels get 50
instead of 90. And after a PWM failure in a boost the snapshot reports it for another 350 ms, where an
update would end it. -/
theorem absolute_time_fails :
    let m := (boot safePins).reset {}
    let io : MotionIo := { now := 500, leftCount := some 0, rightCount := some 0 }
    let failed := ((m.after boostedCalls).call { io with pwm.leftSet := -RT_ERROR } .update).1
    ((m.after boostedCalls).outputLeft = 90 ∧
        (m.after (shiftCalls 0xFFFFFDA8 boostedCalls)).outputLeft = 50 ∧
        ¬ SameBehaviour (m.after boostedCalls) (m.after (shiftCalls 0xFFFFFDA8 boostedCalls))) ∧
      (Unchanged failed io ∧ (failed.getSnapshot 500).boostActiveMs = 350 ∧
        ¬ StillBoosting failed io) := by
  intro m io failed
  have h90 : (m.after boostedCalls).outputLeft = 90 := by decide +kernel
  have h50 : (m.after (shiftCalls 0xFFFFFDA8 boostedCalls)).outputLeft = 50 := by decide +kernel
  refine ⟨⟨h90, h50, ?_⟩, ⟨by decide +kernel, by decide +kernel, by decide +kernel,
    by decide +kernel⟩, by decide +kernel, ?_⟩
  · intro hsame
    have := congrArg Motion.outputLeft hsame.1
    rw [h50] at this
    exact absurd (this.trans h90) (by decide)
  · intro hboost
    exact absurd hboost.2 (by decide +kernel)

/-- Shifted by 1000 ticks the run boosts as before, and while it does the snapshot says so. -/
theorem absolute_time_boosted :
    let m := (boot safePins).reset {}
    let io : MotionIo := { now := 500, leftCount := some 0, rightCount := some 0 }
    SameBehaviour (m.after boostedCalls) (m.after (shiftCalls 1000 boostedCalls)) ∧
      (((m.after boostedCalls).getSnapshot 500).boostActiveMs > 0 ↔
        StillBoosting (m.after boostedCalls) io) := by
  intro m io
  have hreach : machine.Reach Machine.free (m.after boostedCalls) :=
    (reach_call (.base ⟨safePins, rfl⟩) {} .reset).run (run_after m boostedCalls)
  have hunchanged : Unchanged (m.after boostedCalls) io :=
    ⟨by decide +kernel, by decide +kernel, by decide +kernel, by decide +kernel⟩
  have hsafe : SnapshotSafe (m.after boostedCalls) 500 := by
    unfold SnapshotSafe Ahead
    decide +kernel
  exact ⟨(absolute_time (.base ⟨safePins, rfl⟩)).1 {} 1000 boostedCalls (by decide +kernel),
    ((absolute_time hreach).2 io hunchanged).mpr hsafe⟩

end Hcics.Motion
