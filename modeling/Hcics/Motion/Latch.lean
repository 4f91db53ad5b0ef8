import Hcics.Motion.Spec

/-!
# The emergency stop is a latch with safe outputs

`Settled` is what holds of the outputs after every public operation: under emergency stop the pins
are safe, and STBY is active only if the last output had a nonzero wheel. The module's own call of
`hcics_motion_init` makes the first output, so the invariant `LatchInv` asks it of an initialised
module only, and of an uninitialised one that no stop is latched.
-/

namespace Hcics.Motion

/-- The outputs agree with the latch and with the last output. -/
structure Settled (m : Motion) : Prop where
  safe : m.emergencyStop = true → m.pins = safePins
  standby : m.pins.stby = stbyActiveLevel →
    ∃ left right rest, m.outputs = (left, right) :: rest ∧ (left ≠ 0 ∨ right ≠ 0)

structure LatchInv (m : Motion) : Prop where
  settled : m.initialized = true → Settled m
  stopped : m.emergencyStop = true → m.initialized = true

/-! ## One output, one service -/

theorem settled_of_safePins {m : Motion} (h : m.pins = safePins) : Settled m :=
  ⟨fun _ => h, fun hs => absurd (h ▸ hs) (by decide)⟩

theorem output_settled {m : Motion} {left right : Int16} (io : PwmResults) (cb : RtErr)
    (h : m.emergencyStop = true → left = 0 ∧ right = 0) :
    Settled (m.output io cb left right).1 := by
  obtain ⟨lp, rp, ⟨res, he, -⟩ | ⟨he, -⟩⟩ := output_cases m io cb left right
  · rw [he]
    by_cases hp : m.pwm = true
    · refine ⟨fun hs => ?_, fun hs => ⟨left, right, m.outputs, rfl, drivenPins_stby ?_⟩⟩
      · obtain ⟨rfl, rfl⟩ := h hs
        simp [hp]
      · simpa [hp] using hs
    · exact settled_of_safePins (by simp [hp])
  · rw [he]
    exact settled_of_safePins rfl

theorem output_emergencyStop {m : Motion} (io : PwmResults) (cb : RtErr) (left right : Int16)
    (h : m.emergencyStop = true) : (m.output io cb left right).1.emergencyStop = true := by
  obtain ⟨lp, rp, ⟨res, he, -⟩ | ⟨he, -⟩⟩ := output_cases m io cb left right
  · rw [he]; exact h
  · rw [he]

@[simp] theorem output_initialized (m : Motion) (io : PwmResults) (cb : RtErr)
    (left right : Int16) : (m.output io cb left right).1.initialized = m.initialized := by
  obtain ⟨lp, rp, ⟨res, he, -⟩ | ⟨he, -⟩⟩ := output_cases m io cb left right <;> rw [he]

/-! ## Calls -/

theorem call_ready {m : Motion} (hi : m.initialized = true) (hm : Settled m) (io : MotionIo)
    (op : Op) :
    (m.call io op).1.initialized = true ∧ Settled (m.call io op).1 ∧
      (m.emergencyStop = true → op ≠ .clearEmergencyStop →
        (m.call io op).1.emergencyStop = true) := by
  rcases call_cases hi io op with
    ⟨hinit, -, -, houts, hpins, -, -, -, hlatch⟩ |
      ⟨k, pwm, cb, he, hinit, -, -, -, -, hlatch⟩ |
      ⟨k, pwm, cb, direct, left, right, he, hinit, -, -, -, hfree, hfree', -⟩
  · rcases hlatch with hlatch | ⟨rfl, hoff⟩
    · refine ⟨hinit, ⟨fun h => hpins.trans (hm.safe (hlatch ▸ h)), fun h => ?_⟩,
        fun h _ => hlatch.trans h⟩
      rw [houts]
      exact hm.standby (hpins ▸ h)
    · refine ⟨hinit, ⟨fun h => ?_, fun h => ?_⟩, fun _ h => h.elim rfl⟩
      · rw [hoff] at h
        cases h
      · rw [houts]
        exact hm.standby (hpins ▸ h)
  · rw [he]
    exact ⟨(output_initialized _ _ _ _ _).trans hinit, output_settled _ _ fun _ => ⟨rfl, rfl⟩,
      fun h _ => output_emergencyStop _ _ _ _ (hlatch h)⟩
  · rw [he]
    refine ⟨(output_initialized _ _ _ _ _).trans hinit, output_settled _ _ fun h => ?_,
      fun h _ => ?_⟩
    · rw [hfree'] at h
      cases h
    · rw [hfree] at h
      cases h

/-- Every call keeps the invariant and ends settled, and only the clear releases the latch. -/
theorem call_spec {m : Motion} (hm : LatchInv m) (io : MotionIo) (op : Op) :
    LatchInv (m.call io op).1 ∧ Settled (m.call io op).1 ∧
      (m.emergencyStop = true → op ≠ .clearEmergencyStop →
        (m.call io op).1.emergencyStop = true) := by
  rcases ensureInit_cases m io with ⟨hi, -⟩ | ⟨hi, k, hks, -, hpins, -, ⟨hki, r, hr, he⟩ | ⟨hki, -, -, -, he⟩⟩
  · obtain ⟨h1, h2, h3⟩ := call_ready hi (hm.settled hi) io op
    exact ⟨⟨fun _ => h2, fun _ => h1⟩, h2, h3⟩
  · have hoff : k.emergencyStop = false := by
      rw [hks]
      by_contra hon
      rw [hm.stopped (by simpa using hon)] at hi
      cases hi
    rw [call_of_ensureInit_fail he hr]
    have hs : Settled k := settled_of_safePins hpins
    refine ⟨⟨fun _ => hs, fun h => ?_⟩, hs, fun h _ => hks.trans h⟩
    rw [h] at hoff
    cases hoff
  · have hout : Settled (k.output io.initPwm io.cbResult 0 0).1 :=
      output_settled _ _ fun _ => ⟨rfl, rfl⟩
    have hout' : (k.output io.initPwm io.cbResult 0 0).1.initialized = true := by simp [hki]
    rw [call_of_ensureInit_ok he hout']
    obtain ⟨h1, h2, h3⟩ := call_ready hout' hout io op
    refine ⟨⟨fun _ => h2, fun _ => h1⟩, h2, fun h => ?_⟩
    rw [hm.stopped h] at hi
    cases hi

theorem latchInv_of_reach {ok : Motion → Op × MotionIo → Prop} {m : Motion}
    (h : machine.Reach ok m) : LatchInv m := by
  refine h.inv ?_ fun s i t _ hs _ hstep => ?_
  · rintro _ ⟨pins, rfl⟩
    exact ⟨fun h => Bool.noConfusion h, fun h => Bool.noConfusion h⟩
  · obtain rfl : (s.call i.2 i.1).1 = t := by simpa [machine] using hstep
    exact (call_spec hs i.2 i.1).1

theorem call_refused {m : Motion} (hm : LatchInv m) (hs : m.emergencyStop = true) (io : MotionIo)
    {op : Op} {left right : Int16}
    (hop : op = .setTarget left right ∨ op = .setTargetDirect left right) :
    m.call io op = (m, -RT_ERROR) := by
  have he := ensureInit_of_initialized (hm.stopped hs) io
  rcases hop with rfl | rfl
  · simp [call, setTarget, he, hs]
  · simp [call, setTargetDirect, he, hs]

/-- **The emergency stop is a latch with hardware-safe outputs.** Whatever the calls before, their
arguments, ticks, encoder readings and PWM results: a call that ends with the stop latched leaves
all four direction pins low and STBY inactive; while it is latched both target setters return an
error and change no target; only the clear releases it; and STBY is active only if the last output
had a nonzero wheel. -/
theorem emergencyStop_latch {m : Motion} (h : machine.Reach Machine.free m) (io : MotionIo)
    (op : Op) :
    ((m.call io op).1.emergencyStop = true →
      (m.call io op).1.pins = ⟨false, false, false, false, !stbyActiveLevel⟩) ∧
    (m.emergencyStop = true → ∀ left right,
      op = .setTarget left right ∨ op = .setTargetDirect left right →
        (m.call io op).2 ≠ RT_EOK ∧ (m.call io op).1.targetLeft = m.targetLeft ∧
          (m.call io op).1.targetRight = m.targetRight) ∧
    (m.emergencyStop = true → (m.call io op).1.emergencyStop = false →
      op = .clearEmergencyStop) ∧
    ((m.call io op).1.pins.stby = stbyActiveLevel →
      ∃ left right rest, (m.call io op).1.outputs = (left, right) :: rest ∧
        (left ≠ 0 ∨ right ≠ 0)) := by
  have hm := latchInv_of_reach h
  obtain ⟨-, hsettled, hlatch⟩ := call_spec hm io op
  refine ⟨hsettled.safe, fun hs left right hop => ?_, fun hs hoff => ?_, hsettled.standby⟩
  · rw [call_refused hm hs io hop]
    exact ⟨by simp, rfl, rfl⟩
  · by_contra hne
    rw [hlatch hs hne] at hoff
    cases hoff

/-- A PWM call failing while the wheels ramp up latches 0xE1, and the next target is refused. -/
theorem emergencyStop_latch_pwmFailure :
    let m := after (boot ⟨true, true, true, true, true⟩)
      [(.setTarget 100 (-60), {}), (.update, { pwm := { rightEnable := -RT_ERROR } })]
    m.emergencyStop = true ∧ m.stopReason = 0xE1 ∧ m.pins = safePins ∧
      (m.call {} (.setTarget 50 50)).2 ≠ RT_EOK :=
  ⟨by decide, by decide, by decide,
    ((emergencyStop_latch (reach_after _ _) _ _).2.1 (by decide) _ _ (.inl rfl)).1⟩

end Hcics.Motion
