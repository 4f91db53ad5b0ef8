import Hcics.Lib.Approach
import Hcics.Motion.Clear
import Hcics.Motion.Stall

/-!
# Ramp and output range

The wheel values are 16-bit and are rewritten by clamping, normalisation, the ramp, the boost and the
direct path. In range nothing wraps, so each is the integer operation: the ramp is
`Approach.toward 15`, an output is its command or its command raised to 90 (`OutputOf`), and a pulse is
the exact quotient. `Ranged` is the invariant of the module, `ramp_run` the convergence of a whole run.
-/

namespace Hcics.Motion

abbrev pwmPeriodNs : UInt32 := 1000000

/-! ## Values in range -/

/-- A target is zero or large enough to move the wheel. -/
def TargetRange (target : Int16) : Prop :=
  target = 0 ∨ 25 ≤ target.toInt.natAbs ∧ target.toInt.natAbs ≤ 250

theorem inRange_natAbs {speed : Int16} : InRange speed ↔ speed.toInt.natAbs ≤ 250 := by
  rw [inRange_iff]
  omega

theorem normalizeTarget_range (speed : Int16) : TargetRange (normalizeTarget speed) := by
  have hrange := clampRaw_inRange speed
  have habs := toInt_abs16 hrange.gt_min
  rw [inRange_natAbs] at hrange
  unfold TargetRange normalizeTarget
  simp only
  by_cases h0 : abs16 (clampRaw speed) = 0
  · rw [if_pos h0]
    exact .inl rfl
  · rw [if_neg h0]
    right
    by_cases hmin : abs16 (clampRaw speed) < minNonzeroCmd
    · rw [if_pos hmin]
      split <;> decide
    · rw [if_neg hmin]
      rw [Int16.lt_iff_toInt_lt, habs, show minNonzeroCmd.toInt = 25 from rfl] at hmin
      omega

theorem toInt_rampToward {current : Int16} (hc : InRange current) (target : Int16) :
    (rampToward current target).toInt = Approach.toward 15 current.toInt target.toInt := by
  obtain ⟨hadd, hsub⟩ := toInt_rampStep hc
  rw [inRange_iff] at hc
  unfold rampToward Approach.toward
  simp only [gt_iff_lt, Int16.lt_iff_toInt_lt]
  split_ifs <;> omega

/-- An output has the sign of its command, is zero only with it, and has its magnitude or that raised
to the boost command. -/
structure OutputOf (command output : Int16) : Prop where
  sign : output.toInt.sign = command.toInt.sign
  zero : output = 0 ↔ command = 0
  magnitude : output.toInt.natAbs = command.toInt.natAbs ∨
    output.toInt.natAbs = max command.toInt.natAbs 90

theorem OutputOf.refl (command : Int16) : OutputOf command command :=
  ⟨rfl, Iff.rfl, .inl rfl⟩

theorem toInt_eq_zero {speed : Int16} : speed.toInt = 0 ↔ speed = 0 := by
  rw [← Int16.toInt_inj]
  rfl

theorem outputOf_preserveDirection {command : Int16} (h : InRange command) :
    OutputOf command (preserveDirection command stuckBoostCmd) ∧
      InRange (preserveDirection command stuckBoostCmd) := by
  have habs := toInt_abs16 h.gt_min
  have h90 : stuckBoostCmd.toInt = 90 := rfl
  unfold preserveDirection
  by_cases hkeep : command = 0 ∨ abs16 command ≥ stuckBoostCmd
  · rw [if_pos hkeep]
    exact ⟨.refl command, h⟩
  · rw [if_neg hkeep]
    rw [not_or, ge_iff_le, Int16.le_iff_toInt_le, habs, h90, ← toInt_eq_zero] at hkeep
    obtain ⟨hne, hlt⟩ := hkeep
    by_cases hpos : command > 0
    · rw [if_pos hpos]
      have hpos' : 0 < command.toInt := Int16.lt_iff_toInt_lt.mp hpos
      refine ⟨⟨?_, ?_, .inr ?_⟩, by decide⟩
      · rw [h90, Int.sign_eq_one_of_pos hpos']
        rfl
      · rw [← toInt_eq_zero, ← toInt_eq_zero, h90]
        omega
      · rw [h90]
        omega
    · rw [if_neg hpos]
      have hneg : command.toInt < 0 := by
        have : ¬ 0 < command.toInt := fun hp => hpos (Int16.lt_iff_toInt_lt.mpr hp)
        omega
      have hminus : (-stuckBoostCmd).toInt = -90 := rfl
      refine ⟨⟨?_, ?_, .inr ?_⟩, by decide⟩
      · rw [hminus, Int.sign_eq_neg_one_of_neg hneg]
        rfl
      · rw [← toInt_eq_zero, ← toInt_eq_zero, hminus]
        omega
      · rw [hminus]
        omega

theorem outputOf_boostOf {command boosted : Int16} (h : InRange command)
    (hb : BoostOf (clampRaw command) boosted) :
    OutputOf command (clampRaw boosted) ∧ InRange (clampRaw boosted) := by
  rw [clampRaw_of_inRange h] at hb
  rcases hb with rfl | rfl
  · rw [clampRaw_of_inRange h]
    exact ⟨.refl _, h⟩
  · obtain ⟨hof, hrange⟩ := outputOf_preserveDirection h
    rw [clampRaw_of_inRange hrange]
    exact ⟨hof, hrange⟩

theorem pulseNs_exact {speed : Int16} (h : InRange speed) :
    speed.toInt.natAbs * 900000 < 2 ^ 32 ∧
      (pulseNs speed).toNat = speed.toInt.natAbs * 900000 / 250 ∧
      pulseNs speed ≤ pwmFullPulseNs ∧ pulseNs speed < pwmPeriodNs := by
  have habs := toInt_abs16 h.gt_min
  rw [inRange_natAbs] at h
  have hwide : ((abs16 speed).toInt32.toUInt32).toNat = speed.toInt.natAbs := by
    have hpos : 0 ≤ (abs16 speed).toInt32 := by
      rw [Int32.le_iff_toInt_le, Int16.toInt_toInt32, habs]
      exact Int.natCast_nonneg _
    rw [Int32.toNat_toUInt32_of_le hpos, ← Int32.toNat_toInt, Int16.toInt_toInt32, habs]
    exact Int.toNat_natCast _
  have hpulse : (pulseNs speed).toNat = speed.toInt.natAbs * 900000 / 250 := by
    unfold pulseNs
    rw [UInt32.toNat_div, UInt32.toNat_mul, hwide, show pwmFullPulseNs.toNat = 900000 from rfl,
      show speedMax.toInt32.toUInt32.toNat = 250 from rfl, Nat.mod_eq_of_lt (by omega)]
  have hle : (pulseNs speed).toNat ≤ 900000 := by
    rw [hpulse]
    omega
  refine ⟨by omega, hpulse, UInt32.le_iff_toNat_le.mpr hle, UInt32.lt_iff_toNat_lt.mpr ?_⟩
  rw [show pwmPeriodNs.toNat = 1000000 from rfl]
  omega

/-! ## The outputs and the channels -/

def lastOutput (m : Motion) : Int16 × Int16 := m.outputs.headD (0, 0)

/-- A stored pulse was computed for an output of that wheel. -/
structure Pulsed (m : Motion) : Prop where
  left : m.leftPwm.pulse = 0 ∨ ∃ out ∈ m.outputs, m.leftPwm.pulse = pulseNs out.1
  right : m.rightPwm.pulse = 0 ∨ ∃ out ∈ m.outputs, m.rightPwm.pulse = pulseNs out.2

/-- The output fields hold the last output, and the channels hold pulses of outputs. -/
structure Wired (m : Motion) : Prop extends Pulsed m where
  outputLeft : m.outputLeft = m.lastOutput.1
  outputRight : m.outputRight = m.lastOutput.2

theorem outputPwm_pulse (m : Motion) (io : PwmResults) (left right : Int16) :
    ((m.outputPwm io left right).1.leftPwm.pulse = m.leftPwm.pulse ∨
        (m.outputPwm io left right).1.leftPwm.pulse = pulseNs left) ∧
      ((m.outputPwm io left right).1.rightPwm.pulse = m.rightPwm.pulse ∨
        (m.outputPwm io left right).1.rightPwm.pulse = pulseNs right) := by
  rw [outputPwm_eq]
  split
  · split
    · exact ⟨.inr rfl, .inr rfl⟩
    · refine ⟨?_, ?_⟩
      · show io.leftPulse m left = _ ∨ io.leftPulse m left = _
        unfold PwmResults.leftPulse
        split
        · exact .inr rfl
        · exact .inl rfl
      · show io.rightPulse m right = _ ∨ io.rightPulse m right = _
        unfold PwmResults.rightPulse
        split
        · exact .inr rfl
        · exact .inl rfl
  · exact ⟨.inl rfl, .inl rfl⟩

theorem output_wired {m : Motion} (hm : Pulsed m) (io : PwmResults) (cb : RtErr)
    (left right : Int16) : Wired (m.output io cb left right).1 := by
  have houts : (m.output io cb left right).1.outputs = (left, right) :: m.outputs :=
    output_outputs m io cb left right
  obtain ⟨hl, hr⟩ := outputPwm_pulse
    { m with outputLeft := left, outputRight := right, outputs := (left, right) :: m.outputs }
    io left right
  have hfields : (m.output io cb left right).1.outputLeft = left ∧
      (m.output io cb left right).1.outputRight = right := by
    obtain ⟨lp, rp, ⟨res, he, -⟩ | ⟨he, -⟩⟩ := output_cases m io cb left right <;> rw [he] <;>
      exact ⟨rfl, rfl⟩
  refine ⟨⟨?_, ?_⟩, ?_, ?_⟩
  · rw [houts]
    rcases hl with h | h
    · rcases hm.left with h0 | ⟨out, hout, h0⟩
      · exact .inl (h.trans h0)
      · exact .inr ⟨out, List.mem_cons_of_mem _ hout, h.trans h0⟩
    · exact .inr ⟨(left, right), List.mem_cons_self, h⟩
  · rw [houts]
    rcases hr with h | h
    · rcases hm.right with h0 | ⟨out, hout, h0⟩
      · exact .inl (h.trans h0)
      · exact .inr ⟨out, List.mem_cons_of_mem _ hout, h.trans h0⟩
    · exact .inr ⟨(left, right), List.mem_cons_self, h⟩
  · rw [hfields.1, lastOutput, houts]
    rfl
  · rw [hfields.2, lastOutput, houts]
    rfl

theorem pollActualSpeed_pulsed {m : Motion} (hm : Pulsed m) (io : MotionIo) :
    Pulsed (m.pollActualSpeed io).1 := by
  refine pollActualSpeed_rule (P := fun r => Pulsed r.1) m io fun _ _ _ _ => ?_
  exact ⟨⟨hm.left, hm.right⟩, ⟨hm.left, hm.right⟩, fun _ _ _ _ => ⟨hm.left, hm.right⟩⟩

theorem SameBody.pulsed {m m' : Motion} (h : SameBody m m') (hm : Pulsed m) : Pulsed m' := by
  refine ⟨?_, ?_⟩
  · rw [h.leftPwm, h.outputs]
    exact hm.left
  · rw [h.rightPwm, h.outputs]
    exact hm.right

theorem serviceReady_wired {m : Motion} (hm : Pulsed m) (io : MotionIo) (direct : Bool) :
    Wired (m.serviceReady io direct).1 := by
  have hp := pollActualSpeed_pulsed hm io
  unfold serviceReady
  generalize m.pollActualSpeed io = poll at hp ⊢
  obtain ⟨p, res⟩ := poll
  simp only at hp ⊢
  have hramp : Pulsed p.rampCommands := ⟨hp.left, hp.right⟩
  split_ifs
  · apply output_wired
    exact hp
  · apply output_wired
    exact ⟨hp.left, hp.right⟩
  · apply output_wired
    exact ⟨hp.left, hp.right⟩
  · apply output_wired
    exact (applyStuckBoost_body p.rampCommands _ _ _).pulsed hramp
  · have hb := (applyStuckBoost_body p.rampCommands (tickToMs io.now)
      (clampRaw p.rampCommands.commandLeft) (clampRaw p.rampCommands.commandRight)).pulsed hramp
    apply output_wired
    exact ⟨hb.left, hb.right⟩

theorem ensureInit_wired {m : Motion} (hm : Wired m) (io : MotionIo) :
    Wired (m.ensureInit io).1 := by
  simp only [ensureInit, init]
  split_ifs
  · exact hm
  · exact ⟨⟨hm.left, hm.right⟩, hm.outputLeft, hm.outputRight⟩
  · exact ⟨⟨hm.left, hm.right⟩, hm.outputLeft, hm.outputRight⟩
  · refine output_wired ?_ io.initPwm io.cbResult 0 0
    exact ⟨hm.left, hm.right⟩
  · exact hm

theorem service_wired {m : Motion} (hm : Wired m) (io : MotionIo) (direct : Bool) :
    Wired (m.service io direct).1 := by
  have hk := ensureInit_wired hm io
  simp only [service]
  split_ifs
  · exact hk
  · exact serviceReady_wired hk.toPulsed io direct

theorem Wired.targets {m : Motion} (h : Wired m) (left right : Int16) :
    Wired { m with targetLeft := left, targetRight := right } :=
  ⟨⟨h.left, h.right⟩, h.outputLeft, h.outputRight⟩

theorem call_wired {m : Motion} (hm : Wired m) (io : MotionIo) (op : Op) :
    Wired (m.call io op).1 := by
  have hk := ensureInit_wired hm io
  cases op with
  | setTarget left right =>
    simp only [call, setTarget]
    split_ifs
    · exact hk
    · exact hk
    · exact hk.targets _ _
  | setTargetDirect left right =>
    simp only [call, setTargetDirect]
    split_ifs
    · exact hk
    · exact hk
    · apply service_wired
      exact hk.targets _ _
  | update => exact service_wired hm io false
  | emergencyStop reason =>
    simp only [call, doEmergencyStop]
    split_ifs
    · exact hk
    · refine output_wired ?_ io.pwm io.cbResult 0 0
      exact ⟨hk.left, hk.right⟩
  | clearEmergencyStop =>
    simp only [call, clearEmergencyStop]
    split_ifs
    · exact hk
    · exact ⟨⟨hk.left, hk.right⟩, hk.outputLeft, hk.outputRight⟩
  | reset =>
    simp only [call, reset]
    split_ifs
    · exact hk
    · refine output_wired ?_ io.pwm io.cbResult 0 0
      exact ⟨hk.left, hk.right⟩
  | setActualSpeed left right =>
    simp only [call, setActualSpeed]
    split_ifs
    · exact hk
    · exact ⟨⟨hk.left, hk.right⟩, hk.outputLeft, hk.outputRight⟩
  | setEncoderDelta left right =>
    simp only [call, setEncoderDelta]
    split_ifs
    · exact hk
    · exact ⟨⟨hk.left, hk.right⟩, hk.outputLeft, hk.outputRight⟩
  | setOutputCallback callback =>
    simp only [call, setOutputCallback]
    split_ifs
    · exact hk
    · exact ⟨⟨hk.left, hk.right⟩, hk.outputLeft, hk.outputRight⟩

theorem wired_of_reach {m : Motion} (h : machine.Reach Machine.free m) : Wired m := by
  refine h.inv ?_ fun s i t _ hs _ hstep => ?_
  · rintro _ ⟨pins, rfl⟩
    exact ⟨⟨.inl rfl, .inl rfl⟩, rfl, rfl⟩
  · obtain rfl : (s.call i.2 i.1).1 = t := by simpa [machine] using hstep
    exact call_wired hs i.2 i.1

/-! ## The invariant of the module -/

/-- Every target, command and output of the module is in range, and the last output is that of the
commands. A module that is not initialised is halted. -/
structure Ranged (m : Motion) : Prop where
  targetLeft : TargetRange m.targetLeft
  targetRight : TargetRange m.targetRight
  commandLeft : InRange m.commandLeft
  commandRight : InRange m.commandRight
  outputs : ∀ out ∈ m.outputs, InRange out.1 ∧ InRange out.2
  lastLeft : OutputOf m.commandLeft m.lastOutput.1
  lastRight : OutputOf m.commandRight m.lastOutput.2
  dormant : m.initialized = false → Halted m

theorem TargetRange.inRange {target : Int16} (h : TargetRange target) : InRange target := by
  rw [inRange_natAbs]
  rcases h with rfl | ⟨-, h⟩
  · decide
  · exact h

theorem targetRange_zero : TargetRange 0 := .inl rfl

theorem output_ranged {k : Motion} {left right : Int16} (io : PwmResults) (cb : RtErr)
    (htl : TargetRange k.targetLeft) (htr : TargetRange k.targetRight)
    (hcl : InRange k.commandLeft) (hcr : InRange k.commandRight)
    (houts : ∀ out ∈ k.outputs, InRange out.1 ∧ InRange out.2)
    (hl : OutputOf k.commandLeft left) (hlr : InRange left)
    (hr : OutputOf k.commandRight right) (hrr : InRange right) (hi : k.initialized = true) :
    Ranged (k.output io cb left right).1 := by
  obtain ⟨h1, h2, h3, h4⟩ := output_keeps_commands k io cb left right
  have ho := output_outputs k io cb left right
  refine ⟨h1 ▸ htl, h2 ▸ htr, h3 ▸ hcl, h4 ▸ hcr, ?_, ?_, ?_, ?_⟩
  · rw [ho]
    intro out hout
    rcases List.mem_cons.mp hout with rfl | hout
    · exact ⟨hlr, hrr⟩
    · exact houts out hout
  · rw [lastOutput, ho, h3]
    exact hl
  · rw [lastOutput, ho, h4]
    exact hr
  · intro hoff
    rw [output_initialized, hi] at hoff
    cases hoff

theorem Halted.output_ranged {k : Motion} (h : Halted k) (io : PwmResults) (cb : RtErr)
    (houts : ∀ out ∈ k.outputs, InRange out.1 ∧ InRange out.2) (hi : k.initialized = true) :
    Ranged (k.output io cb 0 0).1 := by
  obtain ⟨h1, h2, h3, h4⟩ := h
  apply Motion.output_ranged io cb
  · rw [h1]; exact targetRange_zero
  · rw [h2]; exact targetRange_zero
  · rw [h3]; exact inRange_zero
  · rw [h4]; exact inRange_zero
  · exact houts
  · rw [h3]; exact .refl 0
  · exact inRange_zero
  · rw [h4]; exact .refl 0
  · exact inRange_zero
  · exact hi

theorem servedTarget_range {m : Motion} (hm : Ranged m) (op : Op) :
    TargetRange (servedTarget op m).1 ∧ TargetRange (servedTarget op m).2 := by
  cases op
  case setTargetDirect left right =>
    dsimp only [servedTarget]
    exact ⟨normalizeTarget_range left, normalizeTarget_range right⟩
  all_goals exact ⟨hm.targetLeft, hm.targetRight⟩

theorem call_ranged_ready {m : Motion} (hi : m.initialized = true) (hm : Ranged m) (io : MotionIo)
    (op : Op) : Ranged (m.call io op).1 := by
  rcases call_cases hi io op with
    ⟨hinit, -, -, houts, -, hcl, hcr, htargets, -⟩ |
      ⟨k, pwm, cb, he, hinit, -, -, houts, hhalt, -⟩ |
      ⟨k, pwm, cb, direct, left, right, he, hinit, -, -, houts, -, -, -, htl, htr, hcl, hcr,
        ⟨bl, hbl, rfl⟩, ⟨br, hbr, rfl⟩⟩
  · have htargets : TargetRange (m.call io op).1.targetLeft ∧
        TargetRange (m.call io op).1.targetRight := by
      rcases htargets with ⟨h1, h2⟩ | ⟨left, right, -, -, h1, h2⟩
      · exact ⟨h1 ▸ hm.targetLeft, h2 ▸ hm.targetRight⟩
      · exact ⟨h1 ▸ normalizeTarget_range left, h2 ▸ normalizeTarget_range right⟩
    refine ⟨htargets.1, htargets.2, hcl ▸ hm.commandLeft, hcr ▸ hm.commandRight, ?_, ?_, ?_, ?_⟩
    · rw [houts]
      exact hm.outputs
    · rw [lastOutput, houts, hcl]
      exact hm.lastLeft
    · rw [lastOutput, houts, hcr]
      exact hm.lastRight
    · intro hoff
      rw [hinit] at hoff
      cases hoff
  · rw [he]
    exact hhalt.output_ranged pwm cb (by rw [houts]; exact hm.outputs) hinit
  · have htL : TargetRange k.targetLeft := htl ▸ (servedTarget_range hm op).1
    have htR : TargetRange k.targetRight := htr ▸ (servedTarget_range hm op).2
    have hcL : InRange k.commandLeft := hcl ▸ nextCommand_inRange hm.commandLeft htL.inRange
    have hcR : InRange k.commandRight := hcr ▸ nextCommand_inRange hm.commandRight htR.inRange
    obtain ⟨hol, hrl⟩ := outputOf_boostOf hcL hbl
    obtain ⟨hor, hrr⟩ := outputOf_boostOf hcR hbr
    rw [he]
    exact output_ranged pwm cb htL htR hcL hcR (by rw [houts]; exact hm.outputs) hol hrl hor hrr hinit

theorem call_ranged {m : Motion} (hm : Ranged m) (io : MotionIo) (op : Op) :
    Ranged (m.call io op).1 := by
  rcases ensureInit_cases m io with
    ⟨hi, -⟩ | ⟨hi, k, -, houts, -, hhalt, ⟨hk, r, hr, he⟩ | ⟨hk, -, -, -, he⟩⟩
  · exact call_ranged_ready hi hm io op
  · rw [call_of_ensureInit_fail he hr]
    have hzero := hm.dormant hi
    have hlast : k.lastOutput = m.lastOutput := by rw [lastOutput, lastOutput, houts]
    refine ⟨?_, ?_, ?_, ?_, ?_, ?_, ?_, fun _ => hhalt⟩
    · rw [hhalt.targetLeft]; exact targetRange_zero
    · rw [hhalt.targetRight]; exact targetRange_zero
    · rw [hhalt.commandLeft]; exact inRange_zero
    · rw [hhalt.commandRight]; exact inRange_zero
    · rw [houts]; exact hm.outputs
    · rw [hlast, hhalt.commandLeft, ← hzero.commandLeft]; exact hm.lastLeft
    · rw [hlast, hhalt.commandRight, ← hzero.commandRight]; exact hm.lastRight
  · have hout : (k.output io.initPwm io.cbResult 0 0).1.initialized = true := by simp [hk]
    rw [call_of_ensureInit_ok he hout]
    exact call_ranged_ready hout
      (hhalt.output_ranged io.initPwm io.cbResult (by rw [houts]; exact hm.outputs) hk) io op

theorem ranged_of_reach {m : Motion} (h : machine.Reach Machine.free m) : Ranged m := by
  refine h.inv ?_ fun s i t _ hs _ hstep => ?_
  · rintro _ ⟨pins, rfl⟩
    refine ⟨.inl rfl, .inl rfl, inRange_zero, inRange_zero, ?_, .refl 0, .refl 0,
      fun _ => ⟨rfl, rfl, rfl, rfl⟩⟩
    intro out hout
    cases hout
  · obtain rfl : (s.call i.2 i.1).1 = t := by simpa [machine] using hstep
    exact call_ranged hs i.2 i.1

/-! ## The ramp of an update -/

/-- Each command moves toward its target by a ramp step, and the targets stay. -/
structure Ramps (m m' : Motion) : Prop where
  targetLeft : m'.targetLeft = m.targetLeft
  targetRight : m'.targetRight = m.targetRight
  left : m'.commandLeft.toInt = Approach.toward 15 m.commandLeft.toInt m.targetLeft.toInt
  right : m'.commandRight.toInt = Approach.toward 15 m.commandRight.toInt m.targetRight.toInt

theorem serviceReady_ramps {m : Motion} (hl : InRange m.commandLeft) (hr : InRange m.commandRight)
    (io : MotionIo) (hs : (m.serviceReady io false).1.emergencyStop = false) :
    Ramps m (m.serviceReady io false).1 := by
  obtain ⟨k, left, right, he, hserved⟩ := serviceReady_cases m io false
  rw [he] at hs ⊢
  rcases hserved.cases with ⟨hk, -⟩ | ⟨-, -, htl, htr, hcl, hcr, -⟩
  · rw [output_emergencyStop io.pwm io.cbResult left right hk] at hs
    cases hs
  · obtain ⟨h1, h2, h3, h4⟩ := output_keeps_commands k io.pwm io.cbResult left right
    refine ⟨h1.trans htl, h2.trans htr, ?_, ?_⟩
    · rw [h3, hcl, nextCommand_ramp]
      exact toInt_rampToward hl m.targetLeft
    · rw [h4, hcr, nextCommand_ramp]
      exact toInt_rampToward hr m.targetRight

theorem Halted.ramps {m m' : Motion} (h : Halted m) (h' : Halted m') : Ramps m m' := by
  refine ⟨?_, ?_, ?_, ?_⟩
  · rw [h.targetLeft, h'.targetLeft]
  · rw [h.targetRight, h'.targetRight]
  · rw [h.targetLeft, h.commandLeft, h'.commandLeft, Approach.toward_self]
  · rw [h.targetRight, h.commandRight, h'.commandRight, Approach.toward_self]

theorem Ramps.halted {m m' : Motion} (h : Ramps m m') (hm : Halted m) : Halted m' := by
  obtain ⟨h1, h2, h3, h4⟩ := h
  rw [hm.targetLeft, hm.commandLeft, Approach.toward_self] at h3
  rw [hm.targetRight, hm.commandRight, Approach.toward_self] at h4
  exact ⟨h1.trans hm.targetLeft, h2.trans hm.targetRight, toInt_eq_zero.mp h3, toInt_eq_zero.mp h4⟩

theorem update_ramps {m : Motion} (hm : Ranged m) (io : MotionIo)
    (hs : (m.call io .update).1.emergencyStop = false) : Ramps m (m.call io .update).1 := by
  rcases ensureInit_cases m io with
    ⟨hi, -⟩ | ⟨hi, k, -, houts, -, hhalt, ⟨hk, r, hr, he⟩ | ⟨hk, -, -, -, he⟩⟩
  · rw [show m.call io .update = m.serviceReady io false from service_of_initialized hi io false] at hs ⊢
    exact serviceReady_ramps hm.commandLeft hm.commandRight io hs
  · rw [call_of_ensureInit_fail he hr]
    exact (hm.dormant hi).ramps hhalt
  · have hout : (k.output io.initPwm io.cbResult 0 0).1.initialized = true := by simp [hk]
    obtain ⟨h1, h2, h3, h4⟩ := output_keeps_commands k io.initPwm io.cbResult 0 0
    have hhalt' : Halted (k.output io.initPwm io.cbResult 0 0).1 :=
      ⟨h1.trans hhalt.targetLeft, h2.trans hhalt.targetRight, h3.trans hhalt.commandLeft,
        h4.trans hhalt.commandRight⟩
    rw [call_of_ensureInit_ok he hout, show
      (k.output io.initPwm io.cbResult 0 0).1.call io .update =
        (k.output io.initPwm io.cbResult 0 0).1.serviceReady io false
      from service_of_initialized hout io false] at hs ⊢
    have hramps := serviceReady_ramps (by rw [hhalt'.commandLeft]; exact inRange_zero)
      (by rw [hhalt'.commandRight]; exact inRange_zero) io hs
    exact (hm.dormant hi).ramps (hramps.halted hhalt')

/-! ## Runs without a new target -/

/-- The distance that a command has to its target. -/
def gaps (m : Motion) : Nat × Nat :=
  (Approach.gap m.commandLeft.toInt m.targetLeft.toInt,
    Approach.gap m.commandRight.toInt m.targetRight.toInt)

theorem gaps_eq_zero {m : Motion} (hl : m.commandLeft = m.targetLeft)
    (hr : m.commandRight = m.targetRight) : m.gaps = (0, 0) := by
  rw [gaps, hl, hr, Approach.gap_self, Approach.gap_self]

theorem Halted.gaps_eq {m : Motion} (h : Halted m) : m.gaps = (0, 0) := by
  apply gaps_eq_zero
  · rw [h.commandLeft, h.targetLeft]
  · rw [h.commandRight, h.targetRight]

def setsTarget : Op → Bool
  | .setTarget _ _ => true
  | .setTargetDirect _ _ => true
  | _ => false

/-- A call that sets no target and leaves no stop latched. -/
def Coasts (m : Motion) (i : Op × MotionIo) : Prop :=
  setsTarget i.1 = false ∧ (m.call i.2 i.1).1.emergencyStop = false

instance (m : Motion) (i : Op × MotionIo) : Decidable (Coasts m i) :=
  inferInstanceAs (Decidable (_ ∧ _))

theorem Coasts.no_target {m : Motion} {i : Op × MotionIo} (h : Coasts m i) (left right : Int16) :
    i.1 ≠ .setTarget left right ∧ i.1 ≠ .setTargetDirect left right := by
  constructor <;> intro hop <;> have := h.1 <;> rw [hop] at this <;> cases this

theorem call_gaps_ready {m : Motion} (hi : m.initialized = true) {i : Op × MotionIo}
    (hok : Coasts m i) (hupdate : i.1 ≠ .update) :
    (m.call i.2 i.1).1.gaps = m.gaps ∨ (m.call i.2 i.1).1.gaps = (0, 0) := by
  rcases call_cases hi i.2 i.1 with
    ⟨-, -, -, -, -, hcl, hcr, htargets, -⟩ |
      ⟨k, pwm, cb, he, -, -, -, -, hhalt, -⟩ |
      ⟨k, pwm, cb, direct, left, right, he, -, -, -, -, -, -, hkind, htl, htr, hcl, hcr, -⟩
  · rcases htargets with ⟨h1, h2⟩ | ⟨left, right, hop, -⟩
    · left
      rw [gaps, gaps, hcl, hcr, h1, h2]
    · exact absurd hop (hok.no_target left right).1
  · right
    obtain ⟨h1, h2, h3, h4⟩ := output_keeps_commands k pwm cb 0 0
    rw [he, gaps, h1, h2, h3, h4]
    exact hhalt.gaps_eq
  · right
    obtain ⟨h1, h2, h3, h4⟩ := output_keeps_commands k pwm cb left right
    have hdirect : direct = true := by
      rcases hkind with h | h
      · exact h
      · exact absurd h hupdate
    rw [he]
    apply gaps_eq_zero
    · rw [h1, h3, hcl, nextCommand, if_pos hdirect]
    · rw [h2, h4, hcr, nextCommand, if_pos hdirect]

theorem call_gaps {m : Motion} (hm : Ranged m) {i : Op × MotionIo} (hok : Coasts m i) :
    (m.call i.2 i.1).1.gaps.1 ≤ m.gaps.1 - (if i.1 = .update then 15 else 0) ∧
      (m.call i.2 i.1).1.gaps.2 ≤ m.gaps.2 - (if i.1 = .update then 15 else 0) := by
  by_cases hupdate : i.1 = .update
  · rw [if_pos hupdate]
    have hramps := update_ramps hm i.2 (hupdate ▸ hok.2)
    rw [hupdate, gaps, gaps, hramps.left, hramps.right, hramps.targetLeft, hramps.targetRight,
      Approach.gap_toward, Approach.gap_toward]
    exact ⟨le_refl _, le_refl _⟩
  · rw [if_neg hupdate]
    have hgaps : (m.call i.2 i.1).1.gaps = m.gaps ∨ (m.call i.2 i.1).1.gaps = (0, 0) := by
      rcases ensureInit_cases m i.2 with
        ⟨hi, -⟩ | ⟨hi, k, -, houts, -, hhalt, ⟨hk, r, hr, he⟩ | ⟨hk, -, -, -, he⟩⟩
      · exact call_gaps_ready hi hok hupdate
      · right
        rw [call_of_ensureInit_fail he hr]
        exact hhalt.gaps_eq
      · have hout : (k.output i.2.initPwm i.2.cbResult 0 0).1.initialized = true := by simp [hk]
        obtain ⟨h1, h2, h3, h4⟩ := output_keeps_commands k i.2.initPwm i.2.cbResult 0 0
        have hzero : (k.output i.2.initPwm i.2.cbResult 0 0).1.gaps = (0, 0) := by
          rw [gaps, h1, h2, h3, h4]
          exact hhalt.gaps_eq
        have hcall := call_of_ensureInit_ok he hout i.1
        have hok' : Coasts (k.output i.2.initPwm i.2.cbResult 0 0).1 i := ⟨hok.1, hcall ▸ hok.2⟩
        rw [hcall]
        rcases call_gaps_ready hout hok' hupdate with h | h
        · exact .inr (h.trans hzero)
        · exact .inr h
    rcases hgaps with h | h <;> rw [h]
    · exact ⟨le_refl _, le_refl _⟩
    · exact ⟨Nat.zero_le _, Nat.zero_le _⟩

/-- **Convergence.** In a run without a new target or a fault each update takes a ramp step off the
distances. -/
theorem ramp_run {m : Motion} (h : machine.Reach Machine.free m) {calls : List (Op × MotionIo)}
    (hok : machine.Meets Coasts m calls) :
    (m.after calls).gaps.1 ≤ m.gaps.1 - 15 * calls.countP (fun c => c.1 = .update) ∧
      (m.after calls).gaps.2 ≤ m.gaps.2 - 15 * calls.countP (fun c => c.1 = .update) := by
  induction calls generalizing m with
  | nil => simp [after]
  | cons i calls ih =>
    obtain ⟨hcoasts, hrest⟩ := hok
    obtain ⟨h1, h2⟩ := call_gaps (ranged_of_reach h) hcoasts
    obtain ⟨h3, h4⟩ := ih (reach_call h i.2 i.1) (hrest _ rfl)
    have hafter : m.after (i :: calls) = (m.call i.2 i.1).1.after calls := rfl
    rw [hafter, List.countP_cons]
    by_cases hupdate : i.1 = .update
    · simp only [hupdate, decide_true, if_true] at h1 h2 ⊢
      rw [hupdate] at h3 h4
      omega
    · simp only [hupdate, decide_false, Bool.false_eq_true, if_false] at h1 h2 ⊢
      omega

theorem call_targets_ready {m : Motion} (hi : m.initialized = true) {i : Op × MotionIo}
    (hok : Coasts m i) :
    ((m.call i.2 i.1).1.targetLeft = m.targetLeft ∨ (m.call i.2 i.1).1.targetLeft = 0) ∧
      ((m.call i.2 i.1).1.targetRight = m.targetRight ∨ (m.call i.2 i.1).1.targetRight = 0) := by
  rcases call_cases hi i.2 i.1 with
    ⟨-, -, -, -, -, -, -, htargets, -⟩ |
      ⟨k, pwm, cb, he, -, -, -, -, hhalt, -⟩ |
      ⟨k, pwm, cb, direct, left, right, he, -, -, -, -, -, -, -, htl, htr, -, -, -, -⟩
  · rcases htargets with ⟨h1, h2⟩ | ⟨left, right, hop, -⟩
    · exact ⟨.inl h1, .inl h2⟩
    · exact absurd hop (hok.no_target left right).1
  · obtain ⟨h1, h2, -⟩ := output_keeps_commands k pwm cb 0 0
    rw [he]
    exact ⟨.inr (h1.trans hhalt.targetLeft), .inr (h2.trans hhalt.targetRight)⟩
  · obtain ⟨h1, h2, -⟩ := output_keeps_commands k pwm cb left right
    have hserved : servedTarget i.1 m = (m.targetLeft, m.targetRight) := by
      cases hop : i.1
      case setTargetDirect left right => exact absurd hop (hok.no_target left right).2
      all_goals rfl
    rw [hserved] at htl htr
    rw [he]
    exact ⟨.inl (h1.trans htl), .inl (h2.trans htr)⟩

theorem call_targets {m : Motion} {i : Op × MotionIo} (hok : Coasts m i) :
    ((m.call i.2 i.1).1.targetLeft = m.targetLeft ∨ (m.call i.2 i.1).1.targetLeft = 0) ∧
      ((m.call i.2 i.1).1.targetRight = m.targetRight ∨ (m.call i.2 i.1).1.targetRight = 0) := by
  rcases ensureInit_cases m i.2 with
    ⟨hi, -⟩ | ⟨hi, k, -, houts, -, hhalt, ⟨hk, r, hr, he⟩ | ⟨hk, -, -, -, he⟩⟩
  · exact call_targets_ready hi hok
  · rw [call_of_ensureInit_fail he hr]
    exact ⟨.inr hhalt.targetLeft, .inr hhalt.targetRight⟩
  · have hout : (k.output i.2.initPwm i.2.cbResult 0 0).1.initialized = true := by simp [hk]
    obtain ⟨h1, h2, -⟩ := output_keeps_commands k i.2.initPwm i.2.cbResult 0 0
    have hcall := call_of_ensureInit_ok he hout i.1
    have hok' : Coasts (k.output i.2.initPwm i.2.cbResult 0 0).1 i := ⟨hok.1, hcall ▸ hok.2⟩
    have hready := call_targets_ready hout hok'
    rw [h1, h2, hhalt.targetLeft, hhalt.targetRight, or_self, or_self] at hready
    rw [hcall]
    exact ⟨.inr hready.1, .inr hready.2⟩

theorem targets_run {m : Motion} {calls : List (Op × MotionIo)}
    (hok : machine.Meets Coasts m calls) :
    ((m.after calls).targetLeft = m.targetLeft ∨ (m.after calls).targetLeft = 0) ∧
      ((m.after calls).targetRight = m.targetRight ∨ (m.after calls).targetRight = 0) := by
  induction calls generalizing m with
  | nil => exact ⟨.inl rfl, .inl rfl⟩
  | cons i calls ih =>
    obtain ⟨hcoasts, hrest⟩ := hok
    obtain ⟨h1, h2⟩ := call_targets hcoasts
    obtain ⟨h3, h4⟩ := ih (hrest _ rfl)
    have hafter : m.after (i :: calls) = (m.call i.2 i.1).1.after calls := rfl
    rw [hafter]
    constructor
    · rcases h3 with h3 | h3
      · rw [h3]
        exact h1
      · exact .inr h3
    · rcases h4 with h4 | h4
      · rw [h4]
        exact h2
      · exact .inr h4

theorem reach_calls {m : Motion} (h : machine.Reach Machine.free m) (calls : List (Op × MotionIo)) :
    machine.Reach Machine.free (m.after calls) :=
  h.run (run_after m calls)

/-- A command moved toward its target by `min 15 distance` and not past it. -/
structure MovesToward (target command command' : Int16) : Prop where
  exact : (command'.toInt - command.toInt).natAbs = min 15 (Approach.gap command.toInt target.toInt)
  lower : min command.toInt target.toInt ≤ command'.toInt
  upper : command'.toInt ≤ max command.toInt target.toInt

theorem movesToward_of_toward {target command command' : Int16}
    (h : command'.toInt = Approach.toward 15 command.toInt target.toInt) :
    MovesToward target command command' := by
  obtain ⟨hlower, hupper⟩ := Approach.toward_between 15 command.toInt target.toInt
  refine ⟨?_, ?_, ?_⟩
  · rw [h]
    exact Approach.natAbs_toward_sub 15 command.toInt target.toInt
  · rw [h]
    exact hlower
  · rw [h]
    exact hupper

/-- What is true of a wheel's output and its pulse. -/
structure SafeOutput (speed : Int16) : Prop where
  magnitude : speed.toInt.natAbs ≤ 250
  noOverflow : speed.toInt.natAbs * pwmFullPulseNs.toNat < 2 ^ 32
  pulse : (pulseNs speed).toNat = speed.toInt.natAbs * pwmFullPulseNs.toNat / 250
  full : pulseNs speed ≤ pwmFullPulseNs
  period : pulseNs speed < pwmPeriodNs

theorem InRange.safeOutput {speed : Int16} (h : InRange speed) : SafeOutput speed := by
  obtain ⟨h1, h2, h3, h4⟩ := pulseNs_exact h
  exact ⟨inRange_natAbs.mp h, h1, h2, h3, h4⟩

/-- A wheel in a reachable state: its target, its command and its last output. -/
structure WheelRange (target command output : Int16) : Prop where
  targetRange : TargetRange target
  commandRange : command.toInt.natAbs ≤ 250
  outputOf : OutputOf command output

/-- The command reached its target, which is the old one or zero; at zero the output is zero. -/
structure Arrived (target target' command' output' : Int16) : Prop where
  kept : target' = target ∨ target' = 0
  reached : command' = target'
  silent : target = 0 → output' = 0

theorem arrived_of_gap {target target' command' output' : Int16}
    (htarget : target' = target ∨ target' = 0)
    (hgap : Approach.gap command'.toInt target'.toInt = 0) (hout : OutputOf command' output') :
    Arrived target target' command' output' := by
  have hcommand : command' = target' := Int16.toInt_inj.mp (Approach.gap_eq_zero.mp hgap)
  refine ⟨htarget, hcommand, ?_⟩
  intro h0
  rw [h0, or_self] at htarget
  rw [hout.zero, hcommand, htarget]

/-- **Ramp and output range.** In every state that the module's operations can reach, whatever their
arguments, ticks, encoder readings and PWM outcomes: every target is 0 or of magnitude 25..250, every
command and output of magnitude at most 250, and every output has the sign of its command, is 0 iff it
is and has its magnitude or that raised to 90; no pulse computation overflows, and every pulse is the
exact quotient, at most 900000 ns and below the period. An update that ends without a stop moves each
command by exactly `min 15 distance` toward its target; and after any calls that set no target and
leave no stop latched, with `n` updates among them, a command whose distance was at most `15 * n` has
arrived, and its output is 0 if its target was. -/
theorem ramp_and_output_range {m : Motion} (h : machine.Reach Machine.free m) :
    (WheelRange m.targetLeft m.commandLeft m.outputLeft ∧
      WheelRange m.targetRight m.commandRight m.outputRight) ∧
    (∀ out ∈ m.outputs, SafeOutput out.1 ∧ SafeOutput out.2) ∧
    (m.leftPwm.pulse ≤ pwmFullPulseNs ∧ m.rightPwm.pulse ≤ pwmFullPulseNs) ∧
    (∀ io, (m.call io .update).1.emergencyStop = false →
      MovesToward m.targetLeft m.commandLeft (m.call io .update).1.commandLeft ∧
        MovesToward m.targetRight m.commandRight (m.call io .update).1.commandRight) ∧
    (∀ calls, machine.Meets Coasts m calls →
      (m.gaps.1 ≤ 15 * calls.countP (fun c => c.1 = .update) →
        Arrived m.targetLeft (m.after calls).targetLeft (m.after calls).commandLeft
          (m.after calls).outputLeft) ∧
      (m.gaps.2 ≤ 15 * calls.countP (fun c => c.1 = .update) →
        Arrived m.targetRight (m.after calls).targetRight (m.after calls).commandRight
          (m.after calls).outputRight)) := by
  have hm := ranged_of_reach h
  have hw := wired_of_reach h
  refine ⟨⟨⟨hm.targetLeft, inRange_natAbs.mp hm.commandLeft, ?_⟩,
    ⟨hm.targetRight, inRange_natAbs.mp hm.commandRight, ?_⟩⟩, ?_, ⟨?_, ?_⟩, ?_, ?_⟩
  · rw [hw.outputLeft]
    exact hm.lastLeft
  · rw [hw.outputRight]
    exact hm.lastRight
  · intro out hout
    obtain ⟨hl, hr⟩ := hm.outputs out hout
    exact ⟨hl.safeOutput, hr.safeOutput⟩
  · rcases hw.left with h0 | ⟨out, hout, h0⟩
    · rw [h0]
      decide
    · rw [h0]
      exact (hm.outputs out hout).1.safeOutput.full
  · rcases hw.right with h0 | ⟨out, hout, h0⟩
    · rw [h0]
      decide
    · rw [h0]
      exact (hm.outputs out hout).2.safeOutput.full
  · intro io hs
    have hramps := update_ramps hm io hs
    exact ⟨movesToward_of_toward hramps.left, movesToward_of_toward hramps.right⟩
  · intro calls hok
    obtain ⟨hgapL, hgapR⟩ := ramp_run h hok
    obtain ⟨htL, htR⟩ := targets_run hok
    have hm' := ranged_of_reach (reach_calls h calls)
    have hw' := wired_of_reach (reach_calls h calls)
    constructor
    · intro hn
      apply arrived_of_gap htL
      · simp only [gaps] at hgapL hn
        omega
      · rw [hw'.outputLeft]
        exact hm'.lastLeft
    · intro hn
      apply arrived_of_gap htR
      · simp only [gaps] at hgapR hn
        omega
      · rw [hw'.outputRight]
        exact hm'.lastRight

/-- From 100 the left command is back at zero after seven updates, and the wheel is off. -/
theorem ramp_and_output_range_stop :
    let io : MotionIo := { leftCount := some 0, rightCount := some 0 }
    let m := (boot safePins).after
      ((.setTarget 100 100, io) :: List.replicate 7 (.update, io) ++ [(.setTarget 0 100, io)])
    m.commandLeft = 100 ∧ m.targetLeft = 0 ∧
      (m.after (List.replicate 7 (.update, io))).outputLeft = 0 := by
  intro io m
  have htarget : m.targetLeft = 0 := by decide +kernel
  have hok : machine.Meets Coasts m (List.replicate 7 (.update, io)) := by decide +kernel
  exact ⟨by decide +kernel, htarget,
    (((ramp_and_output_range (reach_after _ _)).2.2.2.2 _ hok).1 (by decide +kernel)).silent htarget⟩

end Hcics.Motion
