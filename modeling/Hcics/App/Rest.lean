import Hcics.App.Stop

/-!
# No mission, no wheel motion

A mission ends in `hcics_safe_stop_outputs`, whose last call asks for zero targets. The motion module
takes them over, or refuses them because a stop is latched; either way it is `AtRest`, and only a
motor command or a clear takes it out again. Commands come from the tracker, which runs inside a
mission only, and the clear from the start of one: `Resting` is what holds from then on.
-/

namespace Hcics

/-! ## The motion module -/

namespace Motion

variable {m m' : Motion}

/-- A stop is latched, or the wheels are at zero. -/
def AtRest (m : Motion) : Prop := m.emergencyStop = true ∨ Coasting m

/-- At most one output is made, of zero. -/
def OnlyZero (m m' : Motion) : Prop := m'.outputs = m.outputs ∨ m'.outputs = (0, 0) :: m.outputs

theorem call_atRest (hi : m.initialized = true) (hm : AtRest m) {io : MotionIo} {op : Op}
    (hq : Quiet m (op, io)) (hop : op ≠ .clearEmergencyStop) :
    AtRest (m.call io op).1 ∧ OnlyZero m (m.call io op).1 := by
  rcases hm with hs | hcoast
  · rcases call_cases hi io op with
      ⟨-, -, -, houts, -, -, -, -, hlatch⟩ | ⟨k, pwm, cb, he, -, -, -, houts, -, hlatch⟩ |
        ⟨k, pwm, cb, direct, left, right, -, -, -, -, -, hfree, -⟩
    · refine ⟨.inl ?_, .inl houts⟩
      rcases hlatch with hlatch | ⟨hclear, -⟩
      · exact hlatch.trans hs
      · exact absurd hclear hop
    · rw [he]
      refine ⟨.inl (output_emergencyStop _ _ _ _ (hlatch hs)), .inr ?_⟩
      rw [output_outputs, houts]
    · exact Bool.noConfusion (hs.symm.trans hfree)
  · obtain ⟨h, houts⟩ := call_coasting hcoast io hq
    exact ⟨.inr h, houts⟩

theorem update_outputs (hi : m.initialized = true) (io : MotionIo) :
    ∃ out, (m.call io .update).1.outputs = out :: m.outputs := by
  obtain ⟨k, left, right, he, hserved⟩ := serviceReady_cases m io false
  refine ⟨(left, right), ?_⟩
  show (m.service io false).1.outputs = _
  rw [service_of_initialized hi, he, output_outputs, hserved.outputs]

theorem update_atRest (hi : m.initialized = true) (hm : AtRest m) (io : MotionIo) :
    (m.call io .update).1.outputs = (0, 0) :: m.outputs := by
  have hq : Quiet m (.update, io) := by
    rintro ⟨-, -, left, right, hop, -⟩
    exact hop.elim nofun nofun
  obtain ⟨out, hout⟩ := update_outputs hi io
  rcases (call_atRest hi hm hq nofun).2 with h | h
  · rw [hout] at h
    exact absurd (congrArg List.length h) (Nat.succ_ne_self _)
  · exact h

/-- A direct target of zero brings the wheels to rest, or is refused because they are. -/
theorem setTargetDirect_atRest (hi : m.initialized = true) (io : MotionIo) :
    AtRest (m.call io (.setTargetDirect 0 0)).1 := by
  rcases call_cases hi io (.setTargetDirect 0 0) with
    ⟨-, -, -, houts, -⟩ | ⟨k, pwm, cb, he, hk, -, -, -, hhalt, -⟩ |
      ⟨k, pwm, cb, direct, left, right, he, hk, -, -, -, -, -, hkind, htl, htr, hcl, hcr, -⟩
  · by_cases hs : m.emergencyStop = true
    · refine .inl ?_
      simp [call, setTargetDirect, ensureInit_of_initialized hi, hs]
    · exfalso
      have hcall : m.call io (.setTargetDirect 0 0) =
          Motion.service { m with
            targetLeft := normalizeTarget 0, targetRight := normalizeTarget 0 } io true := by
        simp [call, setTargetDirect, ensureInit_of_initialized hi, hs]
      obtain ⟨k, left, right, he, hserved⟩ := serviceReady_cases
        { m with targetLeft := normalizeTarget 0, targetRight := normalizeTarget 0 } io true
      rw [hcall, service_of_initialized (by exact hi), he, output_outputs, hserved.outputs] at houts
      exact absurd (congrArg List.length houts) (Nat.succ_ne_self _)
  · rw [he]
    exact .inr (output_coasting _ _ _ _ (hhalt.coasting hk))
  · rcases hkind with rfl | hkind
    · have hleft : k.targetLeft = 0 := htl.trans normalizeTarget_zero
      have hright : k.targetRight = 0 := htr.trans normalizeTarget_zero
      rw [he]
      refine .inr (output_coasting _ _ _ _ (Halted.coasting ⟨hleft, hright, ?_, ?_⟩ hk))
      · exact hcl.trans hleft
      · exact hcr.trans hright
    · cases hkind

end Motion

namespace App

open Motion (AtRest OnlyZero)

variable {s s' : App} {io : AppIo} {msg : Msg} {i : Input}

/-! ## The mission -/

/-- A mission is on that may still move the wheels. -/
def moving (s : App) : Bool :=
  match s.link.mission, s.work with
  | .running _, .endState _ => false
  | .running _, _ => true
  | _, _ => false

/-- Where no mission moves the wheels, they are at rest. -/
def Resting (s : App) : Prop := s.moving = false → AtRest s.drive.motion

theorem moving_of_running (hm : s.link.mission = .running msg) (hw : ∀ done, s.work ≠ .endState done) :
    s.moving = true := by
  unfold moving
  rw [hm]
  split
  · rename_i hend
    exact absurd hend (hw _)
  · rfl
  · rename_i hno _
    exact (hno msg rfl).elim

theorem Inv.unmoved (h : Inv s) (hmove : s.moving = false) : s.track.running = false := by
  by_contra hr
  obtain ⟨⟨msg, hm⟩, hw⟩ := h.running (by simpa using hr)
  refine Bool.noConfusion (hmove.symm.trans (moving_of_running hm fun done he => ?_))
  rw [he] at hw
  exact hw.elim nofun nofun

/-- Nothing that moves the wheels happens. -/
structure Rests (s s' : App) : Prop where
  rest : AtRest s'.drive.motion
  outputs : OnlyZero s.drive.motion s'.drive.motion

theorem Rests.of_motion (hr : AtRest s.drive.motion) (he : s'.drive.motion = s.drive.motion) :
    Rests s s' :=
  ⟨he ▸ hr, .inl (by rw [he])⟩

theorem setMotor_rests {d : Drive} (hd : d.Ready) (hr : AtRest d.motion) (io : MotionIo)
    {command : Option (Int16 × Int16)} (hc : command = none ∨ command = some (0, 0)) :
    AtRest (d.setMotor io command).motion ∧ OnlyZero d.motion (d.setMotor io command).motion := by
  rcases hc with rfl | rfl
  · exact ⟨hr, .inl rfl⟩
  · have hcall := Motion.call_atRest hd.initialized hr
      (Drive.quiet_zero d.motion io (.inr rfl)) nofun
    unfold Drive.setMotor
    dsimp only
    split
    · exact hcall
    · exact hcall

theorem call_rests {d : Drive} (hd : d.Ready) (hr : AtRest d.motion) (io : MotionIo) (op : Motion.Op)
    (hset : ∀ left right, op ≠ .setTarget left right ∧ op ≠ .setTargetDirect left right)
    (hop : op ≠ .clearEmergencyStop) :
    AtRest (d.call io op).1.motion ∧ OnlyZero d.motion (d.call io op).1.motion :=
  Motion.call_atRest hd.initialized hr (Drive.quiet_other d.motion io hset) hop

/-! ## While no mission moves the wheels -/

theorem stepMission_rests (hmove : s.moving = false) (hr : AtRest s.drive.motion)
    (hstep : s.stepMission io = some s') : Rests s s' := by
  rcases stepMission_case hstep with ⟨msg, hm, hstep⟩ | ⟨-, l, state, work, trace, -, rfl⟩
  · have hend : ∃ done, s.work = .endState done := by
      by_contra hno
      exact Bool.noConfusion
        (hmove.symm.trans (moving_of_running hm fun done hw => hno ⟨done, hw⟩))
    obtain ⟨done, hw⟩ := hend
    simp only [stepWork, hw] at hstep
    exact .of_motion hr (Option.some.inj hstep ▸ rfl)
  · exact .of_motion hr rfl

theorem stepControl_rests (hinv : Inv s) (hmove : s.moving = false) (hr : AtRest s.drive.motion) :
    Rests s (s.stepControl io) := by
  unfold stepControl
  split
  · have hidle := Track.tick_idle (.inr (hinv.unmoved hmove)) (tickToMs io.now) io.line
    obtain ⟨h1, h2⟩ := setMotor_rests hinv.drive hr io.motion
      (.inl (congrArg Prod.snd hidle))
    exact ⟨h1, h2⟩
  · obtain ⟨h1, h2⟩ := call_rests hinv.drive hr io.motion .update (fun _ _ => by simp) (by decide)
    exact ⟨h1, h2⟩
  · exact .of_motion hr rfl

theorem stopPart_rests (hinv : Inv s) (hr : AtRest s.drive.motion) {pc : StopPc}
    (hstep : s.stopPart io pc = some s') : Rests s s' := by
  cases pc <;> simp only [stopPart] at hstep
  case abort => exact .of_motion hr (Option.some.inj hstep ▸ rfl)
  case track =>
    obtain rfl := Option.some.inj hstep
    obtain ⟨-, -, -, -, hcommand⟩ := stop_track hinv
    obtain ⟨h1, h2⟩ := setMotor_rests hinv.drive hr io.motion (.inr hcommand)
    exact ⟨h1, h2⟩
  case cleaner | cleanerOutputs =>
    obtain ⟨c, -, rfl⟩ := cleanerStep_some hstep
    exact .of_motion hr rfl
  case motion =>
    obtain rfl := Option.some.inj hstep
    obtain ⟨h1, h2⟩ := call_rests hinv.drive hr io.motion (.emergencyStop stopReason)
      (fun _ _ => by simp) (by decide)
    exact ⟨h1, h2⟩

theorem step_rests (hinv : Inv s) (hmove : s.moving = false) (hr : AtRest s.drive.motion)
    (hstep : s.step i = some s') : Rests s s' := by
  cases step_case hstep with
  | mission hstep => exact stepMission_rests hmove hr hstep
  | udp hstep =>
    obtain ⟨t, ht, -, rfl⟩ := stepUdp_case hstep
    rcases ht with rfl | ⟨pc, ht⟩
    · exact .of_motion hr rfl
    · obtain ⟨h1, h2⟩ := stopPart_rests hinv hr ht
      exact ⟨h1, h2⟩
  | control io => exact stepControl_rests hinv hmove hr
  | worker | stored | forwarded => exact .of_motion hr rfl
  | cleaner _ _ hstep =>
    obtain ⟨c, -, rfl⟩ := cleanerStep_some hstep
    exact .of_motion hr rfl

/-! ## Until the mission has stopped the wheels -/

theorem stepWork_moving (hm : s.link.mission = .running msg) (hz : ∀ done, s.work ≠ .endZero done)
    (he : ∀ done, s.work ≠ .endState done) (hstep : s.stepWork msg io = some s') :
    s'.moving = true := by
  have h := stepWork_step hstep
  have hlink : s'.link = s.link := by
    rcases h.link with hl | ⟨done, hw, -⟩
    · exact hl
    · exact absurd hw (he done)
  refine moving_of_running (hlink ▸ hm) ?_
  intro done hw
  rcases h.work done hw with hw | hw
  · exact hz done hw
  · exact he done hw

theorem stepMission_ends (hinv : Inv s) (hmove : s.moving = true)
    (hstep : s.stepMission io = some s') (hend : s'.moving = false) : AtRest s'.drive.motion := by
  have hrunning : ∃ msg, s.link.mission = .running msg := by
    cases hm : s.link.mission with
    | running msg => exact ⟨msg, rfl⟩
    | _ =>
      rw [moving, hm] at hmove
      cases hmove
  obtain ⟨msg, hm⟩ := hrunning
  rw [stepMission, hm] at hstep
  by_cases hz : ∃ done, s.work = .endZero done
  · obtain ⟨done, hw⟩ := hz
    simp only [stepWork, hw] at hstep
    obtain rfl := Option.some.inj hstep
    exact Motion.setTargetDirect_atRest hinv.drive.initialized io.motion
  · have he : ∀ done, s.work ≠ .endState done := by
      intro done hw
      rw [moving, hm, hw] at hmove
      cases hmove
    have hgoes : s'.moving = true := stepWork_moving hm (fun done hw => hz ⟨done, hw⟩) he hstep
    exact Bool.noConfusion (hend.symm.trans hgoes)

theorem step_place (hi : ∀ io, i ≠ .mission io) (hstep : s.step i = some s') :
    s'.link.mission = s.link.mission ∧ s'.work = s.work := by
  cases step_case hstep with
  | @mission io => exact absurd rfl (hi io)
  | udp hstep =>
    obtain ⟨t, ht, -, rfl⟩ := stepUdp_case hstep
    have hwork : t.work = s.work := by
      rcases ht with rfl | ⟨pc, ht⟩
      · rfl
      · exact (stopPart_frame ht).2.2
    exact ⟨Link.stepUdp_mission _ _, hwork⟩
  | control io =>
    unfold stepControl
    split <;> exact ⟨rfl, rfl⟩
  | worker | stored | forwarded => exact ⟨rfl, rfl⟩
  | cleaner _ _ hstep =>
    obtain ⟨c, -, rfl⟩ := cleanerStep_some hstep
    exact ⟨rfl, rfl⟩

theorem step_resting (hinv : Inv s) (h : Resting s) (hstep : s.step i = some s') : Resting s' := by
  intro hend
  by_cases hmove : s.moving = true
  · by_cases hi : ∃ io, i = .mission io
    · obtain ⟨io, rfl⟩ := hi
      exact stepMission_ends hinv hmove hstep hend
    · obtain ⟨hm, hw⟩ := step_place (fun io he => hi ⟨io, he⟩) hstep
      rw [moving, hm, hw] at hend
      exact Bool.noConfusion (hend.symm.trans hmove)
  · have hmove : s.moving = false := by simpa using hmove
    exact (step_rests hinv hmove (h hmove) hstep).rest

theorem resting_of_reach {ok : App → Input → Prop} (h : machine.Reach ok s) : Resting s := by
  refine h.inv ?_ fun s i t hr hs _ hstep => step_resting (inv_of_reach hr) hs hstep
  rintro _ ⟨pins, io, hinit, rfl⟩ -
  rw [show (Motion.boot pins).init io = (Motion.boot pins).ensureInit io from rfl] at hinit ⊢
  rcases Motion.ensureInit_cases (Motion.boot pins) io with
    ⟨hi, -⟩ | ⟨-, k, -, -, -, hhalt, ⟨-, r, hr, he⟩ | ⟨hk, -, -, -, he⟩⟩
  · cases hi
  · rw [he] at hinit
    exact absurd hinit hr
  · rw [he]
    exact .inr (Motion.output_coasting io.initPwm io.cbResult 0 0 (hhalt.coasting hk))

/-! ## No mission -/

def Vacant (s : App) (_ : Input) : Prop := s.link.busy = false

theorem unmoved_of_vacant (h : Link.Inv s.link) (hbusy : s.link.busy = false) : s.moving = false := by
  have hopen : s.link.openMissions = [] := by
    by_contra hne
    exact Bool.noConfusion (hbusy.symm.trans (h.busy.mpr hne))
  have hcurrent : s.link.mission.current = [] := by
    simp only [Link.openMissions, List.append_eq_nil_iff] at hopen
    exact hopen.1.1
  unfold moving
  cases hm : s.link.mission with
  | running msg =>
    rw [hm] at hcurrent
    cases hcurrent
  | _ => rfl

/-- **No mission, no wheel motion.** Whenever `busy` is clear the tracker is not running, every
control-thread iteration outputs zero to both wheels, in its update and nowhere else, and until the
next reservation has succeeded no thread outputs anything but zero. -/
theorem no_mission_no_motion {s : App} (h : machine.Reach Machine.free s)
    (hbusy : s.link.busy = false) :
    s.track.running = false ∧
    (∀ io s', s.step (.control io) = some s' → s'.drive.motion.outputs =
      if s.control = .update then (0, 0) :: s.drive.motion.outputs else s.drive.motion.outputs) ∧
    ∀ t, machine.Run Vacant s t →
      ∃ n, t.drive.motion.outputs = List.replicate n (0, 0) ++ s.drive.motion.outputs := by
  have hinv := inv_of_reach h
  have hmove := unmoved_of_vacant hinv.link hbusy
  have hrest := resting_of_reach h hmove
  refine ⟨hinv.unmoved hmove, ?_, ?_⟩
  · intro io s' hstep
    obtain rfl := Option.some.inj hstep
    unfold stepControl
    cases hc : s.control with
    | tick =>
      have hidle := Track.tick_idle (.inr (hinv.unmoved hmove)) (tickToMs io.now) io.line
      show (s.drive.setMotor io.motion (s.track.tick _ _).2).motion.outputs = _
      rw [hidle]
      rfl
    | update =>
      rw [if_pos rfl]
      exact Motion.update_atRest hinv.drive.initialized hrest io.motion
    | latch => rfl
  · intro t hrun
    refine hrun.inv (P := fun t => ∃ n, t.drive.motion.outputs =
      List.replicate n (0, 0) ++ s.drive.motion.outputs) ⟨0, rfl⟩ ?_
    intro t i t' hpre hn hvacant hstep
    obtain ⟨n, hn⟩ := hn
    have hreach := h.run (hpre.mono fun _ _ _ => trivial)
    have hinv := inv_of_reach hreach
    have hmove := unmoved_of_vacant hinv.link hvacant
    rcases (step_rests hinv hmove (resting_of_reach hreach hmove) hstep).outputs with ho | ho
    · exact ⟨n, ho.trans hn⟩
    · exact ⟨n + 1, by rw [ho, hn]; rfl⟩

/-- A PWM failure on the line, with both targets at 60, and the control thread learns of it. -/
def failedRun : List Input :=
  faultRun ++ nodeAt 1000 ++ missionAt 1000 12 ++ loopAt 1000 ++
    [.control { now := 1020, line := (60, 60) },
      .control { now := 1020, motion := { pwm := { leftSet := -RT_ERROR } } }, .control {}]

/-- The mission has ended on it and is released. -/
def abandoned : App :=
  (machine.exec boot (failedRun ++ missionAt 1040 12)).get (by decide +kernel)

/-- The mission's zero targets were refused, and still no wheel moves. -/
theorem abandoned_still :
    abandoned.drive.motion.targetLeft = 60 ∧ abandoned.track.running = false ∧
      ∀ io s', abandoned.step (.control io) = some s' → s'.drive.motion.outputs =
        if abandoned.control = .update then (0, 0) :: abandoned.drive.motion.outputs
        else abandoned.drive.motion.outputs := by
  have hreach : machine.Reach Machine.free abandoned := .get boot_start _
  obtain ⟨hrun, hcontrol, -⟩ := no_mission_no_motion hreach (by decide +kernel)
  exact ⟨by decide +kernel, hrun, hcontrol⟩

end App

end Hcics
