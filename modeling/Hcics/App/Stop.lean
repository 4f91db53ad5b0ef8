import Hcics.App.Missions
import Hcics.Motion.Clear

/-!
# What a safety stop cancels

`hcics_app_stop` sets `abort`, stops the track, the cleaner and the motion module, and returns. The
mission goes on until its next test of `abort`, so what a stop cancels depends on the tests the
mission has still before it. `Misses` is where none is left: in the parked delay's last chunk, and
before the mission's first section, which clears the flag. Everywhere else the stop holds.
-/

namespace Hcics

/-! ## Places of the mission -/

/-- A mission here clears `abort`, or starts the cleaner without another test of it. -/
def WorkPc.deaf : WorkPc → Bool
  | .begin | .startCleaner => true
  | .parked left => left == 0
  | _ => false

/-- A mission here starts a path without another test of `abort`. -/
def WorkPc.launching : WorkPc → Bool
  | .cameraRecent _ _ | .startPath _ => true
  | _ => false

/-- A mission here comes to the `hcics_track_stop` of its path if `abort` is set. -/
def WorkPc.ending : WorkPc → Bool
  | .follow _ _ | .stopPath => true
  | _ => false

/-! ## The motion module -/

namespace Drive

variable {d : Drive}

/-- Both targets are zero. -/
def Still (d : Drive) : Prop := d.motion.targetLeft = 0 ∧ d.motion.targetRight = 0

theorem Ready.still (h : Ready d) (hd : d.Still) (io : MotionIo) {op : Motion.Op}
    (hq : Motion.Quiet d.motion (op, io)) : (d.call io op).1.Still :=
  Motion.call_still h.initialized hd.1 hd.2 io hq

theorem quiet_zero (m : Motion) (io : MotionIo) {op : Motion.Op}
    (h : op = .setTargetDirect 0 0 ∨ op = .setTarget 0 0) : Motion.Quiet m (op, io) := by
  rintro ⟨-, -, left, right, hop, hne⟩
  rcases h with rfl | rfl
  · rcases hop with hop | hop
    · cases hop
    · cases hop
      exact hne.elim (· rfl) (· rfl)
  · rcases hop with hop | hop
    · cases hop
      exact hne.elim (· rfl) (· rfl)
    · cases hop

theorem quiet_other (m : Motion) (io : MotionIo) {op : Motion.Op}
    (h : ∀ left right, op ≠ .setTarget left right ∧ op ≠ .setTargetDirect left right) :
    Motion.Quiet m (op, io) := by
  rintro ⟨-, -, left, right, hop, -⟩
  exact hop.elim (h left right).1 (h left right).2

theorem Ready.zeroTargets_still (h : Ready d) (hd : d.Still) (io : MotionIo) :
    (d.zeroTargets io).Still := h.still hd io (quiet_zero _ _ (.inl rfl))

theorem Ready.setMotor_still (h : Ready d) (hd : d.Still) (io : MotionIo)
    {command : Option (Int16 × Int16)}
    (hc : d.motion.emergencyStop = true ∨ command = none ∨ command = some (0, 0)) :
    (d.setMotor io command).Still := by
  rcases hc with hs | rfl | rfl
  · cases command with
    | none => exact hd
    | some command =>
      rw [h.setMotor_stopped hs]
      exact hd
  · exact hd
  · have hcall := h.still hd io (quiet_zero _ io (.inr rfl))
    unfold Drive.setMotor
    dsimp only
    split
    · exact hcall
    · exact hcall

theorem Ready.setMotor_stays (h : Ready d) (hs : d.motion.emergencyStop = true) (io : MotionIo)
    (command : Option (Int16 × Int16)) : (d.setMotor io command).motion.emergencyStop = true := by
  cases command with
  | none => exact hs
  | some command =>
    rw [h.setMotor_stopped hs]
    exact hs

theorem setMotor_abort (ha : d.abort = true) (io : MotionIo) (command : Option (Int16 × Int16)) :
    (d.setMotor io command).abort = true := by
  unfold Drive.setMotor
  split
  · exact ha
  · dsimp only
    split
    · rfl
    · exact ha

theorem Ready.emergencyStop (h : Ready d) (io : MotionIo) (reason : UInt8) :
    (d.call io (.emergencyStop reason)).1.Still ∧
      (d.call io (.emergencyStop reason)).1.motion.emergencyStop = true := by
  have hinit := Motion.ensureInit_of_initialized h.initialized io
  simp only [Still, Drive.call, Motion.call, Motion.doEmergencyStop, hinit, ne_eq, not_true_eq_false,
    if_false]
  obtain ⟨hl, hr, -⟩ := Motion.output_keeps_commands
    { d.motion.latchStopped reason with stuckStartMs := 0, boostUntilMs := 0 } io.pwm io.cbResult 0 0
  exact ⟨⟨hl, hr⟩, Motion.output_emergencyStop _ _ _ _ rfl⟩

end Drive

namespace App

variable {s s' : App} {io : AppIo} {msg : Msg}

/-! ## A step after the stop -/

/-- What a step can do once `abort` is set and the mission is not deaf: no cleaner run starts, and
the only path that starts is one the mission was about to start. -/
structure Subsides (s s' : App) : Prop where
  abort : s'.drive.abort = true
  starts : s'.cleaner.cleaner.starts = s.cleaner.cleaner.starts
  mission : ∀ msg, s'.link.mission = .running msg → s.link.mission = .running msg ∧
    (s'.work.deaf = true → s.work.deaf = true) ∧ (s'.work.launching = true → s.work.launching = true)
  path : s'.track.running = true → s.work.launching = true ∧ s'.work.ending = true ∨
    s.track.running = true ∧ (s.work.ending = true → s'.work.ending = true)
  still : s.drive.Still → (s.track.running = true → s.drive.motion.emergencyStop = true) →
    s'.drive.Still
  latch : s.drive.motion.emergencyStop = true → s'.drive.motion.emergencyStop = true ∨
    s.work = .clearStop

/-- A step of the mission that leaves the track alone and goes on where `abort` is heeded. -/
theorem Subsides.move {state : AppState} {d : Drive} {c : CleanerSys} {pc : WorkPc}
    {trace : List Event} (ha : d.abort = true)
    (hc : c.cleaner.starts = s.cleaner.cleaner.starts) (hstill : s.drive.Still → d.Still)
    (hlatch : s.drive.motion.emergencyStop = true → d.motion.emergencyStop = true ∨
      s.work = .clearStop)
    (hdeaf : pc.deaf = false) (hlaunch : pc.launching = true → s.work.launching = true)
    (hend : s.work.ending = true → pc.ending = true) :
    Subsides s { s with state := state, drive := d, cleaner := c, work := pc, trace := trace } where
  abort := ha
  starts := hc
  mission _ hm := ⟨hm, fun hd => Bool.noConfusion (hdeaf.symm.trans hd), hlaunch⟩
  path hr := .inr ⟨hr, hend⟩
  still hd _ := hstill hd
  latch := hlatch

theorem Subsides.goto (ha : s.drive.abort = true) {pc : WorkPc} (hdeaf : pc.deaf = false)
    (hlaunch : pc.launching = true → s.work.launching = true)
    (hend : s.work.ending = true → pc.ending = true) : Subsides s (s.goto pc) :=
  .move ha rfl id .inl hdeaf hlaunch hend

theorem Subsides.refl (ha : s.drive.abort = true) : Subsides s s :=
  ⟨ha, rfl, fun _ hm => ⟨hm, id, id⟩, fun hr => .inr ⟨hr, id⟩, fun hd _ => hd, .inl⟩

theorem Subsides.trackStop (h : Inv s) (ha : s.drive.abort = true) (io : AppIo) {pc : WorkPc}
    (hdeaf : pc.deaf = false) (hlaunch : pc.launching = false) :
    Subsides s ((s.trackStop io).goto pc) := by
  obtain ⟨-, -, hr, -, hcommand⟩ := stop_track h
  refine ⟨Drive.setMotor_abort ha _ _, rfl, fun _ hm => ⟨hm, ?_, ?_⟩, fun hrun => ?_, fun hd _ => ?_,
    fun hs => .inl (h.drive.setMotor_stays hs _ _)⟩
  · intro hd
    exact Bool.noConfusion (hdeaf.symm.trans hd)
  · intro hl
    exact Bool.noConfusion (hlaunch.symm.trans hl)
  · exact Bool.noConfusion (hr.symm.trans hrun)
  · exact h.drive.setMotor_still hd _ (.inr (.inr hcommand))

theorem Subsides.zeroTargets (h : Inv s) (ha : s.drive.abort = true) (io : AppIo)
    {state : AppState} {pc : WorkPc} (hdeaf : pc.deaf = false)
    (hlaunch : pc.launching = true → s.work.launching = true)
    (hend : s.work.ending = true → pc.ending = true) :
    Subsides s ({ s.zeroTargets io with state := state }.goto pc) :=
  .move (d := s.drive.zeroTargets io.motion) ha rfl (fun hd => h.drive.zeroTargets_still hd _)
    (fun hs => .inl (h.drive.stays hs _ nofun)) hdeaf hlaunch hend

theorem Subsides.clean (ha : s.drive.abort = true) {c : CleanerSys} {i : CleanerSys.Input}
    (hworker : ∀ io, i ≠ .worker io) (hstart : ∀ maxCycles, i ≠ .start maxCycles)
    (hc : s.cleaner.step i = some c) {pc : WorkPc} (hdeaf : pc.deaf = false)
    (hlaunch : pc.launching = true → s.work.launching = true)
    (hend : s.work.ending = true → pc.ending = true) :
    Subsides s { s with cleaner := c, work := pc } :=
  .move ha (CleanerSys.step_history hworker hstart hc).1 id .inl hdeaf hlaunch hend

theorem Subsides.cleanerReset (ha : s.drive.abort = true) {next : ResetPart → WorkPc}
    {after : WorkPc} {part : ResetPart} (hend : s.work.ending = false)
    (hnext : ∀ part, (next part).deaf = false ∧ (next part).launching = false)
    (hafter : after.deaf = false ∧ after.launching = false)
    (hstep : s.cleanerReset io next after part = some s') : Subsides s s' := by
  rcases cleanerReset_case hstep with rfl | ⟨i, c, pc, hi, hc, hpc, rfl⟩
  · exact .refl ha
  have hpc : pc.deaf = false ∧ pc.launching = false := by
    rcases hpc with rfl | rfl | rfl
    · exact hnext _
    · exact hnext _
    · exact hafter
  refine .clean ha (i := i) ?_ ?_ hc hpc.1 (fun hl => ?_) fun he => ?_
  · rcases hi with rfl | rfl | rfl | ⟨rfl, -⟩ <;> simp
  · rcases hi with rfl | rfl | rfl | ⟨rfl, -⟩ <;> simp
  · exact Bool.noConfusion (hpc.2.symm.trans hl)
  · exact Bool.noConfusion (hend.symm.trans he)

theorem Subsides.startPath (h : Inv s) (ha : s.drive.abort = true) {phase : Phase}
    (hw : s.work = .startPath phase) (target : UInt8) (nowMs startMs : UInt32) :
    Subsides s ({ s with track := (s.track.startPath target nowMs).1 }.goto
      (if (s.track.startPath target nowMs).2 ≠ RT_EOK then .endStop false
        else .follow phase startMs)) := by
  by_cases hres : (s.track.startPath target nowMs).2 = RT_EOK
  · rw [if_neg (not_not.mpr hres)]
    exact ⟨ha, rfl, fun _ hm => ⟨hm, fun hd => Bool.noConfusion hd, fun hl => Bool.noConfusion hl⟩,
      fun _ => .inl ⟨hw ▸ rfl, rfl⟩, fun hd _ => hd, .inl⟩
  · rw [if_pos hres]
    refine ⟨ha, rfl, fun _ hm => ⟨hm, fun hd => Bool.noConfusion hd, fun hl => Bool.noConfusion hl⟩,
      fun hr => ?_, fun hd _ => hd, .inl⟩
    have hstopped := h.stopped (by rw [hw]; rfl) (by rw [hw]; nofun)
    rcases Track.startPath_err hres with he | ⟨p, he⟩
    · rw [App.goto, he, hstopped] at hr
      cases hr
    · rw [App.goto, he] at hr
      exact Bool.noConfusion (hstopped.symm.trans hr)

theorem Subsides.followWait (ha : s.drive.abort = true) (phase : Phase) (startMs nowMs : UInt32) :
    Subsides s (s.followWait phase startMs nowMs) := by
  unfold App.followWait
  split
  · exact .goto ha rfl nofun fun _ => rfl
  · exact .goto ha rfl nofun fun _ => rfl

theorem stepWork_subsides (h : Inv s) (ha : s.drive.abort = true) (hdeaf : s.work.deaf = false)
    (hm : s.link.mission = .running msg) (hstep : s.stepWork msg io = some s') : Subsides s s' := by
  unfold stepWork at hstep
  cases hw : s.work <;> simp only [hw] at hstep <;> rw [hw] at hdeaf
  case begin | startCleaner => cases hdeaf
  case startPath phase =>
    have hstart := Subsides.startPath h ha hw (target msg phase) (tickToMs io.now) (tickToMs io.now)
    split at hstep
    · rename_i hres
      rw [if_pos hres] at hstart
      exact Option.some.inj hstep ▸ hstart
    · rename_i hres
      rw [if_neg hres] at hstart
      exact Option.some.inj hstep ▸ hstart
  case follow phase startMs =>
    rw [if_pos ha] at hstep
    obtain rfl := Option.some.inj hstep
    exact .goto ha rfl nofun fun _ => rfl
  case stopPath | endStop =>
    obtain rfl := Option.some.inj hstep
    exact .trackStop h ha io rfl rfl
  all_goals
    have hend : s.work.ending = false := by rw [hw]; rfl
    have hleave : ∀ pc : WorkPc, s.work.ending = true → pc.ending = true :=
      fun _ he => Bool.noConfusion (hend.symm.trans he)
  case clearStop =>
    obtain rfl := Option.some.inj hstep
    refine .move ha rfl (fun hd => ?_) (fun _ => .inr hw) rfl nofun (hleave _)
    have hcall : (s.drive.call io.motion .clearEmergencyStop).1.Still :=
      h.drive.still hd _ (Drive.quiet_other _ _ fun _ _ => ⟨nofun, nofun⟩)
    exact hcall
  case resetMotion =>
    obtain rfl := Option.some.inj hstep
    refine .move ha rfl (fun hd => ?_) (fun hs => .inl (h.drive.stays hs _ nofun)) rfl nofun (hleave _)
    exact h.drive.still hd _ (Drive.quiet_other _ _ fun _ _ => ⟨nofun, nofun⟩)
  case snapshot | navigate =>
    split at hstep <;> obtain rfl := Option.some.inj hstep
    · exact .move ha rfl id .inl rfl nofun (hleave _)
    · exact .move ha rfl id .inl rfl nofun (hleave _)
  case reset | endReset =>
    exact .cleanerReset ha hend (fun _ => ⟨rfl, rfl⟩) ⟨rfl, rfl⟩ hstep
  case waitCamera | clean =>
    rw [if_pos ha] at hstep
    obtain rfl := Option.some.inj hstep
    exact .goto ha rfl nofun (hleave _)
  case cameraRecent phase startMs =>
    obtain rfl := Option.some.inj hstep
    have hlaunch : s.work.launching = true := hw ▸ rfl
    split
    · exact .goto ha rfl (fun _ => hlaunch) (hleave _)
    · split
      · exact .goto ha rfl (fun _ => hlaunch) (hleave _)
      · exact .goto ha rfl (fun _ => hlaunch) (hleave _)
  case faultTest | finishedTest =>
    obtain rfl := Option.some.inj hstep
    split
    · exact .goto ha rfl nofun (hleave _)
    · exact .goto ha rfl nofun (hleave _)
  case status =>
    obtain rfl := Option.some.inj hstep
    split
    · exact .goto ha rfl nofun (hleave _)
    · exact .followWait ha _ _ _
  case cameraLost =>
    obtain rfl := Option.some.inj hstep
    split
    · exact .followWait ha _ _ _
    · exact .goto ha rfl nofun (hleave _)
  case zeroFailed | endZero =>
    obtain rfl := Option.some.inj hstep
    exact .zeroTargets h ha io rfl nofun (hleave _)
  case zeroFinished phase =>
    cases phase <;> obtain rfl := Option.some.inj hstep
    · exact .zeroTargets h ha io rfl nofun (hleave _)
    · exact .zeroTargets h ha io rfl nofun (hleave _)
  case parked left =>
    have hleft : left ≠ 0 := by simpa [WorkPc.deaf] using hdeaf
    rw [if_neg hleft, if_pos ha] at hstep
    obtain rfl := Option.some.inj hstep
    exact .goto ha rfl nofun (hleave _)
  case cleanStatus startMs =>
    split at hstep <;> obtain rfl := Option.some.inj hstep
    · split <;> exact .goto ha rfl nofun (hleave _)
    · exact .goto ha rfl nofun (hleave _)
    · exact .goto ha rfl nofun (hleave _)
    · split <;> exact .goto ha rfl nofun (hleave _)
  case stopCleaner | stopCleanerOutputs =>
    obtain ⟨t, ht, rfl⟩ := Option.map_eq_some_iff.mp hstep
    obtain ⟨c, hc, rfl⟩ := cleanerStep_some ht
    exact .clean ha (by simp) (by simp) hc rfl nofun (hleave _)
  case setReturn =>
    obtain rfl := Option.some.inj hstep
    exact .move ha rfl id .inl rfl nofun (hleave _)
  case endState done =>
    obtain rfl := Option.some.inj hstep
    refine ⟨ha, rfl, fun _ hm' => ?_, fun hr => .inr ⟨hr, hleave _⟩, fun hd _ => hd, .inl⟩
    simp [Link.finish, hm] at hm'

theorem Subsides.other (ha : s'.drive.abort = true)
    (hstarts : s'.cleaner.cleaner.starts = s.cleaner.cleaner.starts)
    (hm : s'.link.mission = s.link.mission) (hw : s'.work = s.work)
    (hr : s'.track.running = true → s.track.running = true)
    (hstill : s.drive.Still → (s.track.running = true → s.drive.motion.emergencyStop = true) →
      s'.drive.Still)
    (hlatch : s.drive.motion.emergencyStop = true → s'.drive.motion.emergencyStop = true) :
    Subsides s s' where
  abort := ha
  starts := hstarts
  mission _ hm' := ⟨hm ▸ hm', fun hd => hw ▸ hd, fun hl => hw ▸ hl⟩
  path hr' := .inr ⟨hr hr', fun he => hw ▸ he⟩
  still := hstill
  latch hs := .inl (hlatch hs)

theorem Subsides.cleanerStep (ha : s.drive.abort = true) {i : CleanerSys.Input}
    (hworker : ∀ io, i ≠ .worker io) (hstart : ∀ maxCycles, i ≠ .start maxCycles)
    (hstep : s.cleanerStep i = some s') : Subsides s s' := by
  obtain ⟨c, hc, rfl⟩ := cleanerStep_some hstep
  exact .other ha (CleanerSys.step_history hworker hstart hc).1 rfl rfl id (fun hd _ => hd) id

theorem stepControl_subsides (h : Inv s) (ha : s.drive.abort = true) (io : AppIo) :
    Subsides s (s.stepControl io) := by
  unfold stepControl
  split
  · obtain ⟨-, -, -, hr⟩ := tick_frame (t := s.track) (tickToMs io.now) io.line
    refine .other (Drive.setMotor_abort ha _ _) rfl rfl rfl hr (fun hd hlatched => ?_)
      fun hs => h.drive.setMotor_stays hs _ _
    -- the tracker gives no command while no path runs
    have hcommand : s.drive.motion.emergencyStop = true ∨
        (s.track.tick (tickToMs io.now) io.line).2 = none ∨
        (s.track.tick (tickToMs io.now) io.line).2 = some (0, 0) := by
      by_cases hrun : s.track.running = true
      · exact .inl (hlatched hrun)
      · rw [Track.tick_idle (.inr (by simpa using hrun))]
        exact .inr (.inl rfl)
    exact h.drive.setMotor_still hd io.motion hcommand
  · have hquiet : Motion.Quiet s.drive.motion (.update, io.motion) :=
      Drive.quiet_other _ _ fun _ _ => ⟨nofun, nofun⟩
    have hstays : s.drive.motion.emergencyStop = true →
        (s.drive.call io.motion .update).1.motion.emergencyStop = true :=
      fun hs => h.drive.stays hs _ nofun
    exact .other ha rfl rfl rfl id (fun hd _ => h.drive.still hd _ hquiet) hstays
  · exact .other rfl rfl rfl rfl id (fun hd _ => hd) id

theorem stopPart_subsides (h : Inv s) (ha : s.drive.abort = true) {pc : StopPc}
    (hstep : s.stopPart io pc = some s') : Subsides s s' := by
  cases pc <;> simp only [stopPart] at hstep
  case abort =>
    obtain rfl := Option.some.inj hstep
    exact .other rfl rfl rfl rfl id (fun hd _ => hd) id
  case track =>
    obtain rfl := Option.some.inj hstep
    obtain ⟨-, -, hr, -, hcommand⟩ := stop_track h
    refine .other (Drive.setMotor_abort ha _ _) rfl rfl rfl (fun hr' => ?_) (fun hd _ => ?_)
      fun hs => h.drive.setMotor_stays hs _ _
    · exact Bool.noConfusion (hr.symm.trans hr')
    · exact h.drive.setMotor_still hd _ (.inr (.inr hcommand))
  case cleaner | cleanerOutputs => exact .cleanerStep ha (by simp) (by simp) hstep
  case motion =>
    obtain rfl := Option.some.inj hstep
    obtain ⟨hstill, hlatch⟩ := h.drive.emergencyStop io.motion stopReason
    exact .other ha rfl rfl rfl id (fun _ _ => hstill) fun _ => hlatch

theorem stepUdp_subsides (h : Inv s) (ha : s.drive.abort = true) (hstep : s.stepUdp io = some s') :
    Subsides s s' := by
  obtain ⟨t, ht, hl, rfl⟩ := stepUdp_case hstep
  have hsub : Subsides s t := by
    rcases ht with rfl | ⟨pc, ht⟩
    · exact .refl ha
    · exact stopPart_subsides h ha ht
  refine ⟨hsub.abort, hsub.starts, fun msg hm => ?_, hsub.path, hsub.still, hsub.latch⟩
  have hm : (s.link.stepUdp io.net).mission = .running msg := hm
  rw [Link.stepUdp_mission, ← hl] at hm
  exact hsub.mission msg hm

end App

/-! ## The faults accepted after the stop -/

/-- The queued faults were accepted after the first `n`. -/
def Link.QueuedAfter (n : Nat) (l : Link) : Prop := n + l.mq.length ≤ l.accepted.length

instance (n : Nat) (l : Link) : Decidable (l.QueuedAfter n) := inferInstanceAs (Decidable (_ ≤ _))

theorem Link.step_queuedAfter {n : Nat} {l l' : Link} {i : Link.Input} (h : l.QueuedAfter n)
    (hinv : l.Inv) (hstep : l.step i = some l') : l'.QueuedAfter n := by
  unfold QueuedAfter at h ⊢
  cases i with
  | udp io =>
    cases udp_case hstep with
    | accept sock msg =>
      simp only [List.length_append, List.length_singleton]
      omega
    | clear sock next report =>
      unfold clearPendingIfCurrent
      split <;> exact h
    | _ => exact h
  | finish done =>
    obtain ⟨msg, -, rfl⟩ := finish_case hstep
    exact h
  | mission io =>
    cases stepMission_case hstep with
    | take msg rest pc mq =>
      rw [mq, List.length_cons] at h
      exact Nat.le_of_succ_le h
    | store msg done pc =>
      rw [(hinv.storePending pc _).2]
      exact h
    | _ => exact h

namespace App

variable {n : Nat} {p : Prop} {s s' : App} {io : AppIo}

/-- The mission thread takes a fault that was accepted after the first `n`. -/
def BeginsAfter (n : Nat) (s : App) : Input → Prop
  | .mission _ => s.link.mission = .recv ∧ s.link.QueuedAfter n
  | _ => False

instance (n : Nat) (s : App) : ∀ i, Decidable (BeginsAfter n s i)
  | .mission _ => inferInstanceAs (Decidable (_ ∧ _))
  | .udp _ | .control _ | .worker _ | .trackCamera _ | .trackForward | .cleanCamera _ _ | .guard _ _
  | .guardOutputs _ => inferInstanceAs (Decidable False)

/-- Not yet. -/
def Until (n : Nat) (s : App) (i : Input) : Prop := ¬ BeginsAfter n s i

instance (n : Nat) (s : App) (i : Input) : Decidable (Until n s i) := inferInstanceAs (Decidable (¬ _))

/-- `abort` is set and will be heeded. `p` says that no path was about to start. -/
structure Aborted (n : Nat) (p : Prop) (s : App) : Prop where
  abort : s.drive.abort = true
  queued : s.link.QueuedAfter n
  heeded : ∀ msg, s.link.mission = .running msg → s.work.deaf = false
  grounded : p → ∀ msg, s.link.mission = .running msg → s.work.launching = false

/-- No path runs but one that the mission is about to stop. -/
def Ended (p : Prop) (s : App) : Prop := s.track.running = true → ¬ p ∧ s.work.ending = true

/-- Both targets are zero, and the motion module is latched wherever a path could ask for more. -/
structure Silenced (s : App) : Prop where
  still : s.drive.Still
  latched : s.track.running = true → s.drive.motion.emergencyStop = true
  aimed : ∀ msg, s.link.mission = .running msg → s.work.launching = true →
    s.drive.motion.emergencyStop = true

theorem stepMission_subsides (h : Inv s) (ha : Aborted n p s) (hok : Until n s (.mission io))
    (hstep : s.stepMission io = some s') : Subsides s s' := by
  unfold stepMission at hstep
  cases hm : s.link.mission <;> simp only [hm] at hstep
  case running msg => exact stepWork_subsides h ha.abort (ha.heeded msg hm) hm hstep
  case recv => exact absurd ⟨hm, ha.queued⟩ hok
  all_goals
    obtain ⟨l, hl, rfl⟩ := Option.map_eq_some_iff.mp hstep
    refine ⟨ha.abort, rfl, fun msg hm' => ?_, fun hr => .inr ⟨hr, id⟩, fun hd _ => hd, .inl⟩
    exfalso
    have hm' : l.mission = .running msg := hm'
    simp only [Link.stepMission, hm] at hl
  case reportSend msg done dst =>
    split at hl <;> obtain rfl := Option.some.inj hl
    · cases hm'
    · cases hm'
  case reportStore msg done =>
    obtain rfl := Option.some.inj hl
    cases hm'
  case report | release =>
    obtain rfl := Option.some.inj hl
    cases hm'

theorem step_subsides {i : Input} (h : Inv s) (ha : Aborted n p s) (hok : Until n s i)
    (hstep : s.step i = some s') : Subsides s s' := by
  cases step_case hstep with
  | mission hstep => exact stepMission_subsides h ha hok hstep
  | udp hstep => exact stepUdp_subsides h ha.abort hstep
  | control io => exact stepControl_subsides h ha.abort io
  | worker hc =>
    obtain ⟨k, hk, rfl⟩ := Option.map_eq_some_iff.mp hc
    obtain ⟨hstarts, -, -⟩ := CleanerSys.worker_history h.cleaner.run hk
    exact .other ha.abort hstarts rfl rfl id (fun hd _ => hd) id
  | stored frame => exact .other ha.abort rfl rfl rfl id (fun hd _ => hd) id
  | forwarded frame =>
    rw [Track.updateCamera_eq]
    exact .other ha.abort rfl rfl rfl id (fun hd _ => hd) id
  | cleaner hworker hstart hstep => exact .cleanerStep ha.abort hworker hstart hstep

/-! ## What a step keeps -/

theorem Subsides.aborted {i : Input} (hs : Subsides s s') (h : Inv s) (ha : Aborted n p s)
    (hstep : s.step i = some s') : Aborted n p s' where
  abort := hs.abort
  queued := by
    rcases step_link hstep with hl | ⟨j, hj⟩
    · rw [hl]
      exact ha.queued
    · exact Link.step_queuedAfter ha.queued h.link hj
  heeded msg hm' := by
    obtain ⟨hm, hdeaf, -⟩ := hs.mission msg hm'
    by_contra hd
    exact Bool.noConfusion ((ha.heeded msg hm).symm.trans (hdeaf (by simpa using hd)))
  grounded hp msg hm' := by
    obtain ⟨hm, -, hlaunch⟩ := hs.mission msg hm'
    by_contra hl
    exact Bool.noConfusion ((ha.grounded hp msg hm).symm.trans (hlaunch (by simpa using hl)))

theorem Subsides.ended {i : Input} (hs : Subsides s s') (h : Inv s) (ha : Aborted n p s)
    (he : Ended p s) (hstep : s.step i = some s') : Ended p s' := by
  intro hr'
  obtain ⟨⟨msg, hm'⟩, -⟩ := (step_inv h hstep).running hr'
  obtain ⟨hm, -, -⟩ := hs.mission msg hm'
  rcases hs.path hr' with ⟨hlaunch, hend⟩ | ⟨hr, hend⟩
  · exact ⟨fun hp => Bool.noConfusion ((ha.grounded hp msg hm).symm.trans hlaunch), hend⟩
  · exact ⟨(he hr).1, hend (he hr).2⟩

theorem Subsides.silenced {i : Input} (hs : Subsides s s') (h : Inv s) (he : Ended p s)
    (hsil : Silenced s) (hstep : s.step i = some s') : Silenced s' := by
  -- the stop is taken back at a place from which no path is started
  have hstays : s.work ≠ .clearStop → s.drive.motion.emergencyStop = true →
      s'.drive.motion.emergencyStop = true := fun hw hl => (hs.latch hl).resolve_right hw
  have hlaunching : s.work.launching = true → s.work ≠ .clearStop := by
    intro hl hw
    rw [hw] at hl
    cases hl
  refine ⟨hs.still hsil.still hsil.latched, fun hr' => ?_, fun msg hm' hl' => ?_⟩
  · obtain ⟨⟨msg, hm'⟩, -⟩ := (step_inv h hstep).running hr'
    obtain ⟨hm, -, -⟩ := hs.mission msg hm'
    rcases hs.path hr' with ⟨hlaunch, -⟩ | ⟨hr, -⟩
    · exact hstays (hlaunching hlaunch) (hsil.aimed msg hm hlaunch)
    · refine hstays (fun hw => ?_) (hsil.latched hr)
      have hend := (he hr).2
      rw [hw] at hend
      cases hend
  · obtain ⟨hm, -, hlaunch⟩ := hs.mission msg hm'
    exact hstays (hlaunching (hlaunch hl')) (hsil.aimed msg hm (hlaunch hl'))

end App

/-! ## The call -/

/-- `hcics_app_stop` is past its `hcics_track_stop`. -/
def UdpPc.pastTrack : UdpPc → Bool
  | .stop _ .cleaner | .stop _ .cleanerOutputs | .stop _ .motion => true
  | _ => false

theorem Link.stepUdp_pastTrack {l : Link} {io : NetIo} (h : (l.stepUdp io).udp.pastTrack = true) :
    l.udp.pastTrack = true ∨ ∃ sock, l.udp = .stop sock .track := by
  have hafter : ∀ sock next, (afterFlush sock next).pastTrack = false := by
    intro sock next
    cases next <;> rfl
  have hreceived : ∀ sock d, (received sock d).pastTrack = false := by
    intro sock d
    cases d <;> rfl
  cases hu : l.udp with
  | stop sock pc =>
    cases pc with
    | track => exact .inr ⟨sock, rfl⟩
    | cleaner | cleanerOutputs | motion => exact .inl rfl
    | abort =>
      rw [stepUdp, hu] at h
      cases h
  | _ =>
    exfalso
    revert h
    simp only [stepUdp, hu, flushPending, reserveMission, mqSend, clearPendingIfCurrent]
    (try split) <;> (try split) <;> (try split) <;> first
      | exact fun h => Bool.noConfusion h
      | exact fun h => Bool.noConfusion ((hafter _ _).symm.trans h)
      | exact fun h => Bool.noConfusion ((hreceived _ _).symm.trans h)

namespace App

variable {n : Nat} {p : Prop} {s s' s₀ sr : App} {io : AppIo}

theorem step_udp {i : Input} (hi : ∀ io, i ≠ .udp io) (hstep : s.step i = some s') :
    s'.link.udp = s.link.udp := by
  cases step_case hstep with
  | @udp io => exact absurd rfl (hi io)
  | mission hstep =>
    rcases stepMission_case hstep with ⟨msg, hm, hstep⟩ | ⟨hm, l, state, work, trace, hl, rfl⟩
    · rcases stepWork_link hstep with hl | ⟨done, hl⟩
      · rw [hl]
      · rw [hl]
        simp [Link.finish, hm]
    · exact (Link.stepMission_frame hl).1
  | control io =>
    unfold stepControl
    split <;> rfl
  | worker | stored | forwarded => rfl
  | cleaner _ _ hstep =>
    obtain ⟨c, -, rfl⟩ := cleanerStep_some hstep
    rfl

/-- What holds while the call is under way. -/
structure Stopping (n : Nat) (p : Prop) (s : App) : Prop where
  inv : Inv s
  aborted : Aborted n p s
  ended : s.link.udp.pastTrack = true → Ended p s

theorem step_stopping {i : Input} (h : Stopping n p s) (hok : Until n s i)
    (hstep : s.step i = some s') : Stopping n p s' := by
  have hsub := step_subsides h.inv h.aborted hok hstep
  refine ⟨step_inv h.inv hstep, hsub.aborted h.inv h.aborted hstep, fun hpast => ?_⟩
  by_cases hi : ∃ io, i = .udp io
  · obtain ⟨io, rfl⟩ := hi
    have hlink : s'.link = s.link.stepUdp io.net := by
      obtain ⟨t, -, -, rfl⟩ := stepUdp_case hstep
      rfl
    rw [hlink] at hpast
    rcases Link.stepUdp_pastTrack hpast with hpast | ⟨sock, hudp⟩
    · exact hsub.ended h.inv h.aborted (h.ended hpast) hstep
    · intro hr
      obtain rfl : { s.trackStop io with link := s.link.stepUdp io.net } = s' := by
        simpa [step, stepUdp, hudp, stopPart, App.trackStop] using hstep
      exact Bool.noConfusion ((stop_track h.inv).2.2.1.symm.trans hr)
  · rw [step_udp (fun io hio => hi ⟨io, hio⟩) hstep] at hpast
    exact hsub.ended h.inv h.aborted (h.ended hpast) hstep

/-- What holds once the call has returned. -/
structure Stopped (n : Nat) (p : Prop) (sr s : App) : Prop where
  inv : Inv s
  aborted : Aborted n p s
  ended : Ended p s
  silenced : Silenced s
  starts : s.cleaner.cleaner.starts = sr.cleaner.cleaner.starts

theorem step_stopped {i : Input} (h : Stopped n p sr s) (hok : Until n s i)
    (hstep : s.step i = some s') : Stopped n p sr s' := by
  have hsub := step_subsides h.inv h.aborted hok hstep
  exact ⟨step_inv h.inv hstep, hsub.aborted h.inv h.aborted hstep,
    hsub.ended h.inv h.aborted h.ended hstep, hsub.silenced h.inv h.ended h.silenced hstep,
    hsub.starts.trans h.starts⟩

/-- A stop misses the mission: its fault is queued, or the mission is deaf. -/
def Misses (s : App) : Prop :=
  s.link.mq ≠ [] ∨ ∃ msg, s.link.mission = .running msg ∧ s.work.deaf = true

/-- The mission is about to start a path. -/
def Launches (s : App) : Prop := ∃ msg, s.link.mission = .running msg ∧ s.work.launching = true

/-- `hcics_app_stop` is called at `s₀` and returns at `sr`; no fault accepted since the call has
begun its mission. -/
inductive StopCall (s₀ sr : App) : Prop where
  | intro (sock sock' : Nat) (io io' : AppIo) (s₁ sm : App) (call : s₀.link.udp = .stop sock .abort)
      (first : machine.step s₀ (.udp io) = some s₁)
      (run : machine.Run (Until s₀.link.accepted.length) s₁ sm)
      (last : sm.link.udp = .stop sock' .motion)
      (returned : machine.step sm (.udp io') = some sr)

/-- No mission that was accepted before the stop leaves a path running: a path runs only until the
mission's next test of `abort`. Since the stop returned at `sr` no cleaner run was started, and no
target but zero was accepted. -/
structure Cancelled (sr s : App) : Prop where
  path : s.track.running = true → s.drive.abort = true ∧ s.work.ending = true
  starts : s.cleaner.cleaner.starts = sr.cleaner.cleaner.starts
  targetLeft : s.drive.motion.targetLeft = 0
  targetRight : s.drive.motion.targetRight = 0

theorem StopCall.stopped (hinv : Inv s₀) (hmiss : ¬ Misses s₀) (hcall : StopCall s₀ sr) :
    Stopped s₀.link.accepted.length (¬ Launches s₀) sr sr := by
  obtain ⟨sock, sock', io, io', s₁, sm, hudp, hfirst, hrun, hlast, hret⟩ := hcall
  have hfirst : s₀.step (.udp io) = some s₁ := hfirst
  have hret : sm.step (.udp io') = some sr := hret
  have hstopping : Stopping s₀.link.accepted.length (¬ Launches s₀) s₁ := by
    obtain rfl : { s₀ with drive := { s₀.drive with abort := true }
                           link := s₀.link.stepUdp io.net } = s₁ := by
      simpa [step, stepUdp, hudp, stopPart] using hfirst
    have hmq : s₀.link.mq = [] := by
      by_contra hne
      exact hmiss (.inl hne)
    have hlink : s₀.link.stepUdp io.net = { s₀.link with udp := .stop sock .track } := by
      simp [Link.stepUdp, hudp]
    refine ⟨step_inv hinv hfirst, ⟨rfl, ?_, fun msg hm => ?_, fun hp msg hm => ?_⟩, fun hpast => ?_⟩
    · dsimp only
      rw [hlink]
      show _ + s₀.link.mq.length ≤ _
      simp [hmq]
    · dsimp only at hm ⊢
      rw [hlink] at hm
      by_contra hd
      exact hmiss (.inr ⟨msg, hm, by simpa using hd⟩)
    · dsimp only at hm ⊢
      rw [hlink] at hm
      by_contra hl
      exact hp ⟨msg, hm, by simpa using hl⟩
    · dsimp only at hpast
      rw [hlink] at hpast
      cases hpast
  have hm : Stopping s₀.link.accepted.length (¬ Launches s₀) sm :=
    hrun.inv hstopping fun _ _ _ _ ht hok hstep => step_stopping ht hok hstep
  have hok : Until s₀.link.accepted.length sm (.udp io') := id
  have hsub := step_subsides hm.inv hm.aborted hok hret
  have hended := hm.ended (by rw [hlast]; rfl)
  refine ⟨step_inv hm.inv hret, hsub.aborted hm.inv hm.aborted hret,
    hsub.ended hm.inv hm.aborted hended hret, ?_, rfl⟩
  obtain rfl : { sm with drive := (sm.drive.call io'.motion (.emergencyStop stopReason)).1
                         link := sm.link.stepUdp io'.net } = sr := by
    simpa [step, stepUdp, hlast, stopPart] using hret
  obtain ⟨hstill, hlatch⟩ := hm.inv.drive.emergencyStop io'.motion stopReason
  exact ⟨hstill, fun _ => hlatch, fun _ _ _ => hlatch⟩

/-- **Where a safety stop cancels the mission.** Under every order of the threads' steps: if
`hcics_app_stop` sets `abort` where it does not miss the mission, then from its return until a fault
that was accepted later begins its mission, no path is left running, no cleaner run starts, and no
target but zero is accepted. If the mission was not just about to start a path, none runs at all. -/
theorem stop_cancels {s₀ sr s : App} (h : machine.Reach Machine.free s₀) (hmiss : ¬ Misses s₀)
    (hcall : StopCall s₀ sr) (hrun : machine.Run (Until s₀.link.accepted.length) sr s) :
    Cancelled sr s ∧ (¬ Launches s₀ → s.track.running = false) := by
  have hs : Stopped s₀.link.accepted.length (¬ Launches s₀) sr s :=
    hrun.inv (hcall.stopped (inv_of_reach h) hmiss) fun _ _ _ _ ht hok hstep =>
      step_stopped ht hok hstep
  refine ⟨⟨fun hr => ⟨hs.aborted.abort, (hs.ended hr).2⟩, hs.starts, hs.silenced.still.1,
    hs.silenced.still.2⟩, fun hp => ?_⟩
  by_contra hr
  exact (hs.ended (by simpa using hr)).1 hp

/-- The UDP thread receives a STOP and comes to its call of `hcics_app_stop`. -/
def stopReceived : List Input := [.udp { net := { datagram := .stop } }, .udp {}]

/-- The UDP thread's steps from one part of the call to its last. -/
def stopParts : List Input := List.replicate 3 (.udp {})

theorem run_stopParts {n : Nat} {s s' : App} (h : machine.exec s stopParts = some s') :
    machine.Run (Until n) s s' :=
  .of_exec stopParts h ⟨id, fun _ _ => ⟨id, fun _ _ => ⟨id, fun _ _ => trivial⟩⟩⟩

theorem stopCall_of_exec {s₀ s₁ sm sr : App} (call : s₀.link.udp = .stop 0 .abort)
    (first : machine.step s₀ (.udp {}) = some s₁) (run : machine.exec s₁ stopParts = some sm)
    (last : sm.link.udp = .stop 0 .motion) (returned : machine.step sm (.udp {}) = some sr) :
    StopCall s₀ sr :=
  ⟨0, 0, _, _, s₁, sm, call, first, run_stopParts run, last, returned⟩

/-- A STOP arrives while the mission is parked, `left` steps of 50 ms before the end of its delay. -/
def parkedRun (left : Nat) : List Input := navRun ++ missionAt 2760 (14 - left) ++ stopReceived

/-- In the last 50 ms of the delay. -/
def parkedLast : App := (machine.exec boot (parkedRun 0)).get (by decide +kernel)
def parkedAbort : App := (machine.step parkedLast (.udp {})).get (by decide +kernel)
def parkedMotion : App := (machine.exec parkedAbort stopParts).get (by decide +kernel)
def parkedStopped : App := (machine.step parkedMotion (.udp {})).get (by decide +kernel)

/-- The delay is over. -/
def cleaningOn : App := (machine.exec parkedStopped (missionAt 3260 2)).get (by decide +kernel)

/-- A STOP arrives while the mission's fault is queued. -/
def queued : App := (machine.exec boot (faultRun ++ stopReceived)).get (by decide +kernel)
def queuedAbort : App := (machine.step queued (.udp {})).get (by decide +kernel)
def queuedMotion : App := (machine.exec queuedAbort stopParts).get (by decide +kernel)
def queuedStopped : App := (machine.step queuedMotion (.udp {})).get (by decide +kernel)

def beginRun : List Input := nodeAt 1000 ++ missionAt 1000 13

def followingOn : App := (machine.exec queuedStopped beginRun).get (by decide +kernel)

/-- A STOP in the last 50 ms of the parked delay returns, and the mission it follows starts the
cleaner; one that finds the mission queued returns, and the mission starts its path. -/
theorem stop_missed :
    (machine.Reach Machine.free parkedLast ∧ parkedLast.work = .parked 0 ∧
      StopCall parkedLast parkedStopped ∧
      machine.Run (Until parkedLast.link.accepted.length) parkedStopped cleaningOn ∧
      cleaningOn.cleaner.cleaner.starts = parkedStopped.cleaner.cleaner.starts + 1 ∧
      ¬ Cancelled parkedStopped cleaningOn) ∧
    (machine.Reach Machine.free queued ∧ queued.link.mq = [panel1] ∧
      StopCall queued queuedStopped ∧
      machine.Run (Until queued.link.accepted.length) queuedStopped followingOn ∧
      followingOn.track.running = true ∧ followingOn.drive.abort = false ∧
      ¬ Cancelled queuedStopped followingOn) := by
  have hstarts : cleaningOn.cleaner.cleaner.starts = parkedStopped.cleaner.cleaner.starts + 1 := by
    decide +kernel
  have hrunning : followingOn.track.running = true := by decide +kernel
  have habort : followingOn.drive.abort = false := by decide +kernel
  refine ⟨⟨.get boot_start _, by decide +kernel, ?_, ?_, hstarts, fun hc => ?_⟩,
    ⟨.get boot_start _, by decide +kernel, ?_, ?_, hrunning, habort, fun hc => ?_⟩⟩
  · exact stopCall_of_exec (by decide +kernel) (Option.some_get _).symm
      (Option.some_get _).symm (by decide +kernel) (Option.some_get _).symm
  · exact .of_exec (missionAt 3260 2) (Option.some_get _).symm (by decide +kernel)
  · have hsame := hc.starts
    omega
  · exact stopCall_of_exec (by decide +kernel) (Option.some_get _).symm (Option.some_get _).symm
      (by decide +kernel) (Option.some_get _).symm
  · exact .of_exec beginRun (Option.some_get _).symm (by decide +kernel)
  · exact Bool.noConfusion (habort.symm.trans (hc.path hrunning).1)

/-- The same STOP, 50 ms earlier. -/
def parkedEarly : App := (machine.exec boot (parkedRun 1)).get (by decide +kernel)
def earlyAbort : App := (machine.step parkedEarly (.udp {})).get (by decide +kernel)
def earlyMotion : App := (machine.exec earlyAbort stopParts).get (by decide +kernel)
def earlyStopped : App := (machine.step earlyMotion (.udp {})).get (by decide +kernel)

/-- It cancels the mission. -/
theorem stop_cancels_parked :
    parkedEarly.work = .parked 50 ∧ StopCall parkedEarly earlyStopped ∧
      ∀ s, machine.Run (Until parkedEarly.link.accepted.length) earlyStopped s →
        Cancelled earlyStopped s := by
  have hwork : parkedEarly.work = .parked 50 := by decide +kernel
  have hmq : parkedEarly.link.mq = [] := by decide +kernel
  have hreach : machine.Reach Machine.free parkedEarly := .get boot_start _
  have hcall : StopCall parkedEarly earlyStopped :=
    stopCall_of_exec (by decide +kernel) (Option.some_get _).symm (Option.some_get _).symm
      (by decide +kernel) (Option.some_get _).symm
  have hmiss : ¬ Misses parkedEarly := by
    rintro (hne | ⟨msg, -, hdeaf⟩)
    · exact hne hmq
    · rw [hwork] at hdeaf
      cases hdeaf
  exact ⟨hwork, hcall, fun s hrun => (stop_cancels hreach hmiss hcall hrun).1⟩

end App

end Hcics
