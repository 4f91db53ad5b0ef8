import Hcics.App.Missions

/-!
# What a motion fault holds up

A fault latches `emergency_stop` in the motion module. The mission learns of it from `motion_fault`
and `abort`, which `hcics_latch_motion_fault` sets after a failed `hcics_motion_update` or a refused
motor command. Two kinds of fault get past it: those nobody reports, since the call that latches them
returns `RT_EOK` or its result is ignored, and those that come after the mission's last test. `Timely`
leaves these out, and `Watched` is the invariant of the runs that are left.
-/

namespace Hcics

/-! ## Places of the mission -/

/-- A mission here advances without another test of `abort` or `motion_fault`. -/
def WorkPc.committed : WorkPc → Bool
  | .parked left => left == 0
  | .setReturn | .zeroFinished .home => true
  | .endStop done | .endReset done _ | .endZero done | .endState done => done
  | _ => false

/-- The path is finished and the next one not started, so the tracker gives no motor command that
would be refused. -/
def WorkPc.blind (finished : Bool) : WorkPc → Bool
  | .follow _ _ | .faultTest _ _ _ | .finishedTest _ _ _ | .status _ _ _ | .cameraLost _ _ _ => finished
  | .zeroFinished _ | .parked _ | .startCleaner | .clean _ | .cleanStatus _ => true
  | _ => false

theorem WorkPc.blind_of_blind (pc : WorkPc) {finished finished' : Bool}
    (hf : finished' = true → finished = true) (h : pc.blind finished' = true) :
    pc.blind finished = true := by
  cases pc with
  | follow | faultTest | finishedTest | status | cameraLost => exact hf h
  | _ => exact h

/-! ## The motion module -/

namespace Drive

variable {d d' : Drive}

/-- No fault is added and none is taken back. -/
structure Keeps (d d' : Drive) : Prop where
  faulted : d'.faulted = d.faulted
  motionFault : d.motionFault = true → d'.motionFault = true
  latched : d.motion.emergencyStop = true → d'.motion.emergencyStop = true

theorem Keeps.refl (d : Drive) : Keeps d d := ⟨rfl, id, id⟩

/-- A call of the motion module that latches a stop. -/
def latches (d : Drive) (io : MotionIo) (op : Motion.Op) : Bool :=
  !d.motion.emergencyStop && (d.call io op).1.motion.emergencyStop

theorem Ready.keeps (h : Ready d) (io : MotionIo) {op : Motion.Op} (hop : op ≠ .clearEmergencyStop)
    (hl : d.latches io op = false ∨ ∃ reason, op = .emergencyStop reason) :
    Keeps d (d.call io op).1 := by
  refine ⟨?_, id, fun hs => h.stays hs io hop⟩
  rcases hl with hl | ⟨reason, rfl⟩
  · have hfault : (d.faulted || (!d.motion.emergencyStop && (d.motion.call io op).1.emergencyStop)) =
        d.faulted := by
      rw [show (!d.motion.emergencyStop && (d.motion.call io op).1.emergencyStop) = false from hl,
        Bool.or_false]
    cases op with
    | emergencyStop reason => exact Bool.or_false _
    | _ => exact hfault
  · exact Bool.or_false _

theorem call_faulted {io : MotionIo} {op : Motion.Op} (hf : (d.call io op).1.faulted = true) :
    d.faulted = true ∨ d.latches io op = true := by
  cases op with
  | emergencyStop reason => exact .inl ((Bool.or_false _).symm.trans hf)
  | _ => exact (Bool.or_eq_true _ _).mp hf

theorem latched_of_latches {io : MotionIo} {op : Motion.Op} (h : d.latches io op = true) :
    (d.call io op).1.motion.emergencyStop = true := by
  rw [latches, Bool.and_eq_true] at h
  exact h.2

theorem Ready.setMotor_keeps (h : Ready d) (io : MotionIo) (command : Option (Int16 × Int16)) :
    Keeps d (d.setMotor io command) := by
  cases command with
  | none => exact .refl d
  | some command =>
    by_cases hs : d.motion.emergencyStop = true
    · rw [h.setMotor_stopped hs]
      exact ⟨rfl, fun _ => rfl, id⟩
    · rw [h.setMotor_free (by simpa using hs)]
      exact ⟨rfl, id, id⟩

end Drive

namespace App

variable {s s' : App} {io : AppIo} {msg : Msg} {i : Input}

/-! ## Faults in time -/

/-- The call of the motion module by which a step can latch a fault. -/
def motionCall (s : App) : Input → Option (MotionIo × Motion.Op)
  | .control io => if s.control = .update then some (io.motion, .update) else none
  | .mission io =>
    match s.link.mission, s.work with
    | .running _, .resetMotion => some (io.motion, .reset)
    | .running _, .zeroFailed | .running _, .zeroFinished _ | .running _, .endZero _ =>
      some (io.motion, .setTargetDirect 0 0)
    | _, _ => none
  | _ => none

/-- A step that latches a fault. -/
def latches (s : App) (i : Input) : Bool :=
  match s.motionCall i with
  | some (io, op) => s.drive.latches io op
  | none => false

/-- It is not reported: the update returns `RT_EOK`, or the mission ignores the result. -/
def silent (s : App) (i : Input) : Bool :=
  s.latches i && match s.motionCall i with
    | some (io, .update) => decide ((s.drive.call io .update).2 = RT_EOK)
    | _ => true

/-- The mission advances, or reports DONE, without another test. -/
def committed (s : App) : Bool :=
  match s.link.mission with
  | .running _ => s.work.committed
  | .report _ done | .reportSend _ done _ | .reportStore _ done => done
  | _ => false

/-- A fault that is not reported when it is latched will not be reported. -/
def blind (s : App) : Bool :=
  match s.link.mission with
  | .running _ => s.work.blind s.track.finished
  | _ => false

/-- The mission makes the step that commits it: the test of the parked delay's last chunk, or the
read that ends the cleaning or the way home. -/
def commits (s : App) : Input → Bool
  | .mission _ =>
    match s.link.mission, s.work with
    | .running _, .parked left => left != 0 && decide (left ≤ 50) && !s.drive.abort
    | .running _, .cleanStatus _ =>
      decide (s.cleaner.cleaner.state = .done) && decide (s.cleaner.cleaner.lastResult = RT_EOK)
    | .running _, .finishedTest .home _ _ => s.track.isFinished
    | _, _ => false
  | _ => false

/-- A step that lets no fault past the mission's tests: no fault is latched once the mission is
committed, none is latched silently while the mission is blind, and the mission does not commit while
a fault is set in `motion_fault` or a failed update is not reported yet. -/
structure Timely (s : App) (i : Input) : Prop where
  early : s.latches i = true → s.committed = false
  reported : s.silent i = true → s.blind = false
  settled : s.commits i = true → s.drive.motionFault = false ∧ s.control ≠ .latch

instance (s : App) (i : Input) : Decidable (Timely s i) :=
  decidable_of_iff ((s.latches i = true → s.committed = false) ∧
      (s.silent i = true → s.blind = false) ∧
      (s.commits i = true → s.drive.motionFault = false ∧ s.control ≠ .latch))
    ⟨fun ⟨h1, h2, h3⟩ => ⟨h1, h2, h3⟩, fun ⟨h1, h2, h3⟩ => ⟨h1, h2, h3⟩⟩

/-! ## The invariant -/

/-- A fault is set in `motion_fault`, or about to be. -/
def Known (s : App) : Prop :=
  s.drive.faulted = true → s.drive.motionFault = true ∨ s.control = .latch

/-- A fault keeps the stop latched, is known wherever nobody else would report it, and does not
happen to a mission that is committed. -/
structure Watched (s : App) : Prop where
  latched : s.drive.faulted = true → s.drive.motion.emergencyStop = true
  known : s.blind = true → Known s
  spared : s.committed = true → s.drive.faulted = false

theorem Watched.of_free (hf : s.drive.faulted = false) : Watched s where
  latched h := Bool.noConfusion (hf.symm.trans h)
  known _ h := Bool.noConfusion (hf.symm.trans h)
  spared _ := hf

theorem Watched.of_open (hl : s.drive.faulted = true → s.drive.motion.emergencyStop = true)
    (hb : s.blind = false) (hc : s.committed = false) : Watched s where
  latched := hl
  known h := Bool.noConfusion (hb.symm.trans h)
  spared h := Bool.noConfusion (hc.symm.trans h)

theorem Watched.mono (h : Watched s) (hk : s.drive.Keeps s'.drive)
    (hcontrol : s.control = .latch → s'.drive.motionFault = true ∨ s'.control = .latch)
    (hb : s'.blind = true → s.blind = true) (hc : s'.committed = true → s.committed = true) :
    Watched s' where
  latched hf := hk.latched (h.latched (hk.faulted ▸ hf))
  known hb' hf := by
    rcases h.known (hb hb') (hk.faulted ▸ hf) with hm | hm
    · exact .inl (hk.motionFault hm)
    · exact hcontrol hm
  spared hc' := hk.faulted.trans (h.spared (hc hc'))

theorem Watched.call_latched (h : Watched s) (hd : s.drive.Ready) (io : MotionIo) {op : Motion.Op}
    (hop : op ≠ .clearEmergencyStop) (hf : (s.drive.call io op).1.faulted = true) :
    (s.drive.call io op).1.motion.emergencyStop = true := by
  rcases Drive.call_faulted hf with hf | hl
  · exact hd.stays (h.latched hf) io hop
  · exact Drive.latched_of_latches hl

theorem Watched.zeroTargets_latched (h : Watched s) (hd : s.drive.Ready) (io : MotionIo)
    (hf : (s.drive.zeroTargets io).faulted = true) :
    (s.drive.zeroTargets io).motion.emergencyStop = true := h.call_latched hd io nofun hf

theorem Watched.commit (h : Watched s) (hok : Timely s i) (hb : s.blind = true)
    (hc : s.commits i = true) : s.drive.faulted = false := by
  obtain ⟨hmf, hcontrol⟩ := hok.settled hc
  by_contra hf
  rcases h.known hb (by simpa using hf) with hm | hm
  · exact Bool.noConfusion (hmf.symm.trans hm)
  · exact hcontrol hm

/-- Zero targets where the mission is committed or blind: nobody reads the result there, so a stop latched
by the call would be an early fault or a silent one. -/
theorem Timely.zero_keeps {io : MotionIo} (hok : Timely s i) (hd : s.drive.Ready)
    (hcall : s.motionCall i = some (io, .setTargetDirect 0 0)) (h : s.committed = true ∨ s.blind = true) :
    s.drive.Keeps (s.drive.zeroTargets io) := by
  refine hd.keeps io (by decide) (.inl ?_)
  by_contra hl
  have hlatches : s.latches i = true := by
    rw [latches, hcall]
    simpa using hl
  rcases h with hc | hb
  · exact Bool.noConfusion ((hok.early hlatches).symm.trans hc)
  · have hsilent : s.silent i = true := by
      rw [silent, hlatches, hcall]
      rfl
    exact Bool.noConfusion ((hok.reported hsilent).symm.trans hb)

/-- A chunk of the parked delay that is not the last. -/
theorem parked_uncommitted {left : UInt32} (h : ¬ left ≤ 50) :
    (WorkPc.parked (if left ≥ 50 then left - 50 else 0)).committed = false := by
  have hlt : 50 < left.toNat := by
    rw [UInt32.le_iff_toNat_le] at h
    simpa using h
  have hge : left ≥ 50 := UInt32.le_iff_toNat_le.mpr hlt.le
  rw [if_pos hge]
  refine beq_eq_false_iff_ne.mpr fun hzero => ?_
  have hnat := congrArg UInt32.toNat hzero
  rw [UInt32.toNat_sub_of_le _ _ hge] at hnat
  simp at hnat
  omega

/-! ## The mission -/

section Mission

variable (hm : s.link.mission = .running msg)
include hm

theorem committed_running : s.committed = s.work.committed := by rw [committed, hm]

theorem blind_running : s.blind = s.work.blind s.track.finished := by rw [blind, hm]

theorem Watched.move (h : Watched s) {state : AppState} {d : Drive} {c : CleanerSys} {pc : WorkPc}
    {trace : List Event} (hk : s.drive.Keeps d)
    (hb : pc.blind s.track.finished = true → s.work.blind s.track.finished = true)
    (hc : pc.committed = true → s.work.committed = true) :
    Watched { s with state := state, drive := d, cleaner := c, work := pc, trace := trace } := by
  refine h.mono hk .inr (fun hb' => ?_) fun hc' => ?_
  · rw [blind_running hm]
    refine hb ?_
    rwa [blind, hm] at hb'
  · rw [committed_running hm]
    refine hc ?_
    rwa [committed, hm] at hc'

theorem Watched.goes (h : Watched s) {state : AppState} {d : Drive} {c : CleanerSys} {pc : WorkPc}
    {trace : List Event} (hk : s.drive.Keeps d)
    (hb : pc.blind s.track.finished = true → s.work.blind s.track.finished = true)
    (hc : pc.committed = false) :
    Watched { s with state := state, drive := d, cleaner := c, work := pc, trace := trace } :=
  h.move hm hk hb fun hc' => Bool.noConfusion (hc.symm.trans hc')

theorem Watched.leave {state : AppState} {d : Drive} {c : CleanerSys} {t : Track} {pc : WorkPc}
    {trace : List Event} (hl : d.faulted = true → d.motion.emergencyStop = true)
    (hb : pc.blind t.finished = false) (hc : pc.committed = false) :
    Watched { s with
      state := state, drive := d, track := t, cleaner := c, work := pc, trace := trace } := by
  refine .of_open hl ?_ ?_
  · rw [blind, hm]
    exact hb
  · rw [committed, hm]
    exact hc

theorem Watched.cleanerReset (h : Watched s) {next : ResetPart → WorkPc} {after : WorkPc}
    {part : ResetPart} (hb : ∀ f, (∀ part, (next part).blind f = false) ∧ after.blind f = false)
    (hc : (∀ part, (next part).committed = s.work.committed) ∧ after.committed = s.work.committed)
    (hstep : s.cleanerReset io next after part = some s') : Watched s' := by
  rcases cleanerReset_case hstep with rfl | ⟨i, c, pc, -, -, hpc, rfl⟩
  · exact h
  · refine h.move hm (.refl _) (fun hb' => ?_) fun hc' => ?_
    · exfalso
      rcases hpc with rfl | rfl | rfl
      · exact Bool.noConfusion (((hb _).1 _).symm.trans hb')
      · exact Bool.noConfusion (((hb _).1 _).symm.trans hb')
      · exact Bool.noConfusion ((hb _).2.symm.trans hb')
    · rcases hpc with rfl | rfl | rfl
      · exact (hc.1 _).symm.trans hc'
      · exact (hc.1 _).symm.trans hc'
      · exact hc.2.symm.trans hc'

theorem Watched.followWait (h : Watched s) {phase : Phase} {startMs nowMs : UInt32}
    (hw : s.work = .status phase startMs nowMs ∨ s.work = .cameraLost phase startMs nowMs) :
    Watched (s.followWait phase startMs nowMs) := by
  unfold App.followWait
  split
  · exact .leave hm h.latched rfl rfl
  · refine h.goes hm (.refl _) (fun hb => ?_) rfl
    rcases hw with hw | hw <;> rw [hw] <;> exact hb

theorem startPath_watched (h : Watched s) {phase : Phase} (hw : s.work = .startPath phase)
    (hstep : s.stepWork msg io = some s') : Watched s' := by
  simp only [stepWork, hw] at hstep
  obtain rfl := Option.some.inj hstep
  split
  · exact .leave hm h.latched rfl rfl
  · rename_i hres
    obtain ⟨-, -, p, -, he⟩ := Track.startPath_ok (not_not.mp hres)
    refine .leave hm h.latched ?_ rfl
    dsimp only
    rw [he]
    rfl

/-- The end of the way home commits the mission, that of the way out leaves it blind. -/
theorem finishedTest_watched (hinv : Inv s) (h : Watched s) (hok : Timely s (.mission io)) {phase : Phase}
    {startMs nowMs : UInt32} (hw : s.work = .finishedTest phase startMs nowMs)
    (hstep : s.stepWork msg io = some s') : Watched s' := by
  simp only [stepWork, hw] at hstep
  obtain rfl := Option.some.inj hstep
  split
  · rename_i hfin
    have hf : s.track.finished = true := by
      simpa [Track.isFinished, hinv.tracker.1] using hfin
    have hb : s.blind = true := by
      rw [blind_running hm, hw]
      exact hf
    cases phase with
    | nav => exact h.goes hm (.refl _) (fun _ => blind_running hm ▸ hb) rfl
    | home => exact .of_free (h.commit hok hb (by rw [commits, hm, hw]; exact hfin))
  · exact h.goes hm (.refl _) (fun hb => hw ▸ hb) rfl

theorem zeroFinished_watched (hinv : Inv s) (h : Watched s) (hok : Timely s (.mission io)) {phase : Phase}
    (hw : s.work = .zeroFinished phase) (hstep : s.stepWork msg io = some s') : Watched s' := by
  have hb : s.blind = true := by
    rw [blind_running hm, hw]
    rfl
  have hk : s.drive.Keeps (s.drive.zeroTargets io.motion) :=
    hok.zero_keeps hinv.drive (by simp [motionCall, hm, hw]) (.inr hb)
  cases phase <;> simp only [stepWork, hw] at hstep <;> obtain rfl := Option.some.inj hstep
  · exact h.goes hm hk (fun _ => blind_running hm ▸ hb) rfl
  · refine .of_free (hk.faulted.trans (h.spared ?_))
    rw [committed_running hm, hw]
    rfl

/-- The last chunk of the parked delay commits the mission. -/
theorem parked_watched (h : Watched s) (hok : Timely s (.mission io)) {left : UInt32}
    (hw : s.work = .parked left) (hstep : s.stepWork msg io = some s') : Watched s' := by
  have hb : s.blind = true := by
    rw [blind_running hm, hw]
    rfl
  simp only [stepWork, hw] at hstep
  obtain rfl := Option.some.inj hstep
  split
  · rename_i hleft
    refine .of_free (h.spared ?_)
    rw [committed_running hm, hw, hleft]
    rfl
  · rename_i hleft
    split
    · exact .leave hm h.latched rfl rfl
    · rename_i habort
      by_cases hlast : left ≤ 50
      · refine .of_free (h.commit hok hb ?_)
        rw [commits, hm, hw]
        simp [hleft, hlast, habort]
      · exact h.goes hm (.refl _) (fun _ => blind_running hm ▸ hb) (parked_uncommitted hlast)

/-- The end of the cleaning commits the mission. -/
theorem cleanStatus_watched (h : Watched s) (hok : Timely s (.mission io)) {startMs : UInt32}
    (hw : s.work = .cleanStatus startMs) (hstep : s.stepWork msg io = some s') : Watched s' := by
  have hb : s.blind = true := by
    rw [blind_running hm, hw]
    rfl
  simp only [stepWork, hw] at hstep
  split at hstep <;> obtain rfl := Option.some.inj hstep
  · rename_i hdone
    split
    · exact .leave hm h.latched rfl rfl
    · rename_i hres
      refine .of_free (h.commit hok hb ?_)
      rw [commits, hm, hw]
      simpa [hdone] using not_not.mp hres
  · exact .leave hm h.latched rfl rfl
  · exact .leave hm h.latched rfl rfl
  · split
    · exact .leave hm h.latched rfl rfl
    · exact h.goes hm (.refl _) (fun _ => hw ▸ rfl) rfl

theorem endStop_watched (hinv : Inv s) (h : Watched s) {done : Bool} (hw : s.work = .endStop done)
    (hstep : s.stepWork msg io = some s') : Watched s' := by
  simp only [stepWork, hw] at hstep
  obtain rfl := Option.some.inj hstep
  have hk := hinv.drive.setMotor_keeps io.motion s.track.stop.2
  cases done
  · exact .leave hm (fun hf => hk.latched (h.latched (hk.faulted ▸ hf))) rfl rfl
  · exact .of_free (hk.faulted.trans (h.spared (by rw [committed_running hm, hw]; rfl)))

theorem endZero_watched (hinv : Inv s) (h : Watched s) (hok : Timely s (.mission io)) {done : Bool}
    (hw : s.work = .endZero done) (hstep : s.stepWork msg io = some s') : Watched s' := by
  simp only [stepWork, hw] at hstep
  obtain rfl := Option.some.inj hstep
  cases done
  · exact .leave hm (h.zeroTargets_latched hinv.drive io.motion) rfl rfl
  · have hc : s.committed = true := by
      rw [committed_running hm, hw]
      rfl
    have hk : s.drive.Keeps (s.drive.zeroTargets io.motion) :=
      hok.zero_keeps hinv.drive (by simp [motionCall, hm, hw]) (.inl hc)
    exact .of_free (hk.faulted.trans (h.spared hc))

theorem endState_watched (h : Watched s) {done : Bool} (hw : s.work = .endState done)
    (hstep : s.stepWork msg io = some s') : Watched s' := by
  simp only [stepWork, hw] at hstep
  obtain rfl := Option.some.inj hstep
  cases done
  · exact .of_open h.latched (by simp [blind, Link.finish, hm]) (by simp [committed, Link.finish, hm])
  · exact .of_free (h.spared (by rw [committed_running hm, hw]; rfl))

theorem stepWork_watched (hinv : Inv s) (h : Watched s) (hok : Timely s (.mission io))
    (hstep : s.stepWork msg io = some s') : Watched s' := by
  have hdrive := hinv.drive
  cases hw : s.work
  case startPath phase => exact startPath_watched hm h hw hstep
  case finishedTest phase startMs nowMs => exact finishedTest_watched hm hinv h hok hw hstep
  case zeroFinished phase => exact zeroFinished_watched hm hinv h hok hw hstep
  case parked left => exact parked_watched hm h hok hw hstep
  case cleanStatus startMs => exact cleanStatus_watched hm h hok hw hstep
  case endStop done => exact endStop_watched hm hinv h hw hstep
  case endZero done => exact endZero_watched hm hinv h hok hw hstep
  case endState done => exact endState_watched hm h hw hstep
  -- elsewhere the mission is neither blind nor committed, or as blind as it was
  all_goals simp only [stepWork, hw] at hstep
  case begin | setReturn =>
    obtain rfl := Option.some.inj hstep
    exact .leave hm h.latched rfl rfl
  case snapshot | navigate =>
    split at hstep <;> obtain rfl := Option.some.inj hstep
    · exact .leave hm h.latched rfl rfl
    · exact .leave hm h.latched rfl rfl
  case waitCamera =>
    obtain rfl := Option.some.inj hstep
    split <;> exact .leave hm h.latched rfl rfl
  case clearStop =>
    obtain rfl := Option.some.inj hstep
    exact .of_free rfl
  case resetMotion =>
    obtain rfl := Option.some.inj hstep
    exact .leave hm (h.call_latched hdrive io.motion (by decide)) rfl rfl
  case reset part =>
    exact h.cleanerReset hm (fun _ => ⟨fun _ => rfl, rfl⟩) ⟨fun _ => hw ▸ rfl, hw ▸ rfl⟩ hstep
  case cameraRecent phase startMs =>
    obtain rfl := Option.some.inj hstep
    split
    · exact .leave hm h.latched rfl rfl
    · split <;> exact .leave hm h.latched rfl rfl
  case follow | faultTest =>
    obtain rfl := Option.some.inj hstep
    split
    · exact .leave hm h.latched rfl rfl
    · exact h.goes hm (.refl _) (fun hb => hw ▸ hb) rfl
  case status phase startMs nowMs =>
    obtain rfl := Option.some.inj hstep
    split
    · exact h.goes hm (.refl _) (fun hb => hw ▸ hb) rfl
    · exact h.followWait hm (.inl hw)
  case cameraLost phase startMs nowMs =>
    obtain rfl := Option.some.inj hstep
    split
    · exact h.followWait hm (.inr hw)
    · exact .leave hm h.latched rfl rfl
  case stopPath =>
    obtain rfl := Option.some.inj hstep
    have hk := hdrive.setMotor_keeps io.motion s.track.stop.2
    exact .leave hm (fun hf => hk.latched (h.latched (hk.faulted ▸ hf))) rfl rfl
  case zeroFailed =>
    obtain rfl := Option.some.inj hstep
    exact .leave hm (h.zeroTargets_latched hdrive io.motion) rfl rfl
  case startCleaner =>
    obtain ⟨t, ht, rfl⟩ := Option.map_eq_some_iff.mp hstep
    obtain ⟨c, hc, rfl⟩ := cleanerStep_some ht
    split
    · exact h.goes hm (.refl _) (fun _ => hw ▸ rfl) rfl
    · exact .leave hm h.latched rfl rfl
  case clean startMs =>
    obtain rfl := Option.some.inj hstep
    split
    · exact .leave hm h.latched rfl rfl
    · exact h.goes hm (.refl _) (fun _ => hw ▸ rfl) rfl
  case stopCleaner | stopCleanerOutputs =>
    obtain ⟨t, ht, rfl⟩ := Option.map_eq_some_iff.mp hstep
    obtain ⟨c, hc, rfl⟩ := cleanerStep_some ht
    exact .leave hm h.latched rfl rfl
  case endReset done part =>
    exact h.cleanerReset hm (fun _ => ⟨fun _ => rfl, rfl⟩) ⟨fun _ => hw ▸ rfl, hw ▸ rfl⟩ hstep

end Mission

/-! ## The other threads -/

theorem stepMission_watched (hinv : Inv s) (h : Watched s) (hok : Timely s (.mission io))
    (hstep : s.stepMission io = some s') : Watched s' := by
  unfold stepMission at hstep
  cases hm : s.link.mission <;> simp only [hm] at hstep
  case running msg => exact stepWork_watched hm hinv h hok hstep
  all_goals
    obtain ⟨l, hl, rfl⟩ := Option.map_eq_some_iff.mp hstep
    simp only [Link.stepMission, hm] at hl
  case recv =>
    split at hl
    · cases hl
    · obtain rfl := Option.some.inj hl
      refine .of_open h.latched ?_ ?_
      · simp only [blind]
        split_ifs <;> rfl
      · simp only [committed]
        split_ifs <;> rfl
  case report msg done =>
    obtain rfl := Option.some.inj hl
    exact h.mono (.refl _) .inr Bool.noConfusion fun hc => by rw [committed, hm]; exact hc
  case reportSend msg done dst =>
    split at hl <;> obtain rfl := Option.some.inj hl
    · exact .of_open h.latched rfl rfl
    · exact h.mono (.refl _) .inr Bool.noConfusion fun hc => by rw [committed, hm]; exact hc
  case reportStore msg done =>
    obtain rfl := Option.some.inj hl
    exact .of_open h.latched rfl rfl
  case release msg done =>
    obtain rfl := Option.some.inj hl
    exact .of_open h.latched rfl rfl

theorem Watched.other (h : Watched s) (hm : s'.link.mission = s.link.mission)
    (hw : s'.work = s.work) (hf : s'.track.finished = true → s.track.finished = true)
    (hk : s.drive.Keeps s'.drive)
    (hcontrol : s.control = .latch → s'.drive.motionFault = true ∨ s'.control = .latch) :
    Watched s' := by
  refine h.mono hk hcontrol (fun hb => ?_) fun hc => ?_
  · unfold blind at hb ⊢
    rw [hm, hw] at hb
    split at hb
    · exact s.work.blind_of_blind hf hb
    · cases hb
  · unfold committed at hc ⊢
    rwa [hm, hw] at hc

theorem tick_watched (hinv : Inv s) (h : Watched s) (hc : s.control = .tick) (io : AppIo) :
    Watched { s.trackTick io with control := .update } := by
  have hk := hinv.drive.setMotor_keeps io.motion (s.track.tick (tickToMs io.now) io.line).2
  have hcontrol : s.control ≠ .latch := by rw [hc]; nofun
  by_cases hfresh : s.track.finished = false ∧
      (s.track.tick (tickToMs io.now) io.line).1.finished = true
  · -- under a stop the command of the finishing tick is refused
    obtain ⟨-, -, hcommand⟩ := Track.tick_finishes hinv.plan hfresh.1 hfresh.2
    refine ⟨fun hf => hk.latched (h.latched (hk.faulted ▸ hf)), fun _ hf => .inl ?_, fun hcm => ?_⟩
    · have hs := h.latched (hk.faulted ▸ hf)
      dsimp only [trackTick]
      rw [hcommand hinv.tracker.2, hinv.drive.setMotor_stopped hs]
      rfl
    · exact hk.faulted.trans (h.spared hcm)
  · refine h.other rfl rfl (fun hf => ?_) hk fun hl => absurd hl hcontrol
    by_contra hf'
    exact hfresh ⟨by simpa using hf', hf⟩

theorem update_watched (hinv : Inv s) (h : Watched s) (hc : s.control = .update)
    (hok : Timely s (.control io)) :
    Watched { s with
      drive := (s.drive.call io.motion .update).1
      control := if (s.drive.call io.motion .update).2 ≠ RT_EOK then .latch else .tick } := by
  have hcontrol : s.control ≠ .latch := by rw [hc]; nofun
  have hcall : s.motionCall (.control io) = some (io.motion, .update) := by
    rw [motionCall, if_pos hc]
  cases hl : s.drive.latches io.motion .update with
  | false =>
    have hk : s.drive.Keeps (s.drive.call io.motion .update).1 :=
      hinv.drive.keeps io.motion (by decide) (.inl hl)
    exact h.other rfl rfl id hk fun hl => absurd hl hcontrol
  | true =>
    have hlatches : s.latches (.control io) = true := by
      rw [latches, hcall]
      exact hl
    refine ⟨fun _ => Drive.latched_of_latches hl, fun hb _ => ?_, fun hcm => ?_⟩
    · right
      refine if_pos fun hres => ?_
      have hsilent : s.silent (.control io) = true := by
        rw [silent, hlatches, hcall]
        simpa using hres
      exact Bool.noConfusion ((hok.reported hsilent).symm.trans hb)
    · exact Bool.noConfusion ((hok.early hlatches).symm.trans hcm)

theorem stepControl_watched (hinv : Inv s) (h : Watched s) (hok : Timely s (.control io)) :
    Watched (s.stepControl io) := by
  unfold stepControl
  split
  · rename_i hc
    exact tick_watched hinv h hc io
  · rename_i hc
    exact update_watched hinv h hc hok
  · exact h.other rfl rfl id ⟨rfl, fun _ => rfl, id⟩ fun _ => .inl rfl

theorem stopPart_watched (hinv : Inv s) (h : Watched s) {pc : StopPc}
    (hstep : s.stopPart io pc = some s') : Watched s' := by
  cases pc <;> simp only [stopPart] at hstep
  case abort =>
    obtain rfl := Option.some.inj hstep
    exact h.other rfl rfl id ⟨rfl, id, id⟩ .inr
  case track =>
    obtain rfl := Option.some.inj hstep
    obtain ⟨-, -, -, hf, -⟩ := stop_track hinv
    exact h.other rfl rfl (fun hf' => Bool.noConfusion (hf.symm.trans hf'))
      (hinv.drive.setMotor_keeps _ _) .inr
  case cleaner | cleanerOutputs =>
    obtain ⟨c, -, rfl⟩ := cleanerStep_some hstep
    exact h.other rfl rfl id (.refl _) .inr
  case motion =>
    obtain rfl := Option.some.inj hstep
    have hk : s.drive.Keeps (s.drive.call io.motion (.emergencyStop stopReason)).1 :=
      hinv.drive.keeps io.motion (by decide) (.inr ⟨stopReason, rfl⟩)
    exact h.other rfl rfl id hk .inr

theorem stepUdp_watched (hinv : Inv s) (h : Watched s) (hstep : s.stepUdp io = some s') :
    Watched s' := by
  obtain ⟨t, ht, hl, rfl⟩ := stepUdp_case hstep
  have hwatched : Watched t := by
    rcases ht with rfl | ⟨pc, ht⟩
    · exact h
    · exact stopPart_watched hinv h ht
  exact hwatched.other (by rw [Link.stepUdp_mission, hl]) rfl id (.refl _) .inr

theorem step_watched (hinv : Inv s) (h : Watched s) (hok : Timely s i)
    (hstep : s.step i = some s') : Watched s' := by
  cases step_case hstep with
  | mission hstep => exact stepMission_watched hinv h hok hstep
  | udp hstep => exact stepUdp_watched hinv h hstep
  | control io => exact stepControl_watched hinv h hok
  | worker | stored => exact h.other rfl rfl id (.refl _) .inr
  | forwarded frame =>
    rw [Track.updateCamera_eq]
    exact h.other rfl rfl id (.refl _) .inr
  | cleaner _ _ hstep =>
    obtain ⟨c, -, rfl⟩ := cleanerStep_some hstep
    exact h.other rfl rfl id (.refl _) .inr

theorem watched_of_reach (h : machine.Reach Timely s) : Watched s := by
  refine h.inv ?_ fun _ _ _ hr hs hok hstep => step_watched (inv_of_reach hr) hs hok hstep
  rintro _ ⟨pins, io, -, rfl⟩
  exact .of_free rfl

/-! ## Advancing -/

theorem followWait_state (phase : Phase) (startMs nowMs : UInt32) :
    (s.followWait phase startMs nowMs).state = s.state := by
  unfold followWait
  split <;> rfl

theorem stepWork_state (hm : s.link.mission = .running msg) (hc : s.committed = false)
    (hstep : s.stepWork msg io = some s') :
    (s'.state = .cleaning → s.state = .cleaning) ∧
      (s'.state = .returnHome → s.state = .returnHome) := by
  rw [committed_running hm] at hc
  unfold stepWork at hstep
  cases hw : s.work <;> simp only [hw] at hstep <;> rw [hw] at hc
  case setReturn => cases hc
  case reset | endReset =>
    rcases cleanerReset_case hstep with rfl | ⟨i, c, pc, -, -, -, rfl⟩ <;> exact ⟨id, id⟩
  case startCleaner =>
    obtain ⟨t, ht, rfl⟩ := Option.map_eq_some_iff.mp hstep
    obtain ⟨c, -, rfl⟩ := cleanerStep_some ht
    split <;> exact ⟨id, id⟩
  case stopCleaner | stopCleanerOutputs =>
    obtain ⟨t, ht, rfl⟩ := Option.map_eq_some_iff.mp hstep
    obtain ⟨c, -, rfl⟩ := cleanerStep_some ht
    exact ⟨id, id⟩
  case snapshot | startPath => split at hstep <;> exact Option.some.inj hstep ▸ ⟨id, id⟩
  case navigate => split at hstep <;> exact Option.some.inj hstep ▸ ⟨nofun, nofun⟩
  case zeroFinished phase =>
    cases phase <;> obtain rfl := Option.some.inj hstep
    · exact ⟨nofun, nofun⟩
    · exact ⟨id, id⟩
  case parked left =>
    have hleft : left ≠ 0 := beq_eq_false_iff_ne.mp hc
    rw [if_neg hleft] at hstep
    obtain rfl := Option.some.inj hstep
    split <;> exact ⟨id, id⟩
  case cleanStatus =>
    split at hstep <;> obtain rfl := Option.some.inj hstep
    · split <;> exact ⟨id, id⟩
    · exact ⟨id, id⟩
    · exact ⟨id, id⟩
    · split <;> exact ⟨id, id⟩
  all_goals obtain rfl := Option.some.inj hstep
  case endState done => cases done <;> exact ⟨nofun, nofun⟩
  case waitCamera | follow | faultTest | finishedTest | clean => split <;> exact ⟨id, id⟩
  case cameraRecent =>
    split
    · exact ⟨id, id⟩
    · split <;> exact ⟨id, id⟩
  case status =>
    split
    · exact ⟨id, id⟩
    · rw [followWait_state]
      exact ⟨id, id⟩
  case cameraLost =>
    split
    · rw [followWait_state]
      exact ⟨id, id⟩
    · exact ⟨id, id⟩
  all_goals exact ⟨id, id⟩

theorem step_state (hc : s.committed = false) (hstep : s.step i = some s') :
    (s'.state = .cleaning → s.state = .cleaning) ∧
      (s'.state = .returnHome → s.state = .returnHome) := by
  cases step_case hstep with
  | mission hstep =>
    unfold stepMission at hstep
    cases hm : s.link.mission <;> simp only [hm] at hstep
    case running msg => exact stepWork_state hm hc hstep
    case release =>
      obtain ⟨l, -, rfl⟩ := Option.map_eq_some_iff.mp hstep
      constructor
      · intro h
        cases h
      · intro h
        cases h
    all_goals
      obtain ⟨l, -, rfl⟩ := Option.map_eq_some_iff.mp hstep
      exact ⟨id, id⟩
  | udp hstep =>
    obtain ⟨t, ht, -, rfl⟩ := stepUdp_case hstep
    have hstate : t.state = s.state := by
      rcases ht with rfl | ⟨pc, ht⟩
      · rfl
      · exact (stopPart_frame ht).2.1
    exact ⟨fun h => hstate ▸ h, fun h => hstate ▸ h⟩
  | control io =>
    unfold stepControl
    split <;> exact ⟨id, id⟩
  | worker | stored | forwarded => exact ⟨id, id⟩
  | cleaner _ _ hstep =>
    obtain ⟨c, -, rfl⟩ := cleanerStep_some hstep
    exact ⟨id, id⟩

/-- **Where a motion fault holds the mission up.** Under every order of the threads' steps that are
timely: once the motion module has latched a fault of its own since the mission cleared it, no step
enters CLEANING or RETURN_HOME, and no final report is DONE. -/
theorem fault_holds (h : machine.Reach Timely s) (hstep : machine.step s i = some s')
    (hf : s.drive.faulted = true) :
    (s'.state = .cleaning → s.state = .cleaning) ∧
      (s'.state = .returnHome → s.state = .returnHome) ∧
      ∀ report, s'.link.finals = s.link.finals ++ [report] → report.cmd ≠ .done := by
  have hstep : s.step i = some s' := hstep
  have hc : s.committed = false := by
    by_contra hc
    exact Bool.noConfusion (((watched_of_reach h).spared (by simpa using hc)).symm.trans hf)
  obtain ⟨hclean, hhome⟩ := step_state hc hstep
  refine ⟨hclean, hhome, fun report hreport hdone => ?_⟩
  have hinv := inv_of_reach h
  have hnot : s'.link.finals ≠ s.link.finals := by simp [hreport]
  rcases step_link hstep with he | ⟨j, hj⟩
  · exact hnot (by rw [he])
  rcases Link.step_finals hinv.link hj with he | ⟨msg, done, hm, hfinals⟩
  · exact hnot he
  obtain rfl : report = msg.report done :=
    (List.cons.inj (List.append_cancel_left (hreport.symm.trans hfinals))).1
  cases done with
  | false => cases hdone
  | true =>
    rcases hm with ⟨dst, hm⟩ | hm
    · rw [committed, hm] at hc
      cases hc
    · rw [committed, hm] at hc
      cases hc

def pwmFails (now : Tick) : AppIo := { now := now, motion := { pwm := { leftSet := -RT_ERROR } } }

/-- The control thread once around its loop, on the line. -/
def lineAt (now : Tick) : List Input :=
  [.control { now := now, line := (60, 60) }, .control { now := now }]

/-- A path is finished, and the PWM fails in the `hcics_motion_set_target_direct` after it. -/
def ignoredRun : List Input := navRun ++ missionAt 2760 3 ++ [.mission (pwmFails 2760)]

/-- A path is finished, and while the wheels ramp down the encoders fail for the 20th time. -/
def silentRun : List Input :=
  faultRun ++ nodeAt 1000 ++ missionAt 1000 12 ++ (List.replicate 17 (lineAt 1000)).flatten ++
    loopAt 1000 ++ loopAt 1500 ++ loopAt 2250 ++ nodeAt 2700 ++ loopAt 2750

/-- The PWM fails in the last 50 ms of the parked delay. -/
def lateRun : List Input :=
  navRun ++ missionAt 2760 14 ++
    [.control { now := 3240 }, .control (pwmFails 3240), .control { now := 3240 }]

def ignored : App := (machine.exec boot ignoredRun).get (by decide +kernel)
def ignoredOn : App := (machine.exec ignored (missionAt 3260 11)).get (by decide +kernel)
def silenced : App := (machine.exec boot silentRun).get (by decide +kernel)
def silencedOn : App := (machine.exec silenced (missionAt 3260 15)).get (by decide +kernel)
def late : App := (machine.exec boot lateRun).get (by decide +kernel)
def lateOn : App := (machine.exec late (missionAt 3260 1)).get (by decide +kernel)

/-- A PWM failure whose result the mission ignores, an encoder failure that the update does not
report, and a PWM failure after the last test: each time the mission goes on to CLEANING. -/
theorem fault_missed :
    (machine.Reach Machine.free ignored ∧ ignored.drive.faulted = true ∧ ignored.state = .parked ∧
      machine.exec ignored (missionAt 3260 11) = some ignoredOn ∧ ignoredOn.state = .cleaning) ∧
    (machine.Reach Machine.free silenced ∧ silenced.drive.faulted = true ∧
      silenced.drive.motion.stopReason = 0xE2 ∧ silenced.state = .navToFault ∧
      machine.exec silenced (missionAt 3260 15) = some silencedOn ∧ silencedOn.state = .cleaning) ∧
    (machine.Reach Machine.free late ∧ late.drive.faulted = true ∧ late.drive.motionFault = true ∧
      late.state = .parked ∧ machine.exec late (missionAt 3260 1) = some lateOn ∧
      lateOn.state = .cleaning) :=
  ⟨⟨.get boot_start _, by decide +kernel, by decide +kernel, (Option.some_get _).symm,
      by decide +kernel⟩,
    ⟨.get boot_start _, by decide +kernel, by decide +kernel, by decide +kernel,
      (Option.some_get _).symm, by decide +kernel⟩,
    ⟨.get boot_start _, by decide +kernel, by decide +kernel, by decide +kernel,
      (Option.some_get _).symm, by decide +kernel⟩⟩

/-- The PWM fails in a control thread update on the way to the panel. -/
def earlyRun : List Input :=
  faultRun ++ nodeAt 1000 ++ missionAt 1000 12 ++ lineAt 1000 ++
    [.control { now := 1020, line := (60, 60) }, .control (pwmFails 1020)]

def early : App := (machine.exec boot earlyRun).get (by decide +kernel)

/-- The mission does not go on from there. -/
theorem fault_holds_early :
    early.drive.faulted = true ∧ ∀ i s', machine.step early i = some s' →
      (s'.state = .cleaning → early.state = .cleaning) ∧
        (s'.state = .returnHome → early.state = .returnHome) ∧
        ∀ report, s'.link.finals = early.link.finals ++ [report] → report.cmd ≠ .done := by
  have hf : early.drive.faulted = true := by decide +kernel
  have hreach : machine.Reach Timely early :=
    ⟨boot, boot_start, .of_exec earlyRun (Option.some_get _).symm (by decide +kernel)⟩
  exact ⟨hf, fun i s' hstep => fault_holds hreach hstep hf⟩

end App

end Hcics
