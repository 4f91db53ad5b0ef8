import Hcics.App.Missions

/-!
# A report DONE is truthful

A mission learns of its progress by polling what other threads write. `Stage` says, for every place of
the mission, what its modules have achieved since it began: a path that is finished was started by this
mission, and a cleaner that is DONE was verified in the run this mission started.
-/

namespace Hcics.App

/-- The panel a path of the mission leads to. -/
def panel (msg : Msg) : Phase → UInt8
  | .nav => msg.fault.id
  | .home => Track.targetHome

/-- What a mission has achieved once its cleaner run `run` was verified. -/
def cleaned (msg : Msg) (run : Nat) : List Event :=
  [.pathFinished msg.fault.id true, .cleanerStarted run, .cleanerVerified run]

/-- What a mission that is done has achieved, in this order. -/
def achieved (msg : Msg) (run : Nat) : List Event :=
  cleaned msg run ++ [.pathFinished Track.targetHome true]

/-- What was achieved before the path of a phase. -/
def Before (trace : List Event) (msg : Msg) : Phase → Prop
  | .nav => True
  | .home => ∃ run, (cleaned msg run).Sublist trace

/-- What is achieved once the path of a phase is finished. -/
def After (trace : List Event) (msg : Msg) : Phase → Prop
  | .nav => [.pathFinished msg.fault.id true].Sublist trace
  | .home => ∃ run, (achieved msg run).Sublist trace

/-- The path of a phase is the one that is followed, and if it is finished that is on record. -/
structure OnPath (s : App) (msg : Msg) (phase : Phase) : Prop where
  before : Before s.trace msg phase
  destination : s.track.plannedPath.destination = panel msg phase
  finished : s.track.finished = true → After s.trace msg phase

/-- The cleaner run of the mission is on, and if it was verified that is on record. -/
structure Cleaning (s : App) (msg : Msg) : Prop where
  started : [.pathFinished msg.fault.id true, .cleanerStarted s.cleaner.cleaner.starts].Sublist s.trace
  verified : s.cleaner.cleaner.starts ∈ s.cleaner.cleaner.verified →
    (cleaned msg s.cleaner.cleaner.starts).Sublist s.trace

/-- What holds at a place of the mission. -/
def Stage (s : App) (msg : Msg) : WorkPc → Prop
  | .waitCamera phase _ | .cameraRecent phase _ | .startPath phase => Before s.trace msg phase
  | .follow phase _ | .faultTest phase _ _ | .finishedTest phase _ _ | .status phase _ _
  | .cameraLost phase _ _ => OnPath s msg phase
  | .zeroFinished phase => After s.trace msg phase
  | .parked _ | .startCleaner => After s.trace msg .nav
  | .clean _ | .cleanStatus _ => Cleaning s msg
  | .setReturn => Before s.trace msg .home
  | .endStop true | .endReset true _ | .endZero true | .endState true => After s.trace msg .home
  | _ => True

/-- What holds wherever the mission thread is. -/
def Truthful (s : App) : Prop :=
  match s.link.mission with
  | .running msg => Stage s msg s.work
  | .report msg true | .reportSend msg true _ | .reportStore msg true | .release msg true =>
    After s.trace msg .home
  | _ => True

variable {s s' : App} {io : AppIo} {msg : Msg}

/-! ## Progress -/

theorem Before.mono {trace trace' more : List Event} {phase : Phase} (h : Before trace msg phase)
    (ht : trace' = trace ++ more) : Before trace' msg phase := by
  subst ht
  cases phase with
  | nav => trivial
  | home =>
    obtain ⟨run, h⟩ := h
    exact ⟨run, h.trans (List.sublist_append_left _ _)⟩

theorem After.mono {trace trace' more : List Event} {phase : Phase} (h : After trace msg phase)
    (ht : trace' = trace ++ more) : After trace' msg phase := by
  subst ht
  cases phase with
  | nav => exact List.Sublist.trans h (List.sublist_append_left _ _)
  | home =>
    obtain ⟨run, h⟩ := h
    exact ⟨run, h.trans (List.sublist_append_left _ _)⟩

theorem Before.finish {trace : List Event} {phase : Phase} (h : Before trace msg phase) :
    After (trace ++ [.pathFinished (panel msg phase) true]) msg phase := by
  cases phase with
  | nav => exact List.sublist_append_right _ _
  | home =>
    obtain ⟨run, h⟩ := h
    exact ⟨run, h.append (List.Sublist.refl _)⟩

theorem OnPath.tick {phase : Phase} (h : OnPath s msg phase) (hinv : s.track.PlanInv) (now : UInt32)
    (line : Int16 × Int16) {d : Drive} {pc : ControlPc} :
    OnPath { s with
      track := (s.track.tick now line).1
      drive := d
      control := pc
      trace := s.trace ++ trackEvents s.track (s.track.tick now line).1 } msg phase := by
  obtain ⟨-, -, hplan, -⟩ := tick_frame (t := s.track) now line
  refine ⟨h.before.mono rfl, (congrArg TrackPath.destination hplan).trans h.destination, fun hf' => ?_⟩
  cases hf : s.track.finished with
  | true => exact (h.finished hf).mono rfl
  | false =>
    obtain ⟨hbegun, -, -⟩ := Track.tick_finishes hinv hf hf'
    have hevents : trackEvents s.track (s.track.tick now line).1 =
        [.pathFinished (panel msg phase) true] := by
      have hf' : (s.track.tick now line).1.finished = true := hf'
      simp [trackEvents, hf, hf', hplan, hbegun, h.destination]
    dsimp only
    rw [hevents]
    exact h.before.finish

theorem Cleaning.worker (h : Cleaning s msg) {c : CleanerSys} (hstarts : c.cleaner.starts = s.cleaner.cleaner.starts) :
    Cleaning { s with
      cleaner := c
      trace := s.trace ++ workerEvents s.cleaner.cleaner c.cleaner } msg := by
  refine ⟨?_, fun hv => ?_⟩
  · dsimp only
    rw [hstarts]
    exact h.started.trans (List.sublist_append_left _ _)
  · dsimp only at hv ⊢
    rw [hstarts] at hv ⊢
    by_cases hsame : s.cleaner.cleaner.verified = c.cleaner.verified
    · exact (h.verified (hsame ▸ hv)).trans (List.sublist_append_left _ _)
    · rw [workerEvents, if_neg hsame, hstarts]
      exact h.started.append (List.Sublist.refl _)

/-! ## The other threads -/

theorem Stage.mono {pc : WorkPc} (h : Stage s msg pc) {more : List Event}
    (ht : s'.trace = s.trace ++ more) (hpath : ∀ phase, OnPath s msg phase → OnPath s' msg phase)
    (hclean : Cleaning s msg → Cleaning s' msg) : Stage s' msg pc := by
  cases pc with
  | waitCamera | cameraRecent | startPath => exact Before.mono h ht
  | setReturn => exact (Before.mono h ht : Before s'.trace msg .home)
  | follow | faultTest | finishedTest | status | cameraLost => exact hpath _ h
  | zeroFinished => exact After.mono h ht
  | parked | startCleaner => exact (After.mono h ht : After s'.trace msg .nav)
  | clean | cleanStatus => exact hclean h
  | endStop done | endReset done | endZero done | endState done =>
    cases done
    · trivial
    · exact (After.mono h ht : After s'.trace msg .home)
  | _ => trivial

theorem Truthful.mono (h : Truthful s) (hm : s'.link.mission = s.link.mission)
    (hw : s'.work = s.work) {more : List Event} (ht : s'.trace = s.trace ++ more)
    (hpath : ∀ msg phase, OnPath s msg phase → OnPath s' msg phase)
    (hclean : ∀ msg, Cleaning s msg → Cleaning s' msg) : Truthful s' := by
  unfold Truthful at h ⊢
  rw [hm, hw]
  cases hlink : s.link.mission with
  | recv => trivial
  | running msg =>
    rw [hlink] at h
    exact Stage.mono h ht (hpath msg) (hclean msg)
  | report msg done | reportSend msg done | reportStore msg done | release msg done =>
    rw [hlink] at h
    cases done
    · trivial
    · exact (After.mono h ht : After s'.trace msg .home)

/-- The mission makes no difference to the path it follows and the cleaner run it waits for. -/
theorem OnPath.congr {phase : Phase} (h : OnPath s msg phase) (ht : s'.trace = s.trace)
    (hd : s'.track.plannedPath = s.track.plannedPath)
    (hf : s'.track.finished = true → s.track.finished = true) : OnPath s' msg phase :=
  ⟨ht ▸ h.before, hd ▸ h.destination, fun hf' => ht ▸ h.finished (hf hf')⟩

theorem Cleaning.congr (h : Cleaning s msg) (ht : s'.trace = s.trace)
    (hs : s'.cleaner.cleaner.starts = s.cleaner.cleaner.starts)
    (hv : s'.cleaner.cleaner.verified = s.cleaner.cleaner.verified) : Cleaning s' msg := by
  refine ⟨?_, fun hmem => ?_⟩
  · rw [hs, ht]
    exact h.started
  · rw [hs, hv] at hmem
    rw [hs, ht]
    exact h.verified hmem

theorem Truthful.cleanerStep (h : Truthful s) {i : CleanerSys.Input} (hworker : ∀ io, i ≠ .worker io)
    (hstart : ∀ maxCycles, i ≠ .start maxCycles) (hstep : s.cleanerStep i = some s') :
    Truthful s' := by
  obtain ⟨c, hc, rfl⟩ := cleanerStep_some hstep
  obtain ⟨hs, hv⟩ := CleanerSys.step_history hworker hstart hc
  exact h.mono rfl rfl (List.append_nil _).symm
    (fun _ _ hp => hp.congr rfl rfl id) fun _ hcl => hcl.congr rfl hs hv

theorem stepControl_truthful (hinv : Inv s) (h : Truthful s) (io : AppIo) :
    Truthful (s.stepControl io) := by
  unfold stepControl
  split
  · exact h.mono rfl rfl rfl (fun _ _ hp => hp.tick hinv.plan _ _)
      fun _ hcl => ⟨hcl.started.trans (List.sublist_append_left _ _),
        fun hv => (hcl.verified hv).trans (List.sublist_append_left _ _)⟩
  · exact h.mono rfl rfl (List.append_nil _).symm (fun _ _ hp => hp.congr rfl rfl id)
      fun _ hcl => hcl.congr rfl rfl rfl
  · exact h.mono rfl rfl (List.append_nil _).symm (fun _ _ hp => hp.congr rfl rfl id)
      fun _ hcl => hcl.congr rfl rfl rfl

theorem stopPart_truthful (hinv : Inv s) (h : Truthful s) {pc : StopPc}
    (hstep : s.stopPart io pc = some s') : Truthful s' := by
  cases pc <;> simp only [stopPart] at hstep
  case abort | motion =>
    obtain rfl := Option.some.inj hstep
    exact h.mono rfl rfl (List.append_nil _).symm (fun _ _ hp => hp.congr rfl rfl id)
      fun _ hcl => hcl.congr rfl rfl rfl
  case track =>
    obtain rfl := Option.some.inj hstep
    obtain ⟨-, -, -, hf, -⟩ := stop_track hinv
    have hplan : s.track.stop.1.plannedPath = s.track.plannedPath := by
      unfold Track.stop
      split <;> rfl
    refine h.mono rfl rfl (List.append_nil _).symm (fun _ _ hp => hp.congr rfl hplan fun hf' => ?_)
      fun _ hcl => hcl.congr rfl rfl rfl
    exact Bool.noConfusion (hf.symm.trans hf')
  case cleaner | cleanerOutputs => exact h.cleanerStep (by simp) (by simp) hstep

theorem stepUdp_truthful (hinv : Inv s) (h : Truthful s) (hstep : s.stepUdp io = some s') :
    Truthful s' := by
  obtain ⟨t, ht, hl, rfl⟩ := stepUdp_case hstep
  have htruthful : Truthful t := by
    rcases ht with rfl | ⟨pc, ht⟩
    · exact h
    · exact stopPart_truthful hinv h ht
  exact htruthful.mono (by rw [Link.stepUdp_mission, hl]) rfl (List.append_nil _).symm
    (fun _ _ hp => hp.congr rfl rfl id) fun _ hcl => hcl.congr rfl rfl rfl

/-! ## The mission -/

theorem panel_target (h : faultIsValid msg.fault = true) (phase : Phase) :
    target msg phase = panel msg phase := by
  cases phase with
  | home => rfl
  | nav =>
    have hrange : Track.targetMin ≤ msg.fault.id ∧ msg.fault.id ≤ Track.targetMax := by
      unfold faultIsValid faultIdToGrid at h
      by_contra hout
      rw [if_pos] at h
      · cases h
      · unfold Track.targetMin Track.targetMax at hout
        grind
    simp [target, panel, h, hrange.1, hrange.2]

theorem planPath_destination {location targetId : UInt8} {p : TrackPath}
    (h : Track.planPath location targetId = (p, RT_EOK)) : p.destination = targetId := by
  rcases Track.planPath_spec h with ⟨rfl, -, rfl⟩ | ⟨rfl, row, col, -, rfl⟩ | ⟨row, col, -, rfl⟩ <;>
    rfl

/-- The path that the mission starts is the one of its phase, and is not finished. -/
theorem Before.start {phase : Phase} (h : Before s.trace msg phase)
    (hvalid : faultIsValid msg.fault = true) {nowMs : UInt32} {pc : WorkPc}
    (hres : (s.track.startPath (target msg phase) nowMs).2 = RT_EOK) :
    OnPath { s with track := (s.track.startPath (target msg phase) nowMs).1, work := pc } msg phase := by
  obtain ⟨-, -, p, hplan, he⟩ := Track.startPath_ok hres
  refine ⟨h, ?_, fun hf => ?_⟩
  · dsimp only
    rw [he]
    exact (planPath_destination hplan).trans (panel_target hvalid phase)
  · dsimp only at hf
    rw [he] at hf
    cases hf

theorem start_history {c : Cleaner} {maxCycles : UInt8} (hres : (c.start maxCycles).2 = RT_EOK) :
    (c.start maxCycles).1.starts = c.starts + 1 ∧ (c.start maxCycles).1.verified = c.verified := by
  unfold Cleaner.start at hres ⊢
  split
  · rename_i hb
    simp [hb] at hres
  · rename_i hb
    rw [if_neg hb] at hres
    dsimp only at hres ⊢
    split
    · rename_i hfull
      simp [hfull] at hres
    · exact ⟨rfl, rfl⟩

theorem step_start {c c' : CleanerSys} {maxCycles : UInt8}
    (hstep : c.step (.start maxCycles) = some c') : c'.cleaner = (c.cleaner.start maxCycles).1 := by
  simp only [CleanerSys.step] at hstep
  split at hstep
  · exact Option.some.inj hstep ▸ rfl
  · cases hstep

theorem Cleaning.begin (h : After s.trace msg .nav) (hinv : Inv s) {c : CleanerSys} {pc : WorkPc}
    (hc : s.cleaner.step (.start cleanMaxCycles) = some c)
    (hres : (s.cleaner.cleaner.start cleanMaxCycles).2 = RT_EOK) :
    Cleaning { s with
      cleaner := c
      trace := s.trace ++ [.cleanerStarted c.cleaner.starts]
      work := pc } msg := by
  obtain ⟨hstarts, hverified⟩ := start_history hres
  rw [← step_start hc] at hstarts hverified
  refine ⟨List.Sublist.append h (List.Sublist.refl _), fun hmem => ?_⟩
  dsimp only at hmem
  rw [hstarts, hverified] at hmem
  have := hinv.cleaner.run.known _ hmem
  omega

theorem cleanerReset_trace {next : ResetPart → WorkPc} {after : WorkPc} {part : ResetPart}
    (hstep : s.cleanerReset io next after part = some s') :
    s'.trace = s.trace ∧ s'.link = s.link ∧
      (s'.work = s.work ∨ s'.work = next .outputs ∨ s'.work = next .wait ∨ s'.work = after) := by
  rcases cleanerReset_case hstep with rfl | ⟨i, c, pc, -, -, hpc, rfl⟩
  · exact ⟨rfl, rfl, .inl rfl⟩
  · exact ⟨rfl, rfl, .inr hpc⟩

theorem followWait_stage {phase : Phase} (h : OnPath s msg phase) (startMs nowMs : UInt32) :
    Stage (s.followWait phase startMs nowMs) msg (s.followWait phase startMs nowMs).work := by
  unfold followWait
  split
  · trivial
  · exact h.congr rfl rfl id

theorem endReset_stage (hm : s.link.mission = .running msg) {done : Bool} {part : ResetPart}
    (hw : s.work = .endReset done part) (h : Stage s msg (.endReset done part))
    (hstep : s.cleanerReset io (.endReset done) (.endZero done) part = some s') :
    s'.link.mission = .running msg ∧ Stage s' msg s'.work := by
  obtain ⟨ht, hl, hpc⟩ := cleanerReset_trace hstep
  refine ⟨hl ▸ hm, ?_⟩
  rcases hpc with hpc | hpc | hpc | hpc <;> rw [hpc] <;> (try rw [hw]) <;> cases done <;>
    first
      | trivial
      | exact (After.mono h (ht.trans (List.append_nil _).symm) : After s'.trace msg .home)

/-- The cleaner publishes DONE for a run of its own only, and after its verification. -/
theorem cleanStatus_stage (hinv : Inv s) (hm : s.link.mission = .running msg) {startMs : UInt32}
    (hw : s.work = .cleanStatus startMs) (h : Cleaning s msg) (hstep : s.stepWork msg io = some s') :
    s'.link.mission = .running msg ∧ Stage s' msg s'.work := by
  simp only [stepWork, hw] at hstep
  split at hstep <;> obtain rfl := Option.some.inj hstep
  · rename_i hstate
    split
    · exact ⟨hm, trivial⟩
    · exact ⟨hm, _, h.verified (hinv.cleaner.run.done hstate)⟩
  · exact ⟨hm, trivial⟩
  · exact ⟨hm, trivial⟩
  · split
    · exact ⟨hm, trivial⟩
    · exact ⟨hm, h.congr rfl rfl rfl⟩

/-- Every step of the mission either stays in it or comes to the final report. -/
theorem stepWork_stage (hinv : Inv s) (hm : s.link.mission = .running msg) (h : Stage s msg s.work)
    (hstep : s.stepWork msg io = some s') :
    (s'.link.mission = .running msg ∧ Stage s' msg s'.work) ∨
      ∃ done, s'.link.mission = .report msg done ∧ (done = true → After s'.trace msg .home) := by
  have hvalid : faultIsValid msg.fault = true :=
    hinv.link.valid msg (by simp [Link.openMissions, hm, MissionPc.current])
  cases hw : s.work <;> rw [hw] at h
  case cleanStatus => exact .inl (cleanStatus_stage hinv hm hw h hstep)
  all_goals simp only [stepWork, hw] at hstep
  case endState done =>
    obtain rfl := Option.some.inj hstep
    refine .inr ⟨done, by simp [Link.finish, hm], fun hd => ?_⟩
    subst hd
    exact h
  all_goals refine .inl ?_
  case begin | clearStop | resetMotion | zeroFailed | stopPath =>
    obtain rfl := Option.some.inj hstep
    exact ⟨hm, trivial⟩
  case snapshot | navigate =>
    split at hstep <;> obtain rfl := Option.some.inj hstep <;> exact ⟨hm, trivial⟩
  case reset part =>
    obtain ⟨ht, hl, hpc⟩ := cleanerReset_trace hstep
    refine ⟨hl ▸ hm, ?_⟩
    rcases hpc with hpc | hpc | hpc | hpc <;> rw [hpc]
    · rw [hw]; trivial
    all_goals trivial
  case endReset done part => exact endReset_stage hm hw h hstep
  case waitCamera phase startMs =>
    obtain rfl := Option.some.inj hstep
    split
    · exact ⟨hm, trivial⟩
    · exact ⟨hm, h⟩
  case cameraRecent phase startMs =>
    obtain rfl := Option.some.inj hstep
    split
    · exact ⟨hm, h⟩
    · split
      · exact ⟨hm, trivial⟩
      · exact ⟨hm, h⟩
  case startPath phase =>
    obtain rfl := Option.some.inj hstep
    split
    · exact ⟨hm, trivial⟩
    · rename_i hres
      exact ⟨hm, h.start hvalid (not_not.mp hres)⟩
  case follow | faultTest =>
    obtain rfl := Option.some.inj hstep
    split
    · exact ⟨hm, trivial⟩
    · exact ⟨hm, h.congr rfl rfl id⟩
  case finishedTest phase startMs nowMs =>
    obtain rfl := Option.some.inj hstep
    split
    · rename_i hfin
      exact ⟨hm, h.finished (by simpa [Track.isFinished, hinv.tracker.1] using hfin)⟩
    · exact ⟨hm, h.congr rfl rfl id⟩
  case status phase startMs nowMs =>
    obtain rfl := Option.some.inj hstep
    split
    · exact ⟨hm, h.congr rfl rfl id⟩
    · exact ⟨by unfold followWait; split <;> exact hm, followWait_stage h _ _⟩
  case cameraLost phase startMs nowMs =>
    obtain rfl := Option.some.inj hstep
    split
    · exact ⟨by unfold followWait; split <;> exact hm, followWait_stage h _ _⟩
    · exact ⟨hm, trivial⟩
  case zeroFinished phase =>
    cases phase <;> obtain rfl := Option.some.inj hstep <;> exact ⟨hm, h⟩
  case parked left =>
    obtain rfl := Option.some.inj hstep
    split
    · exact ⟨hm, h⟩
    · split
      · exact ⟨hm, trivial⟩
      · exact ⟨hm, h⟩
  case startCleaner =>
    obtain ⟨t, ht, rfl⟩ := Option.map_eq_some_iff.mp hstep
    obtain ⟨c, hc, rfl⟩ := cleanerStep_some ht
    split
    · rename_i hres
      exact ⟨hm, Cleaning.begin h hinv hc (by simpa using hres)⟩
    · exact ⟨hm, trivial⟩
  case clean startMs =>
    obtain rfl := Option.some.inj hstep
    split
    · exact ⟨hm, trivial⟩
    · exact ⟨hm, h.congr rfl rfl rfl⟩
  case stopCleaner | stopCleanerOutputs =>
    obtain ⟨t, ht, rfl⟩ := Option.map_eq_some_iff.mp hstep
    obtain ⟨c, hc, rfl⟩ := cleanerStep_some ht
    exact ⟨hm, trivial⟩
  case setReturn =>
    obtain rfl := Option.some.inj hstep
    exact ⟨hm, h⟩
  case endStop done | endZero done =>
    obtain rfl := Option.some.inj hstep
    cases done <;> exact ⟨hm, h⟩

theorem stepMission_truthful (hinv : Inv s) (h : Truthful s) (hstep : s.stepMission io = some s') :
    Truthful s' := by
  unfold Truthful at h
  unfold stepMission at hstep
  cases hm : s.link.mission <;> simp only [hm] at hstep h
  case running msg =>
    rcases stepWork_stage hinv hm h hstep with ⟨hm', h'⟩ | ⟨done, hm', h'⟩
    · unfold Truthful
      rw [hm']
      exact h'
    · unfold Truthful
      rw [hm']
      cases done
      · trivial
      · exact h' rfl
  case recv =>
    obtain ⟨l, hl, rfl⟩ := Option.map_eq_some_iff.mp hstep
    simp only [Link.stepMission, hm] at hl
    split at hl
    · cases hl
    · obtain rfl := Option.some.inj hl
      unfold Truthful
      dsimp only
      split_ifs <;> trivial
  case report msg done =>
    obtain ⟨l, hl, rfl⟩ := Option.map_eq_some_iff.mp hstep
    simp only [Link.stepMission, hm] at hl
    obtain rfl := Option.some.inj hl
    cases done
    · trivial
    · exact h
  case reportSend msg done dst =>
    obtain ⟨l, hl, rfl⟩ := Option.map_eq_some_iff.mp hstep
    simp only [Link.stepMission, hm] at hl
    split at hl <;> obtain rfl := Option.some.inj hl
    · cases done
      · trivial
      · exact h
    · cases done
      · trivial
      · exact h
  case reportStore msg done =>
    obtain ⟨l, hl, rfl⟩ := Option.map_eq_some_iff.mp hstep
    simp only [Link.stepMission, hm] at hl
    obtain rfl := Option.some.inj hl
    cases done
    · trivial
    · exact h
  case release msg done =>
    obtain ⟨l, hl, rfl⟩ := Option.map_eq_some_iff.mp hstep
    simp only [Link.stepMission, hm] at hl
    obtain rfl := Option.some.inj hl
    trivial

theorem step_truthful {i : Input} (hinv : Inv s) (h : Truthful s) (hstep : s.step i = some s') :
    Truthful s' := by
  cases step_case hstep with
  | mission hstep => exact stepMission_truthful hinv h hstep
  | udp hstep => exact stepUdp_truthful hinv h hstep
  | control io => exact stepControl_truthful hinv h io
  | worker hc =>
    obtain ⟨k, hk, rfl⟩ := Option.map_eq_some_iff.mp hc
    obtain ⟨hstarts, -, -⟩ := CleanerSys.worker_history hinv.cleaner.run hk
    exact h.mono rfl rfl rfl (fun _ _ hp => ⟨hp.before.mono rfl, hp.destination, fun hf => (hp.finished hf).mono rfl⟩)
      fun _ hcl => hcl.worker hstarts
  | stored frame =>
    exact h.mono rfl rfl (List.append_nil _).symm (fun _ _ hp => hp.congr rfl rfl id)
      fun _ hcl => hcl.congr rfl rfl rfl
  | forwarded frame =>
    rw [Track.updateCamera_eq]
    exact h.mono rfl rfl (List.append_nil _).symm (fun _ _ hp => hp.congr rfl rfl id)
      fun _ hcl => hcl.congr rfl rfl rfl
  | cleaner hworker hstart hstep => exact h.cleanerStep hworker hstart hstep

theorem truthful_of_reach {ok : App → Input → Prop} (h : machine.Reach ok s) : Truthful s := by
  refine h.inv ?_ fun _ _ _ hr hs _ hstep => step_truthful (inv_of_reach hr) hs hstep
  rintro _ ⟨pins, io, -, rfl⟩
  trivial

/-- **DONE is truthful.** Whatever the earlier missions and the other threads did: when a final report
is DONE with an id, its mission has, since it began and in this order, finished a path to that panel
after beginning every step of it, started a cleaner run, seen that run verified clear, and finished a
path home after beginning every step of it. -/
theorem done_truthful {i : Input} {report : Report} (h : machine.Reach Machine.free s)
    (hstep : machine.step s i = some s') (hreport : s'.link.finals = s.link.finals ++ [report])
    (hdone : report.cmd = .done) :
    ∃ run, [.pathFinished report.param true, .cleanerStarted run, .cleanerVerified run,
      .pathFinished Track.targetHome true].Sublist s.trace := by
  have hnot : s'.link.finals ≠ s.link.finals := by simp [hreport]
  rcases step_link hstep with he | ⟨j, hj⟩
  · exact absurd (by rw [he]) hnot
  rcases Link.step_finals (inv_of_reach h).link hj with he | ⟨msg, done, hm, hfinals⟩
  · exact absurd he hnot
  obtain rfl : report = msg.report done :=
    (List.cons.inj (List.append_cancel_left (hreport.symm.trans hfinals))).1
  cases done with
  | false => cases hdone
  | true =>
    have htruthful := truthful_of_reach h
    unfold Truthful at htruthful
    rcases hm with ⟨dst, hm⟩ | hm
    · rw [hm] at htruthful
      exact htruthful
    · rw [hm] at htruthful
      exact htruthful

/-- The clean camera sees a stain, or none. -/
def stainAt (tick : Tick) : List Input := [.cleanCamera ⟨2, 320, 350, 20, 1, tick⟩ tick]
def clearAt (tick : Tick) : List Input := [.cleanCamera ⟨2, 0, 0, 0, 0, tick⟩ tick]

/-- A wall in reach, and the worker's next `n` steps. -/
def workerAt (now : Tick) (n : Nat) : List Input :=
  .guard (CleanerSys.wall now) now :: List.replicate n (.worker { now := now })

/-- The cleaner aims, extends, sprays, scrubs, retracts and sees the panel clear. -/
def cleanRun : List Input :=
  stainAt 3300 ++ workerAt 3300 26 ++ workerAt 4200 1 ++ workerAt 6400 64 ++
    clearAt 8500 ++ workerAt 8500 1 ++ clearAt 9500 ++ workerAt 9500 1 ++
    clearAt 10300 ++ workerAt 10300 4

/-- The mission follows its path home. -/
def homeRun : List Input :=
  missionAt 10400 4 ++ nodeAt 10400 ++ missionAt 10400 2 ++ loopAt 10400 ++ loopAt 11600 ++
    nodeAt 12100 ++ loopAt 12100 ++ loopAt 13000 ++ nodeAt 13500 ++ loopAt 13500 ++
    nodeAt 14000 ++ loopAt 14000 ++ loopAt 14400

/-- A mission that is done, before its final report is sent. -/
def homed : App :=
  (machine.exec boot (navRun ++ missionAt 2760 16 ++ cleanRun ++ homeRun ++ missionAt 14500 11)).get
    (by decide +kernel)

/-- Its report is sent. -/
def reported : App := (machine.step homed (.mission {})).get (by decide +kernel)

/-- The report says DONE, and it is. -/
theorem done_truthful_panel1 :
    reported.link.finals = homed.link.finals ++ [panel1.report true] ∧
      ∃ run, [.pathFinished 1 true, .cleanerStarted run, .cleanerVerified run,
        .pathFinished Track.targetHome true].Sublist homed.trace := by
  have hreach : machine.Reach Machine.free homed := .get boot_start _
  have hstep : machine.step homed (.mission {}) = some reported := (Option.some_get _).symm
  have hreport : reported.link.finals = homed.link.finals ++ [panel1.report true] := by
    decide +kernel
  exact ⟨hreport, done_truthful hreach hstep hreport rfl⟩

end Hcics.App
