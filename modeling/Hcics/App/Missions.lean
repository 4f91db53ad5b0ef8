import Hcics.App.Spec
import Hcics.Cleaner.Simulation

/-!
# Missions of the application

Seen from the link, every step of the application is a step of the link or none: `step_link`. What
holds of the link under every order of its steps holds of the application. The same goes for the
cleaner: `step_cleaner`.
-/

namespace Hcics

namespace Link

/-- A final report is added where the mission thread sends or stores it, and nowhere else. -/
theorem step_finals {l l' : Link} {i : Input} (hinv : Inv l) (hstep : l.step i = some l') :
    l'.finals = l.finals ∨ ∃ msg done, ((∃ dst, l.mission = .reportSend msg done dst) ∨
      l.mission = .reportStore msg done) ∧ l'.finals = l.finals ++ [msg.report done] := by
  cases i with
  | udp io =>
    left
    cases udp_case hstep with
    | clear sock next report =>
      unfold clearPendingIfCurrent
      split <;> rfl
    | _ => rfl
  | finish done =>
    obtain ⟨msg, -, rfl⟩ := finish_case hstep
    exact .inl rfl
  | mission io =>
    cases stepMission_case hstep with
    | take | report | unsent | release => exact .inl rfl
    | sent msg done dst pc => exact .inr ⟨msg, done, .inl ⟨dst, pc⟩, rfl⟩
    | store msg done pc =>
      rw [(hinv.storePending pc _).2]
      exact .inr ⟨msg, done, .inr pc, rfl⟩

theorem step_pending {l l' : Link} {i : Input} (hinv : Inv l) (hstep : l.step i = some l')
    {report : Report} (hp : l.pending = some report) :
    l'.pending = some report ∨ l'.pending = none ∧ l'.finals = l'.delivered := by
  cases i with
  | udp io =>
    cases udp_case hstep with
    | clear sock next r pc =>
      have hr := hinv.flushing r (by rw [pc]; rfl)
      have hsent := hinv.sent
      rw [unsent, pc] at hsent
      right
      simpa [clearPendingIfCurrent, hr] using hsent
    | _ => exact .inl hp
  | finish done =>
    obtain ⟨msg, -, rfl⟩ := finish_case hstep
    exact .inl hp
  | mission io =>
    cases stepMission_case hstep with
    | store msg done pc =>
      rw [(hinv.storePending pc (msg.report done)).1] at hp
      cases hp
    | _ => exact .inl hp

theorem step_reserved {l l' : Link} {i : Input} (hinv : Inv l) (hstep : l.step i = some l')
    (hne : l'.reserved ≠ l.reserved) :
    l.busy = false ∧ l.pending = none ∧ l.unreported = [] ∧ l.finals = l.delivered := by
  cases i with
  | udp io =>
    cases udp_case hstep with
    | reserve sock msg pc busy pending =>
      have hopen : l.openMissions = [] := by
        by_contra hopen
        rw [hinv.busy.mpr hopen] at busy
        cases busy
      have hsent := hinv.sent
      rw [unsent, pc] at hsent
      refine ⟨busy, pending, ?_, by simpa [pending] using hsent⟩
      simp only [openMissions, List.append_eq_nil_iff] at hopen
      have hm : l.mission.unreported = [] := by
        cases hm : l.mission <;> simp_all [MissionPc.current, MissionPc.unreported]
      rw [unreported, hm, hopen.1.2, List.append_nil]
    | clear sock next report =>
      refine absurd ?_ hne
      unfold clearPendingIfCurrent
      split <;> rfl
    | _ => exact absurd rfl hne
  | finish done =>
    obtain ⟨msg, -, rfl⟩ := finish_case hstep
    exact absurd rfl hne
  | mission io => exact absurd (stepMission_frame hstep).2.1 hne

end Link

/-- A call of the cleaner's own interface: neither the worker's step nor the camera thread's. -/
def CleanerSys.Input.called : CleanerSys.Input → Bool
  | .worker _ | .updateCameraTarget _ _ => false
  | _ => true

/-- The mission's last place, at which it finishes. -/
def WorkPc.last : WorkPc → Bool
  | .endState _ => true
  | _ => false

theorem WorkPc.ne_endState {pc : WorkPc} (h : pc.last = false) (done : Bool) : pc ≠ .endState done := by
  rintro rfl
  exact Bool.noConfusion h

namespace App

variable {s s' : App} {io : AppIo} {msg : Msg}

/-! ## The application and its link -/

/-- What a step of the mission leaves alone, and what it can have done to the modules. -/
structure MissionStep (s s' : App) : Prop where
  latestTrack : s'.latestTrack = s.latestTrack
  trackFrame : s'.trackFrame = s.trackFrame
  track : s'.track = s.track ∨ s'.track = s.track.stop.1 ∨
    ∃ target now, s'.track = (s.track.startPath target now).1
  cleaner : s'.cleaner = s.cleaner ∨ ∃ i, (∀ io, i ≠ .worker io) ∧
    (∀ target now, i ≠ .updateCameraTarget target now) ∧ s.cleaner.Prompt i ∧
      s.cleaner.step i = some s'.cleaner
  link : s'.link = s.link ∨ ∃ done, s.work = .endState done ∧ s'.link = s.link.finish done
  work : ∀ done, s'.work = .endState done → s.work = .endZero done ∨ s.work = .endState done

theorem MissionStep.move {state : AppState} {d : Drive} {pc : WorkPc} {trace : List Event}
    (hpc : pc.last = false) :
    MissionStep s { s with state := state, drive := d, work := pc, trace := trace } where
  latestTrack := rfl
  trackFrame := rfl
  track := .inl rfl
  cleaner := .inl rfl
  link := .inl rfl
  work done h := absurd h (WorkPc.ne_endState hpc done)

theorem MissionStep.clean {c : CleanerSys} {pc : WorkPc} {trace : List Event} {i : CleanerSys.Input}
    (hc : s.cleaner.step i = some c) (hcall : i.called = true) (hprompt : s.cleaner.Prompt i)
    (hpc : pc.last = false) : MissionStep s { s with cleaner := c, work := pc, trace := trace } where
  latestTrack := rfl
  trackFrame := rfl
  track := .inl rfl
  cleaner := by
    refine .inr ⟨i, fun io h => ?_, fun target now h => ?_, hprompt, hc⟩ <;>
      rw [h] at hcall <;> exact Bool.noConfusion hcall
  link := .inl rfl
  work done h := absurd h (WorkPc.ne_endState hpc done)

theorem MissionStep.cleanerReset {next : ResetPart → WorkPc} {after : WorkPc} {part : ResetPart}
    (hstep : s.cleanerReset io next after part = some s') (hwork : s.work.last = false)
    (hnext : ∀ part, (next part).last = false) (hafter : after.last = false) :
    MissionStep s s' := by
  rcases cleanerReset_case hstep with rfl | ⟨i, c, pc, hi, hc, hpc, rfl⟩
  · exact ⟨rfl, rfl, .inl rfl, .inl rfl, .inl rfl, fun done hw => absurd hw (WorkPc.ne_endState hwork done)⟩
  · refine .clean hc ?_ ?_ ?_
    · rcases hi with rfl | rfl | rfl | ⟨rfl, -⟩ <;> rfl
    · rcases hi with rfl | rfl | rfl | ⟨rfl, hbusy⟩
      · trivial
      · trivial
      · trivial
      · exact hbusy
    · rcases hpc with rfl | rfl | rfl
      · exact hnext _
      · exact hnext _
      · exact hafter

theorem MissionStep.followWait (phase : Phase) (startMs nowMs : UInt32) :
    MissionStep s (s.followWait phase startMs nowMs) := by
  unfold App.followWait
  split <;> exact .move rfl

theorem MissionStep.trackStop (io : AppIo) {pc : WorkPc} (hpc : pc.last = false) :
    MissionStep s ((s.trackStop io).goto pc) where
  latestTrack := rfl
  trackFrame := rfl
  track := .inr (.inl rfl)
  cleaner := .inl rfl
  link := .inl rfl
  work done h := absurd h (WorkPc.ne_endState hpc done)

theorem MissionStep.startPath (target : UInt8) (now : UInt32) {pc : WorkPc}
    (hpc : pc.last = false) :
    MissionStep s { s with track := (s.track.startPath target now).1, work := pc } where
  latestTrack := rfl
  trackFrame := rfl
  track := .inr (.inr ⟨target, now, rfl⟩)
  cleaner := .inl rfl
  link := .inl rfl
  work done h := absurd h (WorkPc.ne_endState hpc done)

theorem stepWork_step (hstep : s.stepWork msg io = some s') : MissionStep s s' := by
  unfold stepWork at hstep
  cases hw : s.work <;> simp only [hw] at hstep
  case reset | endReset =>
    exact .cleanerReset hstep (hw ▸ rfl) (fun _ => rfl) rfl
  case startPath =>
    split at hstep <;> obtain rfl := Option.some.inj hstep
    · exact .startPath _ _ rfl
    · exact .startPath _ _ rfl
  case startCleaner =>
    obtain ⟨t, ht, rfl⟩ := Option.map_eq_some_iff.mp hstep
    obtain ⟨c, hc, rfl⟩ := cleanerStep_some ht
    split <;> exact .clean hc rfl trivial rfl
  case stopCleaner | stopCleanerOutputs =>
    obtain ⟨t, ht, rfl⟩ := Option.map_eq_some_iff.mp hstep
    obtain ⟨c, hc, rfl⟩ := cleanerStep_some ht
    exact .clean hc rfl trivial rfl
  case endState done =>
    obtain rfl := Option.some.inj hstep
    exact ⟨rfl, rfl, .inl rfl, .inl rfl, .inr ⟨done, hw, rfl⟩, fun _ h => .inr (hw.trans h)⟩
  case endZero done =>
    obtain rfl := Option.some.inj hstep
    refine ⟨rfl, rfl, .inl rfl, .inl rfl, .inl rfl, fun done' h => ?_⟩
    obtain rfl : done = done' := by simpa [App.goto] using h
    exact .inl hw
  case snapshot | navigate =>
    split at hstep <;> obtain rfl := Option.some.inj hstep <;> exact .move rfl
  case zeroFinished phase =>
    cases phase <;> obtain rfl := Option.some.inj hstep <;> exact .move rfl
  case cleanStatus =>
    split at hstep <;> obtain rfl := Option.some.inj hstep
    · split <;> exact .move rfl
    · exact .move rfl
    · exact .move rfl
    · split <;> exact .move rfl
  all_goals obtain rfl := Option.some.inj hstep
  case waitCamera | follow | faultTest | finishedTest | clean => split <;> exact .move rfl
  case cameraRecent | parked =>
    split
    · exact .move rfl
    · split <;> exact .move rfl
  case status =>
    split
    · exact .move rfl
    · exact .followWait _ _ _
  case cameraLost =>
    split
    · exact .followWait _ _ _
    · exact .move rfl
  case stopPath | endStop => exact .trackStop io rfl
  all_goals exact .move rfl

theorem stepWork_link (hstep : s.stepWork msg io = some s') :
    s'.link = s.link ∨ ∃ done, s'.link = s.link.finish done := by
  rcases (stepWork_step hstep).link with h | ⟨done, -, h⟩
  · exact .inl h
  · exact .inr ⟨done, h⟩

/-- Every step of the application is a step of its link, or leaves the link alone. -/
theorem step_link {i : Input} (hstep : s.step i = some s') :
    s'.link = s.link ∨ ∃ j, s.link.step j = some s'.link := by
  cases step_case hstep with
  | @mission io _ hstep =>
    rcases stepMission_case hstep with ⟨msg, hm, hstep⟩ | ⟨-, l, state, work, trace, hl, rfl⟩
    · rcases stepWork_link hstep with hl | ⟨done, hl⟩
      · exact .inl hl
      · exact .inr ⟨.finish done, by simp [Link.step, hm, hl]⟩
    · exact .inr ⟨.mission io.net, hl⟩
  | @udp io _ hstep =>
    obtain ⟨t, -, -, rfl⟩ := stepUdp_case hstep
    exact .inr ⟨.udp io.net, rfl⟩
  | control io =>
    left
    unfold stepControl
    split <;> rfl
  | worker | stored | forwarded => exact .inl rfl
  | cleaner _ _ hstep =>
    obtain ⟨c, -, rfl⟩ := cleanerStep_some hstep
    exact .inl rfl

theorem link_simulation (ok : App → Input → Prop) :
    machine.Simulation Link.machine ok Machine.free fun s l => s.link = l where
  start := by
    rintro _ ⟨pins, io, -, rfl⟩
    exact ⟨_, rfl, rfl⟩
  step := by
    rintro s i s' _ - rfl - hstep
    rcases step_link hstep with he | ⟨j, hj⟩
    · exact ⟨s.link, .refl, he⟩
    · exact ⟨s'.link, .single trivial hj, rfl⟩

theorem link_reach {ok : App → Input → Prop} (h : machine.Reach ok s) :
    Link.machine.Reach Machine.free s.link := by
  obtain ⟨l, hl, rfl⟩ := (link_simulation ok).reach h
  exact hl

/-! ## The application and its cleaner -/

theorem cleanerStep_prompt {j : CleanerSys.Input} (h : s.cleanerStep j = some s')
    (hprompt : s.cleaner.Prompt j) :
    ∃ j, s.cleaner.Prompt j ∧ s.cleaner.step j = some s'.cleaner := by
  obtain ⟨c, hc, rfl⟩ := cleanerStep_some h
  exact ⟨j, hprompt, hc⟩

theorem stopPart_cleaner {pc : StopPc} (hstep : s.stopPart io pc = some s') :
    s'.cleaner = s.cleaner ∨ ∃ j, s.cleaner.Prompt j ∧ s.cleaner.step j = some s'.cleaner := by
  cases pc <;> simp only [stopPart] at hstep
  case abort | track | motion => exact .inl (Option.some.inj hstep ▸ rfl)
  case cleaner | cleanerOutputs => exact .inr (cleanerStep_prompt hstep trivial)

/-- Every step of the application is a step of its cleaner, or leaves the cleaner alone. -/
theorem step_cleaner {i : Input} (hstep : s.step i = some s') :
    s'.cleaner = s.cleaner ∨ ∃ j, s.cleaner.Prompt j ∧ s.cleaner.step j = some s'.cleaner := by
  cases i with
  | mission io =>
    rcases stepMission_case hstep with ⟨msg, -, hstep⟩ | ⟨-, l, state, work, trace, -, rfl⟩
    · rcases (stepWork_step hstep).cleaner with hc | ⟨j, -, -, hj⟩
      · exact .inl hc
      · exact .inr ⟨j, hj⟩
    · exact .inl rfl
  | udp io =>
    obtain ⟨t, ht, -, rfl⟩ := stepUdp_case hstep
    rcases ht with rfl | ⟨pc, ht⟩
    · exact .inl rfl
    · have hcleaner := stopPart_cleaner ht
      exact hcleaner
  | control io =>
    obtain rfl := Option.some.inj hstep
    left
    unfold stepControl
    split <;> rfl
  | worker io =>
    obtain ⟨c, hc, rfl⟩ := Option.map_eq_some_iff.mp hstep
    exact .inr ⟨.worker io, trivial, hc⟩
  | trackCamera frame =>
    simp only [step] at hstep
    split at hstep
    · cases hstep
    · exact .inl (Option.some.inj hstep ▸ rfl)
  | trackForward =>
    obtain ⟨frame, -, rfl⟩ := Option.map_eq_some_iff.mp hstep
    exact .inl rfl
  | cleanCamera frame now | guard reading now | guardOutputs io =>
    exact .inr (cleanerStep_prompt hstep trivial)

theorem cleaner_simulation (ok : App → Input → Prop) :
    machine.Simulation CleanerSys.machine ok CleanerSys.Prompt fun s c => s.cleaner = c where
  start := by
    rintro _ ⟨pins, io, -, rfl⟩
    exact ⟨_, rfl, rfl⟩
  step := by
    rintro s i s' _ - rfl - hstep
    rcases step_cleaner hstep with he | ⟨j, hprompt, hj⟩
    · exact ⟨s.cleaner, .refl, he⟩
    · exact ⟨s'.cleaner, .single hprompt hj, rfl⟩

/-- In the application no start of the cleaner is lost or doubled, and while the cleaner is free its
outputs are safe. -/
theorem cleaner_single {ok : App → Input → Prop} (h : machine.Reach ok s) :
    let c := s.cleaner.cleaner
    c.startSem + c.worker.runPc.active ≤ (if c.busy then 1 else 0) ∧
      (c.busy = false → c.relayOn = false ∧ c.yPulseNs = Cleaner.ySafeNs ∧
        c.zPulseNs = Cleaner.zRetractNs) := by
  obtain ⟨c, hc, rfl⟩ := (cleaner_simulation ok).reach h
  exact CleanerSys.single_of_reach hc

/-! ## One mission at a time -/

/-- **One mission at a time, one report per fault.** In every reachable state at most one
reservation is open and `busy` is set exactly while one is; the final reports are those of the
accepted faults in their order, but for the one whose mission is queued or running, and each was
sent or is pending; no report was lost. A step takes a pending report away only once it is sent, and
reserves a fault only once every earlier result is. -/
theorem one_mission_one_report {s : App} (h : machine.Reach Machine.free s) :
    s.link.openMissions.length ≤ 1 ∧
    (s.link.busy = true ↔ s.link.openMissions ≠ []) ∧
    s.link.reserved = s.link.released ++ s.link.openMissions ∧
    s.link.finals.map Report.key ++ s.link.unreported.map Msg.key = s.link.accepted.map Msg.key ∧
    s.link.unreported.length ≤ 1 ∧
    s.link.lost = [] ∧
    (∃ unsent, s.link.finals = s.link.delivered ++ unsent ∧
      (unsent = [] ∨ ∃ report, unsent = [report] ∧ s.link.pending = some report)) ∧
    ∀ i s', machine.step s i = some s' →
      (∀ report, s.link.pending = some report → s'.link.pending = some report ∨
        s'.link.pending = none ∧ s'.link.finals = s'.link.delivered) ∧
      (s'.link.reserved ≠ s.link.reserved → s.link.busy = false ∧ s.link.pending = none ∧
        s.link.unreported = [] ∧ s.link.finals = s.link.delivered) := by
  have hinv := Link.inv_of_reach (link_reach h)
  refine ⟨hinv.one, hinv.busy, hinv.released, hinv.reported, ?_, hinv.lost, ⟨_, hinv.sent, ?_⟩,
    fun i s' hstep => ⟨fun report hp => ?_, fun hne => ?_⟩⟩
  · have hle : s.link.mission.unreported.length ≤ s.link.mission.current.length := by
      cases s.link.mission <;> simp [MissionPc.unreported, MissionPc.current]
    have hone := hinv.one
    simp only [Link.openMissions, Link.unreported, List.length_append] at hone ⊢
    omega
  · unfold Link.unsent
    split
    · exact .inl rfl
    · cases hp : s.link.pending with
      | none => exact .inl rfl
      | some report => exact .inr ⟨report, rfl, rfl⟩
  · rcases step_link hstep with he | ⟨j, hj⟩
    · exact .inl (he ▸ hp)
    · exact Link.step_pending hinv hj hp
  · rcases step_link hstep with he | ⟨j, hj⟩
    · exact absurd (by rw [he]) hne
    · exact Link.step_reserved hinv hj hne

/-- The application as it is booted with its pins low. -/
def boot : App := booted ((Motion.boot ⟨false, false, false, false, false⟩).init {}).1

theorem boot_start : machine.start boot := ⟨_, _, by decide, rfl⟩

def panel1 : Msg := ⟨⟨1, 1, 1, 1⟩, ⟨2, 6208, 1⟩⟩

/-- The UDP thread opens its socket and enqueues a fault. -/
def faultRun : List Input :=
  [.udp {}, .udp {}, .udp { net := { datagram := .fault panel1 } }, .udp {}, .udp {}, .udp {},
    .udp {}, .udp {}]

/-- While it is queued the mission is the one that is open. -/
theorem one_mission_one_report_queued :
    let s := (machine.exec boot faultRun).get (by decide +kernel)
    s.link.busy = true ∧ s.link.mq = [panel1] ∧ s.link.openMissions.length ≤ 1 :=
  ⟨by decide +kernel, by decide +kernel, (one_mission_one_report (.get boot_start _)).1⟩

/-! ## Runs -/

/-- The track camera sees a node. -/
def nodeAt (tick : Tick) : List Input := [.trackCamera ⟨1, 80, 60, 120, 3, tick⟩, .trackForward]

def loopAt (now : Tick) : List Input := [.control { now := now }, .control { now := now }]

def missionAt (now : Tick) (n : Nat) : List Input := List.replicate n (.mission { now := now })

/-- The mission of `faultRun` follows its path to panel 1 until the path is finished. -/
def navRun : List Input :=
  faultRun ++ nodeAt 1000 ++ missionAt 1000 12 ++ loopAt 1000 ++ loopAt 1500 ++ loopAt 2250 ++
    nodeAt 2700 ++ loopAt 2750

end App

end Hcics
