import Hcics.App.Rest

/-!
# No thread waits for ever

The mission thread and the UDP thread can always take their next step, except that the mission thread
waits for a message: the calls of the cleaner that they make come in the order that its callers keep.
-/

namespace Hcics

/-- The part of a reset that the caller comes to next. -/
def ResetPc.part : ResetPc → ResetPart
  | .none => .mark
  | .marked _ => .outputs
  | .waiting _ => .wait

namespace WorkPc

/-- The part of a reset that the mission comes to next. -/
def resetPart : WorkPc → ResetPart
  | .reset part | .endReset _ part => part
  | _ => .mark

/-- Emergency stops of the mission whose outputs are to come. -/
def stops : WorkPc → Nat
  | .stopCleanerOutputs => 1
  | _ => 0

end WorkPc

/-- Emergency stops of the UDP thread whose outputs are to come. -/
def UdpPc.stops : UdpPc → Nat
  | .stop _ .cleanerOutputs => 1
  | _ => 0

namespace App

variable {s s' : App} {io : AppIo} {msg : Msg} {i : Input}

/-- The cleaner's callers are where the mission and the UDP thread are. -/
structure Placed (s : App) : Prop where
  reset : s.cleaner.reset.part = s.work.resetPart
  stops : s.cleaner.stops = s.work.stops + s.link.udp.stops
  outside : (∀ msg, s.link.mission ≠ .running msg) → s.work.resetPart = .mark ∧ s.work.stops = 0

theorem Placed.move (h : Placed s) (hreset : s'.cleaner.reset = s.cleaner.reset)
    (hstops : s'.cleaner.stops = s.cleaner.stops) (hudp : s'.link.udp.stops = s.link.udp.stops)
    (hmission : s'.link.mission = s.link.mission) (hpart : s'.work.resetPart = s.work.resetPart)
    (hwork : s'.work.stops = s.work.stops) : Placed s' := by
  refine ⟨?_, ?_, ?_⟩
  · rw [hreset, hpart, h.reset]
  · rw [hstops, hwork, hudp, h.stops]
  · rw [hmission, hpart, hwork]
    exact h.outside

theorem Placed.goto (h : Placed s) {pc : WorkPc} (hw : s.work = pc) (hc : s'.cleaner = s.cleaner)
    (hlink : s'.link = s.link) (hpart : s'.work.resetPart = pc.resetPart)
    (hwork : s'.work.stops = pc.stops) : Placed s' :=
  h.move (by rw [hc]) (by rw [hc]) (by rw [hlink]) (by rw [hlink]) (by rw [hw, hpart]) (by rw [hw, hwork])

theorem Placed.followWait (h : Placed s) {pc : WorkPc} (hw : s.work = pc) (hreset : pc.resetPart = .mark)
    (hstops : pc.stops = 0) (phase : Phase) (startMs nowMs : UInt32) :
    Placed (s.followWait phase startMs nowMs) := by
  unfold App.followWait
  split <;> exact h.goto hw rfl rfl hreset.symm hstops.symm

theorem reset_part {c c' : CleanerSys} {j : CleanerSys.Input} (hstep : c.step j = some c') :
    (j = .reset → c'.stops = c.stops ∧ c'.reset.part = .outputs) ∧
      ((∃ io, j = .resetOutputs io) → c'.stops = c.stops ∧ c'.reset.part = .wait) ∧
      (j = .resetClear ∨ j = .resetTimeout → c'.stops = c.stops ∧ c'.reset.part = .mark) := by
  refine ⟨?_, ?_, ?_⟩
  · rintro rfl
    simp only [CleanerSys.step] at hstep
    split at hstep
    · exact Option.some.inj hstep ▸ ⟨rfl, rfl⟩
    · cases hstep
  · rintro ⟨io, rfl⟩
    simp only [CleanerSys.step] at hstep
    split at hstep
    · exact Option.some.inj hstep ▸ ⟨rfl, rfl⟩
    · cases hstep
  · rintro (rfl | rfl) <;> simp only [CleanerSys.step] at hstep <;> split at hstep
    · split at hstep
      · cases hstep
      · exact Option.some.inj hstep ▸ ⟨rfl, rfl⟩
    · cases hstep
    · exact Option.some.inj hstep ▸ ⟨rfl, rfl⟩
    · cases hstep

/-- A part of a reset leaves the caller at the next one, behind the reset, or where it was. -/
theorem cleanerReset_part {next : ResetPart → WorkPc} {after : WorkPc} {part : ResetPart}
    (hstep : s.cleanerReset io next after part = some s') :
    s' = s ∨ ∃ c pc, s' = { s with cleaner := c, work := pc } ∧ c.stops = s.cleaner.stops ∧
      (c.reset.part = .mark ∧ pc = after ∨ pc = next c.reset.part) := by
  unfold cleanerReset at hstep
  split at hstep
  · obtain ⟨t, ht, rfl⟩ := Option.map_eq_some_iff.mp hstep
    obtain ⟨c, hc, rfl⟩ := cleanerStep_some ht
    obtain ⟨hstops, hpart⟩ := (reset_part hc).1 rfl
    exact .inr ⟨c, _, rfl, hstops, .inr (hpart ▸ rfl)⟩
  · obtain ⟨t, ht, rfl⟩ := Option.map_eq_some_iff.mp hstep
    obtain ⟨c, hc, rfl⟩ := cleanerStep_some ht
    obtain ⟨hstops, hpart⟩ := (reset_part hc).2.1 ⟨_, rfl⟩
    exact .inr ⟨c, _, rfl, hstops, .inr (hpart ▸ rfl)⟩
  · split at hstep
    · rename_i t ht
      obtain rfl := Option.some.inj hstep
      obtain ⟨c, hc, rfl⟩ := cleanerStep_some ht
      obtain ⟨hstops, hpart⟩ := (reset_part hc).2.2 (.inl rfl)
      exact .inr ⟨c, _, rfl, hstops, .inl ⟨hpart, rfl⟩⟩
    · split at hstep
      · obtain ⟨t, ht, rfl⟩ := Option.map_eq_some_iff.mp hstep
        obtain ⟨c, hc, rfl⟩ := cleanerStep_some ht
        obtain ⟨hstops, hpart⟩ := (reset_part hc).2.2 (.inr rfl)
        exact .inr ⟨c, _, rfl, hstops, .inl ⟨hpart, rfl⟩⟩
      · exact .inl (Option.some.inj hstep).symm

theorem Placed.cleanerReset (h : Placed s) (hm : s.link.mission = .running msg) {next : ResetPart → WorkPc} {after : WorkPc} {part : ResetPart}
    (hw : s.work.stops = 0) (hnext : ∀ part, (next part).resetPart = part ∧ (next part).stops = 0)
    (hafter : after.resetPart = .mark ∧ after.stops = 0)
    (hstep : s.cleanerReset io next after part = some s') : Placed s' := by
  rcases cleanerReset_part hstep with rfl | ⟨c, pc, rfl, hstops, hpc⟩
  · exact h
  · rw [h.stops, hw] at hstops
    rcases hpc with ⟨hpart, rfl⟩ | rfl
    · exact ⟨hpart.trans hafter.1.symm, by rw [hstops, hafter.2], fun hno => absurd hm (hno msg)⟩
    · exact ⟨(hnext _).1.symm, by rw [hstops, (hnext _).2], fun hno => absurd hm (hno msg)⟩

theorem stepWork_placed (h : Placed s) (hm : s.link.mission = .running msg) (hstep : s.stepWork msg io = some s') : Placed s' := by
  unfold stepWork at hstep
  cases hw : s.work <;> simp only [hw] at hstep
  case reset part =>
    exact h.cleanerReset hm (by rw [hw]; rfl) (fun _ => ⟨rfl, rfl⟩) ⟨rfl, rfl⟩ hstep
  case endReset done part =>
    exact h.cleanerReset hm (by rw [hw]; rfl) (fun _ => ⟨rfl, rfl⟩) ⟨rfl, rfl⟩ hstep
  case startCleaner =>
    obtain ⟨t, ht, rfl⟩ := Option.map_eq_some_iff.mp hstep
    obtain ⟨c, hc, rfl⟩ := cleanerStep_some ht
    have hstops := h.stops
    rw [hw] at hstops
    simp only [CleanerSys.step] at hc
    split at hc
    · rename_i hreset
      obtain rfl := Option.some.inj hc
      split <;> exact ⟨by rw [hreset]; rfl, hstops, fun hno => absurd hm (hno msg)⟩
    · cases hc
  case stopCleaner =>
    obtain ⟨t, ht, rfl⟩ := Option.map_eq_some_iff.mp hstep
    obtain ⟨c, hc, rfl⟩ := cleanerStep_some ht
    obtain rfl := Option.some.inj hc
    have hreset := h.reset
    have hstops := h.stops
    rw [hw] at hreset hstops
    refine ⟨hreset, ?_, fun hno => absurd hm (hno msg)⟩
    change s.cleaner.stops + 1 = 1 + s.link.udp.stops
    rw [hstops]
    change 0 + s.link.udp.stops + 1 = 1 + s.link.udp.stops
    omega
  case stopCleanerOutputs =>
    obtain ⟨t, ht, rfl⟩ := Option.map_eq_some_iff.mp hstep
    obtain ⟨c, hc, rfl⟩ := cleanerStep_some ht
    have hreset := h.reset
    have hstops := h.stops
    rw [hw] at hreset hstops
    simp only [CleanerSys.step] at hc
    split at hc
    · cases hc
    · obtain rfl := Option.some.inj hc
      refine ⟨hreset, ?_, fun hno => absurd hm (hno msg)⟩
      change s.cleaner.stops - 1 = 0 + s.link.udp.stops
      rw [hstops]
      change 1 + s.link.udp.stops - 1 = 0 + s.link.udp.stops
      omega
  case endState done =>
    obtain rfl := Option.some.inj hstep
    have hudp : (s.link.finish done).udp = s.link.udp := by
      unfold Link.finish
      split <;> rfl
    have hreset := h.reset
    have hstops := h.stops
    rw [hw] at hreset hstops
    exact ⟨hreset, hstops.trans (by rw [hudp]), fun _ => ⟨rfl, rfl⟩⟩
  case startPath | snapshot | navigate =>
    split at hstep <;> exact Option.some.inj hstep ▸ h.goto hw rfl rfl rfl rfl
  case zeroFinished phase =>
    cases phase <;> exact Option.some.inj hstep ▸ h.goto hw rfl rfl rfl rfl
  case cleanStatus =>
    split at hstep <;> obtain rfl := Option.some.inj hstep
    · split <;> exact h.goto hw rfl rfl rfl rfl
    · exact h.goto hw rfl rfl rfl rfl
    · exact h.goto hw rfl rfl rfl rfl
    · split <;> exact h.goto hw rfl rfl rfl rfl
  all_goals obtain rfl := Option.some.inj hstep
  case waitCamera | follow | faultTest | finishedTest | clean =>
    split <;> exact h.goto hw rfl rfl rfl rfl
  case cameraRecent | parked =>
    split
    · exact h.goto hw rfl rfl rfl rfl
    · split <;> exact h.goto hw rfl rfl rfl rfl
  case status =>
    split
    · exact h.goto hw rfl rfl rfl rfl
    · exact h.followWait hw rfl rfl _ _ _
  case cameraLost =>
    split
    · exact h.followWait hw rfl rfl _ _ _
    · exact h.goto hw rfl rfl rfl rfl
  all_goals exact h.goto hw rfl rfl rfl rfl

theorem stepMission_placed (h : Placed s) (hstep : s.stepMission io = some s') : Placed s' := by
  unfold stepMission at hstep
  cases hm : s.link.mission <;> simp only [hm] at hstep
  case running msg => exact stepWork_placed h hm hstep
  all_goals
    obtain ⟨l, hl, rfl⟩ := Option.map_eq_some_iff.mp hstep
    obtain ⟨hpart, hwork⟩ := h.outside (by rw [hm]; simp)
    have hreset := h.reset
    have hstops := h.stops
    rw [hpart] at hreset
    rw [hwork, ← (Link.stepMission_frame hl).1] at hstops
  case recv => exact ⟨hreset, hstops, fun _ => ⟨rfl, rfl⟩⟩
  all_goals exact ⟨hreset.trans hpart.symm, hstops.trans (by rw [hwork]), fun _ => ⟨hpart, hwork⟩⟩

/-! ## The UDP thread -/

theorem stops_afterFlush (sock : Nat) (next : Datagram) : (Link.afterFlush sock next).stops = 0 := by
  cases next <;> rfl

theorem stepUdp_stops {l : Link} (net : NetIo) (h : ∀ sock, l.udp ≠ .stop sock .cleaner) :
    (l.stepUdp net).udp.stops = 0 := by
  unfold Link.stepUdp
  cases hudp : l.udp <;> dsimp only
  case closed => split <;> rfl
  case loop sock =>
    split
    · unfold Link.received
      split <;> rfl
    · rfl
  case flush sock next =>
    unfold Link.flushPending
    split
    · split
      · rfl
      · exact stops_afterFlush sock next
    · exact stops_afterFlush sock next
  case flushSend sock next report dst =>
    split
    · rfl
    · exact stops_afterFlush sock next
  case flushClear sock next report => exact stops_afterFlush sock next
  case pendingCheck | enqueue => split_ifs <;> rfl
  case reserve sock msg =>
    unfold Link.reserveMission
    split_ifs <;> rfl
  case send sock msg =>
    unfold Link.mqSend
    split_ifs <;> rfl
  case stop sock pc =>
    cases pc with
    | cleaner => exact absurd hudp (h sock)
    | _ => rfl
  all_goals rfl

theorem stepUdp_placed (h : Placed s) (hstep : s.stepUdp io = some s') : Placed s' := by
  have hmission : (s.link.stepUdp io.net).mission = s.link.mission := Link.stepUdp_mission ..
  unfold stepUdp at hstep
  split at hstep
  · rename_i sock pc hudp
    obtain ⟨t, ht, rfl⟩ := Option.map_eq_some_iff.mp hstep
    obtain ⟨hlink, -, hwork⟩ := stopPart_frame ht
    have hstops := h.stops
    rw [hudp] at hstops
    cases pc <;> simp only [stopPart] at ht
    case abort | track | motion =>
      obtain rfl := Option.some.inj ht
      refine h.move rfl rfl ?_ hmission rfl rfl
      exact (stepUdp_stops (l := s.link) io.net (by rw [hudp]; simp)).trans (by rw [hudp]; rfl)
    case cleaner =>
      obtain ⟨c, hc, rfl⟩ := cleanerStep_some ht
      obtain rfl := Option.some.inj hc
      refine ⟨h.reset, ?_, fun hno => h.outside (hmission ▸ hno)⟩
      change s.cleaner.stops + 1 = s.work.stops + (s.link.stepUdp io.net).udp.stops
      rw [hstops, Link.stepUdp, hudp]
      rfl
    case cleanerOutputs =>
      obtain ⟨c, hc, rfl⟩ := cleanerStep_some ht
      simp only [CleanerSys.step] at hc
      split at hc
      · cases hc
      · obtain rfl := Option.some.inj hc
        refine ⟨h.reset, ?_, fun hno => h.outside (hmission ▸ hno)⟩
        change s.cleaner.stops - 1 = s.work.stops + (s.link.stepUdp io.net).udp.stops
        rw [hstops, stepUdp_stops io.net (by rw [hudp]; simp)]
        rfl
  · rename_i hno
    obtain rfl := Option.some.inj hstep
    refine h.move rfl rfl ?_ hmission rfl rfl
    rw [stepUdp_stops io.net fun sock heq => hno sock .cleaner heq]
    cases hudp : s.link.udp with
    | stop sock pc => exact absurd hudp (hno sock pc)
    | _ => rfl

/-! ## Every step -/

/-- The cleaner's worker, the clean camera and the guard are no callers of a stop or a reset. -/
theorem cleaner_callers {c c' : CleanerSys} {j : CleanerSys.Input} (hstep : c.step j = some c')
    (hj : (∃ io, j = .worker io) ∨ (∃ target now, j = .updateCameraTarget target now) ∨
      (∃ guard now, j = .updateGuard guard now) ∨ ∃ io, j = .guardOutputs io) :
    c'.reset = c.reset ∧ c'.stops = c.stops := by
  rcases hj with ⟨io, rfl⟩ | ⟨target, now, rfl⟩ | ⟨guard, now, rfl⟩ | ⟨io, rfl⟩
  · obtain ⟨k, -, rfl⟩ := Option.map_eq_some_iff.mp hstep
    exact ⟨rfl, rfl⟩
  · exact Option.some.inj hstep ▸ ⟨rfl, rfl⟩
  · exact Option.some.inj hstep ▸ ⟨rfl, rfl⟩
  · simp only [CleanerSys.step] at hstep
    split at hstep
    · cases hstep
    · exact Option.some.inj hstep ▸ ⟨rfl, rfl⟩

theorem Placed.cleaner (h : Placed s) {j : CleanerSys.Input} (hstep : s.cleanerStep j = some s')
    (hj : (∃ io, j = .worker io) ∨ (∃ target now, j = .updateCameraTarget target now) ∨
      (∃ guard now, j = .updateGuard guard now) ∨ ∃ io, j = .guardOutputs io) : Placed s' := by
  obtain ⟨c, hc, rfl⟩ := cleanerStep_some hstep
  obtain ⟨hreset, hstops⟩ := cleaner_callers hc hj
  exact h.move hreset hstops rfl rfl rfl rfl

theorem step_placed (h : Placed s) (hstep : s.step i = some s') : Placed s' := by
  cases i with
  | mission io => exact stepMission_placed h hstep
  | udp io => exact stepUdp_placed h hstep
  | control io =>
    obtain rfl := Option.some.inj hstep
    unfold stepControl
    split <;> exact h.move rfl rfl rfl rfl rfl rfl
  | worker io =>
    obtain ⟨c, hc, rfl⟩ := Option.map_eq_some_iff.mp hstep
    obtain ⟨hreset, hstops⟩ := cleaner_callers hc (.inl ⟨io, rfl⟩)
    exact h.move hreset hstops rfl rfl rfl rfl
  | trackCamera frame =>
    simp only [step] at hstep
    split at hstep
    · cases hstep
    · obtain rfl := Option.some.inj hstep
      exact h.move rfl rfl rfl rfl rfl rfl
  | trackForward =>
    obtain ⟨frame, -, rfl⟩ := Option.map_eq_some_iff.mp hstep
    exact h.move rfl rfl rfl rfl rfl rfl
  | cleanCamera frame now => exact h.cleaner hstep (.inr (.inl ⟨_, _, rfl⟩))
  | guard reading now => exact h.cleaner hstep (.inr (.inr (.inl ⟨_, _, rfl⟩)))
  | guardOutputs io => exact h.cleaner hstep (.inr (.inr (.inr ⟨_, rfl⟩)))

theorem booted_placed (motion : Motion) : Placed (booted motion) := ⟨rfl, rfl, fun _ => ⟨rfl, rfl⟩⟩

/-! ## The next step -/

theorem cleanerReset_isSome {next : ResetPart → WorkPc} {after : WorkPc} {part : ResetPart}
    (hpart : s.cleaner.reset.part = part) : (s.cleanerReset io next after part).isSome = true := by
  subst hpart
  unfold cleanerReset cleanerStep
  cases hreset : s.cleaner.reset with
  | none => simp [CleanerSys.step, hreset, ResetPc.part]
  | marked wasBusy => simp [CleanerSys.step, hreset, ResetPc.part]
  | waiting wasBusy =>
    simp only [CleanerSys.step, hreset, ResetPc.part]
    cases wasBusy
    · simp
    · cases s.cleaner.cleaner.busy <;> cases io.giveUp <;> rfl

theorem stepWork_isSome (h : Placed s) (msg : Msg) (io : AppIo) : (s.stepWork msg io).isSome = true := by
  have hreset := h.reset
  have hstops := h.stops
  unfold stepWork
  cases hw : s.work <;> rw [hw] at hreset hstops <;> dsimp only
  case reset | endReset => exact cleanerReset_isSome hreset
  case startCleaner =>
    have hnone : s.cleaner.reset = .none := by
      cases hr : s.cleaner.reset <;> rw [hr] at hreset <;> cases hreset
    simp [cleanerStep, CleanerSys.step, hnone]
  case stopCleanerOutputs =>
    have hne : s.cleaner.stops ≠ 0 := by
      rw [hstops]
      exact Nat.ne_of_gt (Nat.lt_of_lt_of_le Nat.one_pos (Nat.le_add_right 1 _))
    simp [cleanerStep, CleanerSys.step, hne]
  case snapshot | navigate | startPath => split <;> rfl
  case zeroFinished phase => cases phase <;> rfl
  case cleanStatus => split <;> rfl
  all_goals rfl

/-- The mission thread can take its next step where it does not wait for a message. -/
theorem stepMission_isSome (h : Placed s) (hm : s.link.mission ≠ .recv) (io : AppIo) :
    (s.stepMission io).isSome = true := by
  unfold stepMission
  cases hmission : s.link.mission with
  | recv => exact absurd hmission hm
  | running msg => exact stepWork_isSome h msg io
  | report msg done => simp [Link.stepMission, hmission]
  | reportSend msg done dst =>
    simp only [Link.stepMission, hmission]
    split <;> rfl
  | reportStore msg done => simp [Link.stepMission, hmission]
  | release msg done => simp [Link.stepMission, hmission]

theorem stepUdp_isSome (h : Placed s) (io : AppIo) : (s.stepUdp io).isSome = true := by
  unfold stepUdp
  split
  · rename_i sock pc hudp
    have hstops := h.stops
    rw [hudp] at hstops
    cases pc with
    | cleanerOutputs =>
      have hne : s.cleaner.stops ≠ 0 := by
        rw [hstops]
        exact Nat.succ_ne_zero _
      simp [stopPart, cleanerStep, CleanerSys.step, hne]
    | _ => rfl
  · rfl

theorem placed_of_reach {ok : App → Input → Prop} (h : machine.Reach ok s) : Placed s := by
  refine h.inv ?_ fun _ _ _ _ hs _ hstep => step_placed hs hstep
  rintro _ ⟨pins, io, -, rfl⟩
  exact booted_placed _

end App

end Hcics
