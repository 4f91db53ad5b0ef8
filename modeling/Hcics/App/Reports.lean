import Hcics.App.Link

/-!
# One mission at a time, one report per fault

A reservation is open from the section of `hcics_reserve_mission` that set `busy` until the section
that clears it. `Inv` says that at most one is, that `busy` shows it, and what the pending slot, the
reports and the accepted faults have to do with each other at every point of the two threads.
-/

namespace Hcics

/-- The fault the UDP thread has reserved and not yet queued. -/
def UdpPc.reserved : UdpPc → List Msg
  | .send _ msg | .sendFailed _ msg => [msg]
  | _ => []

/-- The report a flush has read from the pending slot. -/
def UdpPc.flushing : UdpPc → Option Report
  | .flushSend _ _ report _ | .flushClear _ _ report => some report
  | _ => none

/-- The mission that is not released yet. -/
def MissionPc.current : MissionPc → List Msg
  | .recv => []
  | .running msg | .report msg _ | .reportSend msg _ _ | .reportStore msg _ | .release msg _ => [msg]

/-- The mission whose final report is to come. -/
def MissionPc.unreported : MissionPc → List Msg
  | .running msg | .report msg _ | .reportSend msg _ _ | .reportStore msg _ => [msg]
  | .recv | .release _ _ => []

@[simp] theorem MissionPc.current_release (msg : Msg) (done : Bool) :
    (MissionPc.release msg done).current = [msg] := rfl

@[simp] theorem MissionPc.unreported_release (msg : Msg) (done : Bool) :
    (MissionPc.release msg done).unreported = [] := rfl

/-- What a final report says about its fault. -/
def Msg.key (msg : Msg) : UInt8 × Peer := (msg.fault.id, msg.peer)

def Report.key (report : Report) : UInt8 × Peer := (report.param, report.peer)

@[simp] theorem Msg.key_report (msg : Msg) (done : Bool) : (msg.report done).key = msg.key := rfl

namespace Link

def openMissions (l : Link) : List Msg := l.mission.current ++ l.mq ++ l.udp.reserved

/-- The accepted faults whose final report is to come. -/
def unreported (l : Link) : List Msg := l.mission.unreported ++ l.mq

/-- The pending report, unless a flush has just sent it. -/
def unsent (l : Link) : List Report :=
  match l.udp with
  | .flushClear _ _ _ => []
  | _ => l.pending.toList

structure Inv (l : Link) : Prop where
  one : l.openMissions.length ≤ 1
  busy : l.busy = true ↔ l.openMissions ≠ []
  released : l.reserved = l.released ++ l.openMissions
  valid : ∀ msg ∈ l.openMissions, faultIsValid msg.fault = true
  reported : l.finals.map Report.key ++ l.unreported.map Msg.key = l.accepted.map Msg.key
  vacant : l.unreported ++ l.udp.reserved ≠ [] → l.pending = none
  flushing : ∀ report ∈ l.udp.flushing, l.pending = some report
  sent : l.finals = l.delivered ++ l.unsent
  lost : l.lost = []

theorem booted_inv : Inv booted where
  one := Nat.zero_le _
  busy := by simp [booted, openMissions, MissionPc.current, UdpPc.reserved]
  released := rfl
  valid := nofun
  reported := rfl
  vacant h := absurd rfl h
  flushing := nofun
  sent := rfl
  lost := rfl

/-! ## The UDP thread -/

theorem unsent_of_flushing {l : Link} (h : l.udp.flushing = none) : l.unsent = l.pending.toList := by
  unfold unsent
  cases hu : l.udp <;> simp_all [UdpPc.flushing]

theorem Inv.move {l : Link} (h : Inv l) {pc : UdpPc} {pending : Option Report}
    {delivered : List Report} (hr : pc.reserved = l.udp.reserved)
    (hp : l.pending = none → pending = none) (hf : ∀ report ∈ pc.flushing, pending = some report)
    (hs : l.finals =
      delivered ++ { l with udp := pc, pending := pending, delivered := delivered }.unsent) :
    Inv { l with udp := pc, pending := pending, delivered := delivered } := by
  have hopen : { l with udp := pc, pending := pending, delivered := delivered }.openMissions =
      l.openMissions := by
    simp [openMissions, hr]
  refine ⟨?_, ?_, ?_, ?_, h.reported, fun hne => hp (h.vacant (hr ▸ hne)), hf, hs, h.lost⟩
  · rw [hopen]; exact h.one
  · rw [hopen]; exact h.busy
  · rw [hopen]; exact h.released
  · rw [hopen]; exact h.valid

theorem Inv.goto {l : Link} (h : Inv l) (hr : l.udp.reserved = []) (hf : l.udp.flushing = none)
    {pc : UdpPc} (hr' : pc.reserved = []) (hf' : pc.flushing = none) : Inv { l with udp := pc } := by
  have hsent := h.sent
  rw [unsent_of_flushing hf] at hsent
  refine h.move (hr'.trans hr.symm) id (by simp [hf']) ?_
  rw [unsent_of_flushing hf']
  exact hsent

theorem reserved_afterFlush (sock : Nat) (next : Datagram) : (afterFlush sock next).reserved = [] := by
  cases next <;> rfl

theorem flushing_afterFlush (sock : Nat) (next : Datagram) :
    (afterFlush sock next).flushing = none := by
  cases next <;> rfl

theorem reserved_received (sock : Nat) (d : Datagram) : (received sock d).reserved = [] := by
  cases d <;> rfl

theorem flushing_received (sock : Nat) (d : Datagram) : (received sock d).flushing = none := by
  cases d <;> rfl

theorem Inv.bind {l : Link} (h : Inv l) (sock : Option Nat) : Inv { l with udpSock := sock } :=
  ⟨h.one, h.busy, h.released, h.valid, h.reported, h.vacant, h.flushing, h.sent, h.lost⟩

theorem Inv.reserve {l : Link} (h : Inv l) (hr : l.udp.reserved = []) (hf : l.udp.flushing = none)
    {sock : Nat} {msg : Msg} (hvalid : faultIsValid msg.fault = true) (hbusy : l.busy = false)
    (hpending : l.pending = none) :
    Inv { l with busy := true, reserved := l.reserved ++ [msg], udp := .send sock msg } := by
  have hopen : l.openMissions = [] := by
    by_contra hne
    rw [h.busy.mpr hne] at hbusy
    cases hbusy
  have hall : l.mission.current = [] ∧ l.mq = [] := by
    simpa [openMissions, hr] using hopen
  have hsent := h.sent
  rw [unsent_of_flushing hf] at hsent
  have hopen' : { l with
      busy := true, reserved := l.reserved ++ [msg], udp := .send sock msg }.openMissions = [msg] := by
    simp [openMissions, hall.1, hall.2, UdpPc.reserved]
  refine ⟨?_, ?_, ?_, ?_, h.reported, fun _ => hpending, nofun, hsent, h.lost⟩
  · rw [hopen']; exact Nat.le_refl _
  · rw [hopen']; simp
  · rw [hopen', h.released, hopen, List.append_nil]
  · rw [hopen']
    simpa using hvalid

theorem Inv.queue {l : Link} (h : Inv l) {sock : Nat} {msg : Msg} (hudp : l.udp = .send sock msg) :
    Inv { l with mq := l.mq ++ [msg], accepted := l.accepted ++ [msg], udp := .loop sock } := by
  have hopen : { l with
      mq := l.mq ++ [msg], accepted := l.accepted ++ [msg], udp := .loop sock }.openMissions =
      l.openMissions := by
    simp [openMissions, hudp, UdpPc.reserved]
  have hpending := h.vacant (by simp [hudp, UdpPc.reserved])
  refine ⟨?_, ?_, ?_, ?_, ?_, fun _ => hpending, nofun, ?_, h.lost⟩
  · rw [hopen]; exact h.one
  · rw [hopen]; exact h.busy
  · rw [hopen]; exact h.released
  · rw [hopen]; exact h.valid
  · simp only [List.map_append]
    rw [← h.reported]
    simp [unreported]
  · exact h.sent.trans (by simp [unsent, hudp])

theorem Inv.sendFailed {l : Link} (h : Inv l) {sock : Nat} {msg : Msg}
    (hudp : l.udp = .sendFailed sock msg) :
    Inv { l with busy := false, released := l.released ++ [msg], udp := .reject sock msg } := by
  have hone := h.one
  have hall : l.mission.current = [] ∧ l.mq = [] := by
    simp only [openMissions, hudp, UdpPc.reserved, List.length_append, List.length_singleton] at hone
    exact ⟨List.length_eq_zero_iff.mp (by omega), List.length_eq_zero_iff.mp (by omega)⟩
  have hopen : { l with
      busy := false, released := l.released ++ [msg], udp := .reject sock msg }.openMissions = [] := by
    simp [openMissions, hall.1, hall.2, UdpPc.reserved]
  have hpending := h.vacant (by simp [hudp, UdpPc.reserved])
  refine ⟨?_, ?_, ?_, ?_, h.reported, fun _ => hpending, nofun, ?_, h.lost⟩
  · rw [hopen]; exact Nat.zero_le _
  · rw [hopen]; simp
  · rw [hopen, h.released]
    simp [openMissions, hall.1, hall.2, hudp, UdpPc.reserved]
  · rw [hopen]; nofun
  · exact h.sent.trans (by simp [unsent, hudp])

/-- What a step of the UDP thread does beside going on, with its socket or another one. -/
inductive UdpCase (l : Link) : Link → Prop where
  | goes (udp : UdpPc) (sock : Option Nat) : UdpCase l { l with udp := udp, udpSock := sock }
  | sent (sock : Nat) (next : Datagram) (report : Report) (dst : Nat)
      (pc : l.udp = .flushSend sock next report dst) :
      UdpCase l { l with
        delivered := l.delivered ++ [report], udp := .flushClear sock next report }
  | clear (sock : Nat) (next : Datagram) (report : Report) (pc : l.udp = .flushClear sock next report) :
      UdpCase l { l.clearPendingIfCurrent report with udp := afterFlush sock next }
  | reserve (sock : Nat) (msg : Msg) (pc : l.udp = .reserve sock msg) (busy : l.busy = false)
      (pending : l.pending = none) :
      UdpCase l { l with busy := true, reserved := l.reserved ++ [msg], udp := .send sock msg }
  | accept (sock : Nat) (msg : Msg) (pc : l.udp = .send sock msg) :
      UdpCase l { l with mq := l.mq ++ [msg], accepted := l.accepted ++ [msg], udp := .loop sock }
  | release (sock : Nat) (msg : Msg) (pc : l.udp = .sendFailed sock msg) :
      UdpCase l { l with busy := false, released := l.released ++ [msg], udp := .reject sock msg }

theorem stepUdp_case (l : Link) (io : NetIo) : UdpCase l (l.stepUdp io) := by
  unfold stepUdp
  cases hudp : l.udp <;> dsimp only
  case closed => split <;> exact .goes _ _
  case loop sock => split <;> exact .goes _ _
  case flush sock next =>
    unfold flushPending
    split
    · split <;> exact .goes _ _
    · exact .goes _ _
  case flushSend sock next report dst =>
    split
    · exact .sent sock next report dst hudp
    · exact .goes _ _
  case flushClear sock next report => exact .clear sock next report hudp
  case enqueue sock msg => split <;> exact .goes _ _
  case reserve sock msg =>
    unfold reserveMission
    split_ifs with hvalid hbusy hpending
    · exact .goes _ _
    · exact .goes _ _
    · exact .goes _ _
    · exact .reserve sock msg hudp (by simpa using hbusy) (by simpa using hpending)
  case send sock msg =>
    unfold mqSend
    split
    · exact .goes _ _
    · exact .accept sock msg hudp
  case sendFailed sock msg => exact .release sock msg hudp
  all_goals exact .goes _ _

theorem udp_case {l l' : Link} {io : NetIo} (h : l.step (.udp io) = some l') : UdpCase l l' :=
  Option.some.inj h ▸ stepUdp_case l io

theorem stepUdp_inv {l : Link} (h : Inv l) (io : NetIo) : Inv (l.stepUdp io) := by
  unfold stepUdp
  cases hudp : l.udp <;> dsimp only
  case closed =>
    have hr : l.udp.reserved = [] := by rw [hudp]; rfl
    have hf : l.udp.flushing = none := by rw [hudp]; rfl
    split
    · rw [← hudp]
      exact h.bind none
    · rename_i sock _
      have hflush : Inv { l with udp := .flush sock .none } := h.goto hr hf rfl rfl
      exact hflush.bind (some sock)
  case loop sock =>
    have hr : l.udp.reserved = [] := by rw [hudp]; rfl
    have hf : l.udp.flushing = none := by rw [hudp]; rfl
    split
    · exact h.goto hr hf (reserved_received _ _) (flushing_received _ _)
    · exact h.goto hr hf rfl rfl
  case flush sock next =>
    have hr : l.udp.reserved = [] := by rw [hudp]; rfl
    have hf : l.udp.flushing = none := by rw [hudp]; rfl
    have hskip := h.goto hr hf (reserved_afterFlush sock next) (flushing_afterFlush sock next)
    unfold flushPending
    split
    · rename_i report dst hpending hsock
      split
      · have hsent := h.sent
        rw [unsent_of_flushing hf] at hsent
        exact h.move hr.symm id (by simp [UdpPc.flushing, hpending]) hsent
      · exact hskip
    · exact hskip
  case flushSend sock next report dst =>
    have hr : l.udp.reserved = [] := by rw [hudp]; rfl
    have hpending := h.flushing report (by rw [hudp]; rfl)
    have hsent := h.sent
    simp only [unsent, hudp, hpending, Option.toList_some] at hsent
    split
    · exact h.move hr.symm id (by simp [UdpPc.flushing, hpending]) (by simpa [unsent] using hsent)
    · refine h.move ((reserved_afterFlush _ _).trans hr.symm) id (by simp [flushing_afterFlush]) ?_
      rw [unsent_of_flushing (flushing_afterFlush sock next), hpending]
      exact hsent
  case flushClear sock next report =>
    have hr : l.udp.reserved = [] := by rw [hudp]; rfl
    have hpending := h.flushing report (by rw [hudp]; rfl)
    have hsent := h.sent
    simp only [unsent, hudp] at hsent
    rw [clearPendingIfCurrent, if_pos hpending]
    refine h.move ((reserved_afterFlush _ _).trans hr.symm) (fun _ => rfl)
      (by simp [flushing_afterFlush]) ?_
    rw [unsent_of_flushing (flushing_afterFlush sock next)]
    exact hsent
  case reserve sock msg =>
    have hr : l.udp.reserved = [] := by rw [hudp]; rfl
    have hf : l.udp.flushing = none := by rw [hudp]; rfl
    have hreject : Inv { l with udp := .reject sock msg } := h.goto hr hf rfl rfl
    unfold reserveMission
    split_ifs with hvalid hbusy hpending
    · exact hreject
    · exact hreject
    · exact hreject
    · exact h.reserve hr hf (by simpa using hvalid) (by simpa using hbusy) (by simpa using hpending)
  case send sock msg =>
    unfold mqSend
    split
    · refine h.move (by rw [hudp]; rfl) id nofun ?_
      exact h.sent.trans (by simp [unsent, hudp])
    · exact h.queue hudp
  case sendFailed sock msg => exact h.sendFailed hudp
  case pendingCheck sock msg =>
    have hr : l.udp.reserved = [] := by rw [hudp]; rfl
    have hf : l.udp.flushing = none := by rw [hudp]; rfl
    split <;> exact h.goto hr hf rfl rfl
  case enqueue sock msg =>
    have hr : l.udp.reserved = [] := by rw [hudp]; rfl
    have hf : l.udp.flushing = none := by rw [hudp]; rfl
    split
    · exact h.goto hr hf rfl rfl
    · split <;> exact h.goto hr hf rfl rfl
  case stop sock pc =>
    have hr : l.udp.reserved = [] := by rw [hudp]; rfl
    have hf : l.udp.flushing = none := by rw [hudp]; rfl
    cases pc <;> exact h.goto hr hf rfl rfl
  case reject | rejectSend =>
    exact h.goto (by rw [hudp]; rfl) (by rw [hudp]; rfl) rfl rfl
  case closing =>
    have hclosed : Inv { l with udp := .closed } :=
      h.goto (by rw [hudp]; rfl) (by rw [hudp]; rfl) rfl rfl
    exact hclosed.bind none

/-! ## The mission thread -/

/-- While a mission is on, no reservation of the UDP thread is open and nothing else is queued. -/
theorem Inv.alone {l : Link} (h : Inv l) {msg : Msg} (hm : l.mission.current = [msg]) :
    l.mq = [] ∧ l.udp.reserved = [] := by
  have hone := h.one
  simp only [openMissions, hm, List.length_append, List.length_singleton] at hone
  exact ⟨List.length_eq_zero_iff.mp (by omega), List.length_eq_zero_iff.mp (by omega)⟩

theorem Inv.proceed {l : Link} (h : Inv l) {pc : MissionPc} (hc : pc.current = l.mission.current)
    (hu : pc.unreported = l.mission.unreported) : Inv { l with mission := pc } := by
  have hopen : { l with mission := pc }.openMissions = l.openMissions := by
    simp [openMissions, hc]
  have hunreported : { l with mission := pc }.unreported = l.unreported := by
    simp [unreported, hu]
  refine ⟨?_, ?_, ?_, ?_, ?_, ?_, h.flushing, h.sent, h.lost⟩
  · rw [hopen]; exact h.one
  · rw [hopen]; exact h.busy
  · rw [hopen]; exact h.released
  · rw [hopen]; exact h.valid
  · rw [hunreported]; exact h.reported
  · rw [hunreported]; exact h.vacant

theorem Inv.take {l : Link} (h : Inv l) {msg : Msg} {rest : List Msg} (hm : l.mission = .recv)
    (hmq : l.mq = msg :: rest) :
    faultIsValid msg.fault = true ∧ Inv { l with mq := rest, mission := .running msg } := by
  have hone := h.one
  have hrest : rest = [] := by
    simp only [openMissions, hm, hmq, MissionPc.current, List.nil_append, List.length_append,
      List.length_cons] at hone
    exact List.length_eq_zero_iff.mp (by omega)
  subst hrest
  have hopen : { l with mq := [], mission := .running msg }.openMissions = l.openMissions := by
    simp [openMissions, hm, hmq, MissionPc.current]
  have hunreported : { l with mq := [], mission := .running msg }.unreported = l.unreported := by
    simp [unreported, hm, hmq, MissionPc.unreported]
  refine ⟨h.valid msg (by simp [openMissions, hmq]), ?_, ?_, ?_, ?_, ?_, ?_, h.flushing, h.sent,
    h.lost⟩
  · rw [hopen]; exact h.one
  · rw [hopen]; exact h.busy
  · rw [hopen]; exact h.released
  · rw [hopen]; exact h.valid
  · rw [hunreported]; exact h.reported
  · rw [hunreported]; exact h.vacant

/-- The pending slot is free when a mission comes to its final report, and no flush is on. -/
theorem Inv.free {l : Link} (h : Inv l) {msg : Msg} (hm : l.mission.unreported = [msg]) :
    l.pending = none ∧ l.udp.flushing = none ∧ l.finals = l.delivered := by
  have hpending := h.vacant (by simp [unreported, hm])
  have hflush : l.udp.flushing = none := by
    cases hf : l.udp.flushing with
    | none => rfl
    | some report =>
      rw [h.flushing report hf] at hpending
      cases hpending
  have hsent := h.sent
  rw [unsent_of_flushing hflush, hpending] at hsent
  exact ⟨hpending, hflush, by simpa using hsent⟩

theorem Inv.report {l : Link} (h : Inv l) {msg : Msg} (hc : l.mission.current = [msg])
    (hu : l.mission.unreported = [msg]) (done : Bool) {delivered : List Report}
    {pending : Option Report}
    (hreport : delivered = l.delivered ++ [msg.report done] ∧ pending = none ∨
      delivered = l.delivered ∧ pending = some (msg.report done)) :
    Inv { l with
      finals := l.finals ++ [msg.report done]
      delivered := delivered
      pending := pending
      mission := .release msg done } := by
  obtain ⟨hmq, hudp⟩ := h.alone hc
  obtain ⟨-, hflush, hsent⟩ := h.free hu
  have hopen : { l with
      finals := l.finals ++ [msg.report done]
      delivered := delivered
      pending := pending
      mission := .release msg done }.openMissions = l.openMissions := by
    simp [openMissions, hc]
  refine ⟨?_, ?_, ?_, ?_, ?_, ?_, by simp [hflush], ?_, h.lost⟩
  · rw [hopen]; exact h.one
  · rw [hopen]; exact h.busy
  · rw [hopen]; exact h.released
  · rw [hopen]; exact h.valid
  · rw [← h.reported]
    simp [unreported, hmq, hu]
  · intro hne
    simp [unreported, hmq, hudp] at hne
  · rw [unsent_of_flushing (by exact hflush)]
    dsimp only
    rw [hsent]
    rcases hreport with ⟨rfl, rfl⟩ | ⟨rfl, rfl⟩ <;> simp

theorem Inv.release {l : Link} (h : Inv l) {msg : Msg} {done : Bool}
    (hm : l.mission = .release msg done) :
    Inv { l with busy := false, released := l.released ++ [msg], mission := .recv } := by
  obtain ⟨hmq, hudp⟩ := h.alone (show l.mission.current = [msg] by rw [hm]; rfl)
  have hopen : { l with
      busy := false, released := l.released ++ [msg], mission := .recv }.openMissions = [] := by
    simp [openMissions, hmq, hudp, MissionPc.current]
  refine ⟨?_, ?_, ?_, ?_, ?_, ?_, h.flushing, h.sent, h.lost⟩
  · rw [hopen]; exact Nat.zero_le _
  · rw [hopen]; simp
  · rw [hopen, h.released]
    simp [openMissions, hmq, hudp, hm, MissionPc.current]
  · rw [hopen]; nofun
  · rw [← h.reported]
    simp [unreported, hmq, hm, MissionPc.unreported]
  · intro hne
    simp [unreported, hmq, hudp, MissionPc.unreported] at hne

/-- What a step of the mission thread does outside of the mission itself. -/
inductive MissionCase (l : Link) : Link → Prop where
  | take (msg : Msg) (rest : List Msg) (pc : l.mission = .recv) (mq : l.mq = msg :: rest) :
      MissionCase l { l with
        mq := rest, mission := if faultIsValid msg.fault then .running msg else .recv }
  | report (msg : Msg) (done : Bool) (pc : l.mission = .report msg done) :
      MissionCase l { l with mission := .reportSend msg done l.udpSock }
  | sent (msg : Msg) (done : Bool) (dst : Option Nat) (pc : l.mission = .reportSend msg done dst) :
      MissionCase l { l with
        finals := l.finals ++ [msg.report done]
        delivered := l.delivered ++ [msg.report done]
        mission := .release msg done }
  | unsent (msg : Msg) (done : Bool) (dst : Option Nat) (pc : l.mission = .reportSend msg done dst) :
      MissionCase l { l with mission := .reportStore msg done }
  | store (msg : Msg) (done : Bool) (pc : l.mission = .reportStore msg done) :
      MissionCase l { l.storePending (msg.report done) with mission := .release msg done }
  | release (msg : Msg) (done : Bool) (pc : l.mission = .release msg done) :
      MissionCase l { l with busy := false, released := l.released ++ [msg], mission := .recv }

theorem stepMission_case {l l' : Link} {io : NetIo} (h : l.stepMission io = some l') :
    MissionCase l l' := by
  unfold stepMission at h
  cases hm : l.mission <;> simp only [hm] at h
  case recv =>
    split at h
    · cases h
    · next msg rest hmq => exact Option.some.inj h ▸ .take msg rest hm hmq
  case running => cases h
  case report msg done => exact Option.some.inj h ▸ .report msg done hm
  case reportSend msg done dst =>
    split at h
    · exact Option.some.inj h ▸ .sent msg done dst hm
    · exact Option.some.inj h ▸ .unsent msg done dst hm
  case reportStore msg done => exact Option.some.inj h ▸ .store msg done hm
  case release msg done => exact Option.some.inj h ▸ .release msg done hm

theorem stepMission_frame {l l' : Link} {io : NetIo} (h : l.stepMission io = some l') :
    l'.udp = l.udp ∧ l'.reserved = l.reserved ∧ l'.accepted = l.accepted := by
  cases stepMission_case h with
  | store msg done =>
    unfold storePending
    split <;> exact ⟨rfl, rfl, rfl⟩
  | _ => exact ⟨rfl, rfl, rfl⟩

theorem Inv.storePending {l : Link} (h : Inv l) {msg : Msg} {done : Bool}
    (pc : l.mission = .reportStore msg done) (report : Report) :
    l.pending = none ∧ l.storePending report =
      { l with pending := some report, finals := l.finals ++ [report] } := by
  have hnone : l.pending = none := (h.free (show l.mission.unreported = [msg] by rw [pc]; rfl)).1
  refine ⟨hnone, ?_⟩
  rw [Link.storePending, hnone]

theorem stepMission_inv {l l' : Link} (h : Inv l) {io : NetIo} (hstep : l.stepMission io = some l') :
    Inv l' := by
  cases stepMission_case hstep with
  | take msg rest pc mq =>
    obtain ⟨hvalid, hinv⟩ := h.take pc mq
    rwa [if_pos hvalid]
  | report msg done pc => exact h.proceed (by rw [pc]; rfl) (by rw [pc]; rfl)
  | sent msg done dst pc =>
    have hu : l.mission.unreported = [msg] := by rw [pc]; rfl
    have hinv := h.report (by rw [pc]; rfl) hu done (.inl ⟨rfl, rfl⟩)
    rwa [← (h.free hu).1] at hinv
  | unsent msg done dst pc => exact h.proceed (by rw [pc]; rfl) (by rw [pc]; rfl)
  | store msg done pc =>
    rw [(h.storePending pc _).2]
    exact h.report (by rw [pc]; rfl) (by rw [pc]; rfl) done (.inr ⟨rfl, rfl⟩)
  | release msg done pc => exact h.release pc

theorem finish_case {l l' : Link} {done : Bool} (h : l.step (.finish done) = some l') :
    ∃ msg, l.mission = .running msg ∧ l' = { l with mission := .report msg done } := by
  simp only [step] at h
  split at h
  · next msg hm =>
    obtain rfl := Option.some.inj h
    refine ⟨msg, hm, ?_⟩
    rw [finish, hm]
  · cases h

theorem finish_inv {l : Link} (h : Inv l) (done : Bool) : Inv (l.finish done) := by
  unfold finish
  split
  · rename_i msg hm
    exact h.proceed (by rw [hm]; rfl) (by rw [hm]; rfl)
  · exact h

theorem step_inv {l l' : Link} {i : Input} (h : Inv l) (hstep : l.step i = some l') : Inv l' := by
  cases i with
  | udp io => exact Option.some.inj hstep ▸ stepUdp_inv h io
  | mission io => exact stepMission_inv h hstep
  | finish done =>
    obtain ⟨msg, hm, rfl⟩ := finish_case hstep
    exact h.proceed (by rw [hm]; rfl) (by rw [hm]; rfl)

theorem inv_of_reach {ok : Link → Input → Prop} {l : Link} (h : machine.Reach ok l) : Inv l :=
  h.inv (fun _ hs => hs ▸ booted_inv) fun _ _ _ _ hl _ hstep => step_inv hl hstep

end Link

end Hcics
