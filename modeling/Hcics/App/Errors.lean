import Hcics.App.Datagram

/-!
# What an ERROR reply is about

`ERROR,<id>` is the final report of a mission that failed, sent at once or by a flush, and it is the
reply to a FAULT that was not accepted. The text does not tell the two apart, so a peer that repeats a
FAULT for an id while its mission is on is told ERROR for a mission that may still end in DONE.
-/

namespace Hcics

def UdpPc.fault : UdpPc → Option Msg
  | .flush _ (.fault msg) | .flushSend _ (.fault msg) _ _ | .flushClear _ (.fault msg) _ => some msg
  | .pendingCheck _ msg | .enqueue _ msg | .reserve _ msg | .send _ msg | .sendFailed _ msg
  | .reject _ msg | .rejectSend _ msg _ => some msg
  | _ => none

namespace Link

/-- The number and the peer of the ERROR a step sends. -/
def errorSent (l : Link) : Input → Option (UInt8 × Peer)
  | .udp io =>
    match l.udp with
    | .flushSend _ _ report dst =>
      if report.cmd = .error ∧ udpSendReport (some dst) io then some report.key else none
    | .rejectSend _ msg dst => if udpSendReport dst io then some msg.key else none
    | _ => none
  | .mission io =>
    match l.mission with
    | .reportSend msg done dst => if !done && udpSendReport dst io then some msg.key else none
    | _ => none
  | .finish _ => none

/-- The `n`-th accepted fault, counted from 0, is about `key` and its final report is not sent: it is
queued, running, or has its result pending. -/
def InProgress (l : Link) (n : Nat) (key : UInt8 × Peer) : Prop :=
  l.delivered.length ≤ n ∧ (l.accepted[n]?).map Msg.key = some key

/-- The step sends the final report ERROR of the `n`-th accepted fault. -/
def OwnFinal (l l' : Link) (n : Nat) (key : UInt8 × Peer) : Prop :=
  n = l.delivered.length ∧ l'.delivered = l.delivered ++ [⟨.error, key.1, key.2⟩]
  deriving Decidable

/-- The faults in progress are the one whose result is pending and those running or queued. -/
theorem Inv.inProgress {l : Link} (h : Inv l) :
    (l.accepted.drop l.delivered.length).map Msg.key =
      l.unsent.map Report.key ++ l.unreported.map Msg.key := by
  rw [List.map_drop, ← h.reported, h.sent, List.map_append, List.append_assoc]
  exact List.drop_left' (List.length_map _)

/-! ## Final reports -/

theorem Inv.one_inProgress {l : Link} (h : Inv l) {n : Nat} {key : UInt8 × Peer}
    (hn : l.InProgress n key) (hone : l.unsent.length + l.unreported.length ≤ 1) :
    n = l.delivered.length := by
  obtain ⟨hle, hkey⟩ := hn
  have hlen := congrArg List.length h.inProgress
  obtain ⟨m, hm, -⟩ := Option.map_eq_some_iff.mp hkey
  have hlt := (List.getElem?_eq_some_iff.mp hm).1
  simp only [List.length_map, List.length_drop, List.length_append] at hlen
  omega

theorem Inv.flush_alone {l : Link} (h : Inv l) {report : Report}
    (hflush : report ∈ l.udp.flushing) : l.unsent.length + l.unreported.length ≤ 1 := by
  have hpending := h.flushing report hflush
  have hnone : l.unreported = [] := by
    by_contra hne
    have := h.vacant (by simp [hne])
    rw [hpending] at this
    cases this
  rw [hnone, unsent]
  split
  · exact Nat.zero_le _
  · simp [hpending]

theorem Inv.report_alone {l : Link} (h : Inv l) {msg : Msg} (hc : l.mission.current = [msg])
    (hu : l.mission.unreported = [msg]) : l.unsent.length + l.unreported.length ≤ 1 := by
  obtain ⟨hpending, hflush, -⟩ := h.free hu
  rw [unsent_of_flushing hflush, hpending, unreported, hu, (h.alone hc).1]
  exact Nat.le_refl _

/-- An ERROR is the final report of the only fault in progress, or it answers a FAULT. -/
theorem errorSent_cases {l l' : Link} {i : Input} {key : UInt8 × Peer} (h : Inv l)
    (hstep : l.step i = some l') (hsent : l.errorSent i = some key) :
    (∀ n key', l.InProgress n key' → l.OwnFinal l' n key) ∨
      ∃ sock msg dst, l.udp = .rejectSend sock msg dst ∧ msg.key = key := by
  cases i with
  | udp io =>
    obtain rfl := Option.some.inj hstep
    cases hudp : l.udp <;> simp only [errorSent, hudp] at hsent <;> try cases hsent
    case flushSend sock next report dst =>
      by_cases herror : report.cmd = .error ∧ udpSendReport (some dst) io
      · rw [if_pos herror] at hsent
        obtain rfl := Option.some.inj hsent
        refine .inl fun n key' hn => ⟨?_, ?_⟩
        · have hflush : report ∈ l.udp.flushing := by rw [hudp]; rfl
          exact h.one_inProgress hn (h.flush_alone hflush)
        · have hcmd := herror.1
          rw [stepUdp, hudp]
          simp only [herror.2, if_true]
          rw [← hcmd]
          rfl
      · rw [if_neg herror] at hsent
        cases hsent
    case rejectSend sock msg dst =>
      by_cases hok : udpSendReport dst io = true
      · rw [if_pos hok] at hsent
        exact .inr ⟨sock, msg, dst, rfl, Option.some.inj hsent⟩
      · rw [if_neg hok] at hsent
        cases hsent
  | mission io =>
    cases hm : l.mission <;> simp only [errorSent, hm] at hsent <;> try cases hsent
    case reportSend msg done dst =>
      by_cases herror : (!done && udpSendReport dst io) = true
      · rw [if_pos herror] at hsent
        obtain rfl := Option.some.inj hsent
        obtain ⟨hdone, hok⟩ := Bool.and_eq_true_iff.mp herror
        have hfalse : done = false := by simpa using hdone
        subst hfalse
        simp only [step, stepMission, hm, hok, if_true, Option.some.injEq] at hstep
        refine .inl fun n key' hn => ⟨?_, ?_⟩
        · have hcurrent : l.mission.current = [msg] := by rw [hm]; rfl
          exact h.one_inProgress hn (h.report_alone hcurrent (by rw [hm]; rfl))
        · rw [← hstep]
          rfl
      · rw [if_neg herror] at hsent
        cases hsent
  | finish done => cases hsent

/-! ## Rejections -/

theorem fault_afterFlush {sock : Nat} {next : Datagram} {msg : Msg}
    (h : (afterFlush sock next).fault = some msg) : next = .fault msg := by
  cases next <;> simp only [afterFlush, UdpPc.fault, Option.some.injEq] at h <;> try cases h
  rfl

theorem fault_received {sock : Nat} {d : Datagram} {msg : Msg}
    (h : (received sock d).fault = some msg) : d = .fault msg := by
  cases d <;> simp only [received, UdpPc.fault, Option.some.injEq] at h <;> try cases h
  rfl

theorem fault_stepUdp {l : Link} {io : NetIo} {msg : Msg}
    (h : (l.stepUdp io).udp.fault = some msg) :
    (∃ sock, l.udp = .loop sock ∧ io.linkReady = true ∧ io.datagram = .fault msg) ∨
      l.udp.fault = some msg ∧ ∀ sock, l.udp ≠ .loop sock := by
  unfold stepUdp at h
  cases hudp : l.udp <;> simp only [hudp] at h
  case closed => cases hb : io.bound <;> simp only [hb] at h <;> cases h
  case loop sock =>
    by_cases hready : io.linkReady = true
    · rw [if_pos hready] at h
      exact .inl ⟨sock, rfl, hready, fault_received h⟩
    · rw [if_neg hready] at h
      cases h
  case flush sock next =>
    refine .inr ⟨?_, nofun⟩
    have hnext : next = .fault msg := by
      unfold flushPending at h
      split at h
      · split at h
        · cases next <;> simp only [UdpPc.fault, Option.some.injEq] at h <;> try cases h
          rfl
        · exact fault_afterFlush h
      · exact fault_afterFlush h
    rw [hnext]
    rfl
  case flushSend sock next report dst =>
    refine .inr ⟨?_, nofun⟩
    have hnext : next = .fault msg := by
      split at h
      · cases next <;> simp only [UdpPc.fault, Option.some.injEq] at h <;> try cases h
        rfl
      · exact fault_afterFlush h
    rw [hnext]
    rfl
  case flushClear sock next report =>
    refine .inr ⟨?_, nofun⟩
    rw [fault_afterFlush h]
    rfl
  case pendingCheck sock m =>
    refine .inr ⟨?_, nofun⟩
    split at h <;> exact h
  case enqueue sock m =>
    refine .inr ⟨?_, nofun⟩
    split at h
    · exact h
    · dsimp only at h
      split at h <;> exact h
  case reserve sock m =>
    refine .inr ⟨?_, nofun⟩
    unfold reserveMission at h
    split_ifs at h <;> exact h
  case send sock m =>
    refine .inr ⟨?_, nofun⟩
    unfold mqSend at h
    split at h
    · exact h
    · cases h
  case sendFailed | reject => exact .inr ⟨h, nofun⟩
  case rejectSend | closing => cases h
  case stop sock pc => cases pc <;> cases h

theorem accepted_stepUdp {l : Link} {io : NetIo} (h : (l.stepUdp io).udp.fault ≠ none) :
    (l.stepUdp io).accepted = l.accepted := by
  have hcase := stepUdp_case l io
  generalize l.stepUdp io = l' at hcase h ⊢
  cases hcase with
  | accept sock msg => exact absurd rfl h
  | clear sock next report =>
    unfold clearPendingIfCurrent
    split <;> rfl
  | _ => rfl

theorem step_delivered {l l' : Link} {i : Input} (hstep : l.step i = some l') :
    l.delivered.length ≤ l'.delivered.length := by
  cases i with
  | udp io =>
    cases udp_case hstep with
    | sent sock next report dst =>
      rw [List.length_append]
      exact Nat.le_add_right _ _
    | clear sock next report =>
      unfold clearPendingIfCurrent
      split <;> exact Nat.le_refl _
    | _ => exact Nat.le_refl _
  | mission io =>
    cases stepMission_case hstep with
    | sent msg done dst =>
      rw [List.length_append]
      exact Nat.le_add_right _ _
    | store msg done =>
      unfold storePending
      split <;> exact Nat.le_refl _
    | _ => exact Nat.le_refl _
  | finish done =>
    obtain ⟨msg, -, rfl⟩ := finish_case hstep
    exact Nat.le_refl _

/-- `l` handles the fault `msg` that was received in `l₀`, and no other since. -/
structure Handling (ok : Link → Input → Prop) (l₀ : Link) (io : NetIo) (msg : Msg) (l : Link) : Prop where
  reach : machine.Reach ok l₀
  meets : ok l₀ (.udp io)
  loop : ∃ sock, l₀.udp = .loop sock
  ready : io.linkReady = true
  datagram : io.datagram = .fault msg
  run : machine.Run NoReceive (l₀.stepUdp io) l
  accepted : l.accepted = l₀.accepted
  delivered : l₀.delivered.length ≤ l.delivered.length

/-- A fault that the UDP thread handles was received, and none was accepted since. -/
theorem handling_of_reach {ok : Link → Input → Prop} {l : Link} (h : machine.Reach ok l) :
    ∀ msg, l.udp.fault = some msg → ∃ l₀ io, Handling ok l₀ io msg l := by
  refine h.inv (P := fun l => ∀ msg, l.udp.fault = some msg → ∃ l₀ io, Handling ok l₀ io msg l) ?_ ?_
  · rintro _ rfl msg hmsg
    cases hmsg
  · intro l i l' hl ih hok hstep msg hmsg
    have hdelivered := step_delivered hstep
    -- a step that keeps the UDP thread at the fault goes on with its reception
    have hgoes : ∀ {l₀ io}, Handling ok l₀ io msg l → NoReceive l i → l'.accepted = l.accepted →
        Handling ok l₀ io msg l' := fun hh hquiet hacc =>
      { hh with
        run := hh.run.step i hquiet hstep
        accepted := hacc.trans hh.accepted
        delivered := hh.delivered.trans hdelivered }
    cases i with
    | udp io =>
      obtain rfl := Option.some.inj hstep
      have hacc : (l.stepUdp io).accepted = l.accepted := accepted_stepUdp (by simp [hmsg])
      rcases fault_stepUdp hmsg with ⟨sock, hloop, hready, hdata⟩ | ⟨hfault, hnot⟩
      · exact ⟨l, io, hl, hok, ⟨sock, hloop⟩, hready, hdata, .refl, hacc, hdelivered⟩
      · obtain ⟨l₀, io₀, hh⟩ := ih msg hfault
        exact ⟨l₀, io₀, hgoes hh (fun _ sock _ hloop => absurd hloop (hnot sock)) hacc⟩
    | mission io =>
      obtain ⟨hudp, -, haccepted⟩ := stepMission_frame hstep
      obtain ⟨l₀, io₀, hh⟩ := ih msg (hudp ▸ hmsg)
      exact ⟨l₀, io₀, hgoes hh (by simp [NoReceive]) haccepted⟩
    | finish done =>
      have hframe : l'.udp = l.udp ∧ l'.accepted = l.accepted := by
        simp only [machine, step] at hstep
        split at hstep
        · rename_i m hm
          obtain rfl := Option.some.inj hstep
          rw [finish, hm]
          exact ⟨rfl, rfl⟩
        · cases hstep
      obtain ⟨l₀, io₀, hh⟩ := ih msg (hframe.1 ▸ hmsg)
      exact ⟨l₀, io₀, hgoes hh (by simp [NoReceive]) hframe.2⟩

/-- No FAULT is received for a key that is in progress. -/
def NoRepeat (l : Link) (i : Input) : Prop :=
  ∀ io sock msg n, i = .udp io → l.udp = .loop sock → io.linkReady = true →
    io.datagram = .fault msg → ¬ l.InProgress n msg.key

/-- **What an ERROR is about while a fault of its key is in progress**: it is the final report of
that very fault, or it rejects another FAULT of the same id from the same peer, which was received
while the first was in progress. Where no FAULT is repeated it is the final report. -/
theorem error_answers {ok : Link → Input → Prop} {l l' : Link} {i : Input} {key : UInt8 × Peer}
    {n : Nat} (h : machine.Reach ok l) (hstep : l.step i = some l')
    (hsent : l.errorSent i = some key) (hn : l.InProgress n key) :
    (l.OwnFinal l' n key ∨
      ∃ l₀ io msg, Handling ok l₀ io msg l ∧ msg.key = key ∧ l₀.InProgress n key) ∧
    ((∀ l i, ok l i → NoRepeat l i) → l.OwnFinal l' n key) := by
  have hcases : l.OwnFinal l' n key ∨
      ∃ l₀ io msg, Handling ok l₀ io msg l ∧ msg.key = key ∧ l₀.InProgress n key := by
    rcases errorSent_cases (inv_of_reach h) hstep hsent with hfinal | ⟨sock, msg, dst, hudp, hkey⟩
    · exact .inl (hfinal n key hn)
    · obtain ⟨l₀, io, hh⟩ := handling_of_reach h msg (by rw [hudp]; rfl)
      refine .inr ⟨l₀, io, msg, hh, hkey, hh.delivered.trans hn.1, ?_⟩
      rw [← hh.accepted]
      exact hn.2
  refine ⟨hcases, fun hno => ?_⟩
  rcases hcases with hown | ⟨l₀, io, msg, hh, rfl, hn₀⟩
  · exact hown
  · obtain ⟨sock, hloop⟩ := hh.loop
    exact absurd hn₀ (hno _ _ hh.meets io sock msg n rfl hloop hh.ready hh.datagram)

/-! ## A FAULT sent twice -/

def panelFive : Msg := ⟨⟨5, 2, 2, 1⟩, ⟨2, 4000, 1⟩⟩

/-- The fault is received twice; the second copy is about to be rejected while the first runs. -/
def sentTwice : List Input :=
  [.udp {}, .udp {}, .udp { datagram := .fault panelFive }, .udp {}, .udp {}, .udp {}, .udp {},
    .udp {}, .mission {}, .udp { datagram := .fault panelFive }, .udp {}, .udp {}, .udp {}, .udp {},
    .udp {}]

def rejectingCopy : Link := (machine.exec booted sentTwice).get (by decide +kernel)

theorem rejectingCopy_reach : machine.Reach Machine.free rejectingCopy :=
  .get rfl _

instance (l : Link) (n : Nat) (key : UInt8 × Peer) : Decidable (l.InProgress n key) :=
  inferInstanceAs (Decidable (_ ∧ _))

theorem error_answers_copy :
    rejectingCopy.OwnFinal (rejectingCopy.stepUdp {}) 0 panelFive.key ∨
      ∃ l₀ io msg, Handling Machine.free l₀ io msg rejectingCopy ∧ msg.key = panelFive.key ∧
        l₀.InProgress 0 panelFive.key :=
  (error_answers (i := .udp {}) rejectingCopy_reach rfl (by decide +kernel) (by decide +kernel)).1

/-- A peer may be told ERROR for a mission that is running. -/
theorem error_ambiguous :
    ¬ ∀ (l l' : Link) (i : Input) (key : UInt8 × Peer) (n : Nat), machine.Reach Machine.free l →
      l.step i = some l' → l.errorSent i = some key → l.InProgress n key → l.OwnFinal l' n key := by
  intro h
  have hown := h rejectingCopy (rejectingCopy.stepUdp {}) (.udp {}) panelFive.key 0
    rejectingCopy_reach rfl (by decide +kernel) (by decide +kernel)
  exact absurd hown (by decide +kernel)

end Link

end Hcics
