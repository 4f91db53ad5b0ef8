import Hcics.App.Reports
import Hcics.Kernel.QueueRuns

/-!
# Missions through the kernel's message queue

The link with the message queue of the kernel in place of its list: `rt_mq_send` of the UDP thread and
`rt_mq_recv` of the mission thread run section by section, and a call returns with its last section.
The link of `App/Link.lean`, where each is one step, is what this implements: the UDP thread's send
counts where the block is linked, the mission thread's receive where the block is freed.

How a `hcics_msg_t` lies in memory is left open: a `MsgLayout` gives the bytes of a message and the
message of bytes.
-/

namespace Hcics

/-- How a `hcics_msg_t` lies in memory; `size` is its `sizeof`. -/
structure MsgLayout where
  size : Nat
  encode : Msg → List UInt8
  decode : List UInt8 → Msg
  length_encode : ∀ msg, (encode msg).length = size
  decode_encode : ∀ msg, decode (encode msg) = msg

/-- The link, whose own `mq` is not used, and the message queue. -/
structure Queued where
  link : Link
  queue : MessageQueue

namespace Queued

abbrev udpThread : ThreadId := 0
abbrev missionThread : ThreadId := 1

abbrev waitingForever : Int32 := -1

variable (L : MsgLayout)

/-- The next section of the UDP thread's `rt_mq_send`. -/
def sendSection (q : MessageQueue) (msg : Msg) (io : KernelIo) : Option MessageQueue :=
  match q.place udpThread with
  | .out _ => q.step (.sendWait udpThread (L.encode msg) 0 io)
  | _ => q.step (.run udpThread io)

/-- The next section of the mission thread's `rt_mq_recv`. -/
def recvSection (q : MessageQueue) (io : KernelIo) : Option MessageQueue :=
  match q.place missionThread with
  | .out _ => q.step (.recv missionThread L.size waitingForever io)
  | _ => q.step (.run missionThread io)

def sendReturn (l : Link) (sock : Nat) (msg : Msg) (result : RtErr) : Link :=
  if result ≠ RT_EOK then { l with udp := .sendFailed sock msg }
  else { l with accepted := l.accepted ++ [msg], udp := .loop sock }

/-- The mission thread after `rt_mq_recv` returned. -/
def recvReturn (l : Link) (q : MessageQueue) (result : RtErr) : Link :=
  if result ≠ RT_EOK then l
  else
    match q.received.getLast? with
    | none => l
    | some (_, _, buffer) =>
      let msg := L.decode buffer
      { l with mission := if faultIsValid msg.fault then .running msg else .recv }

def stepUdp (s : Queued) (net : NetIo) (io : KernelIo) : Option Queued :=
  match s.link.udp with
  | .send sock msg =>
    (sendSection L s.queue msg io).map fun q =>
      match q.place udpThread with
      | .out result => ⟨sendReturn s.link sock msg result, q⟩
      | _ => { s with queue := q }
  | _ => some { s with link := s.link.stepUdp net }

/-- The mission thread's next step outside of the mission itself. -/
def stepMission (s : Queued) (net : NetIo) (io : KernelIo) : Option Queued :=
  match s.link.mission with
  | .recv =>
    (recvSection L s.queue io).map fun q =>
      match q.place missionThread with
      | .out result => ⟨recvReturn L s.link q result, q⟩
      | _ => { s with queue := q }
  | _ => (s.link.stepMission net).map fun link => { s with link := link }

/-- A step of the UDP thread or of the mission thread, or the end of the mission with its result. -/
inductive Input where
  | udp (net : NetIo) (io : KernelIo)
  | mission (net : NetIo) (io : KernelIo)
  | finish (done : Bool)

def step (s : Queued) : Input → Option Queued
  | .udp net io => s.stepUdp L net io
  | .mission net io => s.stepMission L net io
  | .finish done => (s.link.step (.finish done)).map fun link => { s with link := link }

/-- The link and the queue after `hcics_app_init`; the size of a block is `sizeof(hcics_msg_t)`, aligned. -/
def machine : Machine Queued Input where
  start s := ∃ next payload msgSize, L.size ≤ msgSize.toNat ∧
    s = ⟨.booted, .create (MsgPool.create next payload msgSize (.ofNat Link.eventDepth)) .fifo⟩
  step := step L

/-! ## The list of the queue -/

/-- The message in the hands of the mission thread. -/
def inHand : Place → List Msg
  | .recvCopy _ _ taken | .recvFree _ _ taken _ => [L.decode (taken.take L.size)]
  | _ => []

/-- The messages in the blocks of the queue, and the one that the mission thread has unlinked. -/
def messages (q : MessageQueue) : List Msg :=
  inHand L (q.place missionThread) ++ q.contents.map fun payload => L.decode (payload.take L.size)

def abstract (s : Queued) : Link := { s.link with mq := messages L s.queue }

/-! ## Where the threads are in their calls -/

/-- In no call. -/
def Out : Place → Prop
  | .out _ => True
  | _ => False

/-- In the send of a message, or not in it yet. -/
def Sends (msg : Msg) : Place → Prop
  | .out _ => True
  | .sendCopy urgent buffer _ | .sendLink urgent buffer _ => urgent = false ∧ buffer = L.encode msg
  | _ => False

/-- In the receive of a message, or not in it yet. -/
def Receives : Place → Prop
  | .out _ => True
  | .recvWait size timeout _ => size = L.size ∧ timeout = waitingForever
  | .recvReady size timeout _ error => size = L.size ∧ timeout = waitingForever ∧ error = RT_EOK
  | .recvCopy size _ _ | .recvFree size _ _ _ => size = L.size
  | _ => False

def UdpCall (link : Link) (p : Place) : Prop :=
  match link.udp with
  | .send _ msg => Sends L msg p
  | _ => Out p

def MissionCall (link : Link) (p : Place) : Prop :=
  match link.mission with
  | .recv => Receives L p
  | _ => Out p

/-- The queue holds the messages `rest`, and each thread is in its own call. -/
structure Inv (s : Queued) (rest : List Msg) : Prop where
  kernel : MessageQueue.machine.Reach Machine.free s.queue
  size : L.size ≤ s.queue.pool.msgSize.toNat
  depth : s.queue.pool.maxMsgs = .ofNat Link.eventDepth
  events : QueueEvent.after s.queue.events = rest.map L.encode
  udp : UdpCall L s.link (s.queue.place udpThread)
  mission : MissionCall L s.link (s.queue.place missionThread)
  others : ∀ t, t ≠ udpThread → t ≠ missionThread → Out (s.queue.place t)

variable {L} {s s' : Queued} {q q' : MessageQueue} {rest : List Msg} {msg : Msg} {p : Place}

theorem UdpCall.of_out {link : Link} (h : Out p) : UdpCall L link p := by
  unfold UdpCall
  split
  · cases p <;> trivial
  · exact h

theorem MissionCall.of_out {link : Link} (h : Out p) : MissionCall L link p := by
  unfold MissionCall
  split
  · cases p <;> trivial
  · exact h

theorem Out.wake (h : Out p) (error : RtErr) : Out (p.wake error) := by
  cases p <;> trivial

theorem Sends.wake (h : Sends L msg p) (error : RtErr) : Sends L msg (p.wake error) := by
  cases p <;> exact h

theorem Receives.wake (h : Receives L p) : Receives L (p.wake RT_EOK) := by
  cases p with
  | recvWait size timeout start => exact ⟨h.1, h.2, rfl⟩
  | _ => exact h

theorem inHand_wake (p : Place) (error : RtErr) : inHand L (p.wake error) = inHand L p := by
  cases p <;> rfl

theorem UdpCall.wake {link : Link} (h : UdpCall L link p) (error : RtErr) :
    UdpCall L link (p.wake error) := by
  revert h
  unfold UdpCall
  split
  · exact fun h => Sends.wake h error
  · exact fun h => Out.wake h error

theorem MissionCall.wake {link : Link} (h : MissionCall L link p) :
    MissionCall L link (p.wake RT_EOK) := by
  revert h
  unfold MissionCall
  split
  · exact Receives.wake
  · exact fun h => Out.wake h RT_EOK

theorem decode_take {payload : List UInt8} (h : L.encode msg <+: payload) :
    L.decode (payload.take L.size) = msg := by
  rw [← L.length_encode msg, ← List.prefix_iff_eq_take.mp h, L.decode_encode]

theorem contents_eq (h : MessageQueue.machine.Reach Machine.free q)
    (hevents : QueueEvent.after q.events = rest.map L.encode) :
    (q.contents.map fun payload => L.decode (payload.take L.size)) = rest := by
  have hcontent := MessageQueue.contents_hold h
  rw [hevents, List.forall₂_map_left_iff] at hcontent
  generalize q.contents = contents at hcontent
  clear hevents
  induction hcontent with
  | nil => rfl
  | cons hprefix _ ih => rw [List.map_cons, ih, decode_take hprefix]

theorem exists_free (h : MessageQueue.machine.Reach Machine.free q) (hdepth : 0 < q.pool.maxMsgs.toNat)
    (hempty : QueueEvent.after q.events = []) (hblock : ∀ t, (q.place t).block = none) :
    ∃ msg, q.pool.free = some msg := by
  have hcontent := MessageQueue.contents_hold h
  have hentry := MessageQueue.length_contents h
  rw [hempty, List.forall₂_nil_left_iff] at hcontent
  rw [hcontent, List.length_nil] at hentry
  refine Option.ne_none_iff_exists'.mp fun hnone => ?_
  obtain ⟨threads, -, hlength, hthreads⟩ := MessageQueue.block_of_free_none h hnone
  obtain ⟨t, ht⟩ : ∃ t, t ∈ threads := List.exists_mem_of_length_pos (by omega)
  have hsome : (q.place t).block.isSome = true := hthreads t ht
  rw [hblock t] at hsome
  cases hsome

/-! ## The sections of the queue -/

/-- A thread is where it was, or was woken. -/
def Woken (p p' : Place) : Prop := p' = p ∨ p' = p.wake RT_EOK

theorem woken_out (h : Out p) {p' : Place} (hw : Woken p p') : Out p' := by
  rcases hw with rfl | rfl
  · exact h
  · exact h.wake RT_EOK

theorem inHand_woken {p' : Place} (hw : Woken p p') : inHand L p' = inHand L p := by
  rcases hw with rfl | rfl
  · rfl
  · exact inHand_wake p RT_EOK

/-- `q'` is `q` with other threads woken only. -/
structure Resumed (q q' : MessageQueue) : Prop where
  pool : q'.pool = q.pool
  events : q'.events = q.events
  received : q'.received = q.received
  place : ∀ t, Woken (q.place t) (q'.place t)

theorem woken_goto_wake (q : MessageQueue) (t u : ThreadId) :
    Woken (q.place u) ((q.goto t ((q.place t).wake RT_EOK)).place u) := by
  by_cases hu : u = t
  · rw [hu, MessageQueue.goto_place_self]
    exact .inr rfl
  · rw [MessageQueue.goto_place_of_ne hu]
    exact .inl rfl

theorem resumeReceiver_resumed (q : MessageQueue) : Resumed q q.resumeReceiver := by
  unfold MessageQueue.resumeReceiver
  split
  · exact ⟨rfl, rfl, rfl, fun _ => .inl rfl⟩
  · exact ⟨rfl, rfl, rfl, fun u => woken_goto_wake q _ u⟩

theorem resumeSender_resumed (q : MessageQueue) : Resumed q q.resumeSender := by
  unfold MessageQueue.resumeSender
  split
  · exact ⟨rfl, rfl, rfl, fun _ => .inl rfl⟩
  · exact ⟨rfl, rfl, rfl, fun u => woken_goto_wake q _ u⟩

/-- A section of a thread of the two keeps the invariant, if it leaves the thread in its call. -/
theorem Inv.step (h : Inv L s rest) {i : MessageQueue.Input} {link : Link} {rest' : List Msg} {t : ThreadId}
    (hstep : s.queue.step i = some q') (hsize : q'.pool.msgSize = s.queue.pool.msgSize)
    (hdepth : q'.pool.maxMsgs = s.queue.pool.maxMsgs)
    (hevents : QueueEvent.after q'.events = rest'.map L.encode) (ht : t = udpThread ∨ t = missionThread)
    (hothers : ∀ u, u ≠ t → Woken (s.queue.place u) (q'.place u))
    (hudp : UdpCall L link (q'.place udpThread)) (hmission : MissionCall L link (q'.place missionThread)) :
    Inv L ⟨link, q'⟩ rest' where
  kernel := h.kernel.step trivial hstep
  size := hsize ▸ h.size
  depth := hdepth.trans h.depth
  events := hevents
  udp := hudp
  mission := hmission
  others u hu hm := woken_out (h.others u hu hm) (hothers u (by rintro rfl; exact ht.elim hu hm))

theorem UdpCall.woken {link : Link} (h : UdpCall L link p) {p' : Place} (hw : Woken p p') :
    UdpCall L link p' := by
  rcases hw with rfl | rfl
  · exact h
  · exact h.wake RT_EOK

theorem MissionCall.woken {link : Link} (h : MissionCall L link p) {p' : Place} (hw : Woken p p') :
    MissionCall L link p' := by
  rcases hw with rfl | rfl
  · exact h
  · exact h.wake

/-- A section of `rt_mq_send`: the thread goes on in its call, or the message is queued. -/
theorem send_case (h : Inv L s rest) {sock : Nat} (hudp : s.link.udp = .send sock msg) {io : KernelIo}
    (hfree : Out (s.queue.place udpThread) → ∃ block, s.queue.pool.free = some block)
    (hstep : sendSection L s.queue msg io = some q') :
    (¬ Out (q'.place udpThread) ∧ Inv L { s with queue := q' } rest ∧
        inHand L (q'.place missionThread) = inHand L (s.queue.place missionThread)) ∨
      (q'.place udpThread = .out RT_EOK ∧ Inv L ⟨sendReturn s.link sock msg RT_EOK, q'⟩ (rest ++ [msg]) ∧
        inHand L (q'.place missionThread) = inHand L (s.queue.place missionThread)) := by
  have hcall := h.udp
  have hne : missionThread ≠ udpThread := by decide
  have hsends (p : Place) (hp : Sends L msg p) : UdpCall L s.link p := by rwa [UdpCall, hudp]
  rw [UdpCall, hudp] at hcall
  unfold sendSection at hstep
  cases hplace : s.queue.place udpThread with
  | out result =>
    rw [hplace] at hstep
    obtain ⟨block, hblock⟩ := hfree (by rw [hplace]; trivial)
    have hlength : ¬ (L.encode msg).length > s.queue.pool.msgSize.toNat := by
      rw [L.length_encode]
      exact Nat.not_lt.mpr h.size
    have heq : q' = { s.queue with pool := s.queue.pool.takeFree block }.goto udpThread
        (.sendCopy false (L.encode msg) block) := by
      simp only [MessageQueue.step, MessageQueue.call, hplace, hlength, if_false,
        MessageQueue.sendSection, hblock] at hstep
      exact (Option.some.inj hstep).symm
    subst heq
    refine .inl ⟨?_, h.step hstep rfl rfl h.events (.inl rfl) (fun u hu => ?_) (hsends _ ?_) ?_, ?_⟩
    · rw [MessageQueue.goto_place_self]
      exact id
    · rw [MessageQueue.goto_place_of_ne hu]
      exact .inl rfl
    · rw [MessageQueue.goto_place_self]
      exact ⟨rfl, rfl⟩
    · rw [MessageQueue.goto_place_of_ne hne]
      exact h.mission
    · rw [MessageQueue.goto_place_of_ne hne]
  | sendCopy urgent buffer block =>
    rw [hplace] at hstep hcall
    obtain ⟨rfl, rfl⟩ := hcall
    have heq : q' = s.queue.copySection udpThread false (L.encode msg) block := by
      simp only [MessageQueue.step, MessageQueue.run, hplace] at hstep
      exact (Option.some.inj hstep).symm
    subst heq
    refine .inl ⟨?_, h.step hstep rfl rfl h.events (.inl rfl) (fun u hu => ?_) (hsends _ ?_) ?_, ?_⟩
    · rw [MessageQueue.copySection, MessageQueue.goto_place_self]
      exact id
    · rw [MessageQueue.copySection, MessageQueue.goto_place_of_ne hu]
      exact .inl rfl
    · rw [MessageQueue.copySection, MessageQueue.goto_place_self]
      exact ⟨rfl, rfl⟩
    · rw [MessageQueue.copySection, MessageQueue.goto_place_of_ne hne]
      exact h.mission
    · rw [MessageQueue.copySection, MessageQueue.goto_place_of_ne hne]
  | sendLink urgent buffer block =>
    rw [hplace] at hstep hcall
    obtain ⟨rfl, rfl⟩ := hcall
    have hentry : (s.queue.pool.link block).entry < mqEntryMax := by
      have hle := MessageQueue.entry_le_maxMsgs h.kernel
      rw [h.depth] at hle
      have hdepth : UInt16.ofNat Link.eventDepth < mqEntryMax := by decide
      exact UInt16.lt_of_le_of_lt hle hdepth
    -- the queue with the block linked, before a receiver is resumed
    let linked : MessageQueue :=
      { s.queue with
        pool := { s.queue.pool.link block with entry := (s.queue.pool.link block).entry + 1 }
        events := s.queue.events ++ [QueueEvent.push (L.encode msg)] }.goto udpThread (.out RT_EOK)
    have heq : q' = linked.resumeReceiver := by
      simp only [MessageQueue.step, MessageQueue.run, hplace, MessageQueue.linkSection,
        Bool.false_eq_true, if_false, hentry, if_true] at hstep
      exact (Option.some.inj hstep).symm
    have hresumed := resumeReceiver_resumed linked
    rw [← heq] at hresumed
    have hself : q'.place udpThread = .out RT_EOK := by
      rcases hresumed.place udpThread with hp | hp <;> rw [hp, MessageQueue.goto_place_self]
      rfl
    have hother (u : ThreadId) (hu : u ≠ udpThread) : Woken (s.queue.place u) (q'.place u) := by
      have hw := hresumed.place u
      rwa [MessageQueue.goto_place_of_ne hu] at hw
    refine .inr ⟨hself, h.step hstep ?_ ?_ ?_ (.inl rfl) hother ?_ ?_, inHand_woken (hother _ hne)⟩
    · rw [hresumed.pool]
      rfl
    · rw [hresumed.pool]
      rfl
    · rw [hresumed.events, List.map_append, ← h.events]
      exact QueueEvent.after_snoc _ _
    · rw [hself]
      trivial
    · exact @MissionCall.woken L _ (sendReturn s.link sock msg RT_EOK) h.mission _ (hother _ hne)
  | _ =>
    rw [hplace] at hcall
    exact hcall.elim

theorem head_eq (h : Inv L s rest) (hentry : s.queue.pool.entry ≠ 0) :
    ∃ block msg rest', s.queue.pool.head = some block ∧ rest = msg :: rest' ∧
      L.encode msg <+: s.queue.pool.payload block := by
  have hcontent := MessageQueue.contents_hold h.kernel
  have hlength := MessageQueue.length_contents h.kernel
  obtain ⟨n, hn⟩ : ∃ n, s.queue.pool.entry.toNat = n + 1 :=
    Nat.exists_eq_succ_of_ne_zero fun hzero => hentry (UInt16.toNat_inj.mp hzero)
  rw [h.events, MessageQueue.contents, hn, List.forall₂_map_left_iff] at hcontent
  rw [MessageQueue.contents, hn] at hlength
  cases hhead : s.queue.pool.head with
  | none =>
    rw [hhead] at hlength
    simp [collect] at hlength
  | some block =>
    rw [hhead, collect, List.map_cons] at hcontent
    obtain ⟨msg, rest', hprefix, -, rfl⟩ := List.forall₂_cons_right_iff.mp hcontent
    exact ⟨block, msg, rest', rfl, rfl, hprefix⟩

theorem take_case (h : Inv L s rest) (hmission : s.link.mission = .recv) {i : MessageQueue.Input}
    {io : KernelIo}
    (hstep : s.queue.step i = some (s.queue.recvSection io missionThread L.size waitingForever)) :
    ¬ Out ((s.queue.recvSection io missionThread L.size waitingForever).place missionThread) ∧
      ∃ rest', Inv L { s with queue := s.queue.recvSection io missionThread L.size waitingForever } rest' ∧
        inHand L ((s.queue.recvSection io missionThread L.size waitingForever).place missionThread) ++ rest' =
          rest := by
  have hreceives (p : Place) (hp : Receives L p) : MissionCall L s.link p := by rwa [MissionCall, hmission]
  have hne : udpThread ≠ missionThread := by decide
  by_cases hentry : s.queue.pool.entry = 0
  · have heq : s.queue.recvSection io missionThread L.size waitingForever =
        { s.queue with
          receivers := ipcListSuspend s.queue.flag io.priority s.queue.receivers missionThread }.goto
            missionThread (.recvWait L.size waitingForever io.now) := by
      simp only [MessageQueue.recvSection, hentry, if_true]
      rfl
    rw [heq] at hstep ⊢
    rw [MessageQueue.goto_place_self]
    refine ⟨id, rest, h.step hstep rfl rfl h.events (.inr rfl) (fun u hu => ?_) ?_ (hreceives _ ?_), rfl⟩
    · rw [MessageQueue.goto_place_of_ne hu]
      exact .inl rfl
    · rw [MessageQueue.goto_place_of_ne hne]
      exact h.udp
    · rw [MessageQueue.goto_place_self]
      exact ⟨rfl, rfl⟩
  · obtain ⟨block, msg, rest', hhead, rfl, hprefix⟩ := head_eq h hentry
    have heq : s.queue.recvSection io missionThread L.size waitingForever =
        { s.queue with
          pool := (s.queue.pool.unlink block).countDown
          events := s.queue.events ++ [QueueEvent.pop]
          taken := s.queue.taken ++ [s.queue.pool.payload block] }.goto missionThread
            (.recvCopy L.size block (s.queue.pool.payload block)) := by
      simp only [MessageQueue.recvSection, hentry, if_false, hhead]
    rw [heq] at hstep ⊢
    rw [MessageQueue.goto_place_self]
    refine ⟨id, rest', h.step hstep rfl rfl ?_ (.inr rfl) (fun u hu => ?_) ?_ (hreceives _ ?_), ?_⟩
    · show QueueEvent.after (s.queue.events ++ [QueueEvent.pop]) = rest'.map L.encode
      rw [QueueEvent.after_snoc, h.events]
      rfl
    · rw [MessageQueue.goto_place_of_ne hu]
      exact .inl rfl
    · rw [MessageQueue.goto_place_of_ne hne]
      exact h.udp
    · rw [MessageQueue.goto_place_self]
      rfl
    · rw [inHand, decode_take hprefix]
      rfl

/-- A section of `rt_mq_recv`: the thread goes on in its call, or returns with the oldest message. -/
theorem recv_case (h : Inv L s rest) (hmission : s.link.mission = .recv) {io : KernelIo}
    (hstep : recvSection L s.queue io = some q') :
    (¬ Out (q'.place missionThread) ∧ ∃ rest', Inv L { s with queue := q' } rest' ∧
        inHand L (q'.place missionThread) ++ rest' = inHand L (s.queue.place missionThread) ++ rest) ∨
      (q'.place missionThread = .out RT_EOK ∧ ∃ msg, inHand L (s.queue.place missionThread) = [msg] ∧
        recvReturn L s.link q' RT_EOK =
          { s.link with mission := if faultIsValid msg.fault then .running msg else .recv } ∧
        Inv L ⟨recvReturn L s.link q' RT_EOK, q'⟩ rest) := by
  have hcall := h.mission
  have hreceives (p : Place) (hp : Receives L p) : MissionCall L s.link p := by rwa [MissionCall, hmission]
  have hne : udpThread ≠ missionThread := by decide
  rw [MissionCall, hmission] at hcall
  unfold recvSection at hstep
  cases hplace : s.queue.place missionThread with
  | out result =>
    rw [hplace] at hstep
    have heq : s.queue.recvSection io missionThread L.size waitingForever = q' := by
      simp only [MessageQueue.step, MessageQueue.call, hplace] at hstep
      exact Option.some.inj hstep
    rw [← heq] at hstep ⊢
    exact .inl (take_case h hmission hstep)
  | recvReady size timeout start error =>
    rw [hplace] at hstep hcall
    obtain ⟨rfl, rfl, rfl⟩ := hcall
    have heq : s.queue.recvSection io missionThread L.size waitingForever = q' := by
      simp only [MessageQueue.step, MessageQueue.run, hplace, ne_eq, not_true_eq_false, if_false] at hstep
      exact Option.some.inj hstep
    rw [← heq] at hstep ⊢
    exact .inl (take_case h hmission hstep)
  | recvWait size timeout start =>
    rw [hplace] at hstep
    simp only [MessageQueue.step, MessageQueue.run, hplace] at hstep
    cases hstep
  | recvCopy size block taken =>
    rw [hplace] at hstep hcall
    obtain rfl : size = L.size := hcall
    have heq : s.queue.goto missionThread (.recvFree L.size block taken (s.queue.pool.copyOut block L.size)) =
        q' := by
      simp only [MessageQueue.step, MessageQueue.run, hplace] at hstep
      exact Option.some.inj hstep
    rw [← heq] at hstep ⊢
    rw [MessageQueue.goto_place_self]
    refine .inl ⟨id, rest, h.step hstep rfl rfl h.events (.inr rfl) (fun u hu => ?_) ?_ (hreceives _ ?_), rfl⟩
    · rw [MessageQueue.goto_place_of_ne hu]
      exact .inl rfl
    · rw [MessageQueue.goto_place_of_ne hne]
      exact h.udp
    · rw [MessageQueue.goto_place_self]
      rfl
  | recvFree size block taken buffer =>
    rw [hplace] at hstep hcall
    obtain rfl : size = L.size := hcall
    -- the queue with the block freed, before a sender is resumed
    let freed : MessageQueue :=
      { s.queue with
        pool := s.queue.pool.giveBack block
        received := s.queue.received ++ [(L.size, taken, buffer)] }.goto missionThread (.out RT_EOK)
    have heq : q' = freed.resumeSender := by
      simp only [MessageQueue.step, MessageQueue.run, hplace, MessageQueue.freeSection] at hstep
      exact (Option.some.inj hstep).symm
    have hresumed := resumeSender_resumed freed
    rw [← heq] at hresumed
    have hself : q'.place missionThread = .out RT_EOK := by
      rcases hresumed.place missionThread with hp | hp <;> rw [hp, MessageQueue.goto_place_self]
      rfl
    have hother (u : ThreadId) (hu : u ≠ missionThread) : Woken (s.queue.place u) (q'.place u) := by
      have hw := hresumed.place u
      rwa [MessageQueue.goto_place_of_ne hu] at hw
    have hreceived : q'.received = s.queue.received ++ [(L.size, taken, buffer)] := hresumed.received
    have hsize : q'.pool.msgSize = s.queue.pool.msgSize := by
      rw [hresumed.pool]
      rfl
    have hbuffer : buffer = taken.take L.size := by
      have hrun : MessageQueue.machine.step s.queue (.run missionThread io) = some q' := hstep
      have hall := MessageQueue.received_eq_take (h.kernel.step trivial hrun)
      have hlast := hall (L.size, taken, buffer) (by rw [hreceived]; simp)
      rwa [hsize, Nat.min_eq_left h.size] at hlast
    have hreturn : recvReturn L s.link q' RT_EOK =
        { s.link with
          mission := if faultIsValid (L.decode (taken.take L.size)).fault then
              .running (L.decode (taken.take L.size))
            else .recv } := by
      simp only [recvReturn, ne_eq, not_true_eq_false, if_false, hreceived, List.getLast?_concat, hbuffer]
    refine .inr ⟨hself, _, rfl, hreturn, h.step hstep hsize ?_ ?_ (.inr rfl) hother ?_ ?_⟩
    · rw [hresumed.pool]
      rfl
    · rw [hresumed.events]
      exact h.events
    · rw [hreturn]
      exact @UdpCall.woken L _ { s.link with mission := _ } h.udp _ (hother _ hne)
    · rw [hself, hreturn, MissionCall]
      split <;> trivial
  | _ =>
    rw [hplace] at hcall
    exact hcall.elim

/-! ## The link -/

theorem stepUdp_mq {l : Link} (h : ∀ sock msg, l.udp ≠ .send sock msg) (net : NetIo) (mq : List Msg) :
    { l with mq := mq }.stepUdp net = { l.stepUdp net with mq := mq } := by
  unfold Link.stepUdp
  cases hudp : l.udp with
  | send sock msg => exact absurd hudp (h sock msg)
  | closed => cases hbound : net.bound <;> rfl
  | loop sock => cases hready : net.linkReady <;> rfl
  | flush sock next =>
    simp only [Link.flushPending]
    cases l.pending <;> cases l.udpSock <;> cases net.linkReady <;> rfl
  | flushSend sock next report dst =>
    dsimp only
    cases Link.udpSendReport (some dst) net <;> rfl
  | flushClear sock next report =>
    simp only [Link.clearPendingIfCurrent]
    split <;> rfl
  | enqueue sock msg =>
    dsimp only
    split <;> rfl
  | reserve sock msg =>
    simp only [Link.reserveMission]
    split_ifs <;> rfl
  | _ => rfl

theorem stepUdp_mission (l : Link) (net : NetIo) : (l.stepUdp net).mission = l.mission := by
  have hcase := Link.stepUdp_case l net
  generalize l.stepUdp net = l' at hcase ⊢
  cases hcase with
  | clear sock next report pc =>
    unfold Link.clearPendingIfCurrent
    split <;> rfl
  | _ => rfl

theorem stepMission_mq {l : Link} (h : l.mission ≠ .recv) (net : NetIo) (mq : List Msg) :
    { l with mq := mq }.stepMission net = (l.stepMission net).map fun l' => { l' with mq := mq } := by
  unfold Link.stepMission
  cases hmission : l.mission with
  | recv => exact absurd hmission h
  | reportSend msg done dst =>
    dsimp only
    split <;> rfl
  | reportStore msg done =>
    simp only [Link.storePending]
    cases l.pending <;> rfl
  | _ => rfl

/-- The link with these messages in its queue is reachable. -/
def Refines (L : MsgLayout) (s : Queued) (rest : List Msg) : Prop :=
  Inv L s rest ∧
    Link.machine.Reach Machine.free { s.link with mq := inHand L (s.queue.place missionThread) ++ rest }

theorem block_of_out (h : Out p) : p.block = none := by
  cases p <;> first | rfl | exact h.elim

theorem block_of_receives (h : Receives L p) (hhand : inHand L p = []) : p.block = none := by
  cases p <;> first | rfl | exact h.elim | exact (List.cons_ne_nil _ _ hhand).elim

theorem Refines.free (h : Refines L s rest) {sock : Nat} (hudp : s.link.udp = .send sock msg) :
    inHand L (s.queue.place missionThread) ++ rest = [] ∧
      (Out (s.queue.place udpThread) → ∃ block, s.queue.pool.free = some block) := by
  have hone := (Link.inv_of_reach h.2).one
  simp only [Link.openMissions, hudp, UdpPc.reserved, List.length_append, List.length_singleton] at hone
  have hempty : inHand L (s.queue.place missionThread) ++ rest = [] :=
    List.eq_nil_of_length_eq_zero (by rw [List.length_append]; omega)
  obtain ⟨hhand, rfl⟩ := List.append_eq_nil_iff.mp hempty
  refine ⟨hempty, fun hout => exists_free h.1.kernel ?_ h.1.events fun t => ?_⟩
  · rw [h.1.depth]
    decide
  · by_cases ht : t = udpThread
    · rw [ht]
      exact block_of_out hout
    by_cases ht' : t = missionThread
    · have hcall := h.1.mission
      rw [ht']
      unfold MissionCall at hcall
      split at hcall
      · exact block_of_receives hcall hhand
      · exact block_of_out hcall
    · exact block_of_out (h.1.others t ht ht')

theorem Refines.stepUdp (h : Refines L s rest) {net : NetIo} {io : KernelIo}
    (hstep : s.stepUdp L net io = some s') : ∃ rest', Refines L s' rest' := by
  unfold Queued.stepUdp at hstep
  split at hstep
  · rename_i sock msg hudp
    obtain ⟨q', hq', rfl⟩ := Option.map_eq_some_iff.mp hstep
    obtain ⟨hempty, hfree⟩ := h.free hudp
    rcases send_case h.1 hudp hfree hq' with ⟨hnot, hinv, hhand⟩ | ⟨hout, hinv, hhand⟩
    · have heq : (match q'.place udpThread with
          | .out result => ⟨sendReturn s.link sock msg result, q'⟩
          | _ => { s with queue := q' } : Queued) = { s with queue := q' } := by
        cases hp : q'.place udpThread <;> first | rfl | exact absurd (hp ▸ trivial) hnot
      rw [heq]
      refine ⟨rest, hinv, ?_⟩
      rw [hhand]
      exact h.2
    · rw [hout]
      refine ⟨rest ++ [msg], hinv, h.2.step (i := .udp net) trivial ?_⟩
      rw [hhand, ← List.append_assoc, hempty]
      simp only [Link.machine, Link.step, Link.stepUdp, hudp, Link.mqSend]
      rfl
  · rename_i hnot
    obtain rfl := Option.some.inj hstep
    refine ⟨rest, ⟨h.1.kernel, h.1.size, h.1.depth, h.1.events, ?_, ?_, h.1.others⟩, ?_⟩
    · have hcall := h.1.udp
      unfold UdpCall at hcall
      split at hcall
      · exact absurd ‹_› (hnot _ _)
      · exact .of_out hcall
    · have hsame : (s.link.stepUdp net).mission = s.link.mission := stepUdp_mission s.link net
      unfold MissionCall
      rw [hsame]
      exact h.1.mission
    · refine h.2.step (i := .udp net) trivial ?_
      rw [← stepUdp_mq hnot]
      rfl

theorem Refines.stepMission (h : Refines L s rest) {net : NetIo} {io : KernelIo}
    (hstep : s.stepMission L net io = some s') : ∃ rest', Refines L s' rest' := by
  unfold Queued.stepMission at hstep
  split at hstep
  · rename_i hmission
    obtain ⟨q', hq', rfl⟩ := Option.map_eq_some_iff.mp hstep
    rcases recv_case h.1 hmission hq' with ⟨hnot, rest', hinv, hmessages⟩ | ⟨hout, msg, hhand, hreturn, hinv⟩
    · have heq : (match q'.place missionThread with
          | .out result => ⟨recvReturn L s.link q' result, q'⟩
          | _ => { s with queue := q' } : Queued) = { s with queue := q' } := by
        cases hp : q'.place missionThread <;> first | rfl | exact absurd (hp ▸ trivial) hnot
      rw [heq]
      refine ⟨rest', hinv, ?_⟩
      rw [hmessages]
      exact h.2
    · rw [hout]
      refine ⟨rest, hinv, h.2.step (i := .mission net) trivial ?_⟩
      simp only [hout, hhand, hreturn, Link.machine, Link.step, Link.stepMission, hmission]
      rfl
  · rename_i hnot
    obtain ⟨link, hlink, rfl⟩ := Option.map_eq_some_iff.mp hstep
    refine ⟨rest, ⟨h.1.kernel, h.1.size, h.1.depth, h.1.events, ?_, ?_, h.1.others⟩, ?_⟩
    · unfold UdpCall
      rw [(Link.stepMission_frame hlink).1]
      exact h.1.udp
    · have hcall := h.1.mission
      unfold MissionCall at hcall
      split at hcall
      · exact absurd ‹_› hnot
      · exact .of_out hcall
    · refine h.2.step (i := .mission net) trivial ?_
      have hframe := stepMission_mq hnot net (inHand L (s.queue.place missionThread) ++ rest)
      rw [hlink] at hframe
      exact hframe

theorem Refines.finish (h : Refines L s rest) {done : Bool} {link : Link}
    (hstep : s.link.step (.finish done) = some link) : Refines L { s with link := link } rest := by
  simp only [Link.step] at hstep
  split at hstep
  · rename_i msg hmission
    obtain rfl := Option.some.inj hstep
    have hcall := h.1.mission
    rw [MissionCall, hmission] at hcall
    have hudp : (s.link.finish done).udp = s.link.udp := by
      rw [Link.finish, hmission]
    refine ⟨⟨h.1.kernel, h.1.size, h.1.depth, h.1.events, ?_, .of_out hcall, h.1.others⟩, ?_⟩
    · unfold UdpCall
      rw [hudp]
      exact h.1.udp
    · refine h.2.step (i := .finish done) trivial ?_
      simp only [Link.machine, Link.step, hmission, Link.finish]
  · cases hstep

theorem refines_of_reach (h : (machine L).Reach Machine.free s) : ∃ rest, Refines L s rest := by
  refine h.inv (P := fun s => ∃ rest, Refines L s rest) ?_ ?_
  · rintro _ ⟨next, payload, msgSize, hsize, rfl⟩
    refine ⟨[], ⟨.base ⟨_, _, _, _, _, rfl⟩, hsize, rfl, rfl, trivial, trivial, fun _ _ _ => trivial⟩, ?_⟩
    exact .base rfl
  · rintro s i s' - ⟨rest, href⟩ - hstep
    cases i with
    | udp net io => exact href.stepUdp hstep
    | mission net io => exact href.stepMission hstep
    | finish done =>
      obtain ⟨link, hlink, rfl⟩ := Option.map_eq_some_iff.mp hstep
      exact ⟨rest, href.finish hlink⟩

theorem sendFailed_unreachable {l : Link} (h : Link.machine.Reach Machine.free l) (sock : Nat) (msg : Msg) :
    l.udp ≠ .sendFailed sock msg := by
  refine h.inv (P := fun l => ∀ sock msg, l.udp ≠ .sendFailed sock msg) ?_ ?_ sock msg
  · rintro _ rfl sock msg
    simp [Link.booted]
  · intro l i l' hreach hl _ hstep sock msg
    cases i with
    | mission net =>
      rw [(Link.stepMission_frame hstep).1]
      exact hl sock msg
    | finish done =>
      obtain ⟨_, -, rfl⟩ := Link.finish_case hstep
      exact hl sock msg
    | udp net =>
      have hone := (Link.inv_of_reach hreach).one
      obtain rfl := Option.some.inj hstep
      unfold Link.stepUdp
      cases hudp : l.udp with
      | send sock' msg' =>
        simp only [Link.openMissions, hudp, UdpPc.reserved, List.length_append,
          List.length_singleton] at hone
        have hroom : ¬ l.mq.length ≥ Link.eventDepth := by
          rw [Link.eventDepth]
          omega
        simp only [Link.mqSend, hroom, if_false]
        simp
      | sendFailed sock' msg' => exact absurd hudp (hl _ _)
      | closed => cases net.bound <;> simp
      | loop sock' =>
        dsimp only
        split
        · cases net.datagram <;> simp [Link.received]
        · simp
      | flush sock' next =>
        have hnext : Link.afterFlush sock' next ≠ .sendFailed sock msg := by cases next <;> simp [Link.afterFlush]
        simp only [Link.flushPending]
        split
        · split
          · simp
          · exact hnext
        · exact hnext
      | flushSend sock' next report dst =>
        have hnext : Link.afterFlush sock' next ≠ .sendFailed sock msg := by cases next <;> simp [Link.afterFlush]
        dsimp only
        split
        · simp
        · exact hnext
      | flushClear sock' next report =>
        cases next <;> simp [Link.afterFlush]
      | pendingCheck sock' msg' =>
        dsimp only
        split <;> simp
      | enqueue sock' msg' =>
        dsimp only
        split
        · simp
        · dsimp only
          split <;> simp
      | reserve sock' msg' =>
        simp only [Link.reserveMission]
        split_ifs <;> simp
      | stop sock' pc => cases pc <;> simp
      | reject sock' msg' => simp
      | rejectSend sock' msg' dst => simp
      | closing => simp

theorem Inv.places (h : Inv L s rest) (t : ThreadId) :
    (s.queue.place t).sendWaits = false ∧ (t ≠ missionThread → (s.queue.place t).recvAwake = false) := by
  have hout (p : Place) (hp : Out p) : p.sendWaits = false ∧ p.recvAwake = false := by
    cases p <;> first | exact ⟨rfl, rfl⟩ | exact hp.elim
  by_cases htu : t = udpThread
  · have hcall := h.udp
    rw [htu]
    unfold UdpCall at hcall
    split at hcall
    · cases hp : s.queue.place udpThread <;> rw [hp] at hcall <;>
        first | exact ⟨rfl, fun _ => rfl⟩ | exact hcall.elim
    · exact ⟨(hout _ hcall).1, fun _ => (hout _ hcall).2⟩
  by_cases htm : t = missionThread
  · have hcall := h.mission
    rw [htm]
    refine ⟨?_, fun hne => absurd rfl hne⟩
    unfold MissionCall at hcall
    split at hcall
    · cases hp : s.queue.place missionThread <;> rw [hp] at hcall <;> first | rfl | exact hcall.elim
    · exact (hout _ hcall).1
  · exact ⟨(hout _ (h.others t htu htm)).1, fun _ => (hout _ (h.others t htu htm)).2⟩

/-- **Missions go through the kernel's queue as through a list.** Under every order of the sections of
both threads, the link is one that `App/Link.lean` allows, with the messages in the blocks as its list;
there is at most one, a send never fails and never waits, and the mission thread does not wait while a
message is queued. -/
theorem fault_queue_refines (h : (machine L).Reach Machine.free s) :
    Link.machine.Reach Machine.free (s.abstract L) ∧ (messages L s.queue).length ≤ 1 ∧
      (∀ sock msg, s.link.udp ≠ .sendFailed sock msg) ∧
      (∀ t, (s.queue.place t).sendWaits = false) ∧
      ((s.queue.place missionThread).recvWaits = true → messages L s.queue = []) := by
  obtain ⟨rest, hinv, hlink⟩ := refines_of_reach h
  have hcontents := contents_eq hinv.kernel hinv.events
  have habstract : s.abstract L = { s.link with mq := inHand L (s.queue.place missionThread) ++ rest } := by
    rw [abstract, messages, hcontents]
  rw [← habstract] at hlink
  refine ⟨hlink, ?_, sendFailed_unreachable (l := s.abstract L) hlink, fun t => (hinv.places t).1, fun hwaits => ?_⟩
  · have hone := (Link.inv_of_reach hlink).one
    simp only [Link.openMissions, List.length_append] at hone
    exact (show (s.abstract L).mq.length ≤ 1 by omega)
  · have hawake := MessageQueue.recvAwake_of_recvWaits hinv.kernel hwaits
    obtain ⟨threads, -, hlength, hthreads⟩ := hawake
    have hnone : threads = [] := by
      refine List.eq_nil_iff_forall_not_mem.mpr fun t ht => ?_
      have hawake : (s.queue.place t).recvAwake = true := hthreads t ht
      by_cases htm : t = missionThread
      · subst htm
        cases hp : s.queue.place missionThread <;> rw [hp] at hwaits hawake <;>
          first | cases hawake | cases hwaits
      · rw [(hinv.places t).2 htm] at hawake
        cases hawake
    rw [hnone, List.length_nil] at hlength
    have hlength' := MessageQueue.length_contents hinv.kernel
    rw [← hlength] at hlength'
    have hempty := List.eq_nil_of_length_eq_zero hlength'
    rw [messages, hempty]
    cases hp : s.queue.place missionThread <;> rw [hp] at hwaits <;> first | rfl | cases hwaits

/-- A layout without gaps, the low bytes first. -/
def packed : MsgLayout where
  size := 11
  encode msg :=
    [msg.fault.id, msg.fault.row, msg.fault.col, msg.fault.severity, msg.peer.family,
      .ofNat msg.peer.port.toNat, .ofNat (msg.peer.port.toNat / 256), .ofNat msg.peer.addr.toNat,
      .ofNat (msg.peer.addr.toNat / 256), .ofNat (msg.peer.addr.toNat / 65536),
      .ofNat (msg.peer.addr.toNat / 16777216)]
  decode
    | [id, row, col, severity, family, p0, p1, a0, a1, a2, a3] =>
      ⟨⟨id, row, col, severity⟩, family, .ofNat (p0.toNat + 256 * p1.toNat),
        .ofNat (a0.toNat + 256 * a1.toNat + 65536 * a2.toNat + 16777216 * a3.toNat)⟩
    | _ => ⟨⟨0, 0, 0, 0⟩, 0, 0, 0⟩
  length_encode _ := rfl
  decode_encode := by
    rintro ⟨⟨id, row, col, severity⟩, family, port, addr⟩
    have hport := port.toNat_lt
    have haddr := addr.toNat_lt
    simp only [UInt8.toNat_ofNat', Nat.reducePow, Msg.mk.injEq, Peer.mk.injEq, true_and]
    exact ⟨UInt16.toNat_inj.mp (by rw [UInt16.toNat_ofNat']; omega),
      UInt32.toNat_inj.mp (by rw [UInt32.toNat_ofNat']; omega)⟩

/-- A fault at the fifth place of the grid. -/
def fifth : Msg := ⟨⟨5, 2, 2, 1⟩, ⟨2, 7000, 0x0100007F⟩⟩

/-- The mission thread waits, and the UDP thread receives the fault and sends it. -/
def sent : Queued :=
  ((machine packed).exec
    ⟨.booted, .create (MsgPool.create (fun _ => none) (fun _ => List.replicate 12 0) 12 12) .fifo⟩
    ([.mission {} {}, .udp {} {}, .udp {} {}, .udp { datagram := .fault fifth } {}] ++
      List.replicate 7 (.udp {} {}))).get (by decide +kernel)

/-- The fault is queued, and the mission thread does not wait any more. -/
theorem fault_queue_refines_sent : messages packed sent.queue = [fifth] ∧
    (sent.queue.place missionThread).recvWaits = false ∧
    Link.machine.Reach Machine.free (sent.abstract packed) := by
  have hstart : (machine packed).start
      ⟨.booted, .create (MsgPool.create (fun _ => none) (fun _ => List.replicate 12 0) 12 12) .fifo⟩ :=
    ⟨_, _, 12, by decide, rfl⟩
  have hreach : (machine packed).Reach Machine.free sent := .get hstart _
  have hqueued : messages packed sent.queue = [fifth] := by decide +kernel
  obtain ⟨hlink, -, -, -, hwaits⟩ := fault_queue_refines hreach
  refine ⟨hqueued, Bool.eq_false_iff.mpr fun h => ?_, hlink⟩
  rw [hwaits h] at hqueued
  cases hqueued

end Queued

end Hcics
