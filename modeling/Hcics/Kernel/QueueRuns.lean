import Hcics.Kernel.QueueParts

/-!
# The message queue is a bounded FIFO and loses no wake-up

The messages come out in the order they were linked in. The threads of the two lists are the suspended
ones, and while a list is not empty, what its threads wait for is already promised: as long as a
receiver is suspended there is a resumed receiver for every queued message, and as long as a sender is
suspended there is a resumed sender for every free block. Both lists are treated alike, by the places
that wait and those that are awake.
-/

namespace Hcics

namespace MessageQueue

variable {q q' : MessageQueue} {t : ThreadId} {free queue held : List Nat} {msg : Nat}

/-! ## One list of waiting threads -/

/-- While a thread waits, `n` others are awake. -/
def Woken (place : ThreadId → Place) (awake : Place → Bool) (list : List ThreadId) (n : Nat) : Prop :=
  list ≠ [] → AtLeast (fun t => awake (place t) = true) n

section OneList

variable {place : ThreadId → Place} {waits awake : Place → Bool} {list rest : List ThreadId}
  {p : Place} {n : Nat}

theorem Woken.zero : Woken place awake list 0 := fun _ => .zero

theorem Woken.keep (h : Woken place awake list n) (ht : awake (place t) = true → n = 0)
    (hrest : rest ≠ [] → list ≠ []) : Woken (Function.update place t p) awake rest n := by
  by_cases hawake : awake (place t) = true
  · rw [ht hawake]
    exact .zero
  · intro hne
    refine (h (hrest hne)).mono fun u hu => ?_
    have hut : u ≠ t := fun heq => hawake (heq ▸ hu)
    rw [Function.update_of_ne hut]
    exact hu

theorem Woken.pred (h : Woken place awake list n) :
    Woken (Function.update place t p) awake list (n - 1) := by
  intro hne
  refine (h hne).pred (t := t) fun u hut hu => ?_
  rw [Function.update_of_ne hut]
  exact hu

theorem Woken.succ (h : Woken place awake (t :: rest) n) (ht : awake (place t) = false)
    (hp : awake p = true) : Woken (Function.update place t p) awake rest (n + 1) := by
  intro _
  refine (h (List.cons_ne_nil t rest)).succ (t := t) (fun u hu => ?_) ?_ ?_
  · have hut : u ≠ t := by
      rintro rfl
      simp [ht] at hu
    rw [Function.update_of_ne hut]
    exact hu
  · rw [Function.update_self]
    exact hp
  · simp [ht]

end OneList

/-! ## Both lists -/

/-- The threads of the two lists, and those awake for the free blocks and the queued messages. -/
structure Waits (place : ThreadId → Place) (senders receivers : List ThreadId) (free queued : Nat) :
    Prop where
  sendList : Waiters place Place.sendWaits senders
  recvList : Waiters place Place.recvWaits receivers
  sendWoken : Woken place Place.sendAwake senders free
  recvWoken : Woken place Place.recvAwake receivers queued

namespace Waits

variable {place : ThreadId → Place} {senders receivers rest : List ThreadId} {n m : Nat} {p : Place}

theorem goto (h : Waits place senders receivers n m) (hsend : (place t).sendWaits = p.sendWaits)
    (hrecv : (place t).recvWaits = p.recvWaits) (hn : (place t).sendAwake = true → n = 0)
    (hm : (place t).recvAwake = true → m = 0) :
    Waits (Function.update place t p) senders receivers n m :=
  ⟨h.sendList.keep hsend.symm, h.recvList.keep hrecv.symm, h.sendWoken.keep hn id,
    h.recvWoken.keep hm id⟩

theorem takeFree (h : Waits place senders receivers n m) (hsend : (place t).sendWaits = p.sendWaits)
    (hrecv : (place t).recvWaits = p.recvWaits) (hm : (place t).recvAwake = false) :
    Waits (Function.update place t p) senders receivers (n - 1) m :=
  ⟨h.sendList.keep hsend.symm, h.recvList.keep hrecv.symm, h.sendWoken.pred,
    h.recvWoken.keep (fun ht => by simp [hm] at ht) id⟩

theorem takeQueued (h : Waits place senders receivers n m)
    (hsend : (place t).sendWaits = p.sendWaits) (hrecv : (place t).recvWaits = p.recvWaits)
    (hn : (place t).sendAwake = false) :
    Waits (Function.update place t p) senders receivers n (m - 1) :=
  ⟨h.sendList.keep hsend.symm, h.recvList.keep hrecv.symm,
    h.sendWoken.keep (fun ht => by simp [hn] at ht) id, h.recvWoken.pred⟩

theorem suspendSender (h : Waits place senders receivers 0 m) (flag : IpcFlag)
    (priority : ThreadId → UInt8) (ht : (place t).sendWaits = false)
    (hrecv : (place t).recvWaits = p.recvWaits) (hp : p.sendWaits = true)
    (hm : (place t).recvAwake = false) :
    Waits (Function.update place t p) (ipcListSuspend flag priority senders t) receivers 0 m :=
  ⟨h.sendList.suspend flag priority ht hp, h.recvList.keep hrecv.symm, .zero,
    h.recvWoken.keep (fun ht => by simp [hm] at ht) id⟩

theorem suspendReceiver (h : Waits place senders receivers n 0) (flag : IpcFlag)
    (priority : ThreadId → UInt8) (ht : (place t).recvWaits = false)
    (hsend : (place t).sendWaits = p.sendWaits) (hp : p.recvWaits = true)
    (hn : (place t).sendAwake = false) :
    Waits (Function.update place t p) senders (ipcListSuspend flag priority receivers t) n 0 :=
  ⟨h.sendList.keep hsend.symm, h.recvList.suspend flag priority ht hp,
    h.sendWoken.keep (fun ht => by simp [hn] at ht) id, .zero⟩

theorem wake_of_sendWaits (error : RtErr) (hp : p.sendWaits = true) :
    p.sendAwake = false ∧ p.recvAwake = false ∧ p.recvWaits = false ∧
      (p.wake error).sendWaits = false ∧ (p.wake error).recvWaits = false ∧
      (p.wake error).sendAwake = decide (error = RT_EOK) := by
  cases p with
  | sendWait buffer timeout start => exact ⟨rfl, rfl, rfl, rfl, rfl, rfl⟩
  | _ => cases hp

theorem wake_of_recvWaits (error : RtErr) (hp : p.recvWaits = true) :
    p.recvAwake = false ∧ p.sendAwake = false ∧ p.sendWaits = false ∧
      (p.wake error).recvWaits = false ∧ (p.wake error).sendWaits = false ∧
      (p.wake error).recvAwake = decide (error = RT_EOK) := by
  cases p with
  | recvWait size timeout start => exact ⟨rfl, rfl, rfl, rfl, rfl, rfl⟩
  | _ => cases hp

theorem resumeSender (h : Waits place (t :: rest) receivers n m) :
    Waits (Function.update place t ((place t).wake RT_EOK)) rest receivers (n + 1) m := by
  obtain ⟨hsend, hrecv, hwaits, hsend', hrecv', hwoken⟩ :=
    wake_of_sendWaits RT_EOK ((h.sendList.mem_iff t).mp (List.mem_cons_self ..))
  exact ⟨h.sendList.tail hsend', h.recvList.keep (hrecv'.trans hwaits.symm),
    h.sendWoken.succ hsend hwoken, h.recvWoken.keep (fun ht => by simp [hrecv] at ht) id⟩

theorem resumeReceiver (h : Waits place senders (t :: rest) n m) :
    Waits (Function.update place t ((place t).wake RT_EOK)) senders rest n (m + 1) := by
  obtain ⟨hrecv, hsend, hwaits, hrecv', hsend', hwoken⟩ :=
    wake_of_recvWaits RT_EOK ((h.recvList.mem_iff t).mp (List.mem_cons_self ..))
  exact ⟨h.sendList.keep (hsend'.trans hwaits.symm), h.recvList.tail hrecv',
    h.sendWoken.keep (fun ht => by simp [hsend] at ht) id, h.recvWoken.succ hrecv hwoken⟩

theorem senderTimeout (h : Waits place senders receivers n m) (ht : (place t).sendWaits = true) :
    Waits (Function.update place t ((place t).wake (-RT_ETIMEOUT))) (senders.erase t) receivers n m := by
  obtain ⟨hsend, hrecv, hwaits, hsend', hrecv', -⟩ := wake_of_sendWaits (-RT_ETIMEOUT) ht
  refine ⟨h.sendList.erase hsend', h.recvList.keep (hrecv'.trans hwaits.symm),
    h.sendWoken.keep (fun ht => by simp [hsend] at ht) ?_,
    h.recvWoken.keep (fun ht => by simp [hrecv] at ht) id⟩
  rintro hne rfl
  exact hne rfl

theorem receiverTimeout (h : Waits place senders receivers n m) (ht : (place t).recvWaits = true) :
    Waits (Function.update place t ((place t).wake (-RT_ETIMEOUT))) senders (receivers.erase t) n m := by
  obtain ⟨hrecv, hsend, hwaits, hrecv', hsend', -⟩ := wake_of_recvWaits (-RT_ETIMEOUT) ht
  refine ⟨h.sendList.keep (hsend'.trans hwaits.symm), h.recvList.erase hrecv',
    h.sendWoken.keep (fun ht => by simp [hsend] at ht) id,
    h.recvWoken.keep (fun ht => by simp [hrecv] at ht) ?_⟩
  rintro hne rfl
  exact hne rfl

end Waits

/-- The lists of a queue, for the number of its free blocks. -/
abbrev WaitsFor (q : MessageQueue) (free : List Nat) : Prop :=
  Waits q.place q.senders q.receivers free.length q.pool.entry.toNat

theorem linkSection_waits (hw : WaitsFor q free) (hp : Parts q free queue (msg :: held))
    {urgent : Bool} {buffer : List UInt8} (hplace : q.place t = .sendLink urgent buffer msg) :
    WaitsFor (q.linkSection t urgent buffer msg) free := by
  have hlt := hp.entry_lt
  have hguard : (if urgent = true then q.pool.linkFirst msg else q.pool.link msg).entry <
      mqEntryMax := by
    refine UInt16.lt_iff_toNat_lt.mpr ?_
    split <;> exact hlt
  have hcount : ((if urgent = true then q.pool.linkFirst msg else q.pool.link msg).entry + 1).toNat =
      q.pool.entry.toNat + 1 := by
    have hsame : (if urgent = true then q.pool.linkFirst msg else q.pool.link msg).entry =
        q.pool.entry := by
      split <;> rfl
    rw [hsame, UInt16.toNat_add]
    simp only [UInt16.reduceToNat]
    omega
  have hgoto := hw.goto (t := t) (p := .out RT_EOK) (by rw [hplace]; rfl) (by rw [hplace]; rfl)
    (by rw [hplace]; exact fun ht => (Bool.false_ne_true ht).elim) (by rw [hplace]; exact fun ht => (Bool.false_ne_true ht).elim)
  simp only [linkSection, hguard, if_true, WaitsFor]
  unfold MessageQueue.resumeReceiver
  cases hlist : q.receivers with
  | nil =>
    rw [hlist] at hgoto
    simp only [MessageQueue.goto]
    exact ⟨hgoto.sendList, hgoto.recvList, hgoto.sendWoken, fun hne => (hne rfl).elim⟩
  | cons u rest =>
    rw [hlist] at hgoto
    simp only [MessageQueue.goto]
    rw [hcount]
    exact hgoto.resumeReceiver

theorem freeSection_waits (hw : WaitsFor q free) {size : Nat} {taken buffer : List UInt8}
    (hplace : q.place t = .recvFree size msg taken buffer) :
    WaitsFor (q.freeSection t size msg taken buffer) (msg :: free) := by
  have hgoto := hw.goto (t := t) (p := .out RT_EOK) (by rw [hplace]; rfl) (by rw [hplace]; rfl)
    (by rw [hplace]; exact fun ht => (Bool.false_ne_true ht).elim) (by rw [hplace]; exact fun ht => (Bool.false_ne_true ht).elim)
  unfold freeSection MessageQueue.resumeSender WaitsFor
  cases hlist : q.senders with
  | nil =>
    rw [hlist] at hgoto
    simp only [MessageQueue.goto]
    exact ⟨hgoto.sendList, hgoto.recvList, fun hne => (hne rfl).elim, hgoto.recvWoken⟩
  | cons u rest =>
    rw [hlist] at hgoto
    simp only [MessageQueue.goto]
    exact hgoto.resumeSender

theorem resetSection_waits (hw : WaitsFor q free) (t : ThreadId) (free' : List Nat) :
    WaitsFor (q.resetSection t) free' := by
  have hplaces (u : ThreadId) : ((q.resetSection t).place u).sendWaits = false ∧
      ((q.resetSection t).place u).recvWaits = false := by
    by_cases hu : u = t
    · rw [hu, resetSection, goto_place_self]
      exact ⟨rfl, rfl⟩
    · rw [resetSection, goto_place_of_ne hu]
      by_cases hsend : (q.place u).sendWaits = true
      · obtain ⟨-, -, -, hsend', hrecv', -⟩ := Waits.wake_of_sendWaits (-RT_ERROR) hsend
        have hmem : u ∈ q.receivers ∨ u ∈ q.senders := .inr ((hw.sendList.mem_iff u).mpr hsend)
        simp only [resumeAll, hmem, if_true]
        exact ⟨hsend', hrecv'⟩
      · by_cases hrecv : (q.place u).recvWaits = true
        · obtain ⟨-, -, -, hrecv', hsend', -⟩ := Waits.wake_of_recvWaits (-RT_ERROR) hrecv
          have hmem : u ∈ q.receivers ∨ u ∈ q.senders := .inl ((hw.recvList.mem_iff u).mpr hrecv)
          simp only [resumeAll, hmem, if_true]
          exact ⟨hsend', hrecv'⟩
        · have hnot : ¬ (u ∈ q.receivers ∨ u ∈ q.senders) := by
            rw [hw.recvList.mem_iff, hw.sendList.mem_iff]
            exact fun h => h.elim hrecv hsend
          simp only [resumeAll, hnot, if_false]
          exact ⟨Bool.not_eq_true _ ▸ hsend, Bool.not_eq_true _ ▸ hrecv⟩
  refine ⟨⟨.nil, fun u => ?_⟩, ⟨.nil, fun u => ?_⟩, fun hne => (hne rfl).elim,
    fun hne => (hne rfl).elim⟩
  · rw [(hplaces u).1]
    exact iff_of_false List.not_mem_nil Bool.false_ne_true
  · rw [(hplaces u).2]
    exact iff_of_false List.not_mem_nil Bool.false_ne_true

theorem Stepped.waits (hs : Stepped q q') (hp : Parts q free queue held) (hw : WaitsFor q free) :
    ∃ free' queue' held', Parts q' free' queue' held' ∧ WaitsFor q' free' := by
  have hfree : q.pool.free = none → free.length = 0 := by
    intro hnone
    have hlinked := hp.shape.freeList
    rw [hnone] at hlinked
    rw [hlinked.eq_nil]
    rfl
  cases hs with
  | leave t result idle hsend hrecv =>
    refine ⟨_, _, _, hp.goto idle.block.symm trivial,
      hw.goto idle.sendWaits idle.recvWaits (fun h => hfree (hsend h)) fun h => ?_⟩
    rw [hrecv h]
    rfl
  | suspendSender t buffer timeout io idle hrecv hnone =>
    refine ⟨_, _, _, (hp.senders _).goto idle.block.symm trivial, ?_⟩
    have hwaits := hw
    rw [WaitsFor, hfree hnone] at hwaits ⊢
    exact hwaits.suspendSender q.flag io.priority idle.sendWaits idle.recvWaits rfl hrecv
  | suspendReceiver t size timeout io idle hsend hempty =>
    refine ⟨_, _, _, (hp.receivers _).goto idle.block.symm trivial, ?_⟩
    have hzero : q.pool.entry.toNat = 0 := by
      rw [hempty]
      rfl
    have hwaits := hw
    rw [WaitsFor, hzero] at hwaits
    change Waits _ _ _ _ q.pool.entry.toNat
    rw [hzero]
    exact hwaits.suspendReceiver q.flag io.priority idle.recvWaits idle.sendWaits rfl hsend
  | take t urgent buffer msg idle hrecv hsome =>
    refine ⟨_, _, _, hp.takeFree hsome idle.block rfl trivial, ?_⟩
    have hwaits := hw.takeFree (t := t) (p := .sendCopy urgent buffer msg) idle.sendWaits
      idle.recvWaits hrecv
    rwa [← List.length_tail] at hwaits
  | copyIn t urgent buffer msg hplace =>
    refine ⟨_, _, _, (hp.front (t := t) (by rw [hplace]; rfl)).copyIn hplace, ?_⟩
    have hentry : (q.copySection t urgent buffer msg).pool.entry = q.pool.entry := by
      simp only [copySection, MessageQueue.goto, MsgPool.copyIn]
      split <;> rfl
    rw [WaitsFor, hentry]
    exact hw.goto (by rw [hplace]; rfl) (by rw [hplace]; rfl)
      (by rw [hplace]; exact fun ht => (Bool.false_ne_true ht).elim) (by rw [hplace]; exact fun ht => (Bool.false_ne_true ht).elim)
  | link t urgent buffer msg hplace =>
    have hfront := hp.front (t := t) (by rw [hplace]; rfl)
    obtain ⟨queue', hparts⟩ := hfront.link hplace
    exact ⟨_, _, _, hparts, linkSection_waits hw hfront hplace⟩
  | unlink t size io timeout idle hsend hentry =>
    obtain ⟨queue', held', hparts⟩ := hp.unlink idle.block hentry
    refine ⟨_, _, _, hparts, ?_⟩
    obtain ⟨first, rest, -, heq⟩ := hp.recvSection_eq io t size timeout hentry
    have hcount : (q.pool.unlink first).countDown.entry.toNat = q.pool.entry.toNat - 1 :=
      MsgPool.countDown_entry (q := q.pool.unlink first) hentry
    rw [heq, WaitsFor]
    change Waits _ _ _ _ (q.pool.unlink first).countDown.entry.toNat
    rw [hcount]
    exact hw.takeQueued idle.sendWaits idle.recvWaits hsend
  | copyOut t size msg taken hplace =>
    refine ⟨_, _, _, hp.goto (by rw [hplace]; rfl) ?_, hw.goto (by rw [hplace]; rfl)
      (by rw [hplace]; rfl) (by rw [hplace]; exact fun ht => (Bool.false_ne_true ht).elim)
      (by rw [hplace]; exact fun ht => (Bool.false_ne_true ht).elim)⟩
    have hrelies := hp.relies t
    rw [hplace] at hrelies
    exact congrArg (List.take _) hrelies
  | giveBack t size msg taken buffer hplace =>
    exact ⟨_, _, _, (hp.front (t := t) (by rw [hplace]; rfl)).giveBack hplace,
      freeSection_waits hw hplace⟩
  | senderTimeout t hwaits =>
    exact ⟨_, _, _, (hp.senders _).wake _, hw.senderTimeout hwaits⟩
  | receiverTimeout t hwaits =>
    exact ⟨_, _, _, (hp.receivers _).wake _, hw.receiverTimeout hwaits⟩
  | reset t result hplace =>
    exact ⟨_, _, _, hp.reset hplace, resetSection_waits hw t _⟩

theorem parts_of_reach (h : machine.Reach Machine.free q) :
    ∃ free queue held, Parts q free queue held ∧ WaitsFor q free := by
  refine h.inv (P := fun q => ∃ free queue held, Parts q free queue held ∧ WaitsFor q free) ?_ ?_
  · rintro q ⟨next, payload, msgSize, maxMsgs, flag, rfl⟩
    refine ⟨_, _, _, create_parts next payload msgSize maxMsgs flag, ⟨.nil, fun _ => ?_⟩,
      ⟨.nil, fun _ => ?_⟩, fun hne => (hne rfl).elim, fun hne => (hne rfl).elim⟩
    · simp [create, Place.sendWaits]
    · simp [create, Place.recvWaits]
  · rintro q i q' - ⟨free, queue, held, hparts, hwaits⟩ - hstep
    exact (stepped hstep).waits hparts hwaits

/-- What the queued blocks hold, from the head of the queue on. -/
def contents (q : MessageQueue) : List (List UInt8) :=
  (collect q.pool.next q.pool.entry.toNat q.pool.head).map q.pool.payload

theorem Parts.contents_eq (h : Parts q free queue held) :
    q.contents = queue.map q.pool.payload := by
  rw [contents, h.entry, h.shape.msgList.collect_eq]

theorem contents_hold (h : machine.Reach Machine.free q) :
    List.Forall₂ (· <+: ·) (QueueEvent.after q.events) q.contents := by
  obtain ⟨free, queue, held, hparts, -⟩ := parts_of_reach h
  rw [hparts.contents_eq]
  exact List.forall₂_map_right_iff.mpr hparts.content

theorem length_contents (h : machine.Reach Machine.free q) : q.contents.length = q.pool.entry.toNat := by
  obtain ⟨free, queue, held, hparts, -⟩ := parts_of_reach h
  rw [hparts.contents_eq, List.length_map, hparts.entry]

theorem entry_le_maxMsgs (h : machine.Reach Machine.free q) : q.pool.entry ≤ q.pool.maxMsgs := by
  obtain ⟨free, queue, held, hparts, -⟩ := parts_of_reach h
  have := hparts.shape.length_eq
  rw [UInt16.le_iff_toNat_le, hparts.entry]
  omega

theorem received_eq_take (h : machine.Reach Machine.free q) :
    ∀ r ∈ q.received, r.2.2 = r.2.1.take (min r.1 q.pool.msgSize.toNat) := by
  obtain ⟨free, queue, held, hparts, -⟩ := parts_of_reach h
  intro r hr
  rw [hparts.received r hr]
  congr 1
  split <;> omega

/-- **The message queue is a bounded FIFO.** For any number of threads that send, send urgently,
receive, time out and reset, in every order of their sections: the queue holds at most `max_msgs`
messages, `entry` of them, and they are those of the abstract queue; what is taken from it is what
that queue gives out, whole and unchanged until the receive returns it; and without urgent sends and
resets, the messages taken and then those still queued are the messages linked, in this order. -/
theorem message_queue_fifo (h : machine.Reach Machine.free q) :
    List.Forall₂ (· <+: ·) (QueueEvent.after q.events) q.contents ∧
    q.contents.length = q.pool.entry.toNat ∧ q.pool.entry ≤ q.pool.maxMsgs ∧
    List.Forall₂ (· <+: ·) (QueueEvent.popped q.events) q.taken ∧
    (∀ r ∈ q.received, r.2.2 = r.2.1.take (min r.1 q.pool.msgSize.toNat)) ∧
    ((∀ e ∈ q.events, e.Plain) →
      List.Forall₂ (· <+: ·) (QueueEvent.pushes q.events) (q.taken ++ q.contents)) := by
  obtain ⟨free, queue, held, hparts, -⟩ := parts_of_reach h
  refine ⟨contents_hold h, length_contents h, entry_le_maxMsgs h, hparts.taken, received_eq_take h,
    fun hplain => ?_⟩
  rw [QueueEvent.pushes_eq hplain]
  exact List.rel_append hparts.taken (contents_hold h)

/-- A queue of two blocks of four bytes. -/
def small : MessageQueue :=
  create (MsgPool.create (fun _ => none) (fun _ => [0, 0, 0, 0]) 4 2) .fifo

/-- One thread sends two bytes while another receives, and a third one's message stays queued. -/
def exchange : List Input :=
  [.recv 2 2 (-1) {}, .sendWait 1 [7, 8] 0 {}, .run 1 {}, .sendWait 3 [9] 0 {}, .run 1 {}, .run 2 {},
    .run 3 {}, .run 3 {}, .run 2 {}, .run 2 {}]

/-- What the receiver gets and what is still queued. -/
theorem message_queue_fifo_exchange : ∃ q : MessageQueue,
    q.received = [(2, [7, 8, 0, 0], [7, 8])] ∧ q.contents = [[9, 0, 0, 0]] ∧
      List.Forall₂ (· <+: ·) [[7, 8], [9]] (q.taken ++ q.contents) := by
  let q := (machine.exec small exchange).get (by decide)
  have hstart : machine.start small := ⟨_, _, _, _, _, rfl⟩
  have hq : machine.Reach Machine.free q := .get hstart (by decide)
  have hevents : q.events = [.push [7, 8], .pop, .push [9]] := by decide
  have hplain : ∀ e ∈ q.events, e.Plain := by
    rw [hevents]
    simp [QueueEvent.Plain]
  refine ⟨q, by decide, by decide, ?_⟩
  have hpushes := (message_queue_fifo hq).2.2.2.2.2 hplain
  rwa [hevents] at hpushes

/-- While a receiver is suspended, each queued message has a receiver that was resumed for it. -/
theorem recvAwake_of_recvWaits (h : machine.Reach Machine.free q) {t : ThreadId}
    (ht : (q.place t).recvWaits = true) :
    AtLeast (fun u => (q.place u).recvAwake = true) q.pool.entry.toNat := by
  obtain ⟨free, queue, held, -, hwaits⟩ := parts_of_reach h
  exact hwaits.recvWoken (List.ne_nil_of_mem ((hwaits.recvList.mem_iff t).mpr ht))

theorem block_of_free_none (h : machine.Reach Machine.free q) (hnone : q.pool.free = none) :
    AtLeast (fun u => (q.place u).block.isSome = true) (q.pool.maxMsgs.toNat - q.pool.entry.toNat) := by
  obtain ⟨free, queue, held, hparts, -⟩ := parts_of_reach h
  have hlinked := hparts.shape.freeList
  rw [hnone] at hlinked
  have hlength := hparts.shape.length_eq
  rw [hlinked.eq_nil, List.length_nil, ← hparts.entry] at hlength
  have hheld : q.pool.maxMsgs.toNat - q.pool.entry.toNat = held.length := by omega
  rw [hheld]
  exact hparts.hands.atLeast (List.nodup_append.mp hparts.shape.nodup).2.1

/-- **No wake-up is lost.** While a receiver is suspended, every queued message has a receiver of its
own that was resumed for it and has not run yet; while a sender is suspended, every free block has such
a sender. A block that is not free is queued or in the hands of one thread, so a sender finds the
list of free blocks empty only when `entry` and the calls under way make up the whole pool. -/
theorem message_queue_wakeups (h : machine.Reach Machine.free q) :
    (∀ t, (q.place t).recvWaits = true →
      AtLeast (fun u => (q.place u).recvAwake = true) q.pool.entry.toNat) ∧
    (∀ t, (q.place t).sendWaits = true → ∃ free, Linked q.pool.next q.pool.free free ∧
      AtLeast (fun u => (q.place u).sendAwake = true) free.length) ∧
    (q.pool.free = none →
      AtLeast (fun u => (q.place u).block.isSome = true)
        (q.pool.maxMsgs.toNat - q.pool.entry.toNat)) := by
  obtain ⟨free, queue, held, hparts, hwaits⟩ := parts_of_reach h
  refine ⟨fun t ht => recvAwake_of_recvWaits h ht, fun t ht => ⟨free, hparts.shape.freeList, ?_⟩,
    block_of_free_none h⟩
  exact hwaits.sendWoken (List.ne_nil_of_mem ((hwaits.sendList.mem_iff t).mpr ht))

/-- Two threads wait for messages and one is sent: one of them stays suspended. -/
def twoReceivers : List Input :=
  [.recv 2 2 (-1) {}, .recv 3 2 (-1) {}, .sendWait 1 [7] 0 {}, .run 1 {}, .run 1 {}]

/-- The message is the other one's. -/
theorem message_queue_wakeups_two : ∃ q : MessageQueue, (q.place 3).recvWaits = true ∧
    q.pool.entry = 1 ∧ AtLeast (fun u => (q.place u).recvAwake = true) 1 := by
  let q := (machine.exec small twoReceivers).get (by decide)
  have hstart : machine.start small := ⟨_, _, _, _, _, rfl⟩
  have hq : machine.Reach Machine.free q := .get hstart (by decide)
  have hwaits : (q.place 3).recvWaits = true := by decide
  exact ⟨q, hwaits, by decide, (message_queue_wakeups hq).1 3 hwaits⟩

end MessageQueue

end Hcics
