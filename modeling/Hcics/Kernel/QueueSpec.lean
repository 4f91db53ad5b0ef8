import Hcics.Kernel.QueueBlocks

/-!
# What the sections of the message queue do

`Stepped` is the step of the machine read backwards: which section ran, and where its thread was.
`Parts` is what holds between two sections: which blocks are free, queued and in a thread's hands,
that the queued blocks hold the messages of the abstract queue, and what a thread in the middle of a
call relies on. Its fields are kept section by section.
-/

namespace Hcics

namespace Place

/-- Suspended as a sender. -/
def sendWaits : Place → Bool
  | sendWait .. => true
  | _ => false

/-- Suspended as a receiver. -/
def recvWaits : Place → Bool
  | recvWait .. => true
  | _ => false

/-- Resumed as a sender, to try again. -/
def sendAwake : Place → Bool
  | sendReady _ _ _ error => decide (error = RT_EOK)
  | _ => false

/-- Resumed as a receiver, to try again. -/
def recvAwake : Place → Bool
  | recvReady _ _ _ error => decide (error = RT_EOK)
  | _ => false

/-- What a thread relies on in the middle of a call. -/
def Relies (pool : MsgPool) : Place → Prop
  | sendLink urgent buffer msg =>
    buffer <+: pool.payload msg ∧ (urgent = false → pool.next msg = none)
  | recvCopy _ msg taken => pool.payload msg = taken
  | recvFree size _ taken buffer =>
    buffer = taken.take (if size > pool.msgSize.toNat then pool.msgSize.toNat else size)
  | _ => True

@[simp] theorem block_wake (error : RtErr) (p : Place) : (p.wake error).block = p.block := by
  cases p <;> rfl

theorem relies_wake {pool : MsgPool} {error : RtErr} {p : Place} :
    (p.wake error).Relies pool ↔ p.Relies pool := by
  cases p <;> exact Iff.rfl

theorem Relies.frame {pool pool' : MsgPool} {p : Place} (h : p.Relies pool)
    (hsize : pool'.msgSize = pool.msgSize)
    (hblock : ∀ msg, p.block = some msg →
      pool'.payload msg = pool.payload msg ∧ pool'.next msg = pool.next msg) :
    p.Relies pool' := by
  cases p with
  | sendLink urgent buffer msg =>
    obtain ⟨hpayload, hnext⟩ := hblock msg rfl
    simpa only [Relies, hpayload, hnext] using h
  | recvCopy size msg taken =>
    obtain ⟨hpayload, -⟩ := hblock msg rfl
    simpa only [Relies, hpayload] using h
  | recvFree size msg taken buffer => simpa only [Relies, hsize] using h
  | _ => trivial

end Place

namespace MessageQueue

variable {q q' : MessageQueue} {t : ThreadId}

/-! ## The steps -/

/-- A thread that has no block and is not suspended. -/
structure Idle (p : Place) : Prop where
  block : p.block = none
  sendWaits : p.sendWaits = false
  recvWaits : p.recvWaits = false

inductive Stepped (q : MessageQueue) : MessageQueue → Prop where
  /-- The call returns without a block. -/
  | leave (t : ThreadId) (result : RtErr) (idle : Idle (q.place t))
      (send : (q.place t).sendAwake = true → q.pool.free = none)
      (recv : (q.place t).recvAwake = true → q.pool.entry = 0) :
      Stepped q (q.goto t (.out result))
  | suspendSender (t : ThreadId) (buffer : List UInt8) (timeout : Int32) (io : KernelIo)
      (idle : Idle (q.place t)) (recv : (q.place t).recvAwake = false)
      (free : q.pool.free = none) :
      Stepped q ({ q with senders := ipcListSuspend q.flag io.priority q.senders t }.goto t
        (.sendWait buffer timeout io.now))
  | suspendReceiver (t : ThreadId) (size : Nat) (timeout : Int32) (io : KernelIo)
      (idle : Idle (q.place t)) (send : (q.place t).sendAwake = false)
      (empty : q.pool.entry = 0) :
      Stepped q ({ q with receivers := ipcListSuspend q.flag io.priority q.receivers t }.goto t
        (.recvWait size timeout io.now))
  | take (t : ThreadId) (urgent : Bool) (buffer : List UInt8) (msg : Nat)
      (idle : Idle (q.place t)) (recv : (q.place t).recvAwake = false)
      (free : q.pool.free = some msg) :
      Stepped q ({ q with pool := q.pool.takeFree msg }.goto t (.sendCopy urgent buffer msg))
  | copyIn (t : ThreadId) (urgent : Bool) (buffer : List UInt8) (msg : Nat)
      (place : q.place t = .sendCopy urgent buffer msg) :
      Stepped q (q.copySection t urgent buffer msg)
  | link (t : ThreadId) (urgent : Bool) (buffer : List UInt8) (msg : Nat)
      (place : q.place t = .sendLink urgent buffer msg) :
      Stepped q (q.linkSection t urgent buffer msg)
  | unlink (t : ThreadId) (size : Nat) (io : KernelIo) (timeout : Int32)
      (idle : Idle (q.place t)) (send : (q.place t).sendAwake = false)
      (entry : q.pool.entry ≠ 0) :
      Stepped q (q.recvSection io t size timeout)
  | copyOut (t : ThreadId) (size : Nat) (msg : Nat) (taken : List UInt8)
      (place : q.place t = .recvCopy size msg taken) :
      Stepped q (q.goto t (.recvFree size msg taken (q.pool.copyOut msg size)))
  | giveBack (t : ThreadId) (size : Nat) (msg : Nat) (taken buffer : List UInt8)
      (place : q.place t = .recvFree size msg taken buffer) :
      Stepped q (q.freeSection t size msg taken buffer)
  | senderTimeout (t : ThreadId) (waits : (q.place t).sendWaits = true) :
      Stepped q ({ q with senders := q.senders.erase t }.goto t ((q.place t).wake (-RT_ETIMEOUT)))
  | receiverTimeout (t : ThreadId) (waits : (q.place t).recvWaits = true) :
      Stepped q
        ({ q with receivers := q.receivers.erase t }.goto t ((q.place t).wake (-RT_ETIMEOUT)))
  | reset (t : ThreadId) (result : RtErr) (place : q.place t = .out result) :
      Stepped q (q.resetSection t)

theorem stepped_sendSection (io : KernelIo) (buffer : List UInt8) (timeout : Int32)
    (idle : Idle (q.place t)) (recv : (q.place t).recvAwake = false) :
    Stepped q (q.sendSection io t buffer timeout) := by
  unfold sendSection
  split
  · next msg hfree => exact .take t false buffer msg idle recv hfree
  · next hfree =>
    split
    · exact .leave t _ idle (fun _ => hfree) fun h => by simp [recv] at h
    · exact .suspendSender t buffer timeout io idle recv hfree

theorem stepped_recvSection (io : KernelIo) (size : Nat) (timeout : Int32)
    (idle : Idle (q.place t)) (send : (q.place t).sendAwake = false) :
    Stepped q (q.recvSection io t size timeout) := by
  by_cases hentry : q.pool.entry = 0
  · unfold recvSection
    rw [if_pos hentry]
    split
    · exact .leave t _ idle (fun h => by simp [send] at h) fun _ => hentry
    · exact .suspendReceiver t size timeout io idle send hentry
  · exact .unlink t size io timeout idle send hentry

theorem stepped_run {io : KernelIo} (h : q.run t io = some q') : Stepped q q' := by
  unfold run at h
  split at h
  case h_1 | h_2 | h_3 => cases h
  case h_4 buffer timeout start error hplace =>
    have idle : Idle (q.place t) := by rw [hplace]; exact ⟨rfl, rfl, rfl⟩
    have recv : (q.place t).recvAwake = false := by rw [hplace]; rfl
    split at h
    · next herror =>
      cases h
      refine .leave t error idle ?_ fun h => by simp [recv] at h
      rw [hplace]
      simp only [Place.sendAwake, decide_eq_true_eq]
      exact fun h => (herror h).elim
    · cases h
      exact stepped_sendSection io buffer _ idle recv
  case h_5 urgent buffer msg hplace =>
    cases h
    exact .copyIn t urgent buffer msg hplace
  case h_6 urgent buffer msg hplace =>
    cases h
    exact .link t urgent buffer msg hplace
  case h_7 size timeout start error hplace =>
    have idle : Idle (q.place t) := by rw [hplace]; exact ⟨rfl, rfl, rfl⟩
    have send : (q.place t).sendAwake = false := by rw [hplace]; rfl
    split at h
    · next herror =>
      cases h
      refine .leave t error idle (fun h => by simp [send] at h) ?_
      rw [hplace]
      simp only [Place.recvAwake, decide_eq_true_eq]
      exact fun h => (herror h).elim
    · cases h
      exact stepped_recvSection io size _ idle send
  case h_8 size msg taken hplace =>
    cases h
    exact .copyOut t size msg taken hplace
  case h_9 size msg taken buffer hplace =>
    cases h
    exact .giveBack t size msg taken buffer hplace

theorem call_eq_some {result : MessageQueue} (h : q.call t result = some q') :
    q' = result ∧ ∃ last, q.place t = .out last := by
  unfold call at h
  split at h
  · next last hplace =>
    cases h
    exact ⟨rfl, last, hplace⟩
  · cases h

theorem stepped {i : Input} (h : q.step i = some q') : Stepped q q' := by
  have refuse (t : ThreadId) (result last : RtErr) (hplace : q.place t = .out last) :
      Stepped q (q.goto t (.out result)) :=
    .leave t result (by rw [hplace]; exact ⟨rfl, rfl, rfl⟩)
      (by rw [hplace]; exact fun h => nomatch h) (by rw [hplace]; exact fun h => nomatch h)
  cases i with
  | sendWait t buffer timeout io =>
    obtain ⟨rfl, last, hplace⟩ := call_eq_some h
    split
    · exact refuse t _ last hplace
    · refine stepped_sendSection io buffer timeout ?_ ?_ <;> rw [hplace]
      · exact ⟨rfl, rfl, rfl⟩
      · rfl
  | urgent t buffer =>
    obtain ⟨rfl, last, hplace⟩ := call_eq_some h
    split
    · exact refuse t _ last hplace
    · unfold urgentSection
      split
      · next msg hfree =>
        refine .take t true buffer msg ?_ ?_ hfree <;> rw [hplace]
        · exact ⟨rfl, rfl, rfl⟩
        · rfl
      · exact refuse t _ last hplace
  | recv t size timeout io =>
    obtain ⟨rfl, last, hplace⟩ := call_eq_some h
    refine stepped_recvSection io size timeout ?_ ?_ <;> rw [hplace]
    · exact ⟨rfl, rfl, rfl⟩
    · rfl
  | reset t =>
    obtain ⟨rfl, last, hplace⟩ := call_eq_some h
    exact .reset t last hplace
  | run t io => exact stepped_run h
  | timeout t =>
    change q.timeout t = some q' at h
    unfold timeout at h
    split at h
    · next hplace =>
      split at h
      · cases h
        exact .senderTimeout t (by rw [hplace]; rfl)
      · cases h
    · next hplace =>
      split at h
      · cases h
        exact .receiverTimeout t (by rw [hplace]; rfl)
      · cases h
    · cases h

end MessageQueue

end Hcics
