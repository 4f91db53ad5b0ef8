import Hcics.Kernel.Ipc
import Hcics.Lib.Fifo
import Hcics.Lib.Linked

/-!
# The message queue of the kernel

`rt_mq_create`, `rt_mq_send_wait`, `rt_mq_urgent`, `rt_mq_recv` and the reset of `rt_mq_control` in
`rt-thread/src/ipc.c`. The pool is an array of blocks, numbered from its start, which a list of free
blocks and the queue share by their `next` pointers. A call takes a block in one section with the
interrupts disabled, copies the message outside of it, and links or frees the block in a second
section; other threads run in between. `Place` is where a thread is in its call.

`events`, `taken` and `received` are history: what happened to the queue, what the blocks held that
were unlinked from it, and for every receive its size, what its block had held and what it returned.
-/

namespace Hcics

abbrev mqEntryMax : UInt16 := 0xffff

/-- The part of `struct rt_messagequeue` that the blocks are in. `payload msg` is what `msg + 1` points
at, `msgSize` bytes. -/
structure MsgPool where
  next : Nat → Option Nat
  payload : Nat → List UInt8
  msgSize : UInt16
  maxMsgs : UInt16
  head : Option Nat
  tail : Option Nat
  free : Option Nat
  entry : UInt16

namespace MsgPool

/-! ## Blocks -/

/-- The loop of `rt_mq_create` that builds the list of free blocks, and the pointer to it. -/
def freeBlocks (next : Nat → Option Nat) : Nat → (Nat → Option Nat) × Option Nat
  | 0 => (next, none)
  | temp + 1 => (Function.update (freeBlocks next temp).1 temp (freeBlocks next temp).2, some temp)

def create (next : Nat → Option Nat) (payload : Nat → List UInt8) (msgSize maxMsgs : UInt16) :
    MsgPool where
  next := (freeBlocks next maxMsgs.toNat).1
  payload := payload
  msgSize := msgSize
  maxMsgs := maxMsgs
  head := none
  tail := none
  free := (freeBlocks next maxMsgs.toNat).2
  entry := 0

/-- `mq->msg_queue_free = msg->next`. -/
def takeFree (q : MsgPool) (msg : Nat) : MsgPool := { q with free := q.next msg }

/-- `msg->next = RT_NULL`. -/
def clearNext (q : MsgPool) (msg : Nat) : MsgPool :=
  { q with next := Function.update q.next msg none }

/-- `rt_memcpy(msg + 1, buffer, size)`. -/
def copyIn (q : MsgPool) (msg : Nat) (buffer : List UInt8) : MsgPool :=
  { q with
    payload := Function.update q.payload msg (buffer ++ (q.payload msg).drop buffer.length) }

/-- What `rt_memcpy(buffer, msg + 1, ..)` of `rt_mq_recv` copies. -/
def copyOut (q : MsgPool) (msg : Nat) (size : Nat) : List UInt8 :=
  (q.payload msg).take (if size > q.msgSize.toNat then q.msgSize.toNat else size)

def link (q : MsgPool) (msg : Nat) : MsgPool :=
  { q with
    next := match q.tail with
      | some tail => Function.update q.next tail (some msg)
      | none => q.next
    tail := some msg
    head := match q.head with
      | some head => some head
      | none => some msg }

def linkFirst (q : MsgPool) (msg : Nat) : MsgPool :=
  { q with
    next := Function.update q.next msg q.head
    head := some msg
    tail := match q.tail with
      | some tail => some tail
      | none => some msg }

def unlink (q : MsgPool) (msg : Nat) : MsgPool :=
  { q with
    head := q.next msg
    tail := if q.tail = some msg then none else q.tail }

def countDown (q : MsgPool) : MsgPool :=
  { q with entry := if q.entry > 0 then q.entry - 1 else q.entry }

def giveBack (q : MsgPool) (msg : Nat) : MsgPool :=
  { q with next := Function.update q.next msg q.free, free := some msg }

/-- The loop of the reset, which frees the queued blocks; a queue has at most `maxMsgs`. -/
def drain : Nat → MsgPool → MsgPool
  | 0, q => q
  | n + 1, q =>
    match q.head with
    | none => q
    | some msg => drain n ((q.unlink msg).giveBack msg)

end MsgPool

/-- Where a thread is in a call of the message queue. -/
inductive Place where
  /-- In no call; `result` is what the last one returned. -/
  | out (result : RtErr)
  /-- Suspended on `suspend_sender_thread` since `start`. -/
  | sendWait (buffer : List UInt8) (timeout : Int32) (start : Tick)
  /-- Resumed with `thread->error`. -/
  | sendReady (buffer : List UInt8) (timeout : Int32) (start : Tick) (error : RtErr)
  /-- Before the copy into the block it took. -/
  | sendCopy (urgent : Bool) (buffer : List UInt8) (msg : Nat)
  /-- Before the section that links the block. -/
  | sendLink (urgent : Bool) (buffer : List UInt8) (msg : Nat)
  /-- Suspended on `suspend_thread` since `start`. -/
  | recvWait (size : Nat) (timeout : Int32) (start : Tick)
  /-- Resumed with `thread->error`. -/
  | recvReady (size : Nat) (timeout : Int32) (start : Tick) (error : RtErr)
  /-- Before the copy out of the block it unlinked, which held `taken` then. -/
  | recvCopy (size : Nat) (msg : Nat) (taken : List UInt8)
  /-- Before the section that frees the block. -/
  | recvFree (size : Nat) (msg : Nat) (taken buffer : List UInt8)
  deriving DecidableEq, Repr

namespace Place

def block : Place → Option Nat
  | sendCopy _ _ msg | sendLink _ _ msg | recvCopy _ msg _ | recvFree _ msg _ _ => some msg
  | _ => none

/-- `rt_thread_resume`, with `thread->error`. -/
def wake (error : RtErr) : Place → Place
  | sendWait buffer timeout start => sendReady buffer timeout start error
  | recvWait size timeout start => recvReady size timeout start error
  | place => place

end Place

/-- The message queue with the threads that use it. -/
structure MessageQueue where
  pool : MsgPool
  flag : IpcFlag
  /-- `parent.suspend_thread`. -/
  receivers : List ThreadId
  /-- `suspend_sender_thread`. -/
  senders : List ThreadId
  place : ThreadId → Place
  events : List (QueueEvent (List UInt8))
  taken : List (List UInt8)
  received : List (Nat × List UInt8 × List UInt8)

namespace MessageQueue

/-- What is left of a timeout that was set at `start`. -/
def timeLeft (timeout : Int32) (start now : Tick) : Int32 :=
  if timeout > 0 then
    if (timeout.toUInt32 - (now - start)).toInt32 < 0 then 0
    else (timeout.toUInt32 - (now - start)).toInt32
  else timeout

def goto (q : MessageQueue) (t : ThreadId) (place : Place) : MessageQueue :=
  { q with place := Function.update q.place t place }

@[simp] theorem goto_place_self (q : MessageQueue) (t : ThreadId) (place : Place) :
    (q.goto t place).place t = place :=
  Function.update_self ..

theorem goto_place_of_ne {q : MessageQueue} {t u : ThreadId} {place : Place} (h : u ≠ t) :
    (q.goto t place).place u = q.place u :=
  Function.update_of_ne h ..

/-- `_ipc_list_resume` of `suspend_thread`, where a thread waits. -/
def resumeReceiver (q : MessageQueue) : MessageQueue :=
  match q.receivers with
  | [] => q
  | t :: rest => { q with receivers := rest }.goto t ((q.place t).wake RT_EOK)

/-- `_ipc_list_resume` of `suspend_sender_thread`, where a thread waits. -/
def resumeSender (q : MessageQueue) : MessageQueue :=
  match q.senders with
  | [] => q
  | t :: rest => { q with senders := rest }.goto t ((q.place t).wake RT_EOK)

/-- `_ipc_list_resume_all` of both lists. -/
def resumeAll (q : MessageQueue) : MessageQueue :=
  { q with
    receivers := []
    senders := []
    place := fun t =>
      if t ∈ q.receivers ∨ t ∈ q.senders then (q.place t).wake (-RT_ERROR) else q.place t }

/-! ## Sections -/

/-- A pass of the loop of `rt_mq_send_wait`, up to the end of its section. -/
def sendSection (q : MessageQueue) (io : KernelIo) (t : ThreadId) (buffer : List UInt8)
    (timeout : Int32) : MessageQueue :=
  match q.pool.free with
  | some msg => { q with pool := q.pool.takeFree msg }.goto t (.sendCopy false buffer msg)
  | none =>
    if timeout = 0 then q.goto t (.out (-RT_EFULL))
    else
      { q with senders := ipcListSuspend q.flag io.priority q.senders t }.goto t
        (.sendWait buffer timeout io.now)

def urgentSection (q : MessageQueue) (t : ThreadId) (buffer : List UInt8) : MessageQueue :=
  match q.pool.free with
  | some msg => { q with pool := q.pool.takeFree msg }.goto t (.sendCopy true buffer msg)
  | none => q.goto t (.out (-RT_EFULL))

/-- The copy of `rt_mq_send_wait` and `rt_mq_urgent`. -/
def copySection (q : MessageQueue) (t : ThreadId) (urgent : Bool) (buffer : List UInt8) (msg : Nat) :
    MessageQueue :=
  { q with
    pool := (if urgent then q.pool else q.pool.clearNext msg).copyIn msg buffer }.goto t
      (.sendLink urgent buffer msg)

/-- The second section of `rt_mq_send_wait` and `rt_mq_urgent`. -/
def linkSection (q : MessageQueue) (t : ThreadId) (urgent : Bool) (buffer : List UInt8) (msg : Nat) :
    MessageQueue :=
  let pool := if urgent then q.pool.linkFirst msg else q.pool.link msg
  let events := q.events ++ [if urgent then QueueEvent.urge buffer else .push buffer]
  if pool.entry < mqEntryMax then
    { q with pool := { pool with entry := pool.entry + 1 }, events := events }.goto t (.out RT_EOK)
      |>.resumeReceiver
  else { q with pool := pool, events := events }.goto t (.out (-RT_EFULL))

/-- A pass of the loop of `rt_mq_recv`, up to the end of its section. -/
def recvSection (q : MessageQueue) (io : KernelIo) (t : ThreadId) (size : Nat) (timeout : Int32) :
    MessageQueue :=
  if q.pool.entry = 0 then
    if timeout = 0 then q.goto t (.out (-RT_ETIMEOUT))
    else
      { q with receivers := ipcListSuspend q.flag io.priority q.receivers t }.goto t
        (.recvWait size timeout io.now)
  else
    match q.pool.head with
    | some msg =>
      { q with
        pool := (q.pool.unlink msg).countDown
        events := q.events ++ [QueueEvent.pop]
        taken := q.taken ++ [q.pool.payload msg] }.goto t (.recvCopy size msg (q.pool.payload msg))
    | none => q

def freeSection (q : MessageQueue) (t : ThreadId) (size : Nat) (msg : Nat)
    (taken buffer : List UInt8) : MessageQueue :=
  { q with
    pool := q.pool.giveBack msg
    received := q.received ++ [(size, taken, buffer)] }.goto t (.out RT_EOK) |>.resumeSender

def resetSection (q : MessageQueue) (t : ThreadId) : MessageQueue :=
  { q.resumeAll with
    pool := { q.pool.drain q.pool.maxMsgs.toNat with entry := 0 }
    events := q.events ++ [QueueEvent.clear] }.goto t (.out RT_EOK)

/-! ## The queue as a machine -/

/-- A call, the next section of a call, or the timer of a suspended thread. -/
inductive Input where
  | sendWait (t : ThreadId) (buffer : List UInt8) (timeout : Int32) (io : KernelIo)
  | urgent (t : ThreadId) (buffer : List UInt8)
  | recv (t : ThreadId) (size : Nat) (timeout : Int32) (io : KernelIo)
  | reset (t : ThreadId)
  | run (t : ThreadId) (io : KernelIo)
  | timeout (t : ThreadId)

def run (q : MessageQueue) (t : ThreadId) (io : KernelIo) : Option MessageQueue :=
  match q.place t with
  | .out _ | .sendWait .. | .recvWait .. => none
  | .sendReady buffer timeout start error =>
    if error ≠ RT_EOK then some (q.goto t (.out error))
    else some (q.sendSection io t buffer (timeLeft timeout start io.now))
  | .sendCopy urgent buffer msg => some (q.copySection t urgent buffer msg)
  | .sendLink urgent buffer msg => some (q.linkSection t urgent buffer msg)
  | .recvReady size timeout start error =>
    if error ≠ RT_EOK then some (q.goto t (.out error))
    else some (q.recvSection io t size (timeLeft timeout start io.now))
  | .recvCopy size msg taken =>
    some (q.goto t (.recvFree size msg taken (q.pool.copyOut msg size)))
  | .recvFree size msg taken buffer => some (q.freeSection t size msg taken buffer)

/-- The timer of a suspended thread fires: `_thread_timeout`. -/
def timeout (q : MessageQueue) (t : ThreadId) : Option MessageQueue :=
  match q.place t with
  | .sendWait _ timeout _ =>
    if timeout > 0 then
      some ({ q with senders := q.senders.erase t }.goto t ((q.place t).wake (-RT_ETIMEOUT)))
    else none
  | .recvWait _ timeout _ =>
    if timeout > 0 then
      some ({ q with receivers := q.receivers.erase t }.goto t ((q.place t).wake (-RT_ETIMEOUT)))
    else none
  | _ => none

def call (q : MessageQueue) (t : ThreadId) (result : MessageQueue) : Option MessageQueue :=
  match q.place t with
  | .out _ => some result
  | _ => none

def step (q : MessageQueue) : Input → Option MessageQueue
  | .sendWait t buffer timeout io =>
    q.call t (if buffer.length > q.pool.msgSize.toNat then q.goto t (.out (-RT_ERROR))
      else q.sendSection io t buffer timeout)
  | .urgent t buffer =>
    q.call t (if buffer.length > q.pool.msgSize.toNat then q.goto t (.out (-RT_ERROR))
      else q.urgentSection t buffer)
  | .recv t size timeout io => q.call t (q.recvSection io t size timeout)
  | .reset t => q.call t (q.resetSection t)
  | .run t io => q.run t io
  | .timeout t => q.timeout t

def create (pool : MsgPool) (flag : IpcFlag) : MessageQueue where
  pool := pool
  flag := flag
  receivers := []
  senders := []
  place := fun _ => .out RT_EOK
  events := []
  taken := []
  received := []

/-- The queue under every order of its threads' sections, from `rt_mq_create` on. -/
def machine : Machine MessageQueue Input where
  start q := ∃ next payload msgSize maxMsgs flag,
    q = create (MsgPool.create next payload msgSize maxMsgs) flag
  step := step

end MessageQueue

end Hcics
