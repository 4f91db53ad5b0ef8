import Hcics.Kernel.Ipc

/-!
# The mutex of the kernel

`rt_mutex_take` and `rt_mutex_release` in `rt-thread/src/ipc.c`, for any number of mutexes and threads.
A mutex is handed over: the release makes the first suspended thread the owner before that thread runs.
While a thread waits, the owner runs at its priority if that is higher; a lower number is a higher
priority. `MutexPlace` is where a thread is in its call.

`held` and `base` are history: how many takes of a thread returned `RT_EOK` that it has not released,
and the priority of a thread without what it inherits.
-/

namespace Hcics

abbrev MutexId := Nat

abbrev mutexHoldMax : UInt8 := 0xff

abbrev mutexValueMax : UInt16 := 0xffff

/-- `struct rt_mutex`, after `rt_mutex_init` where nothing is said; `waiting` is
`parent.suspend_thread`. -/
structure RtMutex where
  value : UInt16 := 1
  originalPriority : UInt8 := 0xff
  hold : UInt8 := 0
  owner : Option ThreadId := none
  waiting : List ThreadId := []
  deriving DecidableEq, Repr

inductive MutexPlace where
  /-- In no call; `result` is what the last one returned. -/
  | out (result : RtErr)
  /-- Suspended, with its timer started if `timed`. -/
  | waits (m : MutexId) (timed : Bool)
  /-- Resumed in `rt_mutex_take` with `thread->error`. -/
  | resumed (m : MutexId) (error : RtErr)
  deriving DecidableEq, Repr

namespace MutexPlace

def waitsOn (m : MutexId) : MutexPlace → Bool
  | waits m' _ => m' = m
  | _ => false

/-- 1 if the thread was made the owner of `m` and its take has not returned yet. -/
def handed (m : MutexId) : MutexPlace → Nat
  | resumed m' error => if m' = m ∧ error = RT_EOK then 1 else 0
  | _ => 0

/-- The thread is in a take of `m` that has not returned. -/
def on (m : MutexId) : MutexPlace → Bool
  | out _ => false
  | waits m' _ | resumed m' _ => m' = m

end MutexPlace

structure Mutexes where
  mutex : MutexId → RtMutex
  /-- `current_priority`. -/
  priority : ThreadId → UInt8
  place : ThreadId → MutexPlace
  held : MutexId → ThreadId → Nat
  base : ThreadId → UInt8

namespace Mutexes

/-! ## What a section changes -/

def setMutex (s : Mutexes) (m : MutexId) (mutex : RtMutex) : Mutexes :=
  { s with mutex := Function.update s.mutex m mutex }

/-- `rt_thread_control` with `RT_THREAD_CTRL_CHANGE_PRIORITY`. -/
def setPriority (s : Mutexes) (t : ThreadId) (priority : UInt8) : Mutexes :=
  { s with priority := Function.update s.priority t priority }

def goto (s : Mutexes) (t : ThreadId) (place : MutexPlace) : Mutexes :=
  { s with place := Function.update s.place t place }

/-- A take returns `RT_EOK`. -/
def entered (s : Mutexes) (t : ThreadId) (m : MutexId) : Mutexes :=
  { s with held := Function.update s.held m (Function.update (s.held m) t (s.held m t + 1)) }.goto t
    (.out RT_EOK)

/-- A release returns `RT_EOK`. -/
def left (s : Mutexes) (t : ThreadId) (m : MutexId) : Mutexes :=
  { s with held := Function.update s.held m (Function.update (s.held m) t (s.held m t - 1)) }.goto t
    (.out RT_EOK)

/-- The owner gets the priority of a thread that is about to wait, where that is higher. -/
def inherit (s : Mutexes) (t : ThreadId) (m : MutexId) : Mutexes :=
  match (s.mutex m).owner with
  | some owner => if s.priority t < s.priority owner then s.setPriority owner (s.priority t) else s
  | none => s

/-- The part of `rt_mutex_take` that waits, up to its `rt_schedule`. -/
def suspend (s : Mutexes) (t : ThreadId) (m : MutexId) (timed : Bool) : Mutexes :=
  (s.setMutex m
    { s.mutex m with waiting := ipcListSuspend .prio s.priority (s.mutex m).waiting t }).goto t
    (.waits m timed)

/-- `rt_mutex_take`, up to its end or its `rt_schedule`. -/
def take (s : Mutexes) (t : ThreadId) (m : MutexId) (time : Int32) : Mutexes :=
  let mutex := s.mutex m
  if mutex.owner = some t then
    if mutex.hold < mutexHoldMax then
      (s.setMutex m { mutex with hold := mutex.hold + 1 }).entered t m
    else s.goto t (.out (-RT_EFULL))
  else if mutex.value > 0 then
    let taken : RtMutex :=
      { mutex with value := mutex.value - 1, owner := some t, originalPriority := s.priority t }
    if taken.hold < mutexHoldMax then
      (s.setMutex m { taken with hold := taken.hold + 1 }).entered t m
    else (s.setMutex m taken).goto t (.out (-RT_EFULL))
  else if time = 0 then s.goto t (.out (-RT_ETIMEOUT))
  else (s.inherit t m).suspend t m (time > 0)

/-- The owner gets its priority from before it took the mutex. -/
def restore (s : Mutexes) (t : ThreadId) (m : MutexId) : Mutexes :=
  if (s.mutex m).originalPriority ≠ s.priority t then s.setPriority t (s.mutex m).originalPriority
  else s

/-- The part of `rt_mutex_release` where `hold` has become 0. -/
def handOver (s : Mutexes) (t : ThreadId) (m : MutexId) : Mutexes :=
  let mutex := s.mutex m
  match mutex.waiting with
  | thread :: rest =>
    let handed : RtMutex := { mutex with owner := some thread, originalPriority := s.priority thread }
    if handed.hold < mutexHoldMax then
      ((s.setMutex m { handed with hold := handed.hold + 1, waiting := rest }).left t m).goto thread
        (.resumed m RT_EOK)
    else (s.setMutex m handed).goto t (.out (-RT_EFULL))
  | [] =>
    if mutex.value < mutexValueMax then
      (s.setMutex m
        { mutex with value := mutex.value + 1, owner := none, originalPriority := 0xff }).left t m
    else s.goto t (.out (-RT_EFULL))

/-- `rt_mutex_release`. -/
def release (s : Mutexes) (t : ThreadId) (m : MutexId) : Mutexes :=
  let mutex := s.mutex m
  if some t ≠ mutex.owner then s.goto t (.out (-RT_ERROR))
  else
    let counted := s.setMutex m { mutex with hold := mutex.hold - 1 }
    if mutex.hold - 1 = 0 then (counted.restore t m).handOver t m
    else counted.left t m

/-- The timer of a suspended thread fires: `_thread_timeout`. -/
def timeout (s : Mutexes) (t : ThreadId) (m : MutexId) : Mutexes :=
  (s.setMutex m { s.mutex m with waiting := (s.mutex m).waiting.erase t }).goto t
    (.resumed m (-RT_ETIMEOUT))

/-- The end of `rt_mutex_take` in a thread that was resumed. -/
def resume (s : Mutexes) (t : ThreadId) (m : MutexId) (error : RtErr) : Mutexes :=
  if error ≠ RT_EOK then s.goto t (.out error) else s.entered t m

/-! ## The mutexes as a machine -/

/-- A call, the timer of a suspended thread, a resumed thread that runs, or a change of priority. -/
inductive Input where
  | take (t : ThreadId) (m : MutexId) (time : Int32)
  | release (t : ThreadId) (m : MutexId)
  | timeout (t : ThreadId)
  | run (t : ThreadId)
  | control (t : ThreadId) (priority : UInt8)

def step (s : Mutexes) : Input → Option Mutexes
  | .take t m time =>
    match s.place t with
    | .out _ => some (s.take t m time)
    | _ => none
  | .release t m =>
    match s.place t with
    | .out _ => some (s.release t m)
    | _ => none
  | .timeout t =>
    match s.place t with
    | .waits m true => some (s.timeout t m)
    | _ => none
  | .run t =>
    match s.place t with
    | .resumed m error => some (s.resume t m error)
    | _ => none
  | .control t priority =>
    some { s.setPriority t priority with base := Function.update s.base t priority }

def init (priority : ThreadId → UInt8) : Mutexes where
  mutex _ := {}
  priority := priority
  place _ := .out RT_EOK
  held _ _ := 0
  base := priority

/-- The mutexes under every order of the threads' sections. -/
def machine : Machine Mutexes Input where
  start s := ∃ priority, s = init priority
  step := step

end Mutexes

end Hcics
