import Hcics.Basic
import Hcics.Lib.Agenda
import Hcics.Lib.Transition
import Mathlib.Logic.Function.Basic

/-!
# The timers of the kernel

The hard timers in `rt-thread/src/timer.c`: `rt_timer_start`, `rt_timer_stop`, `rt_timer_control` and
`rt_timer_check`, which `rt_tick_increase` calls in the interrupt of the tick. The list `_timer_list` is
kept in the order of `timeout_tick`, compared by the difference of the words. A timeout function runs
inside `rt_timer_check` and may start and stop timers itself; `Phase` is where the interrupt is.

`now`, `armed`, `starts` and `fired` are history: the number of ticks since boot, the start that a timer
waits for, the number of starts, and the timers that fired.
-/

namespace Hcics

/-- A `struct rt_timer`. -/
abbrev TimerId := Nat

/-- `RT_TICK_MAX / 2`. -/
abbrev halfTickMax : Tick := 0x7fffffff

/-- The fields of a timer; `periodic` and `activated` are bits of `parent.flag`. -/
structure RtTimer where
  initTick : Tick
  timeoutTick : Tick
  periodic : Bool
  activated : Bool
  deriving DecidableEq, Repr

inductive TimerPhase where
  /-- Not in it. -/
  | idle
  /-- Before `rt_timer_check` disables the interrupts. -/
  | due
  /-- At the head of the loop of `rt_timer_check`. -/
  | loop
  /-- In the timeout function of a timer, which `list` still holds or not. -/
  | callback (t : TimerId) (listed : Bool)
  deriving DecidableEq, Repr

/-- A timer that fired: its start, when it fired, and how many starts there had been. -/
structure Firing where
  timer : TimerId
  start : Agenda.Entry
  time : Nat
  starts : Nat
  deriving DecidableEq, Repr

structure Timers where
  timer : TimerId → RtTimer
  /-- `_timer_list`. -/
  list : List TimerId
  /-- `rt_tick`. -/
  tick : Tick
  phase : TimerPhase
  now : Nat
  armed : TimerId → Option Agenda.Entry
  starts : Nat
  fired : List Firing

namespace Timers

/-- The loop of `rt_timer_start` that looks for the place of a timer, and its insertion. -/
def insertTimer (timeoutTick : TimerId → Tick) (timer : TimerId) : List TimerId → List TimerId
  | [] => [timer]
  | t :: rest =>
    if timeoutTick t - timeoutTick timer = 0 then t :: insertTimer timeoutTick timer rest
    else if timeoutTick t - timeoutTick timer < halfTickMax then timer :: t :: rest
    else t :: insertTimer timeoutTick timer rest

def setTimer (s : Timers) (t : TimerId) (timer : RtTimer) : Timers :=
  { s with timer := Function.update s.timer t timer }

theorem setTimer_self {s : Timers} {t : TimerId} {x : RtTimer} : (s.setTimer t x).timer t = x :=
  Function.update_self ..

theorem setTimer_of_ne {s : Timers} {t u : TimerId} {x : RtTimer} (h : u ≠ t) :
    (s.setTimer t x).timer u = s.timer u :=
  Function.update_of_ne h ..

/-- `_timer_remove`, of the timer list or of the list of `rt_timer_check`. -/
def remove (s : Timers) (t : TimerId) : Timers :=
  { s with
    list := s.list.erase t
    phase := match s.phase with
      | .callback u listed => .callback u (listed && u ≠ t)
      | phase => phase }

/-- `rt_timer_start`. -/
def start (s : Timers) (t : TimerId) : Timers :=
  let s := s.remove t
  let s := s.setTimer t { s.timer t with timeoutTick := s.tick + (s.timer t).initTick }
  { s.setTimer t { s.timer t with activated := true } with
    list := insertTimer (fun u => (s.timer u).timeoutTick) t s.list
    armed := Function.update s.armed t (some ⟨s.now, (s.timer t).initTick.toNat, s.starts⟩)
    starts := s.starts + 1 }

/-- `rt_timer_stop`. -/
def stop (s : Timers) (t : TimerId) : Timers :=
  if (s.timer t).activated then
    { (s.remove t).setTimer t { s.timer t with activated := false } with
      armed := Function.update s.armed t none }
  else s

/-- The body of the loop of `rt_timer_check` up to the timeout function, for a timer that is due. -/
def fire (s : Timers) (t : TimerId) : Timers :=
  let s' := s.remove t
  { s'.setTimer t
      { s.timer t with activated := if (s.timer t).periodic then (s.timer t).activated else false } with
    phase := .callback t true
    armed := Function.update s.armed t none
    fired := match s.armed t with
      | some entry => s.fired ++ [⟨t, entry, s.now, s.starts⟩]
      | none => s.fired }

def check (s : Timers) : Timers :=
  match s.list with
  | [] => { s with phase := .idle }
  | t :: _ =>
    if s.tick - (s.timer t).timeoutTick < halfTickMax then s.fire t
    else { s with phase := .idle }

/-- The rest of the body, after the timeout function. -/
def finish (s : Timers) (t : TimerId) (listed : Bool) : Timers :=
  let s := { s with phase := .loop }
  if listed && (s.timer t).periodic && (s.timer t).activated then
    (s.setTimer t { s.timer t with activated := false }).start t
  else s

/-- The interrupt of the tick, or a call of a thread, an interrupt or a timeout function. -/
inductive Input where
  | tick
  | check
  | finish
  | start (t : TimerId)
  | stop (t : TimerId)
  | setTime (t : TimerId) (time : Tick)
  | setPeriodic (t : TimerId) (periodic : Bool)
  deriving DecidableEq, Repr

/-- Other code runs: the interrupts are enabled, or a timeout function was called. -/
def runs (s : Timers) : Bool :=
  match s.phase with
  | .loop => false
  | _ => true

/-- One step. `RT_TIMER_CTRL_SET_TIME` asserts that the time is below half the range of the tick. -/
def step (s : Timers) : Input → Option Timers
  | .tick =>
    match s.phase with
    | .idle => some { s with tick := s.tick + 1, now := s.now + 1, phase := .due }
    | _ => none
  | .check =>
    match s.phase with
    | .due | .loop => some s.check
    | _ => none
  | .finish =>
    match s.phase with
    | .callback t listed => some (s.finish t listed)
    | _ => none
  | .start t => if s.runs then some (s.start t) else none
  | .stop t => if s.runs then some (s.stop t) else none
  | .setTime t time =>
    if s.runs && time < halfTickMax then some (s.setTimer t { s.timer t with initTick := time }) else none
  | .setPeriodic t periodic =>
    if s.runs then some (s.setTimer t { s.timer t with periodic := periodic }) else none

/-- The timers after `rt_timer_init`, which asserts that the times are below half the range. -/
def init (initTick : TimerId → Tick) (periodic : TimerId → Bool) : Timers where
  timer t := ⟨initTick t, 0, periodic t, false⟩
  list := []
  tick := 0
  phase := .idle
  now := 0
  armed _ := none
  starts := 0
  fired := []

/-- The timers under every order of ticks and calls. -/
def machine : Machine Timers Input where
  start s := ∃ initTick periodic, (∀ t, initTick t < halfTickMax) ∧ s = init initTick periodic
  step := step

end Timers

end Hcics
