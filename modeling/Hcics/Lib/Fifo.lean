import Mathlib.Data.List.Induction

/-!
# First in, first out

A queue given by what happened to it, oldest first: `after` is what it holds, `popped` what came out
of it. Without urgent pushes and clears the two, one behind the other, are what was pushed
(`pushes_eq`).
-/

universe u

inductive QueueEvent (α : Type u) where
  | push (a : α)
  /-- A push in front of the others. -/
  | urge (a : α)
  | pop
  | clear
  deriving DecidableEq, Repr

namespace QueueEvent

variable {α : Type u}

/-- The queue after one event. -/
def apply (queue : List α) : QueueEvent α → List α
  | push a => queue ++ [a]
  | urge a => a :: queue
  | pop => queue.tail
  | clear => []

def out (queue : List α) : QueueEvent α → List α
  | pop => queue.head?.toList
  | _ => []

def pushed : QueueEvent α → List α
  | push a => [a]
  | _ => []

/-- Neither an urgent push nor a clear. -/
def Plain : QueueEvent α → Prop
  | push _ | pop => True
  | urge _ | clear => False

/-- What a queue holds after some events. -/
def after (events : List (QueueEvent α)) : List α := events.foldl apply []

/-- The queue and what came out of it, event by event. -/
def outs : List α → List (QueueEvent α) → List α
  | _, [] => []
  | queue, e :: events => e.out queue ++ outs (e.apply queue) events

def popped (events : List (QueueEvent α)) : List α := outs [] events

def pushes (events : List (QueueEvent α)) : List α := events.flatMap pushed

@[simp] theorem after_nil : after ([] : List (QueueEvent α)) = [] := rfl

@[simp] theorem popped_nil : popped ([] : List (QueueEvent α)) = [] := rfl

theorem after_snoc (events : List (QueueEvent α)) (e : QueueEvent α) :
    after (events ++ [e]) = e.apply (after events) := by
  rw [after, List.foldl_append]
  rfl

theorem outs_snoc (queue : List α) (events : List (QueueEvent α)) (e : QueueEvent α) :
    outs queue (events ++ [e]) = outs queue events ++ e.out (events.foldl apply queue) := by
  induction events generalizing queue with
  | nil => simp [outs]
  | cons e' events ih => simp [outs, ih]

theorem popped_snoc (events : List (QueueEvent α)) (e : QueueEvent α) :
    popped (events ++ [e]) = popped events ++ e.out (after events) :=
  outs_snoc [] events e

/-- **First in, first out.** What was pushed is what came out and then what is still there. -/
theorem pushes_eq {events : List (QueueEvent α)} (h : ∀ e ∈ events, e.Plain) :
    pushes events = popped events ++ after events := by
  induction events using List.reverseRecOn with
  | nil => rfl
  | append_singleton events e ih =>
    have hbefore := ih fun e hmem => h e (List.mem_append_left _ hmem)
    have hplain := h e (by simp)
    rw [popped_snoc, after_snoc, pushes, List.flatMap_append, ← pushes, hbefore]
    cases e with
    | push a => simp [pushed, apply, out]
    | pop => cases hq : after events <;> simp [pushed, apply, out]
    | urge a => exact hplain.elim
    | clear => exact hplain.elim

end QueueEvent
