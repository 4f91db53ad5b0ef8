import Hcics.Track.Spec

/-!
# The tracker as a machine

The tracker under every order of its public operations, with tick times that do not decrease and may
wrap; in a timely run they advance by less than `2 ^ 31` ms. The machine adds to the context what
statements about runs speak of: absolute times, and the frames that nodes are accepted from. A path is
only started while none is running, as the application does.
-/

namespace Hcics

/-- The tracker with the history of its current path. -/
structure Tracker where
  track : Track
  /-- The absolute time of the last tick. -/
  lastTick : Option Nat
  /-- The time at which the step begun last was begun. -/
  begunAt : Nat
  /-- The times at which the current path accepted its nodes, newest first. -/
  nodes : List Nat
  /-- The number of frames delivered so far. -/
  frames : Nat
  /-- The numbers of the frames the nodes of the current path were accepted from, newest first. -/
  nodeFrames : List Nat
  deriving DecidableEq, Repr

namespace Tracker

inductive Input where
  | init (ops : Option Bool) (mutexResult : RtErr)
  | startPath (targetId : UInt8) (nowMs : UInt32)
  | stop
  | updateCamera (target : CameraTarget)
  | tick (now : Nat) (line : Int16 × Int16)
  deriving DecidableEq, Repr

def boot : Tracker := ⟨Track.zeroed, none, 0, [], 0, []⟩

/-- The times a tick may have. -/
def TickTime (s : Tracker) (now : Nat) : Prop := ∀ last ∈ s.lastTick, last ≤ now

instance (s : Tracker) (now : Nat) : Decidable (s.TickTime now) :=
  inferInstanceAs (Decidable (∀ last ∈ s.lastTick, _))

/-- A tick comes less than `2 ^ 31` ms after the last one. -/
def Timely (s : Tracker) : Input → Prop
  | .tick now _ => ∀ last ∈ s.lastTick, now < last + 2 ^ 31
  | _ => True

instance (s : Tracker) : ∀ i, Decidable (s.Timely i)
  | .tick _ _ => inferInstanceAs (Decidable (∀ last ∈ s.lastTick, _))
  | .init _ _ | .startPath _ _ | .stop | .updateCamera _ => .isTrue trivial

/-- A tick, and the node it accepts if `path_index` advances. -/
def doTick (s : Tracker) (now : Nat) (line : Int16 × Int16) : Tracker :=
  let track := (s.track.tick (UInt32.ofNat now) line).1
  let s' := { s with track := track, lastTick := some now }
  if track.pathIndex = s.track.pathIndex then s'
  else { s' with begunAt := now, nodes := now :: s.nodes, nodeFrames := s.frames :: s.nodeFrames }

/-- A start; a successful one begins a new path. -/
def doStart (s : Tracker) (targetId : UInt8) (nowMs : UInt32) : Tracker :=
  let (track, result) := s.track.startPath targetId nowMs
  if result = RT_EOK then { s with track := track, nodes := [], nodeFrames := [] }
  else { s with track := track }

def step (s : Tracker) : Input → Option Tracker
  | .init ops mutexResult => some { s with track := (s.track.init ops mutexResult).1 }
  | .startPath targetId nowMs => if s.track.running then none else some (s.doStart targetId nowMs)
  | .stop => some { s with track := s.track.stop.1 }
  | .updateCamera target =>
    some { s with
      track := s.track.updateCamera target
      frames := if s.track.storesFrame target then s.frames + 1 else s.frames }
  | .tick now line => if s.TickTime now then some (s.doTick now line) else none

/-- The tracker under every sequence of its operations. -/
def machine : Machine Tracker Input where
  start s := s = boot
  step := step

theorem doTick_track (s : Tracker) (now : Nat) (line : Int16 × Int16) :
    (s.doTick now line).track = (s.track.tick (UInt32.ofNat now) line).1 := by
  unfold doTick
  dsimp only
  split <;> rfl

theorem doStart_track (s : Tracker) (targetId : UInt8) (nowMs : UInt32) :
    (s.doStart targetId nowMs).track = (s.track.startPath targetId nowMs).1 := by
  unfold doStart
  dsimp only
  split <;> rfl

inductive StepCase (s : Tracker) : Input → Tracker → Prop where
  | tick {now : Nat} {line : Int16 × Int16} (time : s.TickTime now) :
      StepCase s (.tick now line) (s.doTick now line)
  | startPath {targetId : UInt8} {nowMs : UInt32} (stopped : s.track.running = false) :
      StepCase s (.startPath targetId nowMs) (s.doStart targetId nowMs)
  | stop : StepCase s .stop { s with track := s.track.stop.1 }
  | updateCamera (target : CameraTarget) : StepCase s (.updateCamera target) { s with
      track := s.track.updateCamera target
      frames := if s.track.storesFrame target then s.frames + 1 else s.frames }
  /-- An init that keeps the path. -/
  | bind {ops : Option Bool} {mutexResult : RtErr} (setMotor : Bool) :
      StepCase s (.init ops mutexResult) { s with track := { s.track with setMotor := setMotor } }
  /-- An init of a tracker without one. -/
  | init {ops : Option Bool} {mutexResult : RtErr} (fresh : s.track.initialized = false)
      (setMotor initialized : Bool) (nodeIndex : UInt8) (state : TrackState) :
      StepCase s (.init ops mutexResult) { s with
        track := { Track.zeroed with
          setMotor := setMotor, initialized := initialized
          currentNodeIndex := nodeIndex, visualMissionState := state } }

theorem step_case {s s' : Tracker} {i : Input} (hstep : s.step i = some s') : StepCase s i s' := by
  cases i with
  | init ops mutexResult =>
    obtain rfl := Option.some.inj hstep
    rcases s.track.init_cases ops mutexResult with ⟨setMotor, he⟩ |
      ⟨hfresh, setMotor, initialized, nodeIndex, state, he⟩ <;> rw [he]
    · exact .bind setMotor
    · exact .init hfresh setMotor initialized nodeIndex state
  | startPath targetId nowMs =>
    simp only [step] at hstep
    split at hstep
    · cases hstep
    · rename_i hr
      exact Option.some.inj hstep ▸ .startPath (by simpa using hr)
  | stop => exact Option.some.inj hstep ▸ .stop
  | updateCamera target => exact Option.some.inj hstep ▸ .updateCamera target
  | tick now line =>
    simp only [step] at hstep
    split at hstep
    · rename_i hnow
      exact Option.some.inj hstep ▸ .tick hnow
    · cases hstep

theorem step_planInv {s s' : Tracker} {i : Input} (h : s.track.PlanInv) (hstep : s.step i = some s') :
    s'.track.PlanInv := by
  cases step_case hstep with
  | tick hnow =>
    rw [doTick_track]
    exact Track.tick_planInv h _ _
  | startPath hr =>
    rw [doStart_track]
    exact Track.startPath_planInv h hr _ _
  | stop => exact Track.stop_planInv h
  | updateCamera target => exact Track.updateCamera_planInv h target
  | bind setMotor =>
    refine ⟨fun hr => ?_, h.begun⟩
    have hu := h.underway hr
    exact ⟨hu.initialized, hu.unfinished, hu.path, hu.plan, hu.begun, hu.left, hu.active⟩
  | init => exact ⟨fun hr => Bool.noConfusion hr, List.prefix_rfl⟩

theorem planInv_of_reach {ok : Tracker → Input → Prop} {s : Tracker} (h : machine.Reach ok s) :
    s.track.PlanInv :=
  h.inv (fun _ hs => hs ▸ Track.planInv_zeroed) fun _ _ _ _ hs _ hstep => step_planInv hs hstep

end Tracker

end Hcics
