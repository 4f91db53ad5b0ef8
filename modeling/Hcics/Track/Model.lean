import Hcics.Basic
import Hcics.Lib.Clock
import Hcics.Lib.Transition

/-!
# The path tracker

`hcics_track.c` with its context `g_track`. Every public operation takes the module's mutex for its
whole body, so it is one step. An operation returns the motor command it hands to `ops.set_motor`,
if any; no operation gives more than one.

The line-following controller computes in `float`; its two wheel commands are the argument `line`
of a tick, and the fields only it reads are left out, as are the names used for logging. Two fields
are history: `pathBegun` lists the steps begun since the current plan was made, `history` those
begun since boot.
-/

namespace Hcics

inductive TrackAction where
  | forward | turnLeft | turnRight | uturn | finishDelay | stopAtTarget
  deriving DecidableEq, Repr

inductive TrackState where
  | line | leftTurn | rightTurn | uturn | paused | finished | idle
  deriving DecidableEq, Repr

/-- `hcics_track_path_t`; its length is the length of `steps`. -/
structure TrackPath where
  steps : List TrackAction
  destination : UInt8
  deriving DecidableEq, Repr

/-- `hcics_track_context_t` with the globals `current_node_index` and `visual_mission_state`.
`setMotor` and `path` are whether these pointers are non-null; the path they give is the planned
one. -/
structure Track where
  initialized : Bool
  running : Bool
  finished : Bool
  targetLocked : Bool
  nodeLatched : Bool
  actionActive : Bool
  targetId : UInt8
  currentLocation : UInt8
  pathIndex : UInt8
  activeAction : TrackAction
  lastTickMs : UInt32
  lastNodeMs : UInt32
  actionEndMs : UInt32
  leftCmd : Int16
  rightCmd : Int16
  camera : CameraTarget
  setMotor : Bool
  path : Bool
  plannedPath : TrackPath
  currentNodeIndex : UInt8
  visualMissionState : TrackState
  pathBegun : List TrackAction
  history : List TrackAction
  deriving DecidableEq, Repr

namespace Track

/-! ## Limits -/

abbrev targetHome : UInt8 := 0
abbrev targetMin : UInt8 := 1
abbrev targetMax : UInt8 := 9
abbrev gridCols : UInt8 := 3
@[simp] abbrev maxPathSteps : Nat := 16
abbrev minTargetW : UInt8 := 3
abbrev nodeWideW : UInt8 := 80
abbrev nodeWideFallbackW : UInt8 := 100
/-- `s_current_cooldown_ms`, which keeps its initial value `HCICS_TRACK_NODE_COOLDOWN_MS`. -/
abbrev currentCooldownMs : UInt32 := 500
abbrev targetStaleMs : UInt32 := 1500

/-- How long a timed action lasts: `HCICS_TRACK_TURN_LEFT_MS`, `HCICS_TRACK_TURN_RIGHT_MS`,
`HCICS_TRACK_UTURN_MS` and `HCICS_TRACK_FINISH_DELAY_MS`. -/
def durationMs : TrackAction → UInt32
  | .turnLeft => 900
  | .turnRight => 750
  | .uturn => 1200
  | .finishDelay => 400
  | .forward | .stopAtTarget => 0

/-! ## Planning -/

/-- `hcics_track_target_to_grid`: the row and column of a panel. -/
def targetToGrid (targetId : UInt8) : Option (UInt8 × UInt8) :=
  if targetId < targetMin ∨ targetId > targetMax then none
  else some ((targetId - 1) / gridCols + 1, (targetId - 1) % gridCols + 1)

def addStep (p : TrackPath) (action : TrackAction) : TrackPath × RtErr :=
  if p.steps.length ≥ maxPathSteps then (p, -RT_EFULL)
  else ({ p with steps := p.steps ++ [action] }, RT_EOK)

/-- The loops that add forward steps. -/
def addForward (p : TrackPath) : Nat → TrackPath × RtErr
  | 0 => (p, RT_EOK)
  | n + 1 =>
    let (p, result) := addStep p .forward
    if result ≠ RT_EOK then (p, -RT_EFULL) else addForward p n

def buildToTarget (p : TrackPath) (targetId : UInt8) : TrackPath × RtErr :=
  match targetToGrid targetId with
  | none => (p, -RT_EINVAL)
  | some (row, col) =>
    let p := { p with destination := targetId }
    let (p, result) := addForward p row.toNat
    if result ≠ RT_EOK then (p, -RT_EFULL)
    else
      let (p, result) := addStep p .turnRight
      if result ≠ RT_EOK then (p, -RT_EFULL)
      else
        let (p, result) := addForward p (col.toNat - 1)
        if result ≠ RT_EOK then (p, -RT_EFULL) else addStep p .stopAtTarget

def buildReturnHome (p : TrackPath) (currentLocation : UInt8) : TrackPath × RtErr :=
  if currentLocation = targetHome then
    addStep { p with destination := targetHome } .finishDelay
  else
    match targetToGrid currentLocation with
    | none => (p, -RT_EINVAL)
    | some (row, col) =>
      let p := { p with destination := targetHome }
      let (p, result) := addStep p .uturn
      if result ≠ RT_EOK then (p, -RT_EFULL)
      else
        let (p, result) := addForward p (col.toNat - 1)
        if result ≠ RT_EOK then (p, -RT_EFULL)
        else
          let (p, result) := addStep p .turnLeft
          if result ≠ RT_EOK then (p, -RT_EFULL)
          else
            let (p, result) := addForward p row.toNat
            if result ≠ RT_EOK then (p, -RT_EFULL) else addStep p .finishDelay

/-- `hcics_track_plan_path`, on the planned path cleared by `rt_memset`. -/
def planPath (currentLocation targetId : UInt8) : TrackPath × RtErr :=
  if targetId = targetHome then buildReturnHome ⟨[], 0⟩ currentLocation
  else buildToTarget ⟨[], 0⟩ targetId

/-! ## Motor commands -/

def motionSet (t : Track) (left right : Int16) : Track × Option (Int16 × Int16) :=
  ({ t with leftCmd := left, rightCmd := right }, if t.setMotor then some (left, right) else none)

/-! ## Nodes -/

def targetRecent (target : CameraTarget) (nowMs : UInt32) : Bool :=
  if target.mode ≠ HCICS_CAM_MODE_TRACK ∨ target.tick = 0 ∨ target.width < minTargetW then false
  else decide (nowMs - tickToMs target.tick ≤ targetStaleMs)

/-- Whether a frame shows a node: a typed one, or an untyped one that is wide enough. -/
def isNode (target : CameraTarget) : Bool :=
  let typedNode := target.type = 3 ∨ target.type = 4 ∨ target.type = 7
  let fallbackNode := target.type = 0 ∧ target.width ≥ nodeWideFallbackW
  decide ((typedNode ∧ target.width ≥ nodeWideW) ∨ fallbackNode)

def nodeSeen (t : Track) (nowMs : UInt32) : Bool :=
  if !targetRecent t.camera nowMs then false
  else if nowMs - t.lastNodeMs < currentCooldownMs then false
  else isNode t.camera

def finishPath (t : Track) (nowMs : UInt32) : Track × Option (Int16 × Int16) :=
  let destination := if t.path then t.plannedPath.destination else targetHome
  { t with
    running := false
    finished := true
    actionActive := false
    currentLocation := destination
    lastNodeMs := nowMs
    visualMissionState := .finished }.motionSet 0 0

/-- The timed actions of `hcics_track_begin_action`: the end time, the state and the command. -/
def beginTimed (t : Track) (nowMs : UInt32) (action : TrackAction) (state : TrackState)
    (left right : Int16) : Track × Option (Int16 × Int16) :=
  { t with
    actionActive := true
    actionEndMs := nowMs + durationMs action
    visualMissionState := state }.motionSet left right

def beginAction (t : Track) (action : TrackAction) (nowMs : UInt32) :
    Track × Option (Int16 × Int16) :=
  let t := { t with
    activeAction := action
    actionActive := false
    pathBegun := t.pathBegun ++ [action]
    history := t.history ++ [action] }
  match action with
  | .forward => ({ t with lastNodeMs := nowMs, visualMissionState := .line }, none)
  | .turnLeft => t.beginTimed nowMs .turnLeft .leftTurn (-25) 85
  | .turnRight => t.beginTimed nowMs .turnRight .rightTurn 85 (-25)
  | .uturn => t.beginTimed nowMs .uturn .uturn (-150) 150
  | .finishDelay => t.beginTimed nowMs .finishDelay .paused 0 0
  | .stopAtTarget => t.finishPath nowMs

/-- `hcics_track_complete_action`; the command after a turn is `HCICS_TRACK_BASE_SPEED`. -/
def completeAction (t : Track) (nowMs : UInt32) : Track × Option (Int16 × Int16) :=
  if !t.actionActive then (t, none)
  else if (nowMs - t.actionEndMs).toInt32 < 0 then (t, none)
  else if t.activeAction = .finishDelay then t.finishPath nowMs
  else
    { t with actionActive := false, lastNodeMs := nowMs, visualMissionState := .line }.motionSet 54 54

def acceptNode (t : Track) (nowMs : UInt32) : Track × Option (Int16 × Int16) :=
  match (if t.path then t.plannedPath.steps[t.pathIndex.toNat]? else none) with
  | none => t.finishPath nowMs
  | some step =>
    { t with
      currentNodeIndex := t.pathIndex
      pathIndex := t.pathIndex + 1 }.beginAction step nowMs

/-- `hcics_track_apply_line_follow`, with the wheel commands of the controller in `line`. -/
def applyLineFollow (t : Track) (nowMs : UInt32) (line : Int16 × Int16) :
    Track × Option (Int16 × Int16) :=
  let recent := targetRecent t.camera nowMs
  let t := { t with targetLocked := recent }
  if !recent then t.motionSet 0 0 else t.motionSet line.1 line.2

/-! ## Public operations -/

def motorReady (t : Track) : Bool := t.initialized && t.setMotor

/-- The context after `rt_memset`; the mutex is no data of the model. -/
def zeroed : Track where
  initialized := false
  running := false
  finished := false
  targetLocked := false
  nodeLatched := false
  actionActive := false
  targetId := 0
  currentLocation := 0
  pathIndex := 0
  activeAction := .forward
  lastTickMs := 0
  lastNodeMs := 0
  actionEndMs := 0
  leftCmd := 0
  rightCmd := 0
  camera := ⟨0, 0, 0, 0, 0, 0⟩
  setMotor := false
  path := false
  plannedPath := ⟨[], 0⟩
  currentNodeIndex := 0
  visualMissionState := .idle
  pathBegun := []
  history := []

/-- `hcics_track_init`; `ops` is `none` for a null pointer and else whether `set_motor` is set,
`mutexResult` the result of `rt_mutex_init`. -/
def init (t : Track) (ops : Option Bool) (mutexResult : RtErr) : Track × RtErr :=
  if t.initialized then
    match ops with
    | none => (t, RT_EOK)
    | some false => (t, -RT_EINVAL)
    | some true => ({ t with setMotor := true }, RT_EOK)
  else if ops ≠ some true then (t, -RT_EINVAL)
  else
    let t := { zeroed with
      currentNodeIndex := t.currentNodeIndex
      visualMissionState := t.visualMissionState }
    if mutexResult ≠ RT_EOK then (t, mutexResult)
    else
      ({ t with
          setMotor := true
          initialized := true
          currentLocation := targetHome
          visualMissionState := .idle }, RT_EOK)

def startPath (t : Track) (targetId : UInt8) (nowMs : UInt32) : Track × RtErr :=
  if !t.motorReady then (t, -RT_ENOSYS)
  else if !targetRecent t.camera nowMs then (t, -RT_ETIMEOUT)
  else
    let (plan, result) := planPath t.currentLocation targetId
    let t := { t with plannedPath := plan, pathBegun := [] }
    if result ≠ RT_EOK then (t, result)
    else
      ({ t with
          path := true
          targetId := targetId
          pathIndex := 0
          running := true
          finished := false
          actionActive := false
          nodeLatched := false
          lastTickMs := nowMs
          lastNodeMs := nowMs - currentCooldownMs
          currentNodeIndex := 0
          visualMissionState := .line }, RT_EOK)

def stop (t : Track) : Track × Option (Int16 × Int16) :=
  if !t.initialized then (t, none)
  else
    { t with
      running := false
      finished := false
      actionActive := false
      visualMissionState := .idle }.motionSet 0 0

/-- Whether `hcics_track_update_camera` stores a frame. -/
def storesFrame (t : Track) (target : CameraTarget) : Bool :=
  decide (target.mode = HCICS_CAM_MODE_TRACK) && t.initialized

def updateCamera (t : Track) (target : CameraTarget) : Track :=
  if t.storesFrame target then
    { t with camera := target, targetLocked := decide (target.width ≥ minTargetW) }
  else t

def tick (t : Track) (nowMs : UInt32) (line : Int16 × Int16) : Track × Option (Int16 × Int16) :=
  if !t.initialized || !t.running then (t, none)
  else
    let t := { t with lastTickMs := nowMs }
    if t.actionActive then t.completeAction nowMs
    else if t.nodeSeen nowMs then t.acceptNode nowMs
    else t.applyLineFollow nowMs line

def isFinished (t : Track) : Bool := t.initialized && t.finished

end Track

end Hcics
