import Hcics.Cleaner.Model

/-!
# Runs of the cleaner

The worker of `hcics_cleaner.c` and its callers, cut at every section under the module's mutex, every
axis command and the semaphore, for any configuration. Of `hcics_cleaner_run_mission` this keeps that
it touches the outputs through `hcics_cleaner_relay` and `hcics_cleaner_apply_pose` only: it may do so
in any order, and return at any point with any result. Its phases are in `Cleaner`.

One thread calls start and reset, one after the other; emergency stops and guard updates come from any
number of threads. `starts`, `begun` and `ended` are history: the starts that returned `RT_EOK`, and
the runs the worker has begun and ended.
-/

namespace Hcics

/-- The pulse widths of `hcics_cleaner_config_t`. -/
structure CleanerConfig where
  ySafeNs : UInt32
  yCenterNs : UInt32
  yMinNs : UInt32
  yMaxNs : UInt32
  zRetractNs : UInt32
  zExtendNs : UInt32
  zWashNs : UInt32
  deriving DecidableEq, Repr

/-- A configuration whose poses lie within its limits. -/
structure SaneConfig extends CleanerConfig where
  ySafe_mem : yMinNs ≤ ySafeNs ∧ ySafeNs ≤ yMaxNs
  yCenter_mem : yMinNs ≤ yCenterNs ∧ yCenterNs ≤ yMaxNs
  zWash_mem : zExtendNs ≤ zWashNs ∧ zWashNs ≤ zRetractNs
  deriving DecidableEq, Repr

theorem clampU32_mem {lo hi : UInt32} (h : lo ≤ hi) (value : UInt32) :
    lo ≤ Cleaner.clampU32 value lo hi ∧ Cleaner.clampU32 value lo hi ≤ hi := by
  unfold Cleaner.clampU32
  split_ifs with hlo hhi
  · exact ⟨UInt32.le_refl lo, h⟩
  · exact ⟨h, UInt32.le_refl hi⟩
  · exact ⟨UInt32.not_lt.mp hlo, UInt32.not_lt.mp hhi⟩

theorem clampU32_of_mem {lo hi value : UInt32} (h : lo ≤ value ∧ value ≤ hi) :
    Cleaner.clampU32 value lo hi = value := by
  rw [Cleaner.clampU32, if_neg (UInt32.not_lt.mpr h.1), if_neg (UInt32.not_lt.mpr h.2)]

def ordered (lo hi : UInt32) : UInt32 × UInt32 := if lo > hi then (hi, lo) else (lo, hi)

theorem ordered_le (lo hi : UInt32) : (ordered lo hi).1 ≤ (ordered lo hi).2 := by
  unfold ordered
  split_ifs with h
  · exact UInt32.le_of_lt h
  · exact UInt32.not_lt.mp h

namespace CleanerConfig

/-- `hcics_cleaner_get_default_config`. -/
def default : CleanerConfig where
  ySafeNs := 1860000
  yCenterNs := 1550000
  yMinNs := 270000
  yMaxNs := 1950000
  zRetractNs := 2200000
  zExtendNs := 1000000
  zWashNs := 1100000

/-- `hcics_cleaner_sanitize_config`. -/
def sanitize (config : CleanerConfig) : SaneConfig :=
  let y := ordered config.yMinNs config.yMaxNs
  let z := ordered config.zExtendNs config.zRetractNs
  { ySafeNs := Cleaner.clampU32 config.ySafeNs y.1 y.2
    yCenterNs := Cleaner.clampU32 config.yCenterNs y.1 y.2
    yMinNs := y.1
    yMaxNs := y.2
    zRetractNs := z.2
    zExtendNs := z.1
    zWashNs := Cleaner.clampU32 config.zWashNs z.1 z.2
    ySafe_mem := clampU32_mem (ordered_le _ _) _
    yCenter_mem := clampU32_mem (ordered_le _ _) _
    zWash_mem := clampU32_mem (ordered_le _ _) _ }

end CleanerConfig

inductive SafePart where
  | relay | axis | pose
  deriving DecidableEq, Repr

inductive RunPc where
  /-- In `rt_sem_take`. -/
  | idle
  /-- In the safe outputs that open a run, before `part`, with the result of the axis. -/
  | opening (part : SafePart) (axisResult : RtErr)
  /-- In `hcics_cleaner_run_mission`. -/
  | running
  /-- Before `stop_requested` is read. -/
  | ended (result : RtErr)
  /-- In the safe outputs that close a run. -/
  | closing (result : RtErr) (stopped : Bool) (part : SafePart)
  /-- Before the section that publishes the result. -/
  | releasing (result : RtErr) (stopped : Bool)
  deriving DecidableEq, Repr

/-- Where the thread that calls start and reset is. -/
inductive RunCallerPc where
  | none
  /-- In start, before `rt_sem_release`. -/
  | startRelease
  /-- In start, before the section that follows a failed release. -/
  | startFailed (result : RtErr)
  /-- In start, before the relay that follows it. -/
  | startFailedRelay
  /-- In the safe outputs of reset. -/
  | resetOutputs (wasBusy : Bool) (part : SafePart)
  /-- In reset, before `hcics_axis_stop`. -/
  | resetAxis (wasBusy : Bool)
  /-- In `hcics_cleaner_wait_not_busy`. -/
  | resetWait
  /-- Before the last section of reset. -/
  | resetClear
  deriving DecidableEq, Repr

/-- Where a thread is that has requested a stop: in its safe outputs, and then, after
`hcics_cleaner_emergency_stop`, before the axis stop. -/
inductive StopperPc where
  | outputs (emergency : Bool) (part : SafePart)
  | axisStop
  deriving DecidableEq, Repr

/-- `hcics_cleaner_context_t` as far as runs read it, the worker and its callers. -/
structure CleanerRuns where
  config : SaneConfig
  busy : Bool
  stopRequested : Bool
  relayOn : Bool
  lastResult : RtErr
  state : CleanerState
  yPulseNs : UInt32
  zPulseNs : UInt32
  startSem : Nat
  worker : RunPc
  caller : RunCallerPc
  stoppers : List StopperPc
  starts : Nat
  begun : Nat
  ended : Nat
  deriving DecidableEq, Repr

/-- What `hcics_cleaner_run_mission` does to the module. -/
inductive RunOp where
  | relay (on : Bool)
  | pose (yNs zNs : UInt32)
  | setState (state : CleanerState)
  | finish (result : RtErr)
  deriving DecidableEq, Repr

namespace CleanerRuns

/-! ## Outputs -/

def relay (s : CleanerRuns) (on : Bool) : CleanerRuns := { s with relayOn := on }

/-- The section of `hcics_cleaner_apply_pose`; the PWM calls after it change nothing here. -/
def applyPose (s : CleanerRuns) (yNs zNs : UInt32) : CleanerRuns :=
  { s with
    yPulseNs := Cleaner.clampU32 yNs s.config.yMinNs s.config.yMaxNs
    zPulseNs := Cleaner.clampU32 zNs s.config.zExtendNs s.config.zRetractNs }

/-- What one call of `hcics_cleaner_safe_outputs` records. -/
def safePart (s : CleanerRuns) : SafePart → CleanerRuns
  | .relay => s.relay false
  | .axis => s
  | .pose => s.applyPose s.config.ySafeNs s.config.zRetractNs

/-! ## The worker -/

def release (s : CleanerRuns) (result : RtErr) (stopped : Bool) : CleanerRuns :=
  { s with
    lastResult := result
    busy := false
    state := if stopped then .stopped else if result = RT_EOK then .done else .error
    worker := .idle
    ended := s.ended + 1 }

/-- The worker's next step outside of `hcics_cleaner_run_mission`; `result` is what the axis or the
PWM answers. -/
def workerStep (s : CleanerRuns) (result : RtErr) : Option CleanerRuns :=
  match s.worker with
  | .idle =>
    if s.startSem = 0 then none
    else some { s with
      startSem := s.startSem - 1, worker := .opening .relay RT_EOK, begun := s.begun + 1 }
  | .opening .relay axisResult => some { s.safePart .relay with worker := .opening .axis axisResult }
  | .opening .axis _ => some { s.safePart .axis with worker := .opening .pose result }
  | .opening .pose axisResult =>
    let final := if axisResult ≠ RT_EOK then axisResult else result
    some { s.safePart .pose with worker := if final = RT_EOK then .running else .ended final }
  | .running => none
  | .ended result => some { s with worker := .closing result s.stopRequested .relay }
  | .closing result stopped .relay =>
    some { s.safePart .relay with worker := .closing result stopped .axis }
  | .closing result stopped .axis =>
    some { s.safePart .axis with worker := .closing result stopped .pose }
  | .closing result stopped .pose =>
    some { s.safePart .pose with worker := .releasing result stopped }
  | .releasing result stopped => some (s.release result stopped)

/-- What `hcics_cleaner_run_mission` does in a step. -/
def runOp (s : CleanerRuns) : RunOp → CleanerRuns
  | .relay on => s.relay on
  | .pose yNs zNs => s.applyPose yNs zNs
  | .setState state => { s with state := state }
  | .finish result => { s with worker := .ended result }

def runStep (s : CleanerRuns) (op : RunOp) : Option CleanerRuns :=
  match s.worker with
  | .running => some (s.runOp op)
  | _ => none

/-! ## The callers -/

def emergencyStop (s : CleanerRuns) : CleanerRuns :=
  { s with
    stopRequested := true
    state := .stopped
    stoppers := s.stoppers ++ [.outputs true .relay] }

def updateGuard (s : CleanerRuns) (forceStop : Bool) : CleanerRuns :=
  if forceStop then
    { s with stopRequested := true, stoppers := s.stoppers ++ [.outputs false .relay] }
  else s

/-- The next step of the `k`-th thread that has requested a stop. -/
def stopperStep (s : CleanerRuns) (k : Nat) : Option CleanerRuns :=
  match s.stoppers[k]? with
  | none => none
  | some (.outputs emergency .relay) =>
    some { s.safePart .relay with stoppers := s.stoppers.set k (.outputs emergency .axis) }
  | some (.outputs emergency .axis) =>
    some { s.safePart .axis with stoppers := s.stoppers.set k (.outputs emergency .pose) }
  | some (.outputs emergency .pose) =>
    some { s.safePart .pose with
      stoppers := if emergency then s.stoppers.set k .axisStop else s.stoppers.eraseIdx k }
  | some .axisStop => some { s with stoppers := s.stoppers.eraseIdx k }

/-- The first section of `hcics_cleaner_start`; a busy cleaner returns `-RT_EBUSY`. -/
def start (s : CleanerRuns) : Option CleanerRuns :=
  match s.caller with
  | .none =>
    if s.busy then some s
    else some { s with
      busy := true
      stopRequested := false
      lastResult := RT_EOK
      state := .aiming
      caller := .startRelease }
  | _ => none

def reset (s : CleanerRuns) : Option CleanerRuns :=
  match s.caller with
  | .none =>
    let caller := RunCallerPc.resetOutputs s.busy .relay
    if s.busy then some { s with stopRequested := true, state := .stopped, caller := caller }
    else some { s with caller := caller }
  | _ => none

/-- The next step of start or reset; `giveUp` is whether the wait for the worker times out. -/
def callerStep (s : CleanerRuns) (giveUp : Bool) : Option CleanerRuns :=
  match s.caller with
  | .none => none
  | .startRelease =>
    if s.startSem ≥ Cleaner.semValueMax then some { s with caller := .startFailed (-RT_EFULL) }
    else some { s with startSem := s.startSem + 1, starts := s.starts + 1, caller := .none }
  | .startFailed result =>
    some { s with
      busy := false
      stopRequested := true
      lastResult := result
      state := .error
      caller := .startFailedRelay }
  | .startFailedRelay => some { s.relay false with caller := .none }
  | .resetOutputs wasBusy .relay =>
    some { s.safePart .relay with caller := .resetOutputs wasBusy .axis }
  | .resetOutputs wasBusy .axis =>
    some { s.safePart .axis with caller := .resetOutputs wasBusy .pose }
  | .resetOutputs wasBusy .pose => some { s.safePart .pose with caller := .resetAxis wasBusy }
  | .resetAxis wasBusy => some { s with caller := if wasBusy then .resetWait else .resetClear }
  | .resetWait =>
    some (if !s.busy then { s with caller := .resetClear }
      else if giveUp then { s with caller := .none } else s)
  | .resetClear =>
    some { s with
      busy := false
      stopRequested := false
      lastResult := RT_EOK
      state := .idle
      caller := .none }

/-! ## The module as a machine -/

/-- A step of the worker, of a run, or of a caller. -/
inductive Input where
  | worker (result : RtErr)
  | run (op : RunOp)
  | emergencyStop
  | updateGuard (forceStop : Bool)
  | stopper (k : Nat)
  | start
  | reset
  | caller (giveUp : Bool)
  deriving DecidableEq, Repr

def step (s : CleanerRuns) : Input → Option CleanerRuns
  | .worker result => s.workerStep result
  | .run op => s.runStep op
  | .emergencyStop => some s.emergencyStop
  | .updateGuard forceStop => some (s.updateGuard forceStop)
  | .stopper k => s.stopperStep k
  | .start => s.start
  | .reset => s.reset
  | .caller giveUp => s.callerStep giveUp

/-- The context that `hcics_cleaner_init` fills in. -/
def cleared (config : SaneConfig) : CleanerRuns where
  config := config
  busy := false
  stopRequested := false
  relayOn := false
  lastResult := RT_EOK
  state := .idle
  yPulseNs := config.ySafeNs
  zPulseNs := config.zRetractNs
  startSem := 0
  worker := .idle
  caller := .none
  stoppers := []
  starts := 0
  begun := 0
  ended := 0

/-- What `hcics_cleaner_init` is answered: the mutex, the semaphore, the axis, whether the PWM device
is there, the axis and the PWM in the safe outputs, and whether the worker was created. -/
structure InitIo where
  mutex : RtErr := RT_EOK
  sem : RtErr := RT_EOK
  axis : RtErr := RT_EOK
  pwmFound : Bool := true
  safeAxis : RtErr := RT_EOK
  safePose : RtErr := RT_EOK
  workerCreated : Bool := true
  deriving DecidableEq, Repr

/-- `hcics_cleaner_init`, with the default configuration for NULL. -/
def init (config : Option CleanerConfig) (io : InitIo) : CleanerRuns × RtErr :=
  let s := cleared (config.getD .default).sanitize
  if io.mutex ≠ RT_EOK then (s, io.mutex)
  else if io.sem ≠ RT_EOK then (s, io.sem)
  else if io.axis ≠ RT_EOK then (s, -RT_ENOSYS)
  else if !io.pwmFound then (s, -RT_ENOSYS)
  else
    let s := ((s.safePart .relay).safePart .axis).safePart .pose
    if (if io.safeAxis ≠ RT_EOK then io.safeAxis else io.safePose) ≠ RT_EOK then (s, -RT_ERROR)
    else if !io.workerCreated then (s, -RT_ENOMEM)
    else (s, RT_EOK)

/-- The module under every order of its threads' steps, for every configuration that init accepts. -/
def machine : Machine CleanerRuns Input where
  start s := ∃ config io, init config io = (s, RT_EOK)
  step := step

end CleanerRuns

end Hcics
