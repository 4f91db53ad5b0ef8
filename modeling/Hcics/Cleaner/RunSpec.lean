import Hcics.Cleaner.Runs

/-!
# Runs are single and end quiescent

`Inv` counts: the semaphore, the run and a start that has set `busy` make up at most one, and `busy`
says whether there is one. Outside of a run, and at its end, every thread only ever switches the relay
off and the pose to safe, so what a run leaves is safe as soon as it has closed.
-/

namespace Hcics

def RunPc.active : RunPc → Nat
  | .idle => 0
  | _ => 1

def RunPc.relayOpen : RunPc → Bool
  | .running | .ended _ | .closing _ _ .relay => true
  | _ => false

/-- The pose may be another than the safe one. -/
def RunPc.poseOpen : RunPc → Bool
  | .running | .ended _ | .closing _ _ _ => true
  | _ => false

/-- The worker has read `stop_requested` for the run, not set, and has not published the result. -/
def RunPc.missed : RunPc → Bool
  | .closing _ stopped _ | .releasing _ stopped => !stopped
  | _ => false

/-- The starts that have set `busy` and not yet released the semaphore. -/
def RunCallerPc.starting : RunCallerPc → Nat
  | .startRelease => 1
  | _ => 0

/-- The semaphore could not be released. -/
def RunCallerPc.failed : RunCallerPc → Bool
  | .startFailed _ | .startFailedRelay => true
  | _ => false

/-- Reset has seen that the cleaner is not busy. -/
def RunCallerPc.settled : RunCallerPc → Bool
  | .resetOutputs wasBusy _ | .resetAxis wasBusy => !wasBusy
  | .resetClear => true
  | _ => false

namespace CleanerRuns

structure Inv (s : CleanerRuns) : Prop where
  count : s.startSem + s.worker.active + s.caller.starting = if s.busy then 1 else 0
  relay : s.worker.relayOpen = false → s.relayOn = false
  pose : s.worker.poseOpen = false →
    s.yPulseNs = s.config.ySafeNs ∧ s.zPulseNs = s.config.zRetractNs
  settled : s.caller.settled = true → s.busy = false
  released : s.caller.failed = false
  starts : s.starts = s.begun + s.startSem
  begun : s.begun = s.ended + s.worker.active

variable {s t : CleanerRuns}

/-! ## Outputs -/

theorem safePart_pose (s : CleanerRuns) :
    (s.safePart .pose).yPulseNs = s.config.ySafeNs ∧
      (s.safePart .pose).zPulseNs = s.config.zRetractNs :=
  ⟨clampU32_of_mem s.config.ySafe_mem,
    clampU32_of_mem ⟨UInt32.le_trans s.config.zWash_mem.1 s.config.zWash_mem.2, UInt32.le_refl _⟩⟩

theorem Inv.safePart (h : Inv s) (part : SafePart) : Inv (s.safePart part) := by
  cases part with
  | relay => exact { h with relay := fun _ => rfl }
  | axis => exact h
  | pose => exact { h with pose := fun _ => safePart_pose s }

theorem cleared_inv (config : SaneConfig) : Inv (cleared config) where
  count := rfl
  relay _ := rfl
  pose _ := ⟨rfl, rfl⟩
  settled _ := rfl
  released := rfl
  starts := rfl
  begun := rfl

theorem init_inv {config : Option CleanerConfig} {io : InitIo} (h : init config io = (s, RT_EOK)) :
    Inv s := by
  have hcleared := cleared_inv (config.getD .default).sanitize
  have hsafe := ((hcleared.safePart .relay).safePart .axis).safePart .pose
  unfold init at h
  dsimp only at h
  split_ifs at h <;> obtain ⟨rfl, -⟩ := Prod.mk.inj h
  all_goals first
    | exact hcleared
    | exact hsafe

/-! ## The worker -/

theorem Inv.goes (h : Inv s) {pc : RunPc} (hactive : pc.active = s.worker.active)
    (hrelay : pc.relayOpen = false → s.relayOn = false)
    (hpose : pc.poseOpen = false → s.yPulseNs = s.config.ySafeNs ∧ s.zPulseNs = s.config.zRetractNs) :
    Inv { s with worker := pc } :=
  { h with
    count := by rw [← h.count, ← hactive]
    relay := hrelay
    pose := hpose
    begun := by rw [hactive]; exact h.begun }

theorem Inv.take (h : Inv s) (hw : s.worker = .idle) (hsem : s.startSem ≠ 0) :
    Inv { s with startSem := s.startSem - 1, worker := .opening .relay RT_EOK, begun := s.begun + 1 } := by
  have hcount := h.count
  have hstarts := h.starts
  have hbegun := h.begun
  rw [hw] at hcount hbegun
  simp only [RunPc.active] at hcount hbegun
  refine { h with count := ?_, relay := ?_, pose := ?_, starts := ?_, begun := ?_ }
  · show s.startSem - 1 + 1 + s.caller.starting = if s.busy then 1 else 0
    omega
  · exact fun _ => h.relay (by rw [hw]; rfl)
  · exact fun _ => h.pose (by rw [hw]; rfl)
  · show s.starts = s.begun + 1 + (s.startSem - 1)
    omega
  · show s.begun + 1 = s.ended + 1
    omega

theorem Inv.release (h : Inv s) {result : RtErr} {stopped : Bool}
    (hw : s.worker = .releasing result stopped) : Inv (s.release result stopped) := by
  have hcount := h.count
  have hbegun := h.begun
  have hbusy : s.busy = true := by
    by_contra hno
    rw [hw, if_neg hno] at hcount
    simp only [RunPc.active] at hcount
    omega
  rw [hw, if_pos hbusy] at hcount
  rw [hw] at hbegun
  simp only [RunPc.active] at hcount hbegun
  refine { h with count := ?_, relay := ?_, pose := ?_, settled := fun _ => rfl, begun := ?_ }
  · show s.startSem + 0 + s.caller.starting = 0
    omega
  · exact fun _ => h.relay (by rw [hw]; rfl)
  · exact fun _ => h.pose (by rw [hw]; rfl)
  · show s.begun = s.ended + 1 + 0
    omega

theorem workerStep_inv (h : Inv s) {result : RtErr} (hstep : s.workerStep result = some t) : Inv t := by
  unfold workerStep at hstep
  cases hw : s.worker with
  | idle =>
    simp only [hw] at hstep
    by_cases hsem : s.startSem = 0
    · rw [if_pos hsem] at hstep
      cases hstep
    · rw [if_neg hsem] at hstep
      obtain rfl := Option.some.inj hstep
      exact h.take hw hsem
  | opening part axisResult =>
    have hrelay := h.relay (by rw [hw]; rfl)
    have hpose := h.pose (by rw [hw]; rfl)
    have hactive : s.worker.active = 1 := by rw [hw]; rfl
    cases part <;> simp only [hw, Option.some.injEq] at hstep <;> obtain rfl := hstep
    case relay => exact (h.safePart .relay).goes hactive.symm (fun _ => rfl) fun _ => hpose
    case axis => exact h.goes hactive.symm (fun _ => hrelay) fun _ => hpose
    case pose =>
      refine (h.safePart .pose).goes ?_ (fun _ => hrelay) fun _ => safePart_pose s
      show RunPc.active (if _ then _ else _) = s.worker.active
      rw [hactive]
      split_ifs <;> rfl
  | running =>
    simp only [hw] at hstep
    cases hstep
  | ended r =>
    simp only [hw, Option.some.injEq] at hstep
    obtain rfl := hstep
    exact h.goes (by rw [hw]; rfl) nofun nofun
  | closing r stopped part =>
    have hactive : s.worker.active = 1 := by rw [hw]; rfl
    cases part <;> simp only [hw, Option.some.injEq] at hstep <;> obtain rfl := hstep
    case relay => exact (h.safePart .relay).goes hactive.symm (fun _ => rfl) nofun
    case axis => exact h.goes hactive.symm (fun _ => h.relay (by rw [hw]; rfl)) nofun
    case pose =>
      exact (h.safePart .pose).goes hactive.symm (fun _ => h.relay (by rw [hw]; rfl))
        fun _ => safePart_pose s
  | releasing r stopped =>
    simp only [hw, Option.some.injEq] at hstep
    obtain rfl := hstep
    exact h.release hw

theorem runStep_eq {op : RunOp} (hstep : s.runStep op = some t) :
    s.worker = .running ∧ t = s.runOp op := by
  unfold runStep at hstep
  cases hw : s.worker <;> rw [hw] at hstep <;> dsimp only at hstep
  case running => exact ⟨rfl, (Option.some.inj hstep).symm⟩
  all_goals cases hstep

theorem runStep_inv (h : Inv s) {op : RunOp} (hstep : s.runStep op = some t) : Inv t := by
  obtain ⟨hw, rfl⟩ := runStep_eq hstep
  have hrelay : s.worker.relayOpen = true := by rw [hw]; rfl
  have hpose : s.worker.poseOpen = true := by rw [hw]; rfl
  cases op with
  | relay on => exact { h with relay := fun hc => Bool.noConfusion (hrelay.symm.trans hc) }
  | pose yNs zNs => exact { h with pose := fun hc => Bool.noConfusion (hpose.symm.trans hc) }
  | setState state => exact { h with }
  | finish result => exact h.goes (by rw [hw]; rfl) nofun nofun

/-! ## The callers -/

theorem stopperStep_inv (h : Inv s) {k : Nat} (hstep : s.stopperStep k = some t) : Inv t := by
  unfold stopperStep at hstep
  split at hstep
  · cases hstep
  all_goals obtain rfl := Option.some.inj hstep
  · exact { h.safePart .relay with }
  · exact { h with }
  · exact { h.safePart .pose with }
  · exact { h with }

theorem start_eq (hstep : s.start = some t) :
    s.caller = .none ∧ (s.busy = true ∧ t = s ∨
      s.busy = false ∧ t = { s with
        busy := true
        stopRequested := false
        lastResult := RT_EOK
        state := .aiming
        caller := .startRelease }) := by
  unfold start at hstep
  cases hc : s.caller <;> simp only [hc] at hstep <;> try cases hstep
  by_cases hbusy : s.busy = true
  · rw [if_pos hbusy] at hstep
    exact ⟨rfl, .inl ⟨hbusy, (Option.some.inj hstep).symm⟩⟩
  · rw [if_neg hbusy] at hstep
    exact ⟨rfl, .inr ⟨by simpa using hbusy, (Option.some.inj hstep).symm⟩⟩

theorem Inv.free (h : Inv s) (hbusy : s.busy = false) :
    s.startSem = 0 ∧ s.worker = .idle ∧ s.caller.starting = 0 := by
  have hcount := h.count
  rw [if_neg (by simp [hbusy])] at hcount
  refine ⟨by omega, ?_, by omega⟩
  cases hw : s.worker with
  | idle => rfl
  | _ => rw [hw] at hcount; simp only [RunPc.active] at hcount; omega

theorem start_inv (h : Inv s) (hstep : s.start = some t) : Inv t := by
  obtain ⟨hc, ⟨-, rfl⟩ | ⟨hbusy, rfl⟩⟩ := start_eq hstep
  · exact h
  · obtain ⟨hsem, hidle, -⟩ := h.free hbusy
    refine { h with count := ?_, settled := nofun, released := rfl }
    show s.startSem + s.worker.active + 1 = 1
    rw [hsem, hidle]
    rfl

theorem reset_inv (h : Inv s) (hstep : s.reset = some t) : Inv t := by
  have hcount := h.count
  unfold reset at hstep
  cases hc : s.caller <;> simp only [hc] at hstep <;> try cases hstep
  rw [hc] at hcount
  by_cases hbusy : s.busy = true
  · rw [if_pos hbusy] at hstep
    obtain rfl := Option.some.inj hstep
    refine { h with count := hcount, settled := ?_, released := rfl }
    intro hs
    exact absurd hs (by simp [RunCallerPc.settled, hbusy])
  · rw [if_neg hbusy] at hstep
    obtain rfl := Option.some.inj hstep
    exact { h with count := hcount, settled := fun _ => by simpa using hbusy, released := rfl }

theorem Inv.moves (h : Inv s) {pc : RunCallerPc} (hstarting : pc.starting = s.caller.starting)
    (hsettled : pc.settled = true → s.busy = false) (hreleased : pc.failed = false) :
    Inv { s with caller := pc } :=
  { h with
    count := by rw [← h.count, ← hstarting]
    settled := hsettled
    released := hreleased }

theorem callerStep_inv (h : Inv s) {giveUp : Bool} (hstep : s.callerStep giveUp = some t) : Inv t := by
  unfold callerStep at hstep
  have hcount := h.count
  have hreleased := h.released
  have hsettled := h.settled
  cases hc : s.caller with
  | none =>
    simp only [hc] at hstep
    cases hstep
  | startRelease =>
    rw [hc] at hcount
    simp only [RunCallerPc.starting] at hcount
    have hsem : s.startSem = 0 := by
      split_ifs at hcount
      omega
    simp only [hc, hsem] at hstep
    rw [if_neg (by decide)] at hstep
    obtain rfl := Option.some.inj hstep
    have hstarts := h.starts
    refine { h with count := ?_, settled := nofun, released := rfl, starts := ?_ }
    · show 0 + 1 + s.worker.active + 0 = if s.busy then 1 else 0
      omega
    · show s.starts + 1 = s.begun + (0 + 1)
      omega
  | startFailed result =>
    rw [hc] at hreleased
    cases hreleased
  | startFailedRelay =>
    rw [hc] at hreleased
    cases hreleased
  | resetOutputs wasBusy part =>
    rw [hc] at hsettled
    have hstarting : s.caller.starting = 0 := by rw [hc]; rfl
    cases part <;> simp only [hc, Option.some.injEq] at hstep <;> obtain rfl := hstep
    · exact (h.safePart .relay).moves hstarting.symm hsettled rfl
    · exact h.moves hstarting.symm hsettled rfl
    · exact (h.safePart .pose).moves hstarting.symm hsettled rfl
  | resetAxis wasBusy =>
    rw [hc] at hsettled
    have hstarting : s.caller.starting = 0 := by rw [hc]; rfl
    simp only [hc, Option.some.injEq] at hstep
    obtain rfl := hstep
    cases wasBusy
    · exact h.moves hstarting.symm hsettled rfl
    · exact h.moves hstarting.symm nofun rfl
  | resetWait =>
    have hstarting : s.caller.starting = 0 := by rw [hc]; rfl
    simp only [hc, Option.some.injEq] at hstep
    by_cases hbusy : s.busy = true
    · rw [if_neg (by simp [hbusy])] at hstep
      split_ifs at hstep <;> obtain rfl := hstep
      · exact h.moves hstarting.symm nofun rfl
      · exact h
    · rw [if_pos (by simpa using hbusy)] at hstep
      obtain rfl := hstep
      exact h.moves hstarting.symm (fun _ => by simpa using hbusy) rfl
  | resetClear =>
    have hbusy := hsettled (by rw [hc]; rfl)
    simp only [hc, Option.some.injEq] at hstep
    obtain rfl := hstep
    rw [hc, if_neg (by simp [hbusy])] at hcount
    exact { h with count := hcount, settled := nofun, released := rfl }

theorem step_inv {i : Input} (h : Inv s) (hstep : s.step i = some t) : Inv t := by
  cases i with
  | worker result => exact workerStep_inv h hstep
  | run op => exact runStep_inv h hstep
  | emergencyStop => exact Option.some.inj hstep ▸ { h with }
  | updateGuard forceStop =>
    obtain rfl := Option.some.inj hstep
    unfold updateGuard
    split
    · exact { h with }
    · exact h
  | stopper k => exact stopperStep_inv h hstep
  | start => exact start_inv h hstep
  | reset => exact reset_inv h hstep
  | caller giveUp => exact callerStep_inv h hstep

theorem inv_of_reach {ok : CleanerRuns → Input → Prop} (h : machine.Reach ok s) : Inv s :=
  h.inv (fun _ ⟨_, _, hs⟩ => init_inv hs) fun _ _ _ _ hinv _ hstep => step_inv hinv hstep

/-- **Runs are single and end quiescent.** The semaphore, the run and a start on its way to the
semaphore make up one while the cleaner is busy and none else; the outputs recorded are the safe ones
whenever it is not. Every start that returned `RT_EOK` has its run begun or in the semaphore, from
where the worker can take it; and a start passes the test of `busy` only when every run before has
ended, and then returns `RT_EOK`. -/
theorem runs_single (h : machine.Reach Machine.free s) :
    s.startSem + s.worker.active + s.caller.starting = (if s.busy then 1 else 0) ∧
      (s.busy = false → s.relayOn = false ∧ s.yPulseNs = s.config.ySafeNs ∧
        s.zPulseNs = s.config.zRetractNs) ∧
      s.starts = s.begun + s.startSem ∧ s.begun = s.ended + s.worker.active ∧
      (s.startSem ≠ 0 → ∀ result, ∃ t, s.step (.worker result) = some t ∧ t.begun = s.begun + 1) ∧
      (∀ t, s.step .start = some t → t.caller = .startRelease → s.starts = s.ended) ∧
      (s.caller = .startRelease → ∀ giveUp, ∃ t, s.step (.caller giveUp) = some t ∧
        t.starts = s.starts + 1 ∧ t.caller = .none) := by
  have hinv := inv_of_reach h
  have hcount := hinv.count
  have hstarts := hinv.starts
  have hbegun := hinv.begun
  refine ⟨hcount, ?_, hstarts, hbegun, ?_, ?_, ?_⟩
  · intro hbusy
    obtain ⟨-, hidle, -⟩ := hinv.free hbusy
    exact ⟨hinv.relay (by rw [hidle]; rfl), hinv.pose (by rw [hidle]; rfl)⟩
  · intro hsem result
    have hidle : s.worker = .idle := by
      cases hw : s.worker with
      | idle => rfl
      | _ => rw [hw] at hcount; simp only [RunPc.active] at hcount; split_ifs at hcount <;> omega
    refine ⟨{ s with
      startSem := s.startSem - 1, worker := .opening .relay RT_EOK, begun := s.begun + 1 }, ?_, rfl⟩
    show s.workerStep result = _
    rw [workerStep, hidle]
    exact if_neg hsem
  · intro t hstep hpassed
    obtain ⟨hc, ⟨-, rfl⟩ | ⟨hbusy, -⟩⟩ := start_eq hstep
    · rw [hc] at hpassed
      cases hpassed
    · obtain ⟨hsem, hidle, -⟩ := hinv.free hbusy
      rw [hidle] at hbegun
      simp only [RunPc.active] at hbegun
      omega
  · intro hc giveUp
    rw [hc] at hcount
    simp only [RunCallerPc.starting] at hcount
    have hsem : s.startSem = 0 := by
      split_ifs at hcount
      omega
    refine ⟨{ s with startSem := s.startSem + 1, starts := s.starts + 1, caller := .none }, ?_, rfl,
      rfl⟩
    show s.callerStep giveUp = _
    simp only [callerStep, hc]
    exact if_neg (by rw [hsem]; decide)

/-- The module after an init with the default configuration. -/
def initialized : CleanerRuns := (init none {}).1

theorem initialized_start : machine.start initialized := ⟨none, {}, rfl⟩

/-- A run that verified its panel, and is about to publish DONE. -/
def publishing : List Input :=
  [.start, .caller false, .worker RT_EOK, .worker RT_EOK, .worker RT_EOK, .worker RT_EOK,
    .run (.finish RT_EOK), .worker RT_EOK, .worker RT_EOK, .worker RT_EOK, .worker RT_EOK]

def publishingState : CleanerRuns := (machine.exec initialized publishing).get (by decide +kernel)

theorem publishingState_reach : machine.Reach Machine.free publishingState :=
  .get initialized_start _

/-- The result of the run is published. -/
def publishedState : CleanerRuns := publishingState.release RT_EOK false

theorem publishedState_reach : machine.Reach Machine.free publishedState :=
  publishingState_reach.step (i := .worker RT_EOK) trivial (by decide +kernel)

/-- A busy run, and the start after it. -/
theorem publishingState_single :
    (publishingState.busy = true ∧ publishingState.starts = 1 ∧
      publishingState.startSem + publishingState.worker.active + publishingState.caller.starting =
        (if publishingState.busy then 1 else 0) ∧
      publishingState.starts = publishingState.begun + publishingState.startSem ∧
      publishingState.begun = publishingState.ended + publishingState.worker.active) ∧
    (publishedState.relayOn = false ∧ publishedState.yPulseNs = publishedState.config.ySafeNs ∧
      publishedState.zPulseNs = publishedState.config.zRetractNs) ∧
    ∃ t, publishedState.step .start = some t ∧ t.caller = .startRelease ∧
      publishedState.starts = publishedState.ended := by
  obtain ⟨hcount, -, hstarts, hbegun, -⟩ := runs_single publishingState_reach
  obtain ⟨-, hsafe, -, -, -, hstart, -⟩ := runs_single publishedState_reach
  have hstep : publishedState.step .start = some { publishedState with
      busy := true
      stopRequested := false
      lastResult := RT_EOK
      state := .aiming
      caller := .startRelease } := by
    decide +kernel
  exact ⟨⟨by decide +kernel, by decide +kernel, hcount, hstarts, hbegun⟩, hsafe (by decide +kernel),
    _, hstep, rfl, hstart _ hstep rfl⟩

/-! ## How a stopped run is reported -/

def Input.Stops : Input → Bool
  | .emergencyStop | .updateGuard true | .reset => true
  | _ => false

def Unreleased (s : CleanerRuns) (i : Input) : Prop :=
  ∀ result stopped x, s.worker = .releasing result stopped → i ≠ .worker x

/-- A stop is requested, and `missed` says whether the worker has missed it. -/
def StopHeld (missed : Bool) (s : CleanerRuns) : Prop :=
  s.busy = true ∧ s.stopRequested = true ∧ s.worker.missed = missed

theorem stopHeld_worker {missed : Bool} {result : RtErr} (h : StopHeld missed s)
    (hnot : ∀ result stopped, s.worker ≠ .releasing result stopped)
    (hstep : s.workerStep result = some t) : StopHeld missed t := by
  obtain ⟨hbusy, hstop, hmissed⟩ := h
  unfold workerStep at hstep
  cases hw : s.worker with
  | idle =>
    rw [hw] at hstep hmissed
    dsimp only at hstep
    split_ifs at hstep
    obtain rfl := Option.some.inj hstep
    exact ⟨hbusy, hstop, hmissed⟩
  | opening part axisResult =>
    rw [hw] at hmissed
    cases part <;> simp only [hw, Option.some.injEq] at hstep <;> obtain rfl := hstep
    case pose =>
      refine ⟨hbusy, hstop, ?_⟩
      show RunPc.missed (if _ then _ else _) = missed
      rw [← hmissed]
      split_ifs <;> rfl
    all_goals exact ⟨hbusy, hstop, hmissed⟩
  | running =>
    rw [hw] at hstep
    cases hstep
  | ended r =>
    rw [hw] at hstep hmissed
    obtain rfl := Option.some.inj hstep
    refine ⟨hbusy, hstop, ?_⟩
    show (!s.stopRequested) = missed
    rw [hstop]
    exact hmissed
  | closing r stopped part =>
    rw [hw] at hmissed
    cases part <;> simp only [hw, Option.some.injEq] at hstep <;> obtain rfl := hstep <;>
      exact ⟨hbusy, hstop, hmissed⟩
  | releasing r stopped => exact absurd hw (hnot r stopped)

theorem stopHeld_caller {missed : Bool} {giveUp : Bool} (hinv : Inv s) (h : StopHeld missed s)
    (hstep : s.callerStep giveUp = some t) : StopHeld missed t := by
  obtain ⟨hbusy, hstop, hmissed⟩ := h
  have hreleased := hinv.released
  have hsettled := hinv.settled
  unfold callerStep at hstep
  cases hc : s.caller with
  | none =>
    rw [hc] at hstep
    cases hstep
  | startRelease =>
    rw [hc] at hstep
    dsimp only at hstep
    split_ifs at hstep <;> obtain rfl := Option.some.inj hstep <;> exact ⟨hbusy, hstop, hmissed⟩
  | startFailed result =>
    rw [hc] at hreleased
    cases hreleased
  | startFailedRelay =>
    rw [hc] at hreleased
    cases hreleased
  | resetOutputs wasBusy part =>
    cases part <;> simp only [hc, Option.some.injEq] at hstep <;> obtain rfl := hstep <;>
      exact ⟨hbusy, hstop, hmissed⟩
  | resetAxis wasBusy =>
    rw [hc] at hstep
    obtain rfl := Option.some.inj hstep
    exact ⟨hbusy, hstop, hmissed⟩
  | resetWait =>
    rw [hc] at hstep
    obtain rfl := Option.some.inj hstep
    rw [if_neg (by simp [hbusy])]
    split <;> exact ⟨hbusy, hstop, hmissed⟩
  | resetClear =>
    have hfree := hsettled (by rw [hc]; rfl)
    exact Bool.noConfusion (hbusy.symm.trans hfree)

theorem stopHeld_stopper {missed : Bool} {k : Nat} (h : StopHeld missed s)
    (hstep : s.stopperStep k = some t) : StopHeld missed t := by
  unfold stopperStep at hstep
  split at hstep
  · cases hstep
  all_goals
    obtain rfl := Option.some.inj hstep
    exact h

theorem reset_of_busy (hbusy : s.busy = true) (hstep : s.reset = some t) :
    t = { s with
      stopRequested := true, state := .stopped, caller := .resetOutputs s.busy .relay } := by
  unfold reset at hstep
  cases hc : s.caller <;> simp only [hc] at hstep <;> try cases hstep
  rw [if_pos hbusy] at hstep
  exact (Option.some.inj hstep).symm

/-- Until the run is released, a requested stop stays requested, and missed or not. -/
theorem stopHeld_step {missed : Bool} {i : Input} (hinv : Inv s) (h : StopHeld missed s)
    (hok : Unreleased s i) (hstep : s.step i = some t) : StopHeld missed t := by
  obtain ⟨hbusy, hstop, hmissed⟩ := h
  cases i with
  | worker result =>
    exact stopHeld_worker ⟨hbusy, hstop, hmissed⟩ (fun r stopped hw => hok r stopped result hw rfl) hstep
  | run op =>
    obtain ⟨hw, rfl⟩ := runStep_eq hstep
    rw [hw] at hmissed
    cases op <;> exact ⟨hbusy, hstop, by first | exact hmissed | (rw [← hmissed, ← hw]; rfl)⟩
  | emergencyStop =>
    obtain rfl := Option.some.inj hstep
    exact ⟨hbusy, rfl, hmissed⟩
  | updateGuard forceStop =>
    obtain rfl := Option.some.inj hstep
    unfold updateGuard
    split
    · exact ⟨hbusy, rfl, hmissed⟩
    · exact ⟨hbusy, hstop, hmissed⟩
  | stopper k => exact stopHeld_stopper ⟨hbusy, hstop, hmissed⟩ hstep
  | start =>
    obtain ⟨-, ⟨-, rfl⟩ | ⟨hfree, -⟩⟩ := start_eq hstep
    · exact ⟨hbusy, hstop, hmissed⟩
    · exact Bool.noConfusion (hbusy.symm.trans hfree)
  | reset =>
    obtain rfl := reset_of_busy hbusy hstep
    exact ⟨hbusy, rfl, hmissed⟩
  | caller giveUp => exact stopHeld_caller hinv ⟨hbusy, hstop, hmissed⟩ hstep

theorem stopHeld_of_stops {i : Input} (hbusy : s.busy = true) (hi : i.Stops = true)
    (hstep : s.step i = some t) : StopHeld s.worker.missed t := by
  cases i with
  | emergencyStop =>
    obtain rfl := Option.some.inj hstep
    exact ⟨hbusy, rfl, rfl⟩
  | updateGuard forceStop =>
    obtain rfl := Option.some.inj hstep
    cases forceStop
    · cases hi
    · exact ⟨hbusy, rfl, rfl⟩
  | reset =>
    obtain rfl := reset_of_busy hbusy hstep
    exact ⟨hbusy, rfl, rfl⟩
  | worker | run | stopper | start | caller => cases hi

/-- **How a stopped run is reported.** A stop is requested of a busy cleaner in `s`; the state that
the worker then publishes together with `busy = FALSE` is STOPPED exactly where the worker had not yet
read `stop_requested` for the run, or had read it set. -/
theorem stopped_reported_iff {s s' t t' : CleanerRuns} {i : Input} {result : RtErr} {stopped : Bool}
    {x : RtErr} (h : machine.Reach Machine.free s) (hbusy : s.busy = true) (hi : i.Stops = true)
    (hstep : s.step i = some s') (hrun : machine.Run Unreleased s' t)
    (hw : t.worker = .releasing result stopped) (hpub : t.step (.worker x) = some t') :
    t'.busy = false ∧ (t'.state = .stopped ↔ s.worker.missed = false) := by
  have hreach : machine.Reach Machine.free s' := h.step trivial hstep
  have hheld : StopHeld s.worker.missed t := by
    refine hrun.inv (stopHeld_of_stops hbusy hi hstep) ?_
    intro u j u' hu hheld hok hst
    exact stopHeld_step (inv_of_reach (hreach.run (hu.mono fun _ _ _ => trivial))) hheld hok hst
  have ht' : t' = t.release result stopped := by
    have : t.workerStep x = some t' := hpub
    rw [workerStep, hw] at this
    exact (Option.some.inj this).symm
  have hmissed : (!stopped) = s.worker.missed := by
    have := hheld.2.2
    rwa [hw] at this
  rw [← hmissed, ht']
  refine ⟨rfl, ?_⟩
  show (if stopped then CleanerState.stopped else if result = RT_EOK then .done else .error) = .stopped ↔ _
  cases stopped
  · rw [if_neg Bool.false_ne_true]
    split_ifs <;> exact ⟨nofun, nofun⟩
  · exact ⟨fun _ => rfl, fun _ => rfl⟩

theorem publishingState_worker :
    publishingState.emergencyStop.worker = .releasing RT_EOK false := by
  decide +kernel

theorem publishingState_stop :
    ∃ t', publishingState.emergencyStop.step (.worker RT_EOK) = some t' ∧
      (t'.busy = false ∧ (t'.state = .stopped ↔ publishingState.worker.missed = false)) :=
  ⟨publishingState.emergencyStop.release RT_EOK false, by decide +kernel,
    stopped_reported_iff (i := .emergencyStop) (x := RT_EOK) publishingState_reach (by decide +kernel)
      rfl rfl .refl publishingState_worker (by decide +kernel)⟩

/-- An emergency stop just before the result is published is reported as DONE. -/
theorem stop_reported_done :
    ¬ ∀ (s s' t t' : CleanerRuns) (i : Input) (result : RtErr) (stopped : Bool) (x : RtErr),
      machine.Reach Machine.free s → s.busy = true → i.Stops = true → s.step i = some s' →
      machine.Run Unreleased s' t → t.worker = .releasing result stopped →
      t.step (.worker x) = some t' → t'.state = .stopped := by
  intro h
  have hstate := h publishingState publishingState.emergencyStop publishingState.emergencyStop
    (publishingState.emergencyStop.release RT_EOK false) .emergencyStop RT_EOK false RT_EOK
    publishingState_reach (by decide +kernel) rfl rfl .refl (by decide +kernel) (by decide +kernel)
  exact absurd hstate (by decide +kernel)

end CleanerRuns

end Hcics
