import Hcics.Cleaner.RunSpec
import Hcics.Cleaner.Stop

/-!
# The cleaner is a case of its runs

`CleanerRuns` keeps of `hcics_cleaner_run_mission` only that it works through the relay, the poses and
the state, in any order. Here the cleaner with its phases, delays and data is followed by it: every
step of `CleanerSys` is matched by the calls it makes, one step of `CleanerRuns` each. `Alike` is the
data the two share, and `Follows` relates the threads.
-/

namespace Hcics

open Cleaner (InMission)

/-- Where the worker of `CleanerRuns` is, with the worker of the cleaner before its next cut. -/
def WorkerPc.runPc : WorkerPc → RunPc
  | .idle => .idle
  | .ended result => .ended result
  | .closing result stopped => .closing result stopped .relay
  | .releasing result stopped => .releasing result stopped
  | _ => .running

theorem WorkerPc.runPc_of_inMission {pc : WorkerPc} (h : InMission pc) : pc.runPc = .running := by
  cases pc with
  | idle | ended | closing | releasing => exact h.elim
  | _ => rfl

/-- Where the caller of `CleanerRuns` is, with the caller of reset in `CleanerSys`. -/
def ResetPc.callerPc : ResetPc → RunCallerPc
  | .none => .none
  | .marked wasBusy => .resetOutputs wasBusy .relay
  | .waiting wasBusy => if wasBusy then .resetWait else .resetClear

namespace CleanerRuns

variable {c k : Cleaner} {r t u : CleanerRuns}

/-! ## The data -/

/-- The data that the cleaner and its runs share. -/
structure Alike (c : Cleaner) (r : CleanerRuns) : Prop where
  config : r.config = CleanerConfig.default.sanitize
  busy : r.busy = c.busy
  stopRequested : r.stopRequested = c.stopRequested
  relayOn : r.relayOn = c.relayOn
  lastResult : r.lastResult = c.lastResult
  state : r.state = c.state
  yPulseNs : r.yPulseNs = c.yPulseNs
  zPulseNs : r.zPulseNs = c.zPulseNs
  startSem : r.startSem = c.startSem
  starts : r.starts = c.starts

theorem Alike.relay (h : Alike c r) (on : Bool) : Alike (c.relay on) (r.relay on) :=
  { h with relayOn := rfl }

theorem Alike.axis (h : Alike c r) (io : CleanerIo) : Alike (c.axis io).1 r := { h with }

theorem Alike.applyPose (h : Alike c r) (io : CleanerIo) (yNs zNs : UInt32) :
    Alike (c.applyPose io yNs zNs).1 (r.applyPose yNs zNs) := by
  refine { h with yPulseNs := ?_, zPulseNs := ?_ }
  · rw [CleanerRuns.applyPose, h.config]
    rfl
  · rw [CleanerRuns.applyPose, h.config]
    rfl

/-- The outputs that the three calls of `hcics_cleaner_safe_outputs` leave. -/
def safed (r : CleanerRuns) : CleanerRuns := ((r.safePart .relay).safePart .axis).safePart .pose

theorem Alike.safeOutputs (h : Alike c r) (io : CleanerIo) : Alike (c.safeOutputs io).1 r.safed := by
  have hpose := ((h.relay false).axis io).applyPose io Cleaner.ySafeNs Cleaner.zRetractNs
  have heq : r.safed = (r.relay false).applyPose Cleaner.ySafeNs Cleaner.zRetractNs := by
    show (r.relay false).applyPose r.config.ySafeNs r.config.zRetractNs = _
    rw [h.config]
    rfl
  rw [heq]
  exact hpose

/-! ## The worker -/

/-- Runs of the worker within a mission: the threads of the callers stay where they are. -/
structure Works (r : CleanerRuns) (k : Cleaner) (t : CleanerRuns) : Prop where
  run : machine.Run Machine.free r t
  alike : Alike k t
  caller : t.caller = r.caller
  stoppers : t.stoppers = r.stoppers

/-- From `r` the runs have followed the worker's code to `k`. -/
structure Followed (r : CleanerRuns) (k : Cleaner) : Prop where
  works : ∃ t, Works r k t ∧ t.worker = .running
  zPulseNs : k.zPulseNs ≤ Cleaner.zRetractNs

theorem Works.call (h : Works r k t) (hw : t.worker = .running) {k' : Cleaner} (op : RunOp)
    (ha : Alike k' (t.runOp op)) (hcaller : (t.runOp op).caller = t.caller)
    (hstoppers : (t.runOp op).stoppers = t.stoppers) : Works r k' (t.runOp op) where
  run := by
    refine .step (.run op) h.run trivial ?_
    show t.runStep op = _
    rw [runStep, hw]
  alike := ha
  caller := hcaller.trans h.caller
  stoppers := hstoppers.trans h.stoppers

theorem followed_closed (r : CleanerRuns) : Cleaner.Closed (Followed r) where
  setState k state _ := by
    rintro ⟨⟨t, h, hw⟩, hz⟩
    exact ⟨⟨_, h.call hw (.setState state) { h.alike with state := rfl } rfl rfl, hw⟩, hz⟩
  relay k on := by
    rintro ⟨⟨t, h, hw⟩, hz⟩
    exact ⟨⟨_, h.call hw (.relay on) (h.alike.relay on) rfl rfl, hw⟩, hz⟩
  axis k io := by
    rintro ⟨⟨t, h, hw⟩, hz⟩
    exact ⟨⟨t, { h with alike := h.alike.axis io }, hw⟩, hz⟩
  applyPose k io yNs zNs := by
    rintro ⟨⟨t, h, hw⟩, -⟩
    exact ⟨⟨_, h.call hw (.pose yNs zNs) (h.alike.applyPose io yNs zNs) rfl rfl, hw⟩,
      Cleaner.clampU32_le (by decide)⟩
  cycle k cycle runCycle runMax := by
    rintro ⟨⟨t, h, hw⟩, hz⟩
    exact ⟨⟨t, { h with alike := { h.alike with } }, hw⟩, hz⟩
  verified k := by
    rintro ⟨⟨t, h, hw⟩, hz⟩
    exact ⟨⟨t, { h with alike := { h.alike with } }, hw⟩, hz⟩
  zPulseNs k h := h.zPulseNs

theorem Works.of_ends (h : Cleaner.Ends (Followed r) k) :
    ∃ t, Works r k t ∧ t.worker = k.worker.runPc := by
  cases h with
  | @cut k pc hk hin _ =>
    obtain ⟨⟨t, ht, hw⟩, -⟩ := hk
    exact ⟨t, { ht with alike := { ht.alike with } }, hw.trans (WorkerPc.runPc_of_inMission hin).symm⟩
  | @ended k result hk _ =>
    obtain ⟨⟨t, ht, hw⟩, -⟩ := hk
    exact ⟨_, ht.call hw (.finish result) { ht.alike with } rfl rfl, rfl⟩

theorem Works.refl (ha : Alike c r) : Works r c r := ⟨.refl, ha, rfl, rfl⟩

theorem opening_run (hw : r.worker = .idle) (hsem : r.startSem ≠ 0) (axisResult poseResult : RtErr) :
    machine.Run Machine.free r
      { { r with startSem := r.startSem - 1, begun := r.begun + 1 }.safed with
        worker :=
          let final := if axisResult ≠ RT_EOK then axisResult else poseResult
          if final = RT_EOK then .running else .ended final } := by
  have htake : r.workerStep RT_EOK = some { r with
      startSem := r.startSem - 1, worker := .opening .relay RT_EOK, begun := r.begun + 1 } := by
    rw [workerStep, hw]
    exact if_neg hsem
  exact .head (i := .worker RT_EOK) trivial htake (.of_exec
    [.worker RT_EOK, .worker axisResult, .worker poseResult] rfl (Machine.meets_free _))

theorem closing_run {result : RtErr} {stopped : Bool} (hw : r.worker = .closing result stopped .relay) :
    machine.Run Machine.free r { r.safed with worker := .releasing result stopped } := by
  have hrelay : r.workerStep RT_EOK =
      some { r.safePart .relay with worker := .closing result stopped .axis } := by
    rw [workerStep, hw]
  exact .head (i := .worker RT_EOK) trivial hrelay (.of_exec
    [.worker RT_EOK, .worker RT_EOK] rfl (Machine.meets_free _))

theorem beginRun_follows {io : CleanerIo} (ha : Alike c r) (hw : r.worker = .idle)
    (hsem : c.startSem ≠ 0) :
    ∃ t, Works r (c.beginRun io) t ∧ t.worker = (c.beginRun io).worker.runPc := by
  have htaken : Alike { c with startSem := c.startSem - 1 }
      { r with startSem := r.startSem - 1, begun := r.begun + 1 } :=
    { ha with startSem := by rw [ha.startSem] }
  have hsafe := htaken.safeOutputs io
  have hopen := opening_run hw (by rw [ha.startSem]; exact hsem)
    (({ c with startSem := c.startSem - 1 }.relay false).axis io).2
    (((({ c with startSem := c.startSem - 1 }.relay false).axis io).1.applyPose io
      Cleaner.ySafeNs Cleaner.zRetractNs).2)
  unfold Cleaner.beginRun
  dsimp only
  split
  · rename_i hfail
    refine ⟨_, ⟨hopen, { hsafe with }, rfl, rfl⟩, ?_⟩
    exact if_neg hfail
  · rename_i hok
    have hfollowed : Followed r ({ c with startSem := c.startSem - 1 }.safeOutputs io).1 :=
      ⟨⟨_, ⟨hopen, { hsafe with }, rfl, rfl⟩, if_pos (not_not.mp hok)⟩, Cleaner.clampU32_le (by decide)⟩
    exact Works.of_ends ((followed_closed r).nextCycle ((followed_closed r).cycle _ _ _ _ hfollowed))

theorem workerStep_follows {io : CleanerIo} (hinv : Cleaner.RunInv c) (ha : Alike c r)
    (hw : r.worker = c.worker.runPc) (hstep : c.workerStep io = some k) :
    ∃ t, Works r k t ∧ t.worker = k.worker.runPc := by
  rcases Cleaner.inMission_cases c.worker with hin | hpc | ⟨result, hpc⟩ | ⟨result, stopped, hpc⟩ |
    ⟨result, stopped, hpc⟩
  · have hrun : c.worker ≠ .idle := by
      intro hpc
      rw [hpc] at hin
      exact hin
    rw [WorkerPc.runPc_of_inMission hin] at hw
    exact Works.of_ends ((followed_closed r).workerStep ⟨⟨r, .refl ha, hw⟩, hinv.zPulseNs⟩ hin
      (hinv.reached hrun) hstep)
  all_goals
    rw [Cleaner.workerStep, hpc] at hstep
    rw [hpc] at hw
  · dsimp only at hstep
    split at hstep
    · cases hstep
    · rename_i hsem
      obtain rfl := Option.some.inj hstep
      exact beginRun_follows ha hw hsem
  · obtain rfl := Option.some.inj hstep
    refine ⟨{ r with worker := .closing result r.stopRequested .relay }, ⟨?_, { ha with }, rfl, rfl⟩, ?_⟩
    · refine .single (i := .worker RT_EOK) trivial ?_
      show r.workerStep RT_EOK = _
      rw [workerStep, hw]
      rfl
    · rw [ha.stopRequested]
      rfl
  · obtain rfl := Option.some.inj hstep
    have hsafe := ha.safeOutputs io
    exact ⟨_, ⟨closing_run hw, { hsafe with }, rfl, rfl⟩, rfl⟩
  · obtain rfl := Option.some.inj hstep
    refine ⟨r.release result stopped, ⟨?_, { ha with busy := rfl, lastResult := rfl, state := rfl }, rfl,
      rfl⟩, rfl⟩
    refine .single (i := .worker RT_EOK) trivial ?_
    show r.workerStep RT_EOK = _
    rw [workerStep, hw]
    rfl

/-! ## The callers -/

theorem stopper_run {emergency : Bool} (hmem : .outputs emergency .relay ∈ r.stoppers) :
    machine.Run Machine.free r
      { r.safed with stoppers := r.stoppers.erase (.outputs emergency .relay) } := by
  rw [← List.eraseIdx_idxOf_eq_erase]
  generalize hk : r.stoppers.idxOf (StopperPc.outputs emergency .relay) = k
  have hlt : k < r.stoppers.length := hk ▸ List.idxOf_lt_length_of_mem hmem
  have hget : r.stoppers[k]? = some (.outputs emergency .relay) := hk ▸ List.getElem?_idxOf hmem
  have hset (pc : StopperPc) : (r.stoppers.set k pc)[k]? = some pc := List.getElem?_set_self hlt
  have hrelay : r.stopperStep k = some
      { r.safePart .relay with stoppers := r.stoppers.set k (.outputs emergency .axis) } := by
    rw [stopperStep, hget]
  refine .head (i := .stopper k) trivial hrelay ?_
  refine .head (i := .stopper k) (t := { (r.safePart .relay).safePart .axis with
    stoppers := r.stoppers.set k (.outputs emergency .pose) }) trivial ?_ ?_
  · show stopperStep _ k = _
    rw [stopperStep, hset]
    simp only [List.set_set]
    rfl
  · cases emergency with
    | false =>
      refine .single (i := .stopper k) trivial ?_
      show stopperStep _ k = _
      rw [stopperStep, hset]
      simp only [List.eraseIdx_set_eq]
      rfl
    | true =>
      refine .head (i := .stopper k) (t := { r.safed with
        stoppers := r.stoppers.set k .axisStop }) trivial ?_ ?_
      · show stopperStep _ k = _
        rw [stopperStep, hset]
        simp only [List.set_set]
        rfl
      · refine .single (i := .stopper k) trivial ?_
        show stopperStep _ k = _
        rw [stopperStep, hset]
        simp only [List.eraseIdx_set_eq]

theorem reset_run {wasBusy : Bool} (hc : r.caller = .resetOutputs wasBusy .relay) :
    machine.Run Machine.free r
      { r.safed with caller := if wasBusy then .resetWait else .resetClear } := by
  have hrelay : r.callerStep false =
      some { r.safePart .relay with caller := .resetOutputs wasBusy .axis } := by
    rw [callerStep, hc]
  exact .head (i := .caller false) trivial hrelay (.of_exec
    [.caller false, .caller false, .caller false] rfl (Machine.meets_free _))

theorem start_follows (ha : Alike c r) (hc : r.caller = .none) (maxCycles : UInt8) :
    ∃ t, machine.Run Machine.free r t ∧ Alike (c.start maxCycles).1 t ∧ t.worker = r.worker ∧
      t.caller = .none ∧ t.stoppers = r.stoppers := by
  unfold Cleaner.start
  dsimp only
  split
  · exact ⟨r, .refl, ha, rfl, hc, rfl⟩
  · rename_i hbusy
    have hstart : r.start = some { r with
        busy := true
        stopRequested := false
        lastResult := RT_EOK
        state := .aiming
        caller := .startRelease } := by
      rw [start, hc]
      exact if_neg (by rw [ha.busy]; exact hbusy)
    split
    · rename_i hfull
      refine ⟨{ r with
        busy := false, stopRequested := true, lastResult := -RT_EFULL, state := .error, relayOn := false,
        caller := .none }, .head (i := .start) trivial hstart ?_, ?_, rfl, rfl, rfl⟩
      · refine .head (i := .caller false) (t := { r with
          busy := true, stopRequested := false, lastResult := RT_EOK, state := .aiming,
          caller := .startFailed (-RT_EFULL) }) trivial ?_
          (.of_exec [.caller false, .caller false] rfl (Machine.meets_free _))
        exact if_pos (by rw [ha.startSem]; exact hfull)
      · exact { ha with
          busy := rfl, stopRequested := rfl, lastResult := rfl, state := rfl, relayOn := rfl }
    · rename_i hroom
      refine ⟨{ r with
        busy := true, stopRequested := false, lastResult := RT_EOK, state := .aiming,
        startSem := r.startSem + 1, starts := r.starts + 1, caller := .none },
        .head (i := .start) trivial hstart (.single (i := .caller false) trivial ?_), ?_, rfl, rfl, rfl⟩
      · exact if_neg (by rw [ha.startSem]; exact hroom)
      · exact { ha with
          busy := rfl, stopRequested := rfl, lastResult := rfl, state := rfl,
          startSem := by rw [ha.startSem], starts := by rw [ha.starts] }

end CleanerRuns

namespace CleanerSys

open CleanerRuns (Alike)

/-- The runs `r` are where the module `s` is. -/
structure Follows (s : CleanerSys) (r : CleanerRuns) : Prop where
  alike : Alike s.cleaner r
  worker : r.worker = s.cleaner.worker.runPc
  caller : r.caller = s.reset.callerPc
  stops : r.stoppers.count (.outputs true .relay) = s.stops
  guards : r.stoppers.count (.outputs false .relay) = s.guards

/-- The wait of reset times out right after it has read `busy`, which is set. -/
def Prompt (s : CleanerSys) : Input → Prop
  | .resetTimeout => s.cleaner.busy = true
  | _ => True

variable {s s' : CleanerSys} {r : CleanerRuns}

theorem Follows.outputs (h : Follows s r) (emergency : Bool) {c : Cleaner}
    (hmem : r.stoppers.count (.outputs emergency .relay) ≠ 0)
    (ha : Alike c r.safed) (hw : c.worker = s.cleaner.worker) :
    ∃ t, CleanerRuns.machine.Run Machine.free r t ∧ Follows
      { s with
        cleaner := c
        stops := if emergency then s.stops - 1 else s.stops
        guards := if emergency then s.guards else s.guards - 1 } t := by
  have hstop : StopperPc.outputs emergency .relay ∈ r.stoppers :=
    List.count_pos_iff.mp (Nat.pos_of_ne_zero hmem)
  refine ⟨_, CleanerRuns.stopper_run hstop, { ha with }, ?_, h.caller, ?_, ?_⟩
  · exact h.worker.trans (by rw [← hw])
  · show (r.stoppers.erase _).count _ = _
    cases emergency with
    | false => rw [List.count_erase_of_ne (by decide), h.stops]; rfl
    | true => rw [List.count_erase_self, h.stops]; rfl
  · show (r.stoppers.erase _).count _ = _
    cases emergency with
    | false => rw [List.count_erase_self, h.guards]; rfl
    | true => rw [List.count_erase_of_ne (by decide), h.guards]; rfl

theorem Follows.same {c : Cleaner} (h : Follows s r) (ha : Alike c r)
    (hw : c.worker = s.cleaner.worker) : Follows { s with cleaner := c } r :=
  ⟨ha, h.worker.trans (by rw [← hw]), h.caller, h.stops, h.guards⟩

theorem updateGuard_stopRequested (c : Cleaner) (guard : CleanerGuard) (now : Tick) :
    (c.updateGuard guard now).stopRequested = (c.stopRequested || guard.forceStop) := by
  unfold Cleaner.updateGuard
  dsimp only
  split_ifs <;> rfl

theorem start_worker (c : Cleaner) (maxCycles : UInt8) :
    (c.start maxCycles).1.worker = c.worker := by
  unfold Cleaner.start
  dsimp only
  split_ifs <;> rfl

theorem Follows.updateGuard (h : Follows s r) (guard : CleanerGuard) (now : Tick) :
    Follows { s with
      cleaner := s.cleaner.updateGuard guard now
      guards := if guard.forceStop then s.guards + 1 else s.guards } (r.updateGuard guard.forceStop) := by
  have hstop := updateGuard_stopRequested s.cleaner guard now
  cases hforce : guard.forceStop with
  | false =>
    rw [hforce, Bool.or_false] at hstop
    exact ⟨{ h.alike with stopRequested := h.alike.stopRequested.trans hstop.symm }, h.worker, h.caller,
      h.stops, h.guards⟩
  | true =>
    rw [hforce, Bool.or_true] at hstop
    refine ⟨{ h.alike with stopRequested := hstop.symm }, h.worker, h.caller, ?_, ?_⟩
    · show (r.stoppers ++ _).count _ = _
      rw [List.count_append, h.stops]
      rfl
    · show (r.stoppers ++ _).count _ = _
      rw [List.count_append, h.guards]
      rfl

theorem emergencyStop_follows (h : Follows s r) (hstep : s.step .emergencyStop = some s') :
    ∃ t, CleanerRuns.machine.Run Machine.free r t ∧ Follows s' t := by
  obtain rfl := Option.some.inj hstep
  refine ⟨r.emergencyStop, .single (i := .emergencyStop) trivial rfl,
    { h.alike with stopRequested := rfl, state := rfl }, h.worker, h.caller, ?_, ?_⟩
  · show (r.stoppers ++ _).count _ = _
    rw [List.count_append, h.stops]
    rfl
  · show (r.stoppers ++ _).count _ = _
    rw [List.count_append, h.guards]
    rfl

theorem start_follows {maxCycles : UInt8} (h : Follows s r) (hstep : s.step (.start maxCycles) = some s') :
    ∃ t, CleanerRuns.machine.Run Machine.free r t ∧ Follows s' t := by
  simp only [step] at hstep
  split at hstep
  · rename_i hnone
    obtain rfl := Option.some.inj hstep
    have hcaller : r.caller = .none := h.caller.trans (by rw [hnone]; rfl)
    obtain ⟨t, hrun, ha, hw, hc, hst⟩ := CleanerRuns.start_follows h.alike hcaller maxCycles
    refine ⟨t, hrun, ha, ?_, ?_, by rw [hst, h.stops], by rw [hst, h.guards]⟩
    · rw [hw, h.worker, start_worker]
    · rw [hc, hnone]
      rfl
  · cases hstep

theorem reset_follows (h : Follows s r) (hstep : s.step .reset = some s') :
    ∃ t, CleanerRuns.machine.Run Machine.free r t ∧ Follows s' t := by
  simp only [step] at hstep
  split at hstep
  · rename_i hnone
    obtain rfl := Option.some.inj hstep
    have hcaller : r.caller = .none := h.caller.trans (by rw [hnone]; rfl)
    have hreset : r.reset = some (if r.busy then { r with
        stopRequested := true, state := .stopped, caller := .resetOutputs r.busy .relay }
      else { r with caller := .resetOutputs r.busy .relay }) := by
      rw [CleanerRuns.reset, hcaller]
      split_ifs <;> rfl
    refine ⟨_, .single (i := .reset) trivial hreset, ?_⟩
    have hbusy := h.alike.busy
    unfold Cleaner.resetSection
    rw [← hbusy]
    split_ifs with hb
    · exact ⟨{ h.alike with stopRequested := rfl, state := rfl }, h.worker, rfl, h.stops, h.guards⟩
    · exact ⟨{ h.alike with }, h.worker, rfl, h.stops, h.guards⟩
  · cases hstep

theorem resetClear_follows (h : Follows s r) (hstep : s.step .resetClear = some s') :
    ∃ t, CleanerRuns.machine.Run Machine.free r t ∧ Follows s' t := by
  simp only [step] at hstep
  split at hstep
  · rename_i wasBusy hwaiting
    split at hstep
    · cases hstep
    · rename_i hfree
      obtain rfl := Option.some.inj hstep
      have hcaller := h.caller
      rw [hwaiting] at hcaller
      have hclear : CleanerRuns.machine.Run Machine.free r { r with caller := .resetClear } := by
        cases wasBusy with
        | false =>
          have hready : r.caller = .resetClear := hcaller
          rw [← hready]
          exact .refl
        | true =>
          refine .single (i := .caller false) trivial ?_
          show r.callerStep false = _
          rw [CleanerRuns.callerStep, hcaller]
          exact congrArg some (if_pos (by rw [h.alike.busy]; simpa using hfree))
      refine ⟨_, hclear.trans (.single (i := .caller false) trivial rfl), ?_, h.worker, rfl, h.stops,
        h.guards⟩
      exact { h.alike with busy := rfl, stopRequested := rfl, lastResult := rfl, state := rfl }
  · cases hstep

theorem resetTimeout_follows (h : Follows s r) (hok : s.Prompt .resetTimeout)
    (hstep : s.step .resetTimeout = some s') :
    ∃ t, CleanerRuns.machine.Run Machine.free r t ∧ Follows s' t := by
  simp only [step] at hstep
  split at hstep
  · rename_i hwaiting
    obtain rfl := Option.some.inj hstep
    have hcaller := h.caller
    rw [hwaiting] at hcaller
    have hbusy : r.busy = true := h.alike.busy.trans hok
    refine ⟨{ r with caller := .none }, .single (i := .caller true) trivial ?_, { h.alike with },
      h.worker, rfl, h.stops, h.guards⟩
    show r.callerStep true = _
    rw [CleanerRuns.callerStep, hcaller]
    exact congrArg some (if_neg (by simp [hbusy]))
  · cases hstep

theorem step_follows {i : Input} (hinv : Inv s) (h : Follows s r) (hok : s.Prompt i)
    (hstep : s.step i = some s') :
    ∃ t, CleanerRuns.machine.Run Machine.free r t ∧ Follows s' t := by
  cases i with
  | worker io =>
    obtain ⟨c, hc, rfl⟩ := Option.map_eq_some_iff.mp hstep
    obtain ⟨t, ht, hw⟩ := CleanerRuns.workerStep_follows hinv.run h.alike h.worker hc
    exact ⟨t, ht.run, ht.alike, hw, ht.caller.trans h.caller, by rw [ht.stoppers, h.stops],
      by rw [ht.stoppers, h.guards]⟩
  | updateCameraTarget target now =>
    obtain rfl := Option.some.inj hstep
    exact ⟨r, .refl, h.same { h.alike with } rfl⟩
  | updateGuard guard now =>
    obtain rfl := Option.some.inj hstep
    exact ⟨_, .single (i := .updateGuard guard.forceStop) trivial rfl, h.updateGuard guard now⟩
  | guardOutputs io =>
    simp only [step] at hstep
    split at hstep
    · cases hstep
    · rename_i hguards
      obtain rfl := Option.some.inj hstep
      exact h.outputs false (by rw [h.guards]; exact hguards)
        (h.alike.safeOutputs io) rfl
  | emergencyStop => exact emergencyStop_follows h hstep
  | stopOutputs io =>
    simp only [step] at hstep
    split at hstep
    · cases hstep
    · rename_i hstops
      obtain rfl := Option.some.inj hstep
      exact h.outputs true (by rw [h.stops]; exact hstops)
        ((h.alike.safeOutputs io).axis io) rfl
  | start maxCycles => exact start_follows h hstep
  | reset => exact reset_follows h hstep
  | resetOutputs io =>
    simp only [step] at hstep
    split at hstep
    · rename_i wasBusy hmarked
      obtain rfl := Option.some.inj hstep
      have hcaller : r.caller = .resetOutputs wasBusy .relay := h.caller.trans (by rw [hmarked]; rfl)
      exact ⟨_, CleanerRuns.reset_run hcaller, { (h.alike.safeOutputs io).axis io with }, h.worker, rfl,
        h.stops, h.guards⟩
    · cases hstep
  | resetClear => exact resetClear_follows h hstep
  | resetTimeout => exact resetTimeout_follows h hok hstep

theorem runs_simulation : machine.Simulation CleanerRuns.machine Prompt Machine.free Follows where
  start := by
    rintro _ rfl
    exact ⟨CleanerRuns.initialized, CleanerRuns.initialized_start,
      ⟨rfl, rfl, rfl, rfl, rfl, rfl, rfl, rfl, rfl, rfl⟩, rfl, rfl, rfl, rfl⟩
  step _ _ _ _ hr hR hok hstep := step_follows (inv_of_reach hr) hR hok hstep

/-- Of the module: no start is lost or doubled, and an idle cleaner has its outputs safe. -/
theorem single_of_reach (h : machine.Reach Prompt s) :
    s.cleaner.startSem + s.cleaner.worker.runPc.active ≤ (if s.cleaner.busy then 1 else 0) ∧
      (s.cleaner.busy = false → s.cleaner.relayOn = false ∧
        s.cleaner.yPulseNs = Cleaner.ySafeNs ∧ s.cleaner.zPulseNs = Cleaner.zRetractNs) := by
  obtain ⟨r, hr, hf⟩ := runs_simulation.reach h
  have hinv := CleanerRuns.inv_of_reach hr
  have ha := hf.alike
  have hcount := hinv.count
  rw [ha.startSem, ha.busy, hf.worker] at hcount
  refine ⟨by omega, fun hbusy => ?_⟩
  obtain ⟨-, hidle, -⟩ := hinv.free (ha.busy.trans hbusy)
  obtain ⟨hy, hz⟩ := hinv.pose (by rw [hidle]; rfl)
  rw [ha.yPulseNs, ha.config] at hy
  rw [ha.zPulseNs, ha.config] at hz
  exact ⟨ha.relayOn.symm.trans (hinv.relay (by rw [hidle]; rfl)), hy, hz⟩

end CleanerSys

end Hcics
