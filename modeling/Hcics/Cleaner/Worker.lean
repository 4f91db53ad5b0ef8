import Hcics.Cleaner.Model

/-!
# What the worker can do

Every piece of the worker's code is made of a few calls and ends at a cut: what the calls keep, it
keeps, whatever pieces ran before it. The lemmas of `Closed` say so, one for each function of the
source, and `Closed.workerStep` of a whole step within `hcics_cleaner_run_mission`.

What they keep first of all is `Kept`: the flags, the semaphore and the data of the callers. From it
follows the invariant `RunInv`: while no run is on the worker waits and holds no token, and a run that
ended with `RT_EOK`, or left the state DONE, was verified.
-/

namespace Hcics.Cleaner

/-! ## One piece of the worker's code -/

/-- `k` is `c` up to what the worker's code changes between two cuts. -/
structure Kept (c k : Cleaner) : Prop where
  busy : k.busy = c.busy
  stopRequested : k.stopRequested = c.stopRequested
  startSem : k.startSem = c.startSem
  starts : k.starts = c.starts
  verified : c.verified ⊆ k.verified ∧ k.verified ⊆ c.starts :: c.verified
  undone : c.state ≠ .done → k.state ≠ .done
  zPulseNs : c.zPulseNs ≤ zRetractNs → k.zPulseNs ≤ zRetractNs

/-- The cuts the worker's code can reach, and what holds there. -/
def Reached (c : Cleaner) : WorkerPc → Prop
  | .ramp zNs _ => zNs ≤ zRetractNs
  | .ended result | .closing result _ | .releasing result _ =>
    result = RT_EOK → c.starts ∈ c.verified
  | .idle => False
  | _ => True

/-- The worker's code went from `c` to `k` and stopped at a cut. -/
structure Works (c k : Cleaner) : Prop where
  kept : Kept c k
  reached : Reached k k.worker

variable {c k : Cleaner} {io : CleanerIo}

theorem Kept.refl (c : Cleaner) : Kept c c :=
  ⟨rfl, rfl, rfl, rfl, ⟨List.Subset.refl _, List.subset_cons_self _ _⟩, id, id⟩

theorem Kept.setState (h : Kept c k) {state : CleanerState} (hs : state ≠ .done) :
    Kept c (k.setState state) :=
  ⟨h.busy, h.stopRequested, h.startSem, h.starts, h.verified, fun _ => hs, h.zPulseNs⟩

theorem Kept.relay (h : Kept c k) (on : Bool) : Kept c (k.relay on) :=
  ⟨h.busy, h.stopRequested, h.startSem, h.starts, h.verified, h.undone, h.zPulseNs⟩

theorem Kept.axis (h : Kept c k) (io : CleanerIo) : Kept c (k.axis io).1 :=
  ⟨h.busy, h.stopRequested, h.startSem, h.starts, h.verified, h.undone, h.zPulseNs⟩

theorem clampU32_le {value minValue maxValue : UInt32} (h : minValue ≤ maxValue) :
    clampU32 value minValue maxValue ≤ maxValue := by
  unfold clampU32
  grind

theorem Kept.applyPose (h : Kept c k) (io : CleanerIo) (yNs zNs : UInt32) :
    Kept c (k.applyPose io yNs zNs).1 :=
  ⟨h.busy, h.stopRequested, h.startSem, h.starts, h.verified, h.undone,
    fun _ => clampU32_le (by decide)⟩

theorem Kept.safeOutputs (h : Kept c k) (io : CleanerIo) : Kept c (k.safeOutputs io).1 :=
  ((h.relay false).axis io).applyPose io _ _

theorem Kept.goto (h : Kept c k) {pc : WorkerPc} (hpc : Reached k pc) : Works c (k.goto pc) :=
  ⟨⟨h.busy, h.stopRequested, h.startSem, h.starts, h.verified, h.undone, h.zPulseNs⟩, by
    cases pc <;> exact hpc⟩

/-! ## The calls of the worker's code -/

/-- A property that the calls within `hcics_cleaner_run_mission` keep. -/
structure Closed (R : Cleaner → Prop) : Prop where
  setState : ∀ k state, state ≠ .done → R k → R (k.setState state)
  relay : ∀ k on, R k → R (k.relay on)
  axis : ∀ k io, R k → R (k.axis io).1
  applyPose : ∀ k io yNs zNs, R k → R (k.applyPose io yNs zNs).1
  cycle : ∀ k cycle runCycle runMax, R k →
    R { k with cycle := cycle, runCycle := runCycle, runMax := runMax }
  verified : ∀ k, R k → R { k with verified := k.starts :: k.verified }
  zPulseNs : ∀ k, R k → k.zPulseNs ≤ zRetractNs

def InMission : WorkerPc → Prop
  | .idle | .ended _ | .closing _ _ | .releasing _ _ => False
  | _ => True

/-- The worker's code stopped at a cut within `hcics_cleaner_run_mission`, or right behind it. -/
inductive Ends (R : Cleaner → Prop) : Cleaner → Prop where
  | cut {k : Cleaner} {pc : WorkerPc} (keeps : R k) (mission : InMission pc) (reached : Reached k pc) :
      Ends R (k.goto pc)
  | ended {k : Cleaner} {result : RtErr} (keeps : R k)
      (verified : result = RT_EOK → k.starts ∈ k.verified) : Ends R (k.goto (.ended result))

variable {R : Cleaner → Prop}

theorem Ends.works (h : Ends (Kept c) k) : Works c k := by
  cases h with
  | cut hk _ hpc => exact hk.goto hpc
  | ended hk hres => exact hk.goto hres

theorem moveToward_le {current target step : UInt32} (h : current ≤ target) :
    moveToward current target step ≤ target := by
  unfold moveToward
  grind

theorem Closed.cycleEnded (_ : Closed R) (h : R k) {result : RtErr}
    (hres : result = RT_EOK → k.starts ∈ k.verified) : Ends R (k.cycleEnded result) := by
  unfold Cleaner.cycleEnded
  split
  · exact .ended h hres
  · exact .cut h trivial trivial

theorem Closed.failed (hR : Closed R) (h : R k) {result : RtErr} (hres : result ≠ RT_EOK) :
    Ends R (k.cycleEnded result) :=
  hR.cycleEnded h fun hok => absurd hok hres

theorem Closed.interrupted (hR : Closed R) (h : R k) : Ends R (k.cycleEnded (-RT_EINTR)) :=
  hR.failed h (by decide)

theorem Closed.verifyWait (hR : Closed R) (h : R k) (start clearStart : Tick) (clearActive : Bool) :
    Ends R (k.verifyWait io start clearStart clearActive) := by
  unfold Cleaner.verifyWait
  split_ifs
  · exact hR.failed h (by decide)
  · exact .cut h trivial trivial

theorem Closed.verifyLoop (hR : Closed R) (h : R k) (start clearStart : Tick) (clearActive : Bool) :
    Ends R (k.verifyLoop io start clearStart clearActive) := by
  have hverified : Ends R ({ k with verified := k.starts :: k.verified }.cycleEnded RT_EOK) :=
    hR.cycleEnded (hR.verified k h) fun _ => List.mem_cons_self
  unfold Cleaner.verifyLoop
  dsimp only
  split
  · exact hR.interrupted h
  split
  · exact hR.interrupted h
  split
  · exact hR.verifyWait h _ _ _
  split
  · exact hR.verifyWait h _ _ _
  split_ifs
  · exact hverified
  · exact hR.verifyWait h _ _ _
  · exact hverified
  · exact hR.verifyWait h _ _ _

theorem Closed.retracted (hR : Closed R) (h : R k) (after : AfterRetract) (result : RtErr) :
    Ends R (k.retracted io after result) := by
  unfold Cleaner.retracted
  split
  · split
    · exact hR.failed h (by assumption)
    · exact hR.verifyLoop (hR.setState _ _ (by decide) h) _ _ _
  · split
    · rename_i hres
      exact .ended h fun hok => absurd hok hres
    · exact .cut h trivial trivial

theorem Closed.settleLoop (hR : Closed R) (h : R k) (after : AfterRetract) (left : UInt32) :
    Ends R (k.settleLoop io after left) := by
  unfold Cleaner.settleLoop
  split
  · exact hR.retracted h _ _
  · exact .cut h trivial trivial

theorem Closed.rampLoop (hR : Closed R) (h : R k) (after : AfterRetract) {zNs : UInt32}
    (hz : zNs ≤ zRetractNs) : Ends R (k.rampLoop io after zNs) := by
  unfold Cleaner.rampLoop
  split
  · exact hR.settleLoop h _ _
  · dsimp only
    split
    · exact hR.retracted (hR.applyPose _ _ _ _ h) _ _
    · exact .cut (hR.applyPose _ _ _ _ h) trivial (moveToward_le hz)

theorem Closed.retract (hR : Closed R) (h : R k) (after : AfterRetract) :
    Ends R (k.retract io after) := by
  have haxis := hR.axis _ io (hR.relay _ false (hR.setState k .retracting (by decide) h))
  unfold Cleaner.retract
  dsimp only
  split
  · exact hR.retracted haxis _ _
  · exact hR.rampLoop haxis _ (hR.zPulseNs _ haxis)

theorem Closed.scrubbed (hR : Closed R) (h : R k) (result : RtErr) :
    Ends R (k.scrubbed io result) := by
  have hoff := hR.relay k false h
  unfold Cleaner.scrubbed
  dsimp only
  split
  · exact hR.failed hoff (by assumption)
  · exact hR.retract hoff _

theorem Closed.scrubWait (hR : Closed R) (h : R k) (left startMs : UInt32) (right : Bool)
    (baseYNs : UInt32) : Ends R (k.scrubWait io left startMs right baseYNs) := by
  unfold Cleaner.scrubWait
  split
  · exact hR.scrubbed h _
  · exact .cut h trivial trivial

theorem Closed.scrubLoop (hR : Closed R) (h : R k) (startMs : UInt32) (right : Bool)
    (baseYNs : UInt32) : Ends R (k.scrubLoop io startMs right baseYNs) := by
  have hpose := hR.applyPose k io (sweepYNs right baseYNs) zWashNs h
  have haxis := hR.axis _ io hpose
  unfold Cleaner.scrubLoop
  dsimp only
  split
  · exact hR.scrubbed h _
  split
  · exact hR.scrubbed h _
  split
  · exact hR.scrubbed hpose _
  split
  · exact hR.scrubbed haxis _
  split
  · exact hR.scrubbed haxis _
  · exact hR.scrubWait haxis _ _ _ _

theorem Closed.scrubDelay (hR : Closed R) (h : R k) (left startMs : UInt32) (right : Bool)
    (baseYNs : UInt32) : Ends R (k.scrubDelay io left startMs right baseYNs) := by
  unfold Cleaner.scrubDelay
  split
  · exact hR.scrubLoop h _ _ _
  · exact hR.scrubWait h _ _ _ _

theorem Closed.sprayed (hR : Closed R) (h : R k) (result : RtErr) (baseYNs : UInt32) :
    Ends R (k.sprayed io result baseYNs) := by
  have hoff := hR.relay k false h
  unfold Cleaner.sprayed
  dsimp only
  split
  · exact hR.failed hoff (by assumption)
  split
  · exact hR.interrupted hoff
  · exact hR.scrubLoop (hR.relay _ _ (hR.setState _ _ (by decide) hoff)) _ _ _

theorem Closed.sprayDelay (hR : Closed R) (h : R k) (left baseYNs : UInt32) :
    Ends R (k.sprayDelay io left baseYNs) := by
  unfold Cleaner.sprayDelay
  split
  · exact hR.sprayed h _ _
  split
  · exact hR.sprayed h _ _
  · exact .cut h trivial trivial

theorem Closed.spray (hR : Closed R) (h : R k) (baseYNs : UInt32) : Ends R (k.spray io baseYNs) := by
  have hstate := hR.setState k .spraying (by decide) h
  unfold Cleaner.spray
  dsimp only
  split
  · exact hR.interrupted hstate
  · exact hR.sprayDelay (hR.relay _ _ hstate) _ _

theorem Closed.extendLoop (hR : Closed R) (h : R k) (startMs baseYNs yNs zNs : UInt32) :
    Ends R (k.extendLoop io startMs baseYNs yNs zNs) := by
  have hpose := hR.applyPose k io (k.followYNs io yNs) (moveToward zNs zWashNs zStepNs) h
  unfold Cleaner.extendLoop
  dsimp only
  split
  · exact hR.interrupted h
  split
  · exact hR.interrupted h
  split
  · exact hR.failed hpose (by assumption)
  split
  · exact hR.spray hpose _
  split
  · exact hR.failed hpose (by decide)
  split
  · exact hR.failed hpose (by decide)
  · exact .cut hpose trivial trivial

theorem Closed.aimWait (hR : Closed R) (h : R k) (start : Tick) (stable : UInt8) :
    Ends R (k.aimWait io start stable) := by
  unfold Cleaner.aimWait
  split
  · exact hR.failed h (by decide)
  · exact .cut h trivial trivial

theorem Closed.aimLoop (hR : Closed R) (h : R k) (start : Tick) (stable : UInt8) :
    Ends R (k.aimLoop io start stable) := by
  have hpose := hR.applyPose k io (yFromTarget k.camera) zRetractNs h
  have haxis := hR.axis _ io hpose
  unfold Cleaner.aimLoop
  dsimp only
  split
  · exact hR.interrupted h
  split
  · exact hR.aimWait h _ _
  split
  · exact hR.failed hpose (by assumption)
  split
  · exact hR.failed haxis (by assumption)
  split
  · exact hR.aimWait haxis _ _
  split
  · exact hR.extendLoop (hR.setState _ _ (by decide) haxis) _ _ _ _
  · exact hR.aimWait haxis _ _

theorem Closed.waitStainLoop (hR : Closed R) (h : R k) (start : Tick) :
    Ends R (k.waitStainLoop io start) := by
  unfold Cleaner.waitStainLoop
  split
  · exact hR.interrupted h
  split
  · exact hR.aimLoop h _ _
  split
  · exact hR.failed h (by decide)
  · exact .cut h trivial trivial

theorem Closed.nextCycle (hR : Closed R) (h : R k) : Ends R (k.nextCycle io) := by
  have hcycle := hR.cycle k (k.runCycle + 1) (k.runCycle + 1) k.runMax h
  unfold Cleaner.nextCycle
  split
  · exact hR.waitStainLoop (hR.setState _ _ (by decide) hcycle) _
  · exact .ended h fun hok => absurd hok (by decide)

theorem Closed.workerStep (hR : Closed R) (h : R c) (hin : InMission c.worker)
    (hreached : Reached c c.worker) (hstep : c.workerStep io = some k) : Ends R k := by
  unfold Cleaner.workerStep at hstep
  cases hpc : c.worker with
  | idle | ended | closing | releasing =>
    rw [hpc] at hin
    exact hin.elim
  | nextCycle => rw [hpc] at hstep; exact Option.some.inj hstep ▸ hR.nextCycle h
  | waitStain => rw [hpc] at hstep; exact Option.some.inj hstep ▸ hR.waitStainLoop h _
  | aim => rw [hpc] at hstep; exact Option.some.inj hstep ▸ hR.aimLoop h _ _
  | extend => rw [hpc] at hstep; exact Option.some.inj hstep ▸ hR.extendLoop h _ _ _ _
  | spray => rw [hpc] at hstep; exact Option.some.inj hstep ▸ hR.sprayDelay h _ _
  | scrub => rw [hpc] at hstep; exact Option.some.inj hstep ▸ hR.scrubDelay h _ _ _ _
  | ramp zNs after =>
    rw [hpc] at hstep hreached
    exact Option.some.inj hstep ▸ hR.rampLoop h _ hreached
  | settle => rw [hpc] at hstep; exact Option.some.inj hstep ▸ hR.settleLoop h _ _
  | verify => rw [hpc] at hstep; exact Option.some.inj hstep ▸ hR.verifyLoop h _ _ _
  | retry => rw [hpc] at hstep; exact Option.some.inj hstep ▸ hR.retract h _

theorem Kept.closed (hz : c.zPulseNs ≤ zRetractNs) : Closed (Kept c) where
  setState _ _ hs h := h.setState hs
  relay _ on h := h.relay on
  axis _ io h := h.axis io
  applyPose _ io yNs zNs h := h.applyPose io yNs zNs
  cycle _ _ _ _ h :=
    ⟨h.busy, h.stopRequested, h.startSem, h.starts, h.verified, h.undone, h.zPulseNs⟩
  verified _ h :=
    ⟨h.busy, h.stopRequested, h.startSem, h.starts,
      ⟨List.subset_cons_of_subset _ h.verified.1,
        List.cons_subset.mpr ⟨h.starts ▸ List.mem_cons_self, h.verified.2⟩⟩, h.undone, h.zPulseNs⟩
  zPulseNs _ h := h.zPulseNs hz

/-! ## One step of the worker -/

structure RunInv (c : Cleaner) : Prop where
  free : c.busy = false → c.worker = .idle ∧ c.startSem = 0
  token : c.worker ≠ .idle → c.startSem = 0
  sem : c.startSem ≤ 1
  zPulseNs : c.zPulseNs ≤ zRetractNs
  reached : c.worker ≠ .idle → Reached c c.worker
  done : c.state = .done → c.starts ∈ c.verified
  known : ∀ run ∈ c.verified, run ≤ c.starts

/-- A step of the worker takes the token, runs on, or ends the run. -/
inductive WorkerCase (c c' : Cleaner) : Prop where
  | begins (idle : c.worker = .idle) (token : c.startSem ≠ 0)
      (works : Works { c with startSem := c.startSem - 1 } c')
  | works (running : c.worker ≠ .idle) (works : Works c c')
  | releases (result : RtErr) (stopped : Bool) (pc : c.worker = .releasing result stopped)
      (eq : c' = c.release result stopped)

theorem beginRun_works (hz : c.zPulseNs ≤ zRetractNs) :
    Works { c with startSem := c.startSem - 1 } (c.beginRun io) := by
  have hclosed := Kept.closed (c := { c with startSem := c.startSem - 1 }) hz
  have h := (Kept.refl { c with startSem := c.startSem - 1 }).safeOutputs io
  unfold beginRun
  dsimp only
  split
  · exact h.goto fun hok => absurd hok (by assumption)
  · exact (hclosed.nextCycle (hclosed.cycle _ _ _ _ h)).works

theorem inMission_cases (pc : WorkerPc) : InMission pc ∨ pc = .idle ∨ (∃ result, pc = .ended result) ∨
    (∃ result stopped, pc = .closing result stopped) ∨ ∃ result stopped, pc = .releasing result stopped := by
  cases pc with
  | idle => exact .inr (.inl rfl)
  | ended result => exact .inr (.inr (.inl ⟨result, rfl⟩))
  | closing result stopped => exact .inr (.inr (.inr (.inl ⟨result, stopped, rfl⟩)))
  | releasing result stopped => exact .inr (.inr (.inr (.inr ⟨result, stopped, rfl⟩)))
  | _ => exact .inl trivial

theorem workerStep_case {c' : Cleaner} (hinv : RunInv c) (hstep : c.workerStep io = some c') :
    WorkerCase c c' := by
  have hz := hinv.zPulseNs
  have hreached := hinv.reached
  have h := Kept.refl c
  rcases inMission_cases c.worker with hin | hpc | ⟨result, hpc⟩ | ⟨result, stopped, hpc⟩ |
    ⟨result, stopped, hpc⟩
  · have hrun : c.worker ≠ .idle := by
      intro hpc
      rw [hpc] at hin
      exact hin
    exact .works hrun ((Kept.closed hz).workerStep h hin (hreached hrun) hstep).works
  all_goals rw [Cleaner.workerStep, hpc] at hstep
  · dsimp only at hstep
    split at hstep
    · cases hstep
    · rename_i htoken
      exact .begins hpc htoken (Option.some.inj hstep ▸ beginRun_works hz)
  · rw [hpc] at hreached
    obtain rfl := Option.some.inj hstep
    exact .works (by simp [hpc]) (h.goto (hreached nofun))
  · rw [hpc] at hreached
    obtain rfl := Option.some.inj hstep
    exact .works (by simp [hpc]) ((h.safeOutputs io).goto (hreached nofun))
  · exact .releases result stopped hpc (Option.some.inj hstep).symm

/-! ## The invariant -/

theorem Works.runInv {c' : Cleaner} (h : Works c c') (hbusy : c.busy = true)
    (hsem : c.startSem = 0) (hz : c.zPulseNs ≤ zRetractNs)
    (hdone : c.state = .done → c.starts ∈ c.verified) (hknown : ∀ run ∈ c.verified, run ≤ c.starts) :
    RunInv c' where
  free hf := by
    rw [h.kept.busy, hbusy] at hf
    cases hf
  token _ := h.kept.startSem.trans hsem
  sem := by rw [h.kept.startSem, hsem]; exact Nat.zero_le _
  zPulseNs := h.kept.zPulseNs hz
  reached _ := h.reached
  done hd := by
    have hcd : c.state = .done := by
      by_contra hne
      exact h.kept.undone hne hd
    rw [h.kept.starts]
    exact h.kept.verified.1 (hdone hcd)
  known run hrun := by
    rw [h.kept.starts]
    rcases List.mem_cons.mp (h.kept.verified.2 hrun) with rfl | hrun
    · exact Nat.le_refl _
    · exact hknown run hrun

theorem RunInv.busy_of_running (h : RunInv c) (hpc : c.worker ≠ .idle) : c.busy = true := by
  by_contra hb
  exact hpc (h.free (by simpa using hb)).1

theorem workerStep_runInv {c' : Cleaner} (h : RunInv c) (hstep : c.workerStep io = some c') :
    RunInv c' := by
  rcases workerStep_case h hstep with ⟨hidle, htoken, hw⟩ | ⟨hrun, hw⟩ | ⟨result, stopped, hpc, rfl⟩
  · have hbusy : c.busy = true := by
      by_contra hb
      exact htoken (h.free (by simpa using hb)).2
    have hsem := h.sem
    exact hw.runInv hbusy (show c.startSem - 1 = 0 by omega) h.zPulseNs h.done h.known
  · exact hw.runInv (h.busy_of_running hrun) (h.token hrun) h.zPulseNs h.done h.known
  · have hrun : c.worker ≠ .idle := by simp [hpc]
    have hverified := h.reached hrun
    rw [hpc] at hverified
    have hsem := h.token hrun
    refine ⟨fun _ => ⟨rfl, hsem⟩, fun hne => absurd rfl hne, ?_, h.zPulseNs, fun hne => absurd rfl hne,
      fun hd => ?_, h.known⟩
    · simp [release, goto, hsem]
    · simp only [release, goto] at hd
      split_ifs at hd with h1 h2
      exact hverified h2

theorem Reached.congr {pc : WorkerPc} (h : Reached c pc) (hst : k.starts = c.starts)
    (hv : k.verified = c.verified) : Reached k pc := by
  cases pc with
  | ended | closing | releasing =>
    intro hok
    rw [hst, hv]
    exact h hok
  | _ => exact h

theorem RunInv.act (h : RunInv c) {k : Cleaner} (hb : k.busy = c.busy) (hs : k.startSem = c.startSem)
    (hw : k.worker = c.worker) (hst : k.starts = c.starts) (hv : k.verified = c.verified)
    (hz : k.zPulseNs ≤ zRetractNs) (hd : k.state = .done → c.state = .done) : RunInv k where
  free hf := by rw [hw, hs]; exact h.free (hb ▸ hf)
  token hne := by rw [hs]; exact h.token (hw ▸ hne)
  sem := by rw [hs]; exact h.sem
  zPulseNs := hz
  reached hne := by
    rw [hw]
    exact (h.reached (hw ▸ hne)).congr hst hv
  done hdone := by rw [hst, hv]; exact h.done (hd hdone)
  known := by rw [hst, hv]; exact h.known

theorem start_runInv (h : RunInv c) (maxCycles : UInt8) : RunInv (c.start maxCycles).1 := by
  unfold start
  split
  · exact h
  · rename_i hb
    obtain ⟨hidle, hsem⟩ := h.free (by simpa using hb)
    dsimp only
    split
    · rename_i hfull
      simp [hsem] at hfull
    · exact ⟨fun hf => Bool.noConfusion hf, fun hne => absurd hidle hne, by simp [hsem], h.zPulseNs,
        fun hne => absurd hidle hne, (fun hd => by cases hd),
        fun run hrun => Nat.le_succ_of_le (h.known run hrun)⟩

theorem resetClear_runInv (h : RunInv c) (hb : c.busy = false) : RunInv c.resetClear :=
  h.act hb.symm rfl rfl rfl rfl h.zPulseNs fun hd => by cases hd

end Hcics.Cleaner
