import Hcics.Cleaner.Pulses
import Hcics.Cleaner.Worker
import Mathlib.Data.List.Chain

/-!
# A stopped cleaner

After a stop has driven the safe outputs the relay should stay off and the brush should not extend
again. Almost every piece of the worker tests `stop_requested` first. Two do not: the end of
`hcics_cleaner_spray` goes on to `hcics_cleaner_scrub`, which switches the relay on before its
test, and the ramp of `hcics_cleaner_retract` goes on from its own `z_ns`, which the stop does not
see. `Hazard` says where the worker is then, and `stop_calm_iff` that there is no other place.
-/

namespace Hcics

namespace Cleaner

/-- The worker is in the last chunk of the spray delay, or in the ramp of a retract more than one
step before its end. -/
def Hazard : WorkerPc → Prop
  | .spray left _ => left = 0
  | .ramp zNs _ => zNs + zStepNs * 2 < zRetractNs
  | _ => False

/-- The relay is not switched on, and a pose is fully retracted. -/
def Safe : CleanerAction → Prop
  | .relay on => on = false
  | .axis => True
  | .pose _ zNs => zNs = zRetractNs

/-! ## The worker under a stop -/

/-- From `c` on, with the stop requested, the worker's code has only done safe things. -/
structure Still (c k : Cleaner) : Prop where
  stopRequested : k.stopRequested = true
  zPulseNs : k.zPulseNs = zRetractNs
  actions : ∃ new, k.actions = new ++ c.actions ∧ ∀ a ∈ new, Safe a

/-- And it has stopped at a cut that is no hazard. -/
structure Stills (c k : Cleaner) : Prop where
  still : Still c k
  calm : ¬ Hazard k.worker

variable {c k : Cleaner} {io : CleanerIo}

theorem extend_actions (h : ∃ new, k.actions = new ++ c.actions ∧ ∀ a ∈ new, Safe a)
    {a : CleanerAction} (ha : Safe a) :
    ∃ new, a :: k.actions = new ++ c.actions ∧ ∀ a ∈ new, Safe a := by
  obtain ⟨new, hnew, hsafe⟩ := h
  refine ⟨a :: new, by rw [hnew]; rfl, fun b hb => ?_⟩
  rcases List.mem_cons.mp hb with rfl | hb
  · exact ha
  · exact hsafe b hb

theorem Still.setState (h : Still c k) (state : CleanerState) : Still c (k.setState state) :=
  ⟨h.stopRequested, h.zPulseNs, h.actions⟩

theorem Still.relay (h : Still c k) : Still c (k.relay false) :=
  ⟨h.stopRequested, h.zPulseNs, extend_actions h.actions rfl⟩

theorem Still.axis (h : Still c k) (io : CleanerIo) : Still c (k.axis io).1 :=
  ⟨h.stopRequested, h.zPulseNs, extend_actions h.actions trivial⟩

theorem Still.applyPose (h : Still c k) (io : CleanerIo) (yNs : UInt32) :
    Still c (k.applyPose io yNs zRetractNs).1 :=
  ⟨h.stopRequested, rfl, extend_actions h.actions rfl⟩

theorem Still.safeOutputs (h : Still c k) (io : CleanerIo) : Still c (k.safeOutputs io).1 :=
  (h.relay.axis io).applyPose io _

theorem Still.goto (h : Still c k) {pc : WorkerPc} (hpc : ¬ Hazard pc) : Stills c (k.goto pc) :=
  ⟨⟨h.stopRequested, h.zPulseNs, h.actions⟩, hpc⟩

theorem Still.cycleEnded (h : Still c k) (result : RtErr) : Stills c (k.cycleEnded result) := by
  unfold Cleaner.cycleEnded
  split
  · exact h.goto id
  · exact h.goto id

theorem Still.verifyLoop (h : Still c k) (start clearStart : Tick) (clearActive : Bool) :
    Stills c (k.verifyLoop io start clearStart clearActive) := by
  rw [Cleaner.verifyLoop, if_pos h.stopRequested]
  exact h.cycleEnded _

theorem Still.retracted (h : Still c k) (after : AfterRetract) (result : RtErr) :
    Stills c (k.retracted io after result) := by
  unfold Cleaner.retracted
  split
  · split
    · exact h.cycleEnded _
    · exact (h.setState _).verifyLoop _ _ _
  · split
    · exact h.goto id
    · exact h.goto id

theorem Still.settleLoop (h : Still c k) (after : AfterRetract) (left : UInt32) :
    Stills c (k.settleLoop io after left) := by
  rw [Cleaner.settleLoop, if_pos (.inr h.stopRequested)]
  exact h.retracted _ _

theorem moveToward_last {zNs : UInt32} (hz : zNs ≤ zRetractNs)
    (hlast : ¬ zNs + zStepNs * 2 < zRetractNs) : moveToward zNs zRetractNs (zStepNs * 2) = zRetractNs := by
  have hle := UInt32.le_iff_toNat_le.mp hz
  have hshort := UInt32.le_iff_toNat_le.mp (UInt32.not_lt.mp hlast)
  have hretract : zRetractNs.toNat = 2200000 := rfl
  have hstep : (zStepNs * 2).toNat = 24000 := rfl
  rw [UInt32.toNat_add, hstep] at hshort
  have hmove := toNat_moveToward zNs zRetractNs (zStepNs * 2) fun _ => by omega
  rw [Approach.toward_eq_of_gap_le (by unfold Approach.gap; omega)] at hmove
  rw [← UInt32.toNat_inj]
  omega

theorem hazard_ramp_end {after : AfterRetract} : ¬ Hazard (.ramp zRetractNs after) :=
  show ¬ zRetractNs + zStepNs * 2 < zRetractNs by decide

theorem Still.rampLoop (h : Still c k) (after : AfterRetract) {zNs : UInt32} (hz : zNs ≤ zRetractNs)
    (hlast : ¬ zNs + zStepNs * 2 < zRetractNs) : Stills c (k.rampLoop io after zNs) := by
  unfold Cleaner.rampLoop
  split
  · exact h.settleLoop _ _
  · rw [moveToward_last hz hlast]
    dsimp only
    split
    · exact (h.applyPose _ _).retracted _ _
    · exact (h.applyPose _ _).goto hazard_ramp_end

theorem Still.retract (h : Still c k) (after : AfterRetract) : Stills c (k.retract io after) := by
  have h' := ((h.setState .retracting).relay).axis io
  unfold Cleaner.retract
  dsimp only
  split
  · exact h'.retracted _ _
  · rw [h'.zPulseNs]
    exact h'.rampLoop _ (by decide) (by decide)

theorem Still.scrubbed (h : Still c k) (result : RtErr) : Stills c (k.scrubbed io result) := by
  unfold Cleaner.scrubbed
  dsimp only
  split
  · exact h.relay.cycleEnded _
  · exact h.relay.retract _

theorem Still.scrubDelay (h : Still c k) (left startMs : UInt32) (right : Bool) (baseYNs : UInt32) :
    Stills c (k.scrubDelay io left startMs right baseYNs) := by
  unfold Cleaner.scrubDelay
  split
  · rw [Cleaner.scrubLoop, if_pos h.stopRequested]
    exact h.scrubbed _
  · rw [Cleaner.scrubWait, if_pos (by simp [h.stopRequested])]
    exact h.scrubbed _

theorem Still.sprayDelay (h : Still c k) {left : UInt32} (hleft : left ≠ 0) (baseYNs : UInt32) :
    Stills c (k.sprayDelay io left baseYNs) := by
  rw [Cleaner.sprayDelay, if_neg hleft, if_pos (by simp [h.stopRequested]), Cleaner.sprayed,
    if_pos (by decide)]
  exact h.relay.cycleEnded _

theorem Still.waitStainLoop (h : Still c k) (start : Tick) : Stills c (k.waitStainLoop io start) := by
  rw [Cleaner.waitStainLoop, if_pos h.stopRequested]
  exact h.cycleEnded _

theorem Still.nextCycle (h : Still c k) : Stills c (k.nextCycle io) := by
  have hnext : Still c { k with cycle := k.runCycle + 1, runCycle := k.runCycle + 1 } :=
    ⟨h.stopRequested, h.zPulseNs, h.actions⟩
  unfold Cleaner.nextCycle
  split
  · exact (hnext.setState _).waitStainLoop _
  · exact h.goto id

theorem Still.beginRun (h : Still c k) : Stills c (k.beginRun io) := by
  have h' : Still c { k with startSem := k.startSem - 1 } := ⟨h.stopRequested, h.zPulseNs, h.actions⟩
  have hsafe := h'.safeOutputs io
  have hrun : Still c { ({ k with startSem := k.startSem - 1 }.safeOutputs io).1 with
      runCycle := 0
      runMax := ({ k with startSem := k.startSem - 1 }.safeOutputs io).1.maxCycles } :=
    ⟨hsafe.stopRequested, hsafe.zPulseNs, hsafe.actions⟩
  unfold Cleaner.beginRun
  dsimp only
  split
  · exact hsafe.goto id
  · exact hrun.nextCycle

theorem Still.workerStep (h : Still c k) (hinv : RunInv k) (hcalm : ¬ Hazard k.worker)
    {k' : Cleaner} (hstep : k.workerStep io = some k') : Stills c k' := by
  have hreached := hinv.reached
  unfold Cleaner.workerStep at hstep
  cases hpc : k.worker <;> rw [hpc] at hstep hcalm hreached <;> dsimp only at hstep
  case idle =>
    split at hstep
    · cases hstep
    · exact Option.some.inj hstep ▸ h.beginRun
  all_goals obtain rfl := Option.some.inj hstep
  case nextCycle => exact h.nextCycle
  case waitStain start => exact h.waitStainLoop start
  case aim start stable =>
    rw [Cleaner.aimLoop, if_pos h.stopRequested]
    exact h.cycleEnded _
  case extend startMs baseYNs yNs zNs =>
    rw [Cleaner.extendLoop, if_pos h.stopRequested]
    exact h.cycleEnded _
  case spray left baseYNs => exact h.sprayDelay hcalm _
  case scrub left startMs right baseYNs => exact h.scrubDelay _ _ _ _
  case ramp zNs after => exact h.rampLoop _ (hreached nofun) hcalm
  case settle left after => exact h.settleLoop _ _
  case verify start clearStart clearActive => exact h.verifyLoop _ _ _
  case retry => exact h.retract _
  case ended result => exact h.goto id
  case closing result stopped => exact (h.safeOutputs io).goto id
  case releasing result stopped => exact ⟨⟨h.stopRequested, h.zPulseNs, h.actions⟩, id⟩

/-! ## Outputs of the callers -/

/-- Safe outputs move nothing but the relay, the axis and the pose. -/
structure Outputs (c k : Cleaner) : Prop where
  busy : k.busy = c.busy
  stopRequested : k.stopRequested = c.stopRequested
  worker : k.worker = c.worker
  zPulseNs : k.zPulseNs = zRetractNs
  runInv : RunInv c → RunInv k
  actions : ∃ new, k.actions = new ++ c.actions ∧ (∀ a ∈ new, Safe a) ∧
    ∃ yNs, (.pose yNs zRetractNs) ∈ new

theorem clampU32_zRetractNs : clampU32 zRetractNs zExtendNs zRetractNs = zRetractNs := by decide

theorem guardOutputs_outputs (c : Cleaner) (io : CleanerIo) : Outputs c (c.guardOutputs io) where
  busy := rfl
  stopRequested := rfl
  worker := rfl
  zPulseNs := clampU32_zRetractNs
  runInv h := h.act rfl rfl rfl rfl rfl (clampU32_le (by decide)) id
  actions := by
    refine ⟨[.pose (clampU32 ySafeNs yMinNs yMaxNs) zRetractNs, .axis, .relay false], rfl, ?_, _,
      List.mem_cons_self⟩
    simp [Safe]

theorem stopOutputs_outputs (c : Cleaner) (io : CleanerIo) : Outputs c (c.stopOutputs io) where
  busy := rfl
  stopRequested := rfl
  worker := rfl
  zPulseNs := clampU32_zRetractNs
  runInv h := h.act rfl rfl rfl rfl rfl (clampU32_le (by decide)) id
  actions := by
    refine ⟨[.axis, .pose (clampU32 ySafeNs yMinNs yMaxNs) zRetractNs, .axis, .relay false], rfl, ?_,
      _, List.mem_cons_of_mem _ List.mem_cons_self⟩
    simp [Safe]

end Cleaner

namespace CleanerSys

open Cleaner

/-! ## The machine -/

/-- The invariant of the cleaner and of the caller of reset. -/
structure Inv (s : CleanerSys) : Prop where
  run : RunInv s.cleaner
  reset : s.reset = .marked false ∨ s.reset = .waiting false → s.cleaner.busy = false

theorem step_inv {s s' : CleanerSys} {i : Input} (h : Inv s) (hstep : s.step i = some s') :
    Inv s' := by
  cases i <;> simp only [step] at hstep
  case worker io =>
    obtain ⟨c, hc, rfl⟩ := Option.map_eq_some_iff.mp hstep
    refine ⟨workerStep_runInv h.run hc, fun hr => ?_⟩
    have hb := h.reset hr
    obtain ⟨hidle, hsem⟩ := h.run.free hb
    simp [workerStep, hidle, hsem] at hc
  case updateCameraTarget target now =>
    obtain rfl := Option.some.inj hstep
    exact ⟨h.run.act rfl rfl rfl rfl rfl h.run.zPulseNs id, h.reset⟩
  case updateGuard g now =>
    obtain rfl := Option.some.inj hstep
    exact ⟨h.run.act rfl rfl rfl rfl rfl h.run.zPulseNs id, h.reset⟩
  case guardOutputs io =>
    split at hstep
    · cases hstep
    · obtain rfl := Option.some.inj hstep
      exact ⟨(guardOutputs_outputs _ io).runInv h.run, h.reset⟩
  case emergencyStop =>
    obtain rfl := Option.some.inj hstep
    exact ⟨h.run.act rfl rfl rfl rfl rfl h.run.zPulseNs (fun hd => by cases hd), h.reset⟩
  case stopOutputs io =>
    split at hstep
    · cases hstep
    · obtain rfl := Option.some.inj hstep
      exact ⟨(stopOutputs_outputs _ io).runInv h.run, h.reset⟩
  case start maxCycles =>
    split at hstep
    · rename_i hr
      obtain rfl := Option.some.inj hstep
      refine ⟨start_runInv h.run maxCycles, fun hr' => ?_⟩
      simp [hr] at hr'
    · cases hstep
  case reset =>
    split at hstep
    · obtain rfl := Option.some.inj hstep
      unfold resetSection
      refine ⟨?_, fun hr' => ?_⟩
      · dsimp only
        split
        · exact h.run.act rfl rfl rfl rfl rfl h.run.zPulseNs fun hd => by cases hd
        · exact h.run
      · have hb : s.cleaner.busy = false := by simpa using hr'
        simp [hb]
    · cases hstep
  case resetOutputs io =>
    split at hstep
    · rename_i wasBusy hr
      obtain rfl := Option.some.inj hstep
      refine ⟨(stopOutputs_outputs _ io).runInv h.run, fun hr' => ?_⟩
      have hw : wasBusy = false := by simpa using hr'
      exact h.reset (.inl (hw ▸ hr))
    · cases hstep
  case resetClear =>
    split at hstep
    · rename_i wasBusy hr
      split at hstep
      · cases hstep
      · rename_i hb
        obtain rfl := Option.some.inj hstep
        have hfree : s.cleaner.busy = false := by
          cases wasBusy with
          | false => exact h.reset (.inr hr)
          | true => simpa using hb
        exact ⟨resetClear_runInv h.run hfree, fun hr' => by simp at hr'⟩
    · cases hstep
  case resetTimeout =>
    split at hstep
    · obtain rfl := Option.some.inj hstep
      exact ⟨h.run, fun hr' => by simp at hr'⟩
    · cases hstep

theorem booted_inv : Inv ⟨Cleaner.booted, 0, 0, .none⟩ where
  run := ⟨fun _ => ⟨rfl, rfl⟩, fun h => absurd rfl h, Nat.zero_le _, by decide,
    fun h => absurd rfl h, nofun, nofun⟩
  reset _ := rfl

theorem inv_of_reach {ok : CleanerSys → Input → Prop} {s : CleanerSys} (h : machine.Reach ok s) :
    Inv s :=
  h.inv (fun _ hs => hs ▸ booted_inv) fun _ _ _ _ hs _ hstep => step_inv hs hstep

theorem busy_of_resetTimeout {s s' : CleanerSys} (hstep : s.step .resetTimeout = some s')
    (hclear : s.step .resetClear = none) : s.cleaner.busy = true := by
  simp only [step] at hstep hclear
  split at hstep
  · rename_i hwaiting
    by_contra hbusy
    simp [hwaiting, hbusy] at hclear
  · cases hstep

/-- The callers other than the start leave the count of the runs and their results alone. -/
theorem step_history {s s' : CleanerSys} {i : Input} (hworker : ∀ io, i ≠ .worker io)
    (hstart : ∀ maxCycles, i ≠ .start maxCycles) (hstep : s.step i = some s') :
    s'.cleaner.starts = s.cleaner.starts ∧ s'.cleaner.verified = s.cleaner.verified := by
  cases i <;> simp only [step] at hstep
  case worker io => exact absurd rfl (hworker io)
  case start maxCycles => exact absurd rfl (hstart maxCycles)
  case updateCameraTarget | updateGuard | emergencyStop =>
    obtain rfl := Option.some.inj hstep
    exact ⟨rfl, rfl⟩
  case guardOutputs | stopOutputs =>
    split at hstep
    · cases hstep
    · obtain rfl := Option.some.inj hstep
      exact ⟨rfl, rfl⟩
  case resetOutputs | resetTimeout =>
    split at hstep
    · obtain rfl := Option.some.inj hstep
      exact ⟨rfl, rfl⟩
    · cases hstep
  case reset =>
    split at hstep
    · obtain rfl := Option.some.inj hstep
      unfold resetSection
      split <;> exact ⟨rfl, rfl⟩
    · cases hstep
  case resetClear =>
    split at hstep
    · split at hstep
      · cases hstep
      · obtain rfl := Option.some.inj hstep
        exact ⟨rfl, rfl⟩
    · cases hstep

/-- The worker adds at most the run it is on. -/
theorem worker_history {c c' : Cleaner} {io : CleanerIo} (h : RunInv c)
    (hstep : c.workerStep io = some c') :
    c'.starts = c.starts ∧ c.verified ⊆ c'.verified ∧ c'.verified ⊆ c.starts :: c.verified := by
  rcases workerStep_case h hstep with ⟨-, -, hw⟩ | ⟨-, hw⟩ | ⟨result, stopped, -, rfl⟩
  · exact ⟨hw.kept.starts, hw.kept.verified⟩
  · exact ⟨hw.kept.starts, hw.kept.verified⟩
  · exact ⟨rfl, List.Subset.refl _, List.subset_cons_self _ _⟩

/-! ## The runs after a stop -/

def NoStart (s : CleanerSys) : Input → Prop
  | .start maxCycles => (s.cleaner.start maxCycles).2 ≠ RT_EOK
  | _ => True

/-- A call that sets `stop_requested`: an emergency stop, a guard update with `force_stop`, or a
reset while the cleaner is busy. -/
def Stops (s : CleanerSys) : Input → Prop
  | .emergencyStop => True
  | .updateGuard g _ => g.forceStop = true
  | .reset => s.cleaner.busy = true
  | _ => False

/-- The outputs of such a call. -/
def Drives : Input → Prop
  | .stopOutputs _ | .guardOutputs _ | .resetOutputs _ => True
  | _ => False

def zPulses : List CleanerAction → List UInt32 :=
  List.filterMap fun
    | .pose _ zNs => some zNs
    | _ => none

/-- Since `c` the relay was not switched on and no pose was extended further than the one before,
the last pose of `c` included. -/
def Calm (c c' : Cleaner) : Prop :=
  ∀ new, c'.actions = new ++ c.actions → .relay true ∉ new ∧
    (zPulses new ++ (zPulses c.actions).head?.toList).IsChain fun later earlier => earlier ≤ later

/-- A busy cleaner is asked to stop. -/
def Stopped (s : CleanerSys) : Prop := s.cleaner.busy = true → s.cleaner.stopRequested = true

theorem stops_stopped {s s' : CleanerSys} {i : Input} (hi : Stops s i) (hstep : s.step i = some s') :
    Stopped s' := by
  cases i <;> simp only [step] at hstep
  case emergencyStop =>
    obtain rfl := Option.some.inj hstep
    exact fun _ => rfl
  case updateGuard g now =>
    obtain rfl := Option.some.inj hstep
    have hforce : g.forceStop = true := hi
    intro _
    dsimp only [updateGuard]
    split_ifs <;> simp [hforce]
  case reset =>
    have hbusy : s.cleaner.busy = true := hi
    split at hstep
    · obtain rfl := Option.some.inj hstep
      simp [Stopped, resetSection, hbusy, stopSection]
    · cases hstep
  all_goals exact hi.elim

theorem start_refused {c : Cleaner} (h : RunInv c) {maxCycles : UInt8}
    (hres : (c.start maxCycles).2 ≠ RT_EOK) : (c.start maxCycles).1 = c := by
  unfold start at hres ⊢
  split
  · rfl
  · rename_i hb
    obtain ⟨-, hsem⟩ := h.free (by simpa using hb)
    simp [hb, hsem] at hres

theorem busy_of_workerStep {c c' : Cleaner} {io : CleanerIo} (h : RunInv c)
    (hstep : c.workerStep io = some c') : c.busy = true := by
  by_contra hb
  obtain ⟨hidle, hsem⟩ := h.free (by simpa using hb)
  simp [workerStep, hidle, hsem] at hstep

theorem step_stopped {s s' : CleanerSys} {i : Input} (hinv : Inv s) (h : Stopped s)
    (hok : NoStart s i) (hstep : s.step i = some s') : Stopped s' := by
  cases i <;> simp only [step] at hstep
  case worker io =>
    obtain ⟨k, hk, rfl⟩ := Option.map_eq_some_iff.mp hstep
    have hbusy := busy_of_workerStep hinv.run hk
    rcases workerStep_case hinv.run hk with ⟨-, -, hw⟩ | ⟨-, hw⟩ | ⟨result, stopped, -, rfl⟩
    · exact fun _ => hw.kept.stopRequested.trans (h hbusy)
    · exact fun _ => hw.kept.stopRequested.trans (h hbusy)
    · exact fun hb => by cases hb
  case updateGuard g now =>
    obtain rfl := Option.some.inj hstep
    exact fun hb => by simp [updateGuard, h hb]
  case start maxCycles =>
    split at hstep
    · obtain rfl := Option.some.inj hstep
      unfold Stopped
      rw [start_refused hinv.run hok]
      exact h
    · cases hstep
  case reset =>
    split at hstep
    · obtain rfl := Option.some.inj hstep
      unfold resetSection
      split
      · exact fun _ => rfl
      · exact h
    · cases hstep
  case updateCameraTarget | emergencyStop =>
    obtain rfl := Option.some.inj hstep
    first | exact h | exact fun _ => rfl
  case resetOutputs | resetTimeout =>
    split at hstep
    · obtain rfl := Option.some.inj hstep
      exact h
    · cases hstep
  case guardOutputs | stopOutputs =>
    split at hstep
    · cases hstep
    · obtain rfl := Option.some.inj hstep
      exact h
  case resetClear =>
    split at hstep
    · split at hstep
      · cases hstep
      · obtain rfl := Option.some.inj hstep
        exact fun hb => by cases hb
    · cases hstep

/-- What holds from the outputs of a stop, which left `c`, until the next start. -/
structure Held (c : Cleaner) (s : CleanerSys) : Prop where
  stopped : Stopped s
  zPulseNs : s.cleaner.zPulseNs = zRetractNs
  actions : ∃ new, s.cleaner.actions = new ++ c.actions ∧ ∀ a ∈ new, Safe a
  calm : ¬ Hazard s.cleaner.worker

theorem Held.outputs {c : Cleaner} {s : CleanerSys} (h : Held c s) {k : Cleaner}
    (ho : Outputs s.cleaner k) {s' : CleanerSys} (hk : s'.cleaner = k) (hst : Stopped s') :
    Held c s' := by
  subst hk
  obtain ⟨new, hnew, hsafe⟩ := h.actions
  obtain ⟨new', hnew', hsafe', -⟩ := ho.actions
  refine ⟨hst, ho.zPulseNs, ⟨new' ++ new, by rw [hnew', hnew, List.append_assoc], fun a ha => ?_⟩,
    ho.worker ▸ h.calm⟩
  rcases List.mem_append.mp ha with ha | ha
  · exact hsafe' a ha
  · exact hsafe a ha

theorem step_held {c : Cleaner} {s s' : CleanerSys} {i : Input} (hinv : Inv s) (h : Held c s)
    (hok : NoStart s i) (hstep : s.step i = some s') : Held c s' := by
  have hst := step_stopped hinv h.stopped hok hstep
  cases i <;> simp only [step] at hstep
  case worker io =>
    obtain ⟨k, hk, rfl⟩ := Option.map_eq_some_iff.mp hstep
    have hstill : Still c s.cleaner :=
      ⟨h.stopped (busy_of_workerStep hinv.run hk), h.zPulseNs, h.actions⟩
    have hk' := hstill.workerStep hinv.run h.calm hk
    exact ⟨hst, hk'.still.zPulseNs, hk'.still.actions, hk'.calm⟩
  case updateCameraTarget | updateGuard | emergencyStop =>
    obtain rfl := Option.some.inj hstep
    exact ⟨hst, h.zPulseNs, h.actions, h.calm⟩
  case guardOutputs io =>
    split at hstep
    · cases hstep
    · obtain rfl := Option.some.inj hstep
      exact h.outputs (guardOutputs_outputs s.cleaner io) rfl hst
  case stopOutputs io =>
    split at hstep
    · cases hstep
    · obtain rfl := Option.some.inj hstep
      exact h.outputs (stopOutputs_outputs s.cleaner io) rfl hst
  case start maxCycles =>
    split at hstep
    · obtain rfl := Option.some.inj hstep
      refine ⟨hst, ?_, ?_, ?_⟩ <;> rw [start_refused hinv.run hok]
      · exact h.zPulseNs
      · exact h.actions
      · exact h.calm
    · cases hstep
  case reset =>
    split at hstep
    · obtain rfl := Option.some.inj hstep
      revert hst
      unfold resetSection
      split
      · exact fun hst => ⟨hst, h.zPulseNs, h.actions, h.calm⟩
      · exact fun hst => ⟨hst, h.zPulseNs, h.actions, h.calm⟩
    · cases hstep
  case resetOutputs io =>
    split at hstep
    · obtain rfl := Option.some.inj hstep
      exact h.outputs (stopOutputs_outputs s.cleaner io) rfl hst
    · cases hstep
  case resetClear =>
    split at hstep
    · split at hstep
      · cases hstep
      · obtain rfl := Option.some.inj hstep
        exact ⟨hst, h.zPulseNs, h.actions, h.calm⟩
    · cases hstep
  case resetTimeout =>
    split at hstep
    · obtain rfl := Option.some.inj hstep
      exact ⟨hst, h.zPulseNs, h.actions, h.calm⟩
    · cases hstep

/-! ## Calm -/

theorem zPulses_safe {new : List CleanerAction} (h : ∀ a ∈ new, Safe a) {zNs : UInt32}
    (hz : zNs ∈ zPulses new) : zNs = zRetractNs := by
  obtain ⟨a, ha, hsome⟩ := List.mem_filterMap.mp hz
  have hsafe := h a ha
  cases a with
  | pose yNs z => exact (Option.some.inj hsome).symm.trans hsafe
  | relay on => cases hsome
  | axis => cases hsome

theorem zPulses_append (new old : List CleanerAction) :
    zPulses (new ++ old) = zPulses new ++ zPulses old :=
  List.filterMap_append

theorem outputs_head {c k : Cleaner} (h : Outputs c k) :
    (zPulses k.actions).head? = some zRetractNs := by
  obtain ⟨new, hnew, hsafe, yNs, hpose⟩ := h.actions
  have hmem : zRetractNs ∈ zPulses new := List.mem_filterMap.mpr ⟨_, hpose, rfl⟩
  rw [hnew, zPulses_append]
  cases hz : zPulses new with
  | nil => simp [hz] at hmem
  | cons z zs => simp [zPulses_safe hsafe (hz ▸ List.mem_cons_self : z ∈ zPulses new)]

theorem Held.calm_since {c : Cleaner} {s : CleanerSys} (h : Held c s)
    (hc : (zPulses c.actions).head? = some zRetractNs) : Calm c s.cleaner := by
  intro new hnew
  obtain ⟨safe, hsafe, hall⟩ := h.actions
  obtain rfl : safe = new := List.append_cancel_right (hsafe.symm.trans hnew)
  refine ⟨fun hon => Bool.noConfusion (hall _ hon), ?_⟩
  have hretract : ∀ z ∈ zPulses safe ++ (zPulses c.actions).head?.toList, z = zRetractNs := by
    intro z hz
    rcases List.mem_append.mp hz with hz | hz
    · exact zPulses_safe hall hz
    · simpa [hc] using hz
  refine List.Pairwise.isChain (List.pairwise_of_forall_mem_list fun a ha b hb => ?_)
  rw [hretract a ha, hretract b hb]
  exact UInt32.le_refl _

/-- From the last chunk of the spray delay the worker goes on to scrub, under a guard that is fresh
and sees nothing near. -/
theorem sprayed_relay {c : Cleaner} (hstop : c.stopRequested = true) {baseYNs : UInt32}
    (hpc : c.worker = .spray 0 baseYNs) :
    ∃ k, (c.updateGuard ⟨100, true, false, false, 1⟩ 1).workerStep { now := 1 } = some k ∧
      k.actions = .relay false :: .relay true :: .relay false :: c.actions := by
  have hguard : ∀ c' : Cleaner, c'.guard = ⟨100, true, false, false, 1⟩ →
      c'.guardForcesRetract { now := 1 } true = false := by
    intro c' hc'
    rw [guardForcesRetract, hc']
    decide
  refine ⟨_, by rw [workerStep]; simp only [updateGuard, hpc]; rfl, ?_⟩
  rw [sprayDelay, if_pos rfl, sprayed, if_neg (by decide), if_neg, scrub, scrubLoop, if_pos, scrubbed,
    if_pos (by decide), cycleEnded, if_pos (.inr rfl)]
  · rfl
  · simp [relay, setState, act, hstop]
  · rw [Bool.not_eq_true]
    exact hguard _ rfl

theorem ramp_pose {c : Cleaner} {zNs : UInt32} {after : AfterRetract} (hpc : c.worker = .ramp zNs after)
    (hz : zNs + zStepNs * 2 < zRetractNs) (hle : zNs ≤ zRetractNs) :
    ∃ k z, c.workerStep { now := 0 } = some k ∧ z < zRetractNs ∧
      k.actions = .pose (clampU32 ySafeNs yMinNs yMaxNs) z :: c.actions := by
  have hmove : clampU32 (moveToward zNs zRetractNs (zStepNs * 2)) zExtendNs zRetractNs < zRetractNs := by
    have hlt := UInt32.lt_iff_toNat_lt.mp hz
    have hbelow := UInt32.le_iff_toNat_le.mp hle
    have hretract : zRetractNs.toNat = 2200000 := rfl
    have hextend : zExtendNs.toNat = 1000000 := rfl
    have hstep : (zStepNs * 2).toNat = 24000 := rfl
    rw [UInt32.toNat_add, hstep] at hlt
    have hmove := toNat_moveToward zNs zRetractNs (zStepNs * 2) fun _ => by omega
    rw [Approach.toward_of_lt (by omega)] at hmove
    have hclamp := toNat_clampU32 (show zExtendNs ≤ zRetractNs by decide)
      (moveToward zNs zRetractNs (zStepNs * 2))
    unfold clampInt at hclamp
    rw [UInt32.lt_iff_toNat_lt]
    omega
  refine ⟨_, _, by rw [workerStep, hpc], hmove, ?_⟩
  have hne : zNs ≠ zRetractNs := by
    rintro rfl
    exact absurd hz (by decide)
  rw [rampLoop, if_neg hne]
  rfl

theorem not_calm_spray {s : CleanerSys} (hstop : s.cleaner.stopRequested = true) {baseYNs : UInt32}
    (hpc : s.cleaner.worker = .spray 0 baseYNs) :
    ∃ s', machine.Run NoStart s s' ∧ ¬ Calm s.cleaner s'.cleaner := by
  obtain ⟨k, hk, hact⟩ := sprayed_relay hstop hpc
  have hupdate : machine.step s (.updateGuard ⟨100, true, false, false, 1⟩ 1) =
      some { s with cleaner := s.cleaner.updateGuard ⟨100, true, false, false, 1⟩ 1 } := rfl
  refine ⟨{ s with cleaner := k }, .step (.worker { now := 1 }) (.single (by trivial) hupdate) (by trivial) ?_,
    fun hcalm => ?_⟩
  · simp [machine, step, hk]
  · exact (hcalm [.relay false, .relay true, .relay false] hact).1 (by simp)

theorem not_calm_ramp {s : CleanerSys} (hinv : Inv s) {zNs : UInt32} {after : AfterRetract}
    (hpc : s.cleaner.worker = .ramp zNs after) (hz : zNs + zStepNs * 2 < zRetractNs)
    (hhead : (zPulses s.cleaner.actions).head? = some zRetractNs) :
    ∃ s', machine.Run NoStart s s' ∧ ¬ Calm s.cleaner s'.cleaner := by
  have hle : zNs ≤ zRetractNs := by
    have hreached := hinv.run.reached (by simp [hpc])
    rw [hpc] at hreached
    exact hreached
  obtain ⟨k, z, hk, hlt, hact⟩ := ramp_pose hpc hz hle
  have hstep : machine.step s (.worker { now := 0 }) = some { s with cleaner := k } := by
    simp [machine, step, hk]
  refine ⟨_, .single (by trivial) hstep, fun hcalm => ?_⟩
  have hchain := (hcalm [.pose _ z] hact).2
  rw [hhead] at hchain
  have hge : zRetractNs ≤ z := by simpa [zPulses] using hchain
  exact absurd hlt (UInt32.not_lt.mpr hge)

theorem drives_outputs {s s' : CleanerSys} {j : Input} (hj : Drives j) (hstep : s.step j = some s') :
    Outputs s.cleaner s'.cleaner := by
  cases j <;> simp only [step] at hstep
  case stopOutputs io =>
    split at hstep
    · cases hstep
    · exact Option.some.inj hstep ▸ stopOutputs_outputs _ io
  case guardOutputs io =>
    split at hstep
    · cases hstep
    · exact Option.some.inj hstep ▸ guardOutputs_outputs _ io
  case resetOutputs io =>
    split at hstep
    · exact Option.some.inj hstep ▸ stopOutputs_outputs _ io
    · cases hstep
  all_goals exact hj.elim

theorem run_stopped {s s' : CleanerSys} (hinv : Inv s) (h : Stopped s)
    (hrun : machine.Run NoStart s s') : Inv s' ∧ Stopped s' :=
  hrun.inv (P := fun s => Inv s ∧ Stopped s) ⟨hinv, h⟩ fun _ _ _ _ ⟨hinv, h⟩ hok hstep =>
    ⟨step_inv hinv hstep, step_stopped hinv h hok hstep⟩

theorem run_held {s₀ s s' : CleanerSys} (hinv : Inv s) (h : Held s₀.cleaner s)
    (hrun : machine.Run NoStart s s') : Inv s' ∧ Held s₀.cleaner s' :=
  hrun.inv (P := fun s => Inv s ∧ Held s₀.cleaner s) ⟨hinv, h⟩ fun _ _ _ _ ⟨hinv, h⟩ hok hstep =>
    ⟨step_inv hinv hstep, step_held hinv h hok hstep⟩

/-- **Where a stop holds.** A call sets `stop_requested` (`s₀` to `s₁`) and, with no successful
start in between, the outputs of a stop are driven (`s₂` to `s₃`). From then until the next
successful start the relay stays off and no pose extends the brush, whatever the worker and the
callers do, exactly if the worker was at no hazard. -/
theorem stop_calm_iff {s₀ s₁ s₂ s₃ : CleanerSys} {i j : Input} (h : machine.Reach Machine.free s₀)
    (hi : Stops s₀ i) (hset : machine.step s₀ i = some s₁) (hrun : machine.Run NoStart s₁ s₂)
    (hj : Drives j) (hdrive : machine.step s₂ j = some s₃) :
    (∀ s₄, machine.Run NoStart s₃ s₄ → Calm s₃.cleaner s₄.cleaner) ↔ ¬ Hazard s₂.cleaner.worker := by
  obtain ⟨hinv, hstopped⟩ := run_stopped (step_inv (inv_of_reach h) hset) (stops_stopped hi hset) hrun
  have hout := drives_outputs hj hdrive
  have hinv₃ := step_inv hinv hdrive
  have hstopped₃ : Stopped s₃ := fun hb => by
    rw [hout.stopRequested]
    exact hstopped (hout.busy ▸ hb)
  rw [← hout.worker]
  constructor
  · intro hcalm hhazard
    have hbusy : s₃.cleaner.busy = true := by
      refine hinv₃.run.busy_of_running fun hidle => ?_
      rw [hidle] at hhazard
      exact hhazard
    cases hpc : s₃.cleaner.worker with
    | spray left baseYNs =>
      rw [hpc] at hhazard
      obtain rfl : left = 0 := hhazard
      obtain ⟨s₄, h₄, hnot⟩ := not_calm_spray (hstopped₃ hbusy) hpc
      exact hnot (hcalm s₄ h₄)
    | ramp zNs after =>
      rw [hpc] at hhazard
      obtain ⟨s₄, h₄, hnot⟩ := not_calm_ramp hinv₃ hpc hhazard (outputs_head hout)
      exact hnot (hcalm s₄ h₄)
    | _ =>
      rw [hpc] at hhazard
      exact hhazard
  · intro hcalm s₄ h₄
    have hheld : Held s₃.cleaner s₃ := ⟨hstopped₃, hout.zPulseNs, ⟨[], rfl, nofun⟩, hcalm⟩
    exact (run_held hinv₃ hheld h₄).2.calm_since (outputs_head hout)

/-- A wall in reach, seen at a tick. -/
abbrev wall (tick : Tick) : CleanerGuard := ⟨60, true, false, false, tick⟩

/-- A cleaner that aims at a stain, extends and sprays, 40 ms a chunk, up to its `chunks`th chunk. -/
def sprayRun (chunks : Nat) : List Input :=
  [.updateGuard (wall 1000) 1000, .updateCameraTarget ⟨HCICS_CAM_MODE_CLEAN, 320, 350, 20, 1, true, 1000⟩ 1000,
    .start 0, .worker { now := 1000 }, .worker { now := 1020 }, .worker { now := 1040 }] ++
  (List.range chunks).flatMap fun n =>
    [.updateGuard (wall (1060 + 40 * UInt32.ofNat n)) 0, .worker { now := 1080 + 40 * UInt32.ofNat n }]

/-- A guard update and the worker's next step. -/
def wakeUp : List Input := [.updateGuard (wall 1950) 1950, .worker { now := 1960 }]

/-- The spray is in its last 20 ms. -/
def lastChunk : CleanerSys := (machine.exec ⟨booted, 0, 0, .none⟩ (sprayRun 22)).get (by decide +kernel)

/-- An emergency stop has set the flag there. -/
def stopping : CleanerSys := (machine.step lastChunk .emergencyStop).get (by decide +kernel)

/-- Its outputs are driven. -/
def stopped : CleanerSys :=
  (machine.step stopping (.stopOutputs { now := 1950 })).get (by decide +kernel)

/-- The worker wakes up. -/
def woken : CleanerSys := (machine.exec stopped wakeUp).get (by decide +kernel)

theorem run_wakeUp {s s' : CleanerSys} (h : machine.exec s wakeUp = some s') :
    machine.Run NoStart s s' :=
  .of_exec wakeUp h ⟨trivial, fun _ _ => ⟨trivial, fun _ _ => trivial⟩⟩

/-- An emergency stop in the last 20 ms of the spray switches the relay off, and after the delay the
worker goes on to scrub and switches it on again. -/
theorem stop_not_calm :
    machine.Reach Machine.free lastChunk ∧
      machine.step lastChunk .emergencyStop = some stopping ∧
      machine.step stopping (.stopOutputs { now := 1950 }) = some stopped ∧
      machine.Run NoStart stopped woken ∧ stopped.cleaner.relayOn = false ∧
      woken.cleaner.actions =
        .relay false :: .relay true :: .relay false :: stopped.cleaner.actions ∧
      ¬ Calm stopped.cleaner woken.cleaner := by
  have hact : woken.cleaner.actions =
      [.relay false, .relay true, .relay false] ++ stopped.cleaner.actions := by decide +kernel
  exact ⟨.get rfl _, (Option.some_get _).symm, (Option.some_get _).symm,
    run_wakeUp (Option.some_get _).symm, by decide +kernel, hact,
    fun h => absurd (h _ hact).1 (by decide)⟩

/-- One chunk earlier the stop holds. -/
theorem stop_calm_iff_chunk :
    let s₀ := (machine.exec ⟨booted, 0, 0, .none⟩ (sprayRun 21)).get rfl
    let s₁ := (machine.step s₀ .emergencyStop).get rfl
    let s₃ := (machine.step s₁ (.stopOutputs { now := 1950 })).get rfl
    s₀.cleaner.worker = .spray 20 1550000 ∧
      ∀ s₄, machine.Run NoStart s₃ s₄ → Calm s₃.cleaner s₄.cleaner := by
  intro s₀ s₁ s₃
  have h : machine.Reach Machine.free s₀ := .get rfl rfl
  have hpc : s₁.cleaner.worker = .spray 20 1550000 := rfl
  have hcalm : ¬ Hazard s₁.cleaner.worker := by
    rw [hpc]
    exact show (20 : UInt32) ≠ 0 by decide
  have hset : machine.step s₀ .emergencyStop = some s₁ := rfl
  have hdrive : machine.step s₁ (.stopOutputs { now := 1950 }) = some s₃ := rfl
  exact ⟨rfl, (stop_calm_iff h (by trivial) hset .refl (by trivial) hdrive).mpr hcalm⟩

end CleanerSys

end Hcics
