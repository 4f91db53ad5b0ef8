import Hcics.Cleaner.Stop
import Hcics.Guard.Spec

/-!
# The guard and the cleaner

`GuardSys` is the guard thread next to every other thread of the cleaner: the thread reads a
distance, counts the failures, and publishes; the steps of the cleaner and of its callers come in
between, also between the parts of one sample. `hcics_cleaner_update_guard` has no other caller.

`stepped` says once what a step does. The samples are guard updates of the cleaner
(`cleaner_simulation`), and what its other threads leave alone is `step_keeps`. `Latched` says what
the cleaner stores after any samples.
-/

namespace Hcics

/-- A sample: a usable distance with the time it was published at, or a failure. -/
inductive Sample where
  | usable (mm : UInt16) (tick : Tick)
  | failed
  deriving DecidableEq, Repr

namespace Sample

def isFailed : Sample → Bool
  | .usable _ _ => false
  | .failed => true

/-- How many of the last samples failed in a row; the history is newest first. -/
def failures (samples : List Sample) : ℕ := (samples.takeWhile isFailed).length

/-- The last usable distance, and when it was published. -/
def last? (samples : List Sample) : Option (UInt16 × Tick) :=
  samples.findSome? fun
    | .usable mm tick => some (mm, tick)
    | .failed => none

variable {samples : List Sample} {mm : UInt16} {tick : Tick}

@[simp] theorem failures_nil : failures [] = 0 := rfl

@[simp] theorem failures_usable : failures (.usable mm tick :: samples) = 0 := rfl

@[simp] theorem failures_failed : failures (.failed :: samples) = failures samples + 1 := rfl

@[simp] theorem last?_usable : last? (.usable mm tick :: samples) = some (mm, tick) := rfl

@[simp] theorem last?_failed : last? (.failed :: samples) = last? samples := rfl

theorem three_le_failures : 3 ≤ failures samples ↔
    ∃ rest, samples = .failed :: .failed :: .failed :: rest := by
  constructor
  · intro h
    rcases samples with _ | ⟨_ | _, _ | ⟨_ | _, _ | ⟨_ | _, rest⟩⟩⟩
    all_goals first | exact ⟨_, rfl⟩ | simp at h
  · rintro ⟨rest, rfl⟩
    simp

end Sample

/-- Where the guard thread is in `hcics_guard_sample_once`. -/
inductive GuardPc where
  | idle
  /-- In `hcics_guard_publish`, before the clock is read. -/
  | publish (distanceMm : UInt16) (tofValid forceStop : Bool)
  /-- Before the section of `hcics_cleaner_update_guard`. -/
  | update (distanceMm : UInt16) (tofValid forceStop : Bool) (tick : Tick)
  deriving DecidableEq, Repr

/-- The guard with the cleaner; `samples` are those taken since the guard was initialised, newest
first. -/
structure GuardSys (σ : Type) where
  probe : Probe σ
  pc : GuardPc
  sys : CleanerSys
  samples : List Sample
  deriving DecidableEq, Repr

namespace GuardSys

variable {σ ι : Type}

/-- A step of the guard thread, or of another thread. `read` is `hcics_guard_read_distance` with the
transfers it makes, up to the counter; safe outputs that follow an update are the cleaner's
`guardOutputs`, and come before the next sample. -/
inductive Input (ι : Type) where
  | read (is : List ι)
  | publish (now : Tick)
  | update (now : Tick)
  | cleaner (i : CleanerSys.Input)

/-- The time a guard is published at: `hcics_cleaner_update_guard` reads the clock again where the
tick is 0. -/
def publicationTime (tick now : Tick) : Tick := if tick = 0 then now else tick

/-- What comes after a distance was read, in `hcics_guard_sample_once`. -/
def afterRead (s : GuardSys σ) (probe : Probe σ) (result : RtErr) (distance : UInt16) : GuardSys σ :=
  if Guard.usable result distance then
    { s with probe := { probe with ctx := probe.ctx.succeeded }, pc := .publish distance true false }
  else
    let ctx := probe.ctx.failed
    if ctx.readErrors ≥ Guard.maxReadErrors then
      { s with probe := { probe with ctx := ctx }, pc := .publish Cleaner.tofInvalidMm false true }
    else { s with probe := { probe with ctx := ctx }, samples := .failed :: s.samples }

variable (B : I2cBus σ ι)

def step (s : GuardSys σ) : Input ι → Option (GuardSys σ)
  | .read is =>
    if s.pc ≠ .idle ∨ s.sys.guards ≠ 0 then none
    else
      match Guard.readDistance B Cleaner.tofInvalidMm s.probe is with
      | (some (result, distance), probe, []) => some (s.afterRead probe result distance)
      | _ => none
  | .publish now =>
    match s.pc with
    | .publish distance valid force => some { s with pc := .update distance valid force now }
    | _ => none
  | .update now =>
    match s.pc with
    | .update distance valid force tick =>
      (s.sys.step (.updateGuard (Guard.record distance valid force tick) now)).map fun sys =>
        { s with
          sys := sys
          pc := .idle
          samples := (if valid then .usable distance (publicationTime tick now) else .failed) ::
            s.samples }
    | _ => none
  | .cleaner (.updateGuard _ _) => none
  | .cleaner i => (s.sys.step i).map fun sys => { s with sys := sys }

/-- The guard from the initialisation of its context on, with a cleaner that is initialised. -/
def machine : Machine (GuardSys σ) (Input ι) where
  start s := s.probe.ctx.readErrors = 0 ∧ s.pc = .idle ∧ s.sys = ⟨Cleaner.booted, 0, 0, .none⟩ ∧
    s.samples = []
  step := step B

/-! ## What a step does -/

inductive Stepped (s : GuardSys σ) : Input ι → GuardSys σ → Prop where
  | read {is : List ι} {probe : Probe σ} (result : RtErr) (distance : UInt16) (idle : s.pc = .idle)
      (ctx : probe.ctx = s.probe.ctx) : Stepped s (.read is) (s.afterRead probe result distance)
  | publish {distance : UInt16} {valid force : Bool} {now : Tick}
      (pc : s.pc = .publish distance valid force) :
      Stepped s (.publish now) { s with pc := .update distance valid force now }
  | update {distance : UInt16} {valid force : Bool} {tick now : Tick} {sys : CleanerSys}
      (pc : s.pc = .update distance valid force tick)
      (step : s.sys.step (.updateGuard (Guard.record distance valid force tick) now) = some sys) :
      Stepped s (.update now) { s with
        sys := sys
        pc := .idle
        samples := (if valid then .usable distance (publicationTime tick now) else .failed) ::
          s.samples }
  | cleaner {i : CleanerSys.Input} {sys : CleanerSys} (other : ∀ guard now, i ≠ .updateGuard guard now)
      (step : s.sys.step i = some sys) : Stepped s (.cleaner i) { s with sys := sys }

variable {B : I2cBus σ ι}

theorem stepped {s t : GuardSys σ} {i : Input ι} (hstep : step B s i = some t) : s.Stepped i t := by
  cases i with
  | read is =>
    simp only [step] at hstep
    split at hstep
    · cases hstep
    · next hfree =>
      have hpc : s.pc = .idle := by
        by_contra hne
        exact hfree (.inl hne)
      split at hstep
      · next result distance probe hread =>
        cases hstep
        have hkept := (Guard.kept_ctx B s.probe.ctx).readDistance Cleaner.tofInvalidMm s.probe is rfl
        exact .read result distance hpc (hkept.1 _ _ _ hread)
      · cases hstep
  | publish now =>
    simp only [step] at hstep
    split at hstep
    · next d v f hpc =>
      cases hstep
      exact .publish hpc
    · cases hstep
  | update now =>
    simp only [step] at hstep
    split at hstep
    · next d v f tick hpc =>
      obtain ⟨sys, hsys, rfl⟩ := Option.map_eq_some_iff.mp hstep
      exact .update hpc hsys
    · cases hstep
  | cleaner i =>
    have hother : ∀ guard now, i ≠ .updateGuard guard now := by
      rintro guard now rfl
      cases hstep
    have hsome : (s.sys.step i).map (fun sys => { s with sys := sys }) = some t := by
      cases i with
      | updateGuard guard now => exact absurd rfl (hother guard now)
      | _ => exact hstep
    obtain ⟨sys, hsys, rfl⟩ := Option.map_eq_some_iff.mp hsome
    exact .cleaner hother hsys

theorem afterRead_sys (s : GuardSys σ) (probe : Probe σ) (result : RtErr) (distance : UInt16) :
    (s.afterRead probe result distance).sys = s.sys := by
  unfold afterRead
  split
  · rfl
  · dsimp only
    split <;> rfl

/-- The cleaner follows every run of the guard: its samples are guard updates of the cleaner. -/
theorem cleaner_simulation (ok : GuardSys σ → Input ι → Prop) :
    (machine B).Simulation CleanerSys.machine ok Machine.free fun s c => s.sys = c where
  start := by
    rintro s ⟨-, -, hsys, -⟩
    exact ⟨s.sys, hsys, rfl⟩
  step := by
    rintro s i t _ - rfl - hstep
    cases stepped hstep with
    | read result distance => exact ⟨s.sys, .refl, afterRead_sys s _ result distance⟩
    | publish => exact ⟨s.sys, .refl, rfl⟩
    | update pc step => exact ⟨_, .single (i := .updateGuard _ _) trivial step, rfl⟩
    | cleaner other step => exact ⟨_, .single trivial step, rfl⟩

/-! ## What the other threads leave alone -/

/-- `k` has the guard and the stop flag of `c`. -/
structure Keeps (c k : Cleaner) : Prop where
  guard : k.guard = c.guard
  stopRequested : k.stopRequested = c.stopRequested
  zPulseNs : k.zPulseNs ≤ Cleaner.zRetractNs

theorem Keeps.applyPose {c k : Cleaner} (h : Keeps c k) (io : CleanerIo) (yNs zNs : UInt32) :
    Keeps c (k.applyPose io yNs zNs).1 :=
  ⟨h.guard, h.stopRequested, Cleaner.clampU32_le (by decide)⟩

theorem Keeps.safeOutputs {c k : Cleaner} (h : Keeps c k) (io : CleanerIo) :
    Keeps c (k.safeOutputs io).1 := by
  have hrelay : Keeps c ((k.relay false).axis io).1 := ⟨h.guard, h.stopRequested, h.zPulseNs⟩
  exact hrelay.applyPose io _ _

theorem keeps_closed (c : Cleaner) : Cleaner.Closed (Keeps c) where
  setState _ _ _ h := ⟨h.guard, h.stopRequested, h.zPulseNs⟩
  relay _ _ h := ⟨h.guard, h.stopRequested, h.zPulseNs⟩
  axis _ _ h := ⟨h.guard, h.stopRequested, h.zPulseNs⟩
  applyPose _ io yNs zNs h := h.applyPose io yNs zNs
  cycle _ _ _ _ h := ⟨h.guard, h.stopRequested, h.zPulseNs⟩
  verified _ h := ⟨h.guard, h.stopRequested, h.zPulseNs⟩
  zPulseNs _ h := h.zPulseNs

theorem Keeps.of_ends {c k : Cleaner} (h : Cleaner.Ends (Keeps c) k) : Keeps c k := by
  cases h with
  | cut hk _ _ => exact ⟨hk.guard, hk.stopRequested, hk.zPulseNs⟩
  | ended hk _ => exact ⟨hk.guard, hk.stopRequested, hk.zPulseNs⟩

theorem workerStep_keeps {c k : Cleaner} {io : CleanerIo} (hinv : Cleaner.RunInv c)
    (hstep : c.workerStep io = some k) : Keeps c k := by
  have h : Keeps c c := ⟨rfl, rfl, hinv.zPulseNs⟩
  rcases Cleaner.inMission_cases c.worker with hin | hpc | ⟨result, hpc⟩ | ⟨result, stopped, hpc⟩ |
    ⟨result, stopped, hpc⟩
  · have hrun : c.worker ≠ .idle := by
      intro hpc
      rw [hpc] at hin
      exact hin
    exact .of_ends ((keeps_closed c).workerStep h hin (hinv.reached hrun) hstep)
  all_goals rw [Cleaner.workerStep, hpc] at hstep
  · dsimp only at hstep
    split at hstep
    · cases hstep
    · obtain rfl := Option.some.inj hstep
      have htaken : Keeps c { c with startSem := c.startSem - 1 } := ⟨rfl, rfl, hinv.zPulseNs⟩
      have hsafe := htaken.safeOutputs io
      unfold Cleaner.beginRun
      dsimp only
      split
      · exact ⟨hsafe.guard, hsafe.stopRequested, hsafe.zPulseNs⟩
      · exact .of_ends ((keeps_closed c).nextCycle ((keeps_closed c).cycle _ _ _ _ hsafe))
  · obtain rfl := Option.some.inj hstep
    exact ⟨rfl, rfl, hinv.zPulseNs⟩
  · obtain rfl := Option.some.inj hstep
    have hsafe := h.safeOutputs io
    exact ⟨hsafe.guard, hsafe.stopRequested, hsafe.zPulseNs⟩
  · obtain rfl := Option.some.inj hstep
    exact ⟨rfl, rfl, hinv.zPulseNs⟩

/-- An accepted start or a completed reset, which take `stop_requested` back. -/
def Releases (s : CleanerSys) : CleanerSys.Input → Prop
  | .start maxCycles => (s.cleaner.start maxCycles).2 = RT_EOK
  | .resetClear => True
  | _ => False

theorem start_guard (c : Cleaner) (maxCycles : UInt8) : (c.start maxCycles).1.guard = c.guard := by
  unfold Cleaner.start
  by_cases hbusy : c.busy = true
  · rw [if_pos hbusy]
  · rw [if_neg hbusy]
    dsimp only
    by_cases hsem : c.startSem ≥ Cleaner.semValueMax
    · rw [if_pos hsem]
      rfl
    · rw [if_neg hsem]

/-- The steps of the cleaner and its callers leave the stored guard alone, and keep the stop request
but for an accepted start and a completed reset. -/
theorem step_keeps {s t : CleanerSys} {i : CleanerSys.Input} (hinv : CleanerSys.Inv s)
    (hi : ∀ guard now, i ≠ .updateGuard guard now) (hstep : s.step i = some t) :
    t.cleaner.guard = s.cleaner.guard ∧
    (¬ Releases s i → s.cleaner.stopRequested = true → t.cleaner.stopRequested = true) := by
  cases i <;> simp only [CleanerSys.step] at hstep
  case worker io =>
    obtain ⟨k, hk, rfl⟩ := Option.map_eq_some_iff.mp hstep
    have hkeeps := workerStep_keeps hinv.run hk
    exact ⟨hkeeps.guard, fun _ hs => hkeeps.stopRequested.trans hs⟩
  case updateGuard guard now => exact absurd rfl (hi guard now)
  case start maxCycles =>
    split at hstep
    · obtain rfl := Option.some.inj hstep
      refine ⟨?_, fun hrefused hs => ?_⟩
      · exact start_guard s.cleaner maxCycles
      · rw [CleanerSys.start_refused hinv.run hrefused]
        exact hs
    · cases hstep
  case reset =>
    split at hstep
    · obtain rfl := Option.some.inj hstep
      unfold Cleaner.resetSection
      split
      · exact ⟨rfl, fun _ _ => rfl⟩
      · exact ⟨rfl, fun _ hs => hs⟩
    · cases hstep
  case resetClear =>
    refine ⟨?_, fun hrel => absurd trivial hrel⟩
    split at hstep
    · split at hstep
      · cases hstep
      · obtain rfl := Option.some.inj hstep
        rfl
    · cases hstep
  case updateCameraTarget target now =>
    obtain rfl := Option.some.inj hstep
    exact ⟨rfl, fun _ hs => hs⟩
  case emergencyStop =>
    obtain rfl := Option.some.inj hstep
    exact ⟨rfl, fun _ _ => rfl⟩
  case guardOutputs io | stopOutputs io =>
    split at hstep
    · cases hstep
    · obtain rfl := Option.some.inj hstep
      exact ⟨rfl, fun _ hs => hs⟩
  case resetOutputs io | resetTimeout =>
    split at hstep
    · obtain rfl := Option.some.inj hstep
      exact ⟨rfl, fun _ hs => hs⟩
    · cases hstep

/-! ## What the cleaner stores -/

open Sample (failures last?)

structure Stored (guard : CleanerGuard) (samples : List Sample) : Prop where
  force : guard.forceStop = true ↔ 3 ≤ failures samples
  valid : guard.tofValid = true ↔ (last? samples).isSome = true ∧ failures samples < 3
  last : guard.tofValid = true → last? samples = some (guard.tofMm, guard.tick)

theorem Stored.failed {guard : CleanerGuard} {samples : List Sample} (h : Stored guard samples)
    (hfew : failures samples + 1 < 3) : Stored guard (.failed :: samples) := by
  obtain ⟨hforce, hvalid, hlast⟩ := h
  refine ⟨?_, ?_, hlast⟩
  · rw [hforce, Sample.failures_failed]
    omega
  · rw [hvalid, Sample.last?_failed, Sample.failures_failed]
    refine and_congr_right fun _ => ?_
    omega

theorem updateGuard_guard (c : Cleaner) {distance : UInt16} {valid force : Bool} {tick now : Tick}
    (husable : valid = true → distance ≠ Cleaner.tofInvalidMm) :
    (c.updateGuard (Guard.record distance valid force tick) now).guard =
      { Guard.record distance valid force tick with tick := publicationTime tick now } := by
  unfold Cleaner.updateGuard publicationTime Guard.record
  cases valid with
  | true =>
    have hne := husable rfl
    by_cases htick : tick = 0 <;> simp [htick, hne]
  | false => by_cases htick : tick = 0 <;> simp [htick]

theorem Stored.usable (samples : List Sample) (distance : UInt16) (tick now : Tick) :
    Stored { Guard.record distance true false tick with tick := publicationTime tick now }
      (.usable distance (publicationTime tick now) :: samples) := by
  refine ⟨?_, ?_, fun _ => rfl⟩ <;> simp [Guard.record]

theorem Stored.forced {samples : List Sample} (h : 3 ≤ failures samples + 1) (distance : UInt16)
    (tick : Tick) (time : Tick) :
    Stored { Guard.record distance false true tick with tick := time } (.failed :: samples) := by
  refine ⟨?_, ?_, fun hvalid => ?_⟩
  · rw [Sample.failures_failed]
    simp [Guard.record, h]
  · rw [Sample.failures_failed]
    simp only [Guard.record, Bool.false_eq_true, false_iff]
    omega
  · cases hvalid

/-- What the guard thread is about to publish, and the counter. -/
def Publishes (s : GuardSys σ) (distance : UInt16) (valid force : Bool) : Prop :=
  (valid = true ∧ force = false ∧ s.probe.ctx.readErrors = 0 ∧ distance ≠ Cleaner.tofInvalidMm) ∨
  (valid = false ∧ force = true ∧
    s.probe.ctx.readErrors.toNat = min 255 (failures s.samples + 1) ∧ 3 ≤ failures s.samples + 1)

/-- The invariant: the stored guard is that of the samples, and the counter is that of the failures,
up to where it saturates. -/
structure Latched (s : GuardSys σ) : Prop where
  inv : CleanerSys.Inv s.sys
  stored : Stored s.sys.cleaner.guard s.samples
  idle : s.pc = .idle → s.probe.ctx.readErrors.toNat = min 255 (failures s.samples)
  publish : ∀ distance valid force, s.pc = .publish distance valid force →
    s.Publishes distance valid force
  update : ∀ distance valid force tick, s.pc = .update distance valid force tick →
    s.Publishes distance valid force

theorem failed_readErrors (g : GuardContext) :
    g.failed.readErrors.toNat = min 255 (g.readErrors.toNat + 1) := by
  have hlt := g.readErrors.toNat_lt
  unfold GuardContext.failed
  by_cases hmax : g.readErrors < 0xFF
  · have hmax' : g.readErrors.toNat < 255 := UInt8.lt_iff_toNat_lt.mp hmax
    rw [if_pos hmax, UInt8.toNat_add, UInt8.toNat_one]
    omega
  · have hmax' : ¬ g.readErrors.toNat < 255 := fun h => hmax (UInt8.lt_iff_toNat_lt.mpr h)
    rw [if_neg hmax]
    omega

theorem Latched.afterRead {s : GuardSys σ} (h : Latched s) (hpc : s.pc = .idle) {probe : Probe σ}
    (hctx : probe.ctx = s.probe.ctx) (result : RtErr) (distance : UInt16) :
    Latched (s.afterRead probe result distance) := by
  have hcount := h.idle hpc
  have hfailed := failed_readErrors probe.ctx
  rw [hctx, hcount] at hfailed
  unfold GuardSys.afterRead
  by_cases husable : Guard.usable result distance = true
  · rw [if_pos husable]
    have hne : distance ≠ Cleaner.tofInvalidMm := by
      unfold Guard.usable at husable
      simp only [Bool.and_eq_true, decide_eq_true_eq] at husable
      exact husable.2
    refine ⟨h.inv, h.stored, (fun hidle => by cases hidle), ?_, fun _ _ _ _ hupd => by cases hupd⟩
    intro d v f hpub
    cases hpub
    exact .inl ⟨rfl, rfl, rfl, hne⟩
  · rw [if_neg husable]
    have hlimit : probe.ctx.failed.readErrors ≥ Guard.maxReadErrors ↔
        3 ≤ failures s.samples + 1 := by
      rw [ge_iff_le, UInt8.le_iff_toNat_le, hctx, hfailed]
      show 3 ≤ _ ↔ _
      omega
    dsimp only
    by_cases hmany : probe.ctx.failed.readErrors ≥ Guard.maxReadErrors
    · rw [if_pos hmany]
      refine ⟨h.inv, h.stored, (fun hidle => by cases hidle), ?_, fun _ _ _ _ hupd => by cases hupd⟩
      intro d v f hpub
      cases hpub
      refine .inr ⟨rfl, rfl, ?_, hlimit.mp hmany⟩
      show probe.ctx.failed.readErrors.toNat = min 255 (failures s.samples + 1)
      rw [hctx, hfailed]
      omega
    · rw [if_neg hmany]
      have hfew : failures s.samples + 1 < 3 := Nat.lt_of_not_le fun hle => hmany (hlimit.mpr hle)
      refine ⟨h.inv, h.stored.failed hfew, fun _ => ?_, ?_, ?_⟩
      · show probe.ctx.failed.readErrors.toNat = _
        rw [hctx, hfailed, Sample.failures_failed]
        omega
      · intro d v f hpub
        rw [show s.pc = .publish d v f from hpub] at hpc
        cases hpc
      · intro d v f t hupd
        rw [show s.pc = .update d v f t from hupd] at hpc
        cases hpc

theorem step_latched {s t : GuardSys σ} {i : Input ι} (h : Latched s) (hstep : step B s i = some t) :
    Latched t := by
  cases stepped hstep with
  | read result distance idle ctx => exact h.afterRead idle ctx result distance
  | @publish d v f now pc =>
    refine ⟨h.inv, h.stored, (fun hidle => by cases hidle), (fun _ _ _ hpub => by cases hpub), ?_⟩
    rintro _ _ _ _ ⟨⟩
    exact h.publish d v f pc
  | @update d v f tick now sys pc hsys =>
    have hinv := CleanerSys.step_inv h.inv hsys
    cases hsys
    refine ⟨hinv, ?_, fun _ => ?_, (fun _ _ _ hpub => by cases hpub), fun _ _ _ _ hupd => by cases hupd⟩
    · show Stored (s.sys.cleaner.updateGuard _ now).guard _
      rcases h.update d v f tick pc with ⟨rfl, rfl, -, hne⟩ | ⟨rfl, rfl, -, hmany⟩
      · rw [updateGuard_guard _ fun _ => hne]
        exact .usable _ _ _ _
      · rw [updateGuard_guard _ fun hv => by cases hv]
        exact .forced hmany _ _ _
    · rcases h.update d v f tick pc with ⟨rfl, rfl, hzero, -⟩ | ⟨rfl, rfl, hcount, -⟩
      · show s.probe.ctx.readErrors.toNat = _
        rw [hzero]
        rfl
      · exact hcount
  | @cleaner i sys other hsys =>
    refine ⟨CleanerSys.step_inv h.inv hsys, ?_, h.idle, h.publish, h.update⟩
    show Stored sys.cleaner.guard s.samples
    rw [(step_keeps h.inv other hsys).1]
    exact h.stored

theorem latched {ok : GuardSys σ → Input ι → Prop} {s : GuardSys σ}
    (h : (machine B).Reach ok s) : Latched s := by
  refine h.inv ?_ fun _ _ _ _ hs _ hstep => step_latched hs hstep
  rintro s ⟨hzero, hpc, hsys, hsamples⟩
  refine ⟨hsys ▸ CleanerSys.booted_inv, ?_, fun _ => ?_, ?_, ?_⟩
  · rw [hsys, hsamples]
    exact ⟨by decide, by decide, fun hvalid => by cases hvalid⟩
  · rw [hzero, hsamples]
    rfl
  · intro d v f hpub
    rw [hpc] at hpub
    cases hpub
  · intro d v f tick hupd
    rw [hpc] at hupd
    cases hupd

theorem last?_isSome {samples : List Sample} :
    (last? samples).isSome = true ↔ ∃ mm tick, Sample.usable mm tick ∈ samples := by
  induction samples with
  | nil => simp [last?]
  | cons x samples ih =>
    cases x with
    | usable mm tick => exact ⟨fun _ => ⟨mm, tick, List.mem_cons_self⟩, fun _ => rfl⟩
    | failed => simp [ih]

/-- The step is no accepted start and no completed reset. -/
def Holds (s : GuardSys σ) : Input ι → Prop
  | .cleaner i => ¬ Releases s.sys i
  | _ => True

theorem step_stop {s t : GuardSys σ} {i : Input ι} (hinv : CleanerSys.Inv s.sys)
    (hok : Holds s i) (hstop : s.sys.cleaner.stopRequested = true) (hstep : step B s i = some t) :
    t.sys.cleaner.stopRequested = true := by
  cases stepped hstep with
  | read result distance => rwa [afterRead_sys]
  | publish => exact hstop
  | update pc step =>
    cases step
    simp [Cleaner.updateGuard, hstop]
  | cleaner other step => exact (step_keeps hinv other step).2 hok hstop

theorem run_stop {s t : GuardSys σ} (h : Latched s) (hstop : s.sys.cleaner.stopRequested = true)
    (hrun : (machine B).Run Holds s t) : t.sys.cleaner.stopRequested = true :=
  (hrun.inv (P := fun s => Latched s ∧ s.sys.cleaner.stopRequested = true) ⟨h, hstop⟩
    fun _ _ _ _ hs hok hstep => ⟨step_latched hs.1 hstep, step_stop hs.1.inv hok hs.2 hstep⟩).2

theorem updateGuard_stop (c : Cleaner) {guard : CleanerGuard} (h : guard.forceStop = true)
    (now : Tick) : (c.updateGuard guard now).stopRequested = true := by
  dsimp only [Cleaner.updateGuard]
  split_ifs <;> simp [h]

theorem update_stops {s t : GuardSys σ} {distance : UInt16} {valid : Bool} {tick now : Tick}
    (hpc : s.pc = .update distance valid true tick) (hstep : step B s (.update now) = some t) :
    t.sys.cleaner.stopRequested = true := by
  simp only [step, hpc] at hstep
  obtain ⟨sys, hsys, rfl⟩ := Option.map_eq_some_iff.mp hstep
  simp only [CleanerSys.step] at hsys
  cases hsys
  exact updateGuard_stop s.sys.cleaner rfl now

/-- Guard failures latch and recover. Under every order of samples, starts, resets and other steps:
the stored guard forces a stop where at least the last three samples failed; its distance is valid
where some sample was usable and fewer than three failed since, and then it is the last usable
distance, with the time it was published at. A publication that forces a stop requests one, and the
request stays until a start is accepted or a reset is completed, whatever later samples say. -/
theorem guard_failures_latch (B : I2cBus σ ι) :
    (∀ s, (machine B).Reach Machine.free s →
      (s.sys.cleaner.guard.forceStop = true ↔
        ∃ rest, s.samples = .failed :: .failed :: .failed :: rest) ∧
      (s.sys.cleaner.guard.tofValid = true ↔
        (∃ mm tick, Sample.usable mm tick ∈ s.samples) ∧ failures s.samples < 3) ∧
      (s.sys.cleaner.guard.tofValid = true →
        last? s.samples = some (s.sys.cleaner.guard.tofMm, s.sys.cleaner.guard.tick))) ∧
    ∀ s t u distance valid tick now, (machine B).Reach Machine.free s →
      s.pc = .update distance valid true tick → step B s (.update now) = some t →
      (machine B).Run Holds t u → u.sys.cleaner.stopRequested = true := by
  constructor
  · intro s hs
    obtain ⟨-, hstored, -, -, -⟩ := latched hs
    refine ⟨hstored.force.trans Sample.three_le_failures, ?_, hstored.last⟩
    rw [hstored.valid, last?_isSome]
  · intro s t u distance valid tick now hs hpc hstep hrun
    exact run_stop (step_latched (latched hs) hstep) (update_stops hpc hstep) hrun

/-- A bus without a sensor: every transfer fails. -/
def deadBus : I2cBus Unit Unit where
  now _ := 0
  write _ _ _ _ := ((), false)
  read _ _ _ _ := ((), none)

/-- The guard on it, before the first sample. -/
def deadBoot : GuardSys Unit :=
  ⟨⟨⟨false, false, 0, 0, true, false⟩, ()⟩, .idle, ⟨Cleaner.booted, 0, 0, .none⟩, []⟩

/-- Three samples on it, up to what the last of them publishes. -/
def threeFailures : List (Input Unit) := [.read [()], .read [()], .read [()], .publish 5]

/-- They force a stop, and an emergency stop after them changes nothing about that. -/
theorem guard_failures_latch_three : ∃ s u : GuardSys Unit,
    s.samples = [.failed, .failed, .failed] ∧ s.sys.cleaner.guard.forceStop = true ∧
    (machine deadBus).Run Holds s u ∧ u.sys.cleaner.stopRequested = true := by
  let s := ((machine deadBus).exec deadBoot threeFailures).get (by decide)
  let t := (step deadBus s (.update 5)).get (by decide)
  let u := (step deadBus t (.cleaner .emergencyStop)).get (by decide)
  have hstart : (machine deadBus).start deadBoot := ⟨rfl, rfl, rfl, rfl⟩
  have hs : (machine deadBus).Reach Machine.free s := .get hstart (by decide)
  have hupdate : step deadBus s (.update 5) = some t := by simp [t]
  have ht : (machine deadBus).Reach Machine.free t := .step (i := .update 5) hs trivial hupdate
  have hrun : (machine deadBus).Run Holds t u :=
    .single (show Holds t (.cleaner .emergencyStop) from id) (by simp [u, machine])
  obtain ⟨hstored, hstops⟩ := guard_failures_latch deadBus
  have hpc : s.pc = .update Cleaner.tofInvalidMm false true 5 := by decide
  have hsamples : t.samples = [.failed, .failed, .failed] := by decide
  exact ⟨t, u, hsamples, (hstored t ht).1.mpr ⟨[], hsamples⟩, hrun,
    hstops s t u _ _ _ 5 hs hpc hupdate hrun⟩

end GuardSys

end Hcics
