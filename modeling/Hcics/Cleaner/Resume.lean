import Hcics.Cleaner.Mission
import Hcics.Cleaner.Rounds
import Hcics.Cleaner.Worker

/-!
# The worker's run is the procedures' run

`resume` is what is left of the procedures where the worker stands. A step of the worker is what they do
with a few looks at the module's data: from the program at one cut they come to that at the next. So the
worker, next to threads that only change what it reads, runs `hcics_cleaner_run_mission` as the
procedures have it.
-/

namespace Hcics.Gimbal

/-! ## What follows a procedure -/

section Rest

variable (k : RtErr → Proc Gimbal Look RtErr)

/-- `hcics_cleaner_run_once` after `hcics_cleaner_verify_clear`; `k` follows it. -/
def afterVerify (result : RtErr) : Proc Gimbal Look RtErr := do
  .modify (·.log (.verified result))
  k result

/-- After the retract of a cycle that washed. -/
def afterWash (result : RtErr) : Proc Gimbal Look RtErr :=
  if result ≠ RT_EOK then k result
  else do
    .modify (·.setState .verifying)
    verifyClear >>= afterVerify k

def afterScrub (result : RtErr) : Proc Gimbal Look RtErr := do
  .modify (·.relay false)
  if result ≠ RT_EOK then k result else retract >>= afterWash k

def afterSpray (baseYNs : UInt32) (result : RtErr) : Proc Gimbal Look RtErr :=
  if result ≠ RT_EOK then k result
  else do
    .modify (·.setState .scrubbing)
    scrub baseYNs >>= afterScrub k

def afterSprayDelay (baseYNs : UInt32) (completed : Bool) : Proc Gimbal Look RtErr := do
  .modify (·.relay false)
  if !completed then afterSpray k baseYNs (-RT_EINTR)
  else do
    let forced ← guardForcesRetract true
    afterSpray k baseYNs (if forced then -RT_EINTR else RT_EOK)

def afterExtend (baseYNs : UInt32) (result : RtErr) : Proc Gimbal Look RtErr :=
  if result ≠ RT_EOK then k result
  else do
    .modify (·.setState .spraying)
    spray >>= afterSpray k baseYNs

def afterAim : Except RtErr CleanerTarget → Proc Gimbal Look RtErr
  | .error result => k result
  | .ok target => do
    let baseYNs ← .gets (yFromTarget ·.config target)
    .modify (·.setState .extending)
    extendZ baseYNs >>= afterExtend k baseYNs

def afterWaitStain : Except RtErr CleanerTarget → Proc Gimbal Look RtErr
  | .error result => k result
  | .ok _ => aim >>= afterAim k

/-- `hcics_cleaner_retract` after its ramp, with what follows it. -/
def afterRamp (result : RtErr) : Proc Gimbal Look RtErr :=
  if result ≠ RT_EOK then k result
  else delayAbortable Cleaner.retractMs false false >>= fun _ => k RT_EOK

theorem runLocked_bind (target : CleanerTarget) : runLocked target >>= k = afterAim k (.ok target) := by
  unfold runLocked afterAim afterExtend afterSpray afterScrub afterWash afterVerify
  simp only [Proc.bind_assoc, Proc.ite_bind, Proc.pure_bind]

theorem runOnce_bind : runOnce >>= k = .modify enterAiming >>= fun _ => waitStain >>= afterWaitStain k := by
  unfold runOnce
  simp only [Proc.bind_assoc]
  congr 1
  funext _
  congr 1
  funext stain
  cases stain with
  | error result => rfl
  | ok _ =>
    show (aim >>= _) >>= k = aim >>= afterAim k
    rw [Proc.bind_assoc]
    congr 1
    funext aimed
    cases aimed with
    | error result => rfl
    | ok target => exact runLocked_bind k target

theorem spray_bind (baseYNs : UInt32) : spray >>= afterSpray k baseYNs = (do
    let forced ← guardForcesRetract true
    if forced then afterSpray k baseYNs (-RT_EINTR)
    else
      .modify (·.relay true)
      delayAbortable Cleaner.sprayMs true true >>= afterSprayDelay k baseYNs) := by
  unfold spray afterSprayDelay
  simp only [Proc.bind_assoc, Proc.ite_bind, Proc.pure_bind]

theorem retract_bind : retract >>= k = (do
    .modify (·.setState .retracting)
    .modify (·.relay false)
    let result ← .act fun g l => (g.axis .stop, l.axis)
    if result ≠ RT_EOK then k result
    else
      let zNs ← .gets (·.zPulseNs)
      .poll rampRound zNs >>= afterRamp k) := by
  unfold retract afterRamp
  simp only [Proc.bind_assoc, Proc.ite_bind, Proc.pure_bind]

end Rest

/-- `hcics_cleaner_run_mission` after the retract that follows a failed cycle, with `left` cycles to go. -/
def afterRetry (cycle : UInt8) (left : Nat) (result : RtErr) : Proc Gimbal Look RtErr := do
  .modify (·.log (.retracted result))
  if result ≠ RT_EOK then return result else runCycles cycle left

def afterOnce (cycle : UInt8) (left : Nat) (result : RtErr) : Proc Gimbal Look RtErr := do
  .modify (·.log (.ran result))
  if result = RT_EOK then return RT_EOK
  else if result = -RT_EINTR then return result
  else retract >>= afterRetry cycle left

theorem runCycles_succ (cycle : UInt8) (left : Nat) : runCycles cycle (left + 1) = (do
    .modify fun g => { g with cycle := cycle + 1 }
    runOnce >>= afterOnce (cycle + 1) left) := by
  rw [runCycles]
  unfold afterOnce afterRetry
  rfl

def cyclesLeft (c : Cleaner) : Nat := c.runMax.toNat - c.runCycle.toNat

/-- What follows `hcics_cleaner_run_once` there. -/
def back (c : Cleaner) : RtErr → Proc Gimbal Look RtErr := afterOnce c.runCycle (cyclesLeft c)

/-- What follows `hcics_cleaner_retract` there. -/
def afterRetract (c : Cleaner) : AfterRetract → RtErr → Proc Gimbal Look RtErr
  | .verify => afterWash (back c)
  | .retry => afterRetry c.runCycle (cyclesLeft c)

/-- What is left of `hcics_cleaner_worker` up to the result of the mission, where the worker stands. -/
def resume (c : Cleaner) : Proc Gimbal Look RtErr :=
  match c.worker with
  | .idle => work c.maxCycles
  | .nextCycle => runCycles c.runCycle (cyclesLeft c)
  | .waitStain start =>
    .poll (Polling.beside fun (_ : Unit) l => ((), waitStainRound start l)) () >>= afterWaitStain (back c)
  | .aim start stable => .poll (aimRound start) stable >>= afterAim (back c)
  | .extend startMs baseYNs yNs zNs =>
    .poll (extendRound startMs) (yNs, zNs) >>= afterExtend (back c) baseYNs
  | .spray left baseYNs => delayAbortable left true true >>= afterSprayDelay (back c) baseYNs
  | .scrub left startMs right baseYNs =>
    .poll (scrubRound startMs baseYNs) (right, left) >>= afterScrub (back c)
  | .ramp zNs after => .poll rampRound zNs >>= afterRamp (afterRetract c after)
  | .settle left after => delayAbortable left false false >>= fun _ => afterRetract c after RT_EOK
  | .verify start clearStart clearActive =>
    .poll (Polling.beside (verifyRound start)) ⟨clearStart, clearActive⟩ >>= afterVerify (back c)
  | .retry => retract >>= afterRetract c .retry
  | .ended result | .closing result _ | .releasing result _ => pure result

/-! ## One step -/

/-- What a step of the worker at `c` reads in a round. -/
structure Seen (c : Cleaner) (io : CleanerIo) (l : Look) : Prop where
  tick : l.tick = io.now
  laterTick : l.laterTick = io.now
  stop : l.stop = c.stopRequested
  camera : l.camera = c.camera
  guard : l.guard = c.guard
  surface : l.surface = c.guard

/-- The program `p` comes from `g` to what is left of it where the worker is in `c'`, with looks at the
data of `c₀`. -/
def Reaches (c₀ : Cleaner) (io : CleanerIo) (p : Proc Gimbal Look RtErr) (g : Gimbal) (c' : Cleaner) :
    Prop :=
  ∃ looks g', (∀ l ∈ looks, Seen c₀ io l) ∧ Same g' c' ∧ ∀ more, p g (looks ++ more) = resume c' g' more

/-- The data that a step reads, unchanged within it. -/
structure Views (c₀ c : Cleaner) : Prop where
  stop : c.stopRequested = c₀.stopRequested
  camera : c.camera = c₀.camera
  guard : c.guard = c₀.guard

variable {c₀ c c' : Cleaner} {io : CleanerIo} {g g' : Gimbal} {p q : Proc Gimbal Look RtErr}

theorem Views.beside (h : Views c₀ c) (h' : Beside c c') : Views c₀ c' :=
  ⟨h'.stop.trans h.stop, h'.camera.trans h.camera, h'.guard.trans h.guard⟩

theorem Views.seen (h : Views c₀ c) : Seen c₀ io (look c io) :=
  ⟨tick_look, laterTick_look, h.stop, h.camera, h.guard, h.guard⟩

theorem Beside.back (h : Beside c c') : back c' = back c := by
  unfold Gimbal.back cyclesLeft
  rw [h.runCycle, h.runMax]

theorem Beside.afterRetract (h : Beside c c') (after : AfterRetract) :
    afterRetract c' after = afterRetract c after := by
  cases after with
  | verify => exact congrArg afterWash h.back
  | retry =>
    unfold Gimbal.afterRetract cyclesLeft
    rw [h.runCycle, h.runMax]

theorem Reaches.cut (h : Same g c') (hp : p = resume c') : Reaches c₀ io p g c' :=
  ⟨[], g, fun _ hl => absurd hl List.not_mem_nil, h, fun _ => by rw [hp]; rfl⟩

theorem Reaches.silent (q : Proc Gimbal Look RtErr) (g' : Gimbal) (hp : ∀ is, p g is = q g' is)
    (h : Reaches c₀ io q g' c') : Reaches c₀ io p g c' := by
  obtain ⟨looks, g'', hseen, hsame, hq⟩ := h
  exact ⟨looks, g'', hseen, hsame, fun more => (hp _).trans (hq more)⟩

theorem Reaches.read {l : Look} (hl : Seen c₀ io l) (q : Proc Gimbal Look RtErr) (g' : Gimbal)
    (hp : ∀ is, p g (l :: is) = q g' is) (h : Reaches c₀ io q g' c') : Reaches c₀ io p g c' := by
  obtain ⟨looks, g'', hseen, hsame, hq⟩ := h
  refine ⟨l :: looks, g'', ?_, hsame, fun more => (hp _).trans (hq more)⟩
  intro l' hl'
  rcases List.mem_cons.mp hl' with rfl | hl'
  · exact hl
  · exact hseen l' hl'

theorem Reaches.poll {τ ρ : Type} {body : Gimbal × τ → Look → (Gimbal × τ) × Option ρ} {init : τ}
    {f : ρ → Proc Gimbal Look RtErr} {go : Gimbal × τ → Cleaner} {ret : ρ → Cleaner}
    (hv : Views c₀ c)
    (hgo : ∀ s, body (g, init) (look c io) = (s, none) →
      Reaches c₀ io (.poll body s.2 >>= f) s.1 (go s))
    (hret : ∀ s a, body (g, init) (look c io) = (s, some a) → Reaches c₀ io (f a) s.1 (ret a)) :
    Reaches c₀ io (.poll body init >>= f) g (next go ret (body (g, init) (look c io))) := by
  have hp := fun is => @Proc.poll_bind_cons _ _ _ _ _ body init f g (look c io) is
  rcases hbody : body (g, init) (look c io) with ⟨s, _ | a⟩
  · rw [hbody] at hp
    exact .read hv.seen _ _ hp (hgo s hbody)
  · rw [hbody] at hp
    exact .read hv.seen _ _ hp (hret s a hbody)

theorem Reaches.poll_beside {τ ρ : Type} {round : τ → Look → τ × Option ρ} {init : τ}
    {f : ρ → Proc Gimbal Look RtErr} {go : τ → Cleaner} {ret : ρ → Cleaner} (hv : Views c₀ c)
    (hgo : ∀ s, round init (look c io) = (s, none) →
      Reaches c₀ io (.poll (Polling.beside round) s >>= f) g (go s))
    (hret : ∀ s a, round init (look c io) = (s, some a) → Reaches c₀ io (f a) g (ret a)) :
    Reaches c₀ io (.poll (Polling.beside round) init >>= f) g
      (next go ret (round init (look c io))) := by
  have hp := fun is => @Proc.poll_bind_cons _ _ _ _ _ (Polling.beside round) init f g (look c io) is
  simp only [Polling.beside] at hp
  rcases hround : round init (look c io) with ⟨s, _ | a⟩
  · simp only [hround] at hp
    exact .read hv.seen _ _ hp (hgo s hround)
  · simp only [hround] at hp
    exact .read hv.seen _ _ hp (hret s a hround)

theorem Reaches.tickGet {f : Tick → Proc Gimbal Look RtErr} (hv : Views c₀ c)
    (h : Reaches c₀ io (f io.now) g c') : Reaches c₀ io (tickGet >>= f) g c' := by
  have hp : ∀ is, (Gimbal.tickGet >>= f) g (look c io :: is) = f (look c io).tick g is := fun _ => rfl
  rw [tick_look] at hp
  exact .read hv.seen _ _ hp h

theorem Same.log (h : Same g c) (event : MissionEvent) : Same (g.log event) c := { h with }

theorem Same.setState (h : Same g c) (state : CleanerState) :
    Same (g.setState state) (c.setState state) := { h with state := rfl }

theorem Same.relay (h : Same g c) (on : Bool) : Same (g.relay on) (c.relay on) :=
  { h with relayOn := rfl }

theorem Same.goto (h : Same g c) (pc : WorkerPc) : Same g (c.goto pc) := { h with }

theorem Views.setState (hv : Views c₀ c) (state : CleanerState) : Views c₀ (c.setState state) :=
  ⟨hv.stop, hv.camera, hv.guard⟩

theorem Views.relay (hv : Views c₀ c) (on : Bool) : Views c₀ (c.relay on) :=
  ⟨hv.stop, hv.camera, hv.guard⟩

/-! ## The functions of the worker

Each runs the procedures from its place on, to the next cut. -/

theorem cycleEnded_reaches (h : Same g c) (result : RtErr) :
    Reaches c₀ io (back c result) g (c.cycleEnded result) := by
  have hafter : ∀ is, back c result g is = (if result = RT_EOK then pure RT_EOK
      else if result = -RT_EINTR then pure result
      else retract >>= afterRetract c .retry : Proc Gimbal Look RtErr) (g.log (.ran result)) is :=
    fun _ => rfl
  refine .silent _ _ hafter ?_
  unfold Cleaner.cycleEnded
  by_cases hok : result = RT_EOK
  · rw [if_pos hok, if_pos (.inl hok), ← hok]
    exact .cut ((h.log _).goto _) rfl
  by_cases hintr : result = -RT_EINTR
  · rw [if_neg hok, if_pos hintr, if_pos (.inr hintr)]
    exact .cut ((h.log _).goto _) rfl
  · rw [if_neg hok, if_neg hintr, if_neg (not_or.mpr ⟨hok, hintr⟩)]
    exact .cut ((h.log _).goto _) rfl

theorem verifyLoop_reaches (hv : Views c₀ c) (h : Same g c) (start : Tick) (clear : ClearWindow) :
    Reaches c₀ io (.poll (Polling.beside (verifyRound start)) clear >>= afterVerify (back c)) g
      (c.verifyLoop io start clear.start clear.active) := by
  rw [verifyLoop_eq]
  refine .poll_beside hv (fun clear _ => .cut { h with } rfl) fun _ result _ => ?_
  refine .silent (back c result) (g.log (.verified result)) (fun _ => rfl) ?_
  split
  · exact cycleEnded_reaches (c := { c with verified := c.starts :: c.verified }) { h.log _ with } result
  · exact cycleEnded_reaches (h.log _) result

theorem retracted_reaches (hv : Views c₀ c) (h : Same g c) (after : AfterRetract) (result : RtErr) :
    Reaches c₀ io (afterRetract c after result) g (c.retracted io after result) := by
  unfold Cleaner.retracted
  cases after with
  | verify =>
    simp only [afterRetract, afterWash]
    split
    · exact cycleEnded_reaches h result
    · refine .silent (verifyClear >>= afterVerify (back c)) (g.setState .verifying)
        (fun _ => rfl) ?_
      rw [verifyClear, Proc.bind_assoc]
      exact .tickGet hv (verifyLoop_reaches (hv.setState _) (h.setState _) io.now ⟨io.now, false⟩)
  | retry =>
    have hafter : ∀ is, afterRetract c .retry result g is = (if result ≠ RT_EOK then pure result
        else runCycles c.runCycle (cyclesLeft c) : Proc Gimbal Look RtErr)
          (g.log (.retracted result)) is := fun _ => rfl
    refine .silent _ _ hafter ?_
    dsimp only
    split
    · exact .cut ((h.log _).goto _) rfl
    · exact .cut ((h.log _).goto _) rfl

theorem settleLoop_reaches (hv : Views c₀ c) (h : Same g c) (after : AfterRetract) (left : UInt32) :
    Reaches c₀ io (delayAbortable left false false >>= fun _ => afterRetract c after RT_EOK) g
      (c.settleLoop io after left) := by
  rw [settleLoop_eq]
  exact .poll_beside hv (fun left _ => .cut (h.goto _) rfl) fun _ _ _ =>
    retracted_reaches hv h after RT_EOK

theorem rampLoop_reaches (hv : Views c₀ c) (h : Same g c) (after : AfterRetract) (zNs : UInt32) :
    Reaches c₀ io (.poll rampRound zNs >>= afterRamp (afterRetract c after)) g
      (c.rampLoop io after zNs) := by
  obtain ⟨c', hsame, hbeside, heq⟩ := @rampLoop_eq g c io h after zNs
  rw [heq, ← hbeside.afterRetract after]
  refine .poll hv (fun s hround => ?_) fun s result hround => ?_
  · rw [hround] at hsame
    exact .cut (hsame.goto _) rfl
  · rw [hround] at hsame
    have hv' := hv.beside hbeside
    unfold afterRamp
    by_cases hok : result = RT_EOK
    · rw [if_neg (not_not.mpr hok), if_pos hok]
      exact settleLoop_reaches hv' hsame after _
    · rw [if_pos hok, if_neg hok]
      exact retracted_reaches hv' hsame after result

theorem retract_reaches (hv : Views c₀ c) (h : Same g c) (after : AfterRetract) :
    Reaches c₀ io (retract >>= afterRetract c after) g (c.retract io after) := by
  have hsafe := (h.setState .retracting).relay false
  have hv' := (hv.setState .retracting).relay false
  have hread : ∀ is, (retract >>= afterRetract c after) g (look c io :: is) =
      (if (look c io).axis ≠ RT_EOK then afterRetract c after (look c io).axis
        else .poll rampRound g.zPulseNs >>= afterRamp (afterRetract c after) :
          Proc Gimbal Look RtErr) (((g.setState .retracting).relay false).axis .stop) is := by
    intro is
    rw [retract_bind]
    show (if _ then _ else _ : Proc Gimbal Look RtErr) _ _ = _
    split
    · rfl
    · rfl
  refine .read hv.seen _ _ hread ?_
  unfold Cleaner.retract
  obtain ⟨c', haxis, hsame, hbeside⟩ := hsafe.axis (c := c) io rfl .stop
  dsimp only
  have hz : g.zPulseNs = c'.zPulseNs := hsame.zPulseNs
  have hafter : afterRetract c' after = afterRetract c after := hbeside.afterRetract after
  rw [haxis, hz, ← hafter]
  by_cases hok : (look c io).axis = RT_EOK
  · rw [if_neg (not_not.mpr hok), if_neg (not_not.mpr hok)]
    exact rampLoop_reaches (hv'.beside hbeside) hsame after _
  · rw [if_pos hok, if_pos hok]
    exact retracted_reaches (hv'.beside hbeside) hsame after _

theorem scrubbed_reaches (hv : Views c₀ c) (h : Same g c) (result : RtErr) :
    Reaches c₀ io (afterScrub (back c) result) g (c.scrubbed io result) := by
  have hafter : ∀ is, afterScrub (back c) result g is = (if result ≠ RT_EOK then back c result
      else retract >>= afterWash (back c) : Proc Gimbal Look RtErr) (g.relay false) is := fun _ => rfl
  refine .silent _ _ hafter ?_
  unfold Cleaner.scrubbed
  by_cases hok : result = RT_EOK
  · rw [if_neg (not_not.mpr hok), if_neg (not_not.mpr hok)]
    exact retract_reaches (hv.relay false) (h.relay false) .verify
  · rw [if_pos hok, if_pos hok]
    exact cycleEnded_reaches (h.relay false) result

theorem scrubRound_delay {startMs baseYNs left : UInt32} {right : Bool} {l : Look}
    {s : Gimbal × Bool × UInt32} {o : Option RtErr} (hleft : left ≠ 0)
    (hround : scrubRound startMs baseYNs (g, right, left) l = (s, o)) : s.1 = g := by
  unfold scrubRound at hround
  dsimp only at hround
  rw [if_pos hleft] at hround
  split at hround
  · cases hround
    rfl
  · cases hround
    rfl

theorem scrubRound_sweep {startMs baseYNs : UInt32} {right : Bool} {l : Look}
    {s : Gimbal × Bool × UInt32}
    (hround : scrubRound startMs baseYNs (g, right, 0) l = (s, none)) :
    s.2.2 = Cleaner.scrubStepMs := by
  unfold scrubRound at hround
  dsimp only at hround
  rw [if_neg (not_not.mpr rfl)] at hround
  split_ifs at hround <;> cases hround
  rfl

theorem scrubWait_reaches (hv : Views c₀ c) (h : Same g c) {left : UInt32} (hleft : left ≠ 0)
    (startMs : UInt32) (right : Bool) (baseYNs : UInt32) :
    Reaches c₀ io (.poll (scrubRound startMs baseYNs) (right, left) >>= afterScrub (back c)) g
      (c.scrubWait io left startMs right baseYNs) := by
  rw [scrubWait_eq g hleft]
  refine .poll hv (fun s hround => ?_) fun s result hround => ?_
  · rw [scrubRound_delay hleft hround]
    exact .cut (h.goto _) rfl
  · rw [scrubRound_delay hleft hround]
    exact scrubbed_reaches hv h result

theorem scrubLoop_reaches (hv : Views c₀ c) (h : Same g c) (startMs : UInt32) (right : Bool)
    (baseYNs : UInt32) :
    Reaches c₀ io (.poll (scrubRound startMs baseYNs) (right, 0) >>= afterScrub (back c)) g
      (c.scrubLoop io startMs right baseYNs) := by
  obtain ⟨c', hsame, hbeside, heq⟩ := @scrubLoop_eq g c io h startMs right baseYNs
  rw [heq, ← hbeside.back]
  refine .poll hv (fun s hround => ?_) fun s result hround => ?_
  · rw [hround] at hsame
    exact scrubWait_reaches (hv.beside hbeside) hsame (scrubRound_sweep hround ▸ by decide) _ _ _
  · rw [hround] at hsame
    exact scrubbed_reaches (hv.beside hbeside) hsame result

theorem scrubDelay_reaches (hv : Views c₀ c) (h : Same g c) (left startMs : UInt32) (right : Bool)
    (baseYNs : UInt32) :
    Reaches c₀ io (.poll (scrubRound startMs baseYNs) (right, left) >>= afterScrub (back c)) g
      (c.scrubDelay io left startMs right baseYNs) := by
  unfold Cleaner.scrubDelay
  by_cases hleft : left = 0
  · rw [if_pos hleft, hleft]
    exact scrubLoop_reaches hv h startMs right baseYNs
  · rw [if_neg hleft]
    exact scrubWait_reaches hv h hleft startMs right baseYNs

theorem scrub_reaches (hv : Views c₀ c) (h : Same g c) (baseYNs : UInt32) :
    Reaches c₀ io (scrub baseYNs >>= afterScrub (back c)) g (c.scrub io baseYNs) := by
  rw [scrub, Proc.bind_assoc]
  refine .tickGet hv ?_
  rw [Proc.bind_assoc]
  exact .silent _ (g.relay true) (fun _ => rfl)
    (scrubLoop_reaches (hv.relay true) (h.relay true) (tickToMs io.now) true baseYNs)

theorem sprayed_reaches (hv : Views c₀ c) (h : Same g c) (completed : Bool) (baseYNs : UInt32) :
    Reaches c₀ io (afterSprayDelay (back c) baseYNs completed) g
      (c.sprayed io (if completed then RT_EOK else -RT_EINTR) baseYNs) := by
  have hoff := h.relay false
  have hv' := hv.relay false
  unfold Cleaner.sprayed
  cases completed with
  | false =>
    exact .silent (back c (-RT_EINTR)) (g.relay false) (fun _ => rfl)
      (cycleEnded_reaches hoff (-RT_EINTR))
  | true =>
    have hforced : (look c io).guard.forcesRetract (look c io).tick true = c.guardForcesRetract io true :=
      forcesRetract_look true
    refine .read hv.seen (afterSpray (back c) baseYNs
      (if c.guardForcesRetract io true then -RT_EINTR else RT_EOK)) (g.relay false)
      (fun is => by rw [← hforced]; rfl) ?_
    have hrelay : (c.relay false).guardForcesRetract io true = c.guardForcesRetract io true := rfl
    dsimp only
    rw [if_pos rfl, if_neg (not_not.mpr rfl), hrelay]
    by_cases hf : c.guardForcesRetract io true = true
    · rw [if_pos hf, if_pos hf, afterSpray, if_pos (by decide)]
      exact cycleEnded_reaches hoff (-RT_EINTR)
    · rw [if_neg hf, if_neg hf, afterSpray, if_neg (not_not.mpr rfl)]
      exact .silent _ ((g.relay false).setState .scrubbing) (fun _ => rfl)
        (scrub_reaches (hv'.setState .scrubbing) (hoff.setState .scrubbing) baseYNs)

theorem sprayDelay_reaches (hv : Views c₀ c) (h : Same g c) (left baseYNs : UInt32) :
    Reaches c₀ io (delayAbortable left true true >>= afterSprayDelay (back c) baseYNs) g
      (c.sprayDelay io left baseYNs) := by
  rw [sprayDelay_eq]
  exact .poll_beside hv (fun left _ => .cut (h.goto _) rfl) fun _ completed _ =>
    sprayed_reaches hv h completed baseYNs

theorem spray_reaches (hv : Views c₀ c) (h : Same g c) (baseYNs : UInt32) :
    Reaches c₀ io (afterExtend (back c) baseYNs RT_EOK) g (c.spray io baseYNs) := by
  have hspraying := h.setState .spraying
  have hv' := hv.setState .spraying
  have hstate : (c.setState .spraying).guardForcesRetract io true = c.guardForcesRetract io true := rfl
  have hread : ∀ is, afterExtend (back c) baseYNs RT_EOK g (look c io :: is) =
      (if c.guardForcesRetract io true then afterSpray (back c) baseYNs (-RT_EINTR)
        else do
          .modify (·.relay true)
          delayAbortable Cleaner.sprayMs true true >>= afterSprayDelay (back c) baseYNs :
            Proc Gimbal Look RtErr) (g.setState .spraying) is := by
    intro is
    rw [afterExtend, if_neg (not_not.mpr rfl), spray_bind, ← forcesRetract_look true]
    rfl
  refine .read hv.seen _ _ hread ?_
  unfold Cleaner.spray
  dsimp only
  rw [hstate]
  by_cases hf : c.guardForcesRetract io true = true
  · rw [if_pos hf, if_pos hf, afterSpray, if_pos (by decide)]
    exact cycleEnded_reaches hspraying (-RT_EINTR)
  · rw [if_neg hf, if_neg hf]
    exact .silent _ ((g.setState .spraying).relay true) (fun _ => rfl)
      (sprayDelay_reaches (hv'.relay true) (hspraying.relay true) Cleaner.sprayMs baseYNs)

theorem extendLoop_reaches (hv : Views c₀ c) (h : Same g c) (startMs baseYNs yNs zNs : UInt32) :
    Reaches c₀ io (.poll (extendRound startMs) (yNs, zNs) >>= afterExtend (back c) baseYNs) g
      (c.extendLoop io startMs baseYNs yNs zNs) := by
  obtain ⟨c', hsame, hbeside, heq⟩ := @extendLoop_eq g c io h startMs baseYNs yNs zNs
  have hv' := hv.beside hbeside
  rw [heq, ← hbeside.back]
  refine .poll hv (fun s hround => ?_) fun s result hround => ?_
  · rw [hround] at hsame
    exact .cut (hsame.goto _) rfl
  · rw [hround] at hsame
    by_cases hok : result = RT_EOK
    · rw [if_pos hok, hok]
      exact spray_reaches hv' hsame baseYNs
    · rw [if_neg hok, afterExtend, if_pos hok]
      exact cycleEnded_reaches hsame result

theorem aimLoop_reaches (hv : Views c₀ c) (h : Same g c) (start : Tick) (stable : UInt8) :
    Reaches c₀ io (.poll (aimRound start) stable >>= afterAim (back c)) g
      (c.aimLoop io start stable) := by
  obtain ⟨c', hsame, hbeside, heq⟩ := @aimLoop_eq g c io h start stable
  have hv' := hv.beside hbeside
  rw [heq, ← hbeside.back]
  refine .poll hv (fun s hround => ?_) fun s aimed hround => ?_
  · rw [hround] at hsame
    exact .cut (hsame.goto _) rfl
  · rw [hround] at hsame
    cases aimed with
    | error result => exact cycleEnded_reaches hsame result
    | ok target =>
      have hy : yFromTarget s.1.config target = Cleaner.yFromTarget target := by
        rw [hsame.config, yFromTarget_default]
      have hz : s.1.config.zRetractNs = Cleaner.zRetractNs := by
        rw [hsame.config]
        rfl
      refine .silent (extendZ (Cleaner.yFromTarget target) >>=
        afterExtend (back c') (Cleaner.yFromTarget target)) (s.1.setState .extending)
        (fun is => by rw [← hy]; rfl) ?_
      rw [extendZ, Proc.bind_assoc]
      refine .tickGet hv' ?_
      rw [Proc.bind_assoc]
      exact .silent _ (s.1.setState .extending) (fun is => by rw [← hz]; rfl)
        (extendLoop_reaches (hv'.setState .extending) (hsame.setState .extending)
          (tickToMs io.now) _ _ Cleaner.zRetractNs)

theorem waitStainLoop_reaches (hv : Views c₀ c) (h : Same g c) (start : Tick) :
    Reaches c₀ io (.poll (Polling.beside fun (_ : Unit) l => ((), waitStainRound start l)) () >>=
      afterWaitStain (back c)) g (c.waitStainLoop io start) := by
  rw [waitStainLoop_eq]
  refine .poll_beside hv (fun _ _ => .cut (h.goto _) rfl) fun _ stain _ => ?_
  cases stain with
  | error result => exact cycleEnded_reaches h result
  | ok _ =>
    show Reaches c₀ io (aim >>= afterAim (back c)) g _
    rw [aim, Proc.bind_assoc]
    exact .tickGet hv (aimLoop_reaches hv h io.now 0)

theorem nextCycle_reaches (hv : Views c₀ c) (h : Same g c) :
    Reaches c₀ io (runCycles c.runCycle (cyclesLeft c)) g (c.nextCycle io) := by
  unfold Cleaner.nextCycle
  by_cases hlt : c.runCycle < c.runMax
  · let c' := { c with cycle := c.runCycle + 1, runCycle := c.runCycle + 1 }.setState .aiming
    let g' := enterAiming { g with cycle := c.runCycle + 1 }
    have hnat := UInt8.lt_iff_toNat_lt.mp hlt
    have hmax := c.runMax.toNat_lt
    have hnext : (c.runCycle + 1).toNat = c.runCycle.toNat + 1 := by
      rw [UInt8.toNat_add, UInt8.toNat_one]
      omega
    have hleft : cyclesLeft c = cyclesLeft c' + 1 := by
      show c.runMax.toNat - c.runCycle.toNat = c.runMax.toNat - (c.runCycle + 1).toNat + 1
      rw [hnext]
      omega
    rw [if_pos hlt, hleft, runCycles_succ, runOnce_bind]
    refine .silent (waitStain >>= afterWaitStain (back c')) g' (fun _ => rfl) ?_
    rw [waitStain, Proc.bind_assoc]
    have hsame : Same g' c' := ⟨h.config, rfl, h.relayOn, h.yPulseNs, h.zPulseNs⟩
    have hv' : Views c₀ c' := ⟨hv.stop, hv.camera, hv.guard⟩
    exact .tickGet hv (waitStainLoop_reaches hv' hsame io.now)
  · have hleft : cyclesLeft c = 0 := Nat.sub_eq_zero_of_le (UInt8.le_iff_toNat_le.mp (UInt8.not_lt.mp hlt))
    rw [if_neg hlt, hleft]
    exact .cut (h.goto _) rfl

def safeLook (c : Cleaner) (io : CleanerIo) : Look :=
  { look c io with pwm := ⟨io.result (c.actions.length + 2), RT_EOK, RT_EOK, RT_EOK⟩ }

theorem Same.safeOutputs (h : Same g c) (io : CleanerIo) :
    (g.safeOutputs (safeLook c io)).2 = (c.safeOutputs io).2 ∧
      Same (g.safeOutputs (safeLook c io)).1 (c.safeOutputs io).1 := by
  obtain ⟨hconfig, hstate, -, -, -⟩ := h
  have hresult : (safeLook c io).pwm.result = io.result (c.actions.length + 2) := by
    by_cases hok : io.result (c.actions.length + 2) = RT_EOK
    · simp [safeLook, PwmCalls.result, hok]
    · simp [safeLook, PwmCalls.result, hok]
  refine ⟨?_, hconfig, hstate, rfl, ?_, ?_⟩
  · show (if _ then _ else (safeLook c io).pwm.result) = _
    rw [hresult]
    rfl
  · simp only [Gimbal.safeOutputs, Gimbal.applyPose, Gimbal.axis, Gimbal.relay, hconfig]
    rfl
  · simp only [Gimbal.safeOutputs, Gimbal.applyPose, Gimbal.axis, Gimbal.relay, hconfig]
    rfl

theorem beginRun_reaches (h : Same g c) : Reaches c io (work c.maxCycles) g (c.beginRun io) := by
  have hlook : Seen c io (look c io) := Views.seen ⟨rfl, rfl, rfl⟩
  have hseen : Seen c io (safeLook c io) :=
    ⟨hlook.tick, hlook.laterTick, rfl, rfl, rfl, rfl⟩
  have htaken : Same g { c with startSem := c.startSem - 1 } := { h with }
  have hresult : (g.safeOutputs (safeLook c io)).2 =
      ({ c with startSem := c.startSem - 1 }.safeOutputs io).2 := (htaken.safeOutputs io).1
  have hsame : Same (g.safeOutputs (safeLook c io)).1
      ({ c with startSem := c.startSem - 1 }.safeOutputs io).1 := (htaken.safeOutputs io).2
  have hread : ∀ is, work c.maxCycles g (safeLook c io :: is) =
      (if ({ c with startSem := c.startSem - 1 }.safeOutputs io).2 ≠ RT_EOK then
          pure ({ c with startSem := c.startSem - 1 }.safeOutputs io).2
        else runMission c.maxCycles : Proc Gimbal Look RtErr) (g.safeOutputs (safeLook c io)).1 is := by
    intro is
    rw [← hresult]
    rfl
  refine .read hseen _ _ hread ?_
  unfold Cleaner.beginRun
  dsimp only
  split
  · exact .cut (hsame.goto _) rfl
  · exact nextCycle_reaches ⟨rfl, rfl, rfl⟩ { hsame with }

/-- The worker takes the semaphore, or is in `hcics_cleaner_run_mission`. -/
def OnMission (c : Cleaner) : Prop := c.worker = .idle ∨ Cleaner.InMission c.worker

theorem workerStep_reaches (h : Same g c) (hmission : OnMission c) (hstep : c.workerStep io = some c') :
    Reaches c io (resume c) g c' := by
  have hv : Views c c := ⟨rfl, rfl, rfl⟩
  unfold Cleaner.workerStep at hstep
  unfold resume
  cases hpc : c.worker with
  | idle =>
    simp only [hpc] at hstep ⊢
    split at hstep
    · cases hstep
    · exact Option.some.inj hstep ▸ beginRun_reaches h
  | ended | closing | releasing =>
    rw [OnMission, hpc] at hmission
    rcases hmission with hidle | hin
    · cases hidle
    · exact hin.elim
  | nextCycle =>
    simp only [hpc] at hstep ⊢
    exact Option.some.inj hstep ▸ nextCycle_reaches hv h
  | waitStain start =>
    simp only [hpc] at hstep ⊢
    exact Option.some.inj hstep ▸ waitStainLoop_reaches hv h start
  | aim start stable =>
    simp only [hpc] at hstep ⊢
    exact Option.some.inj hstep ▸ aimLoop_reaches hv h start stable
  | extend startMs baseYNs yNs zNs =>
    simp only [hpc] at hstep ⊢
    exact Option.some.inj hstep ▸ extendLoop_reaches hv h startMs baseYNs yNs zNs
  | spray left baseYNs =>
    simp only [hpc] at hstep ⊢
    exact Option.some.inj hstep ▸ sprayDelay_reaches hv h left baseYNs
  | scrub left startMs right baseYNs =>
    simp only [hpc] at hstep ⊢
    exact Option.some.inj hstep ▸ scrubDelay_reaches hv h left startMs right baseYNs
  | ramp zNs after =>
    simp only [hpc] at hstep ⊢
    exact Option.some.inj hstep ▸ rampLoop_reaches hv h after zNs
  | settle left after =>
    simp only [hpc] at hstep ⊢
    exact Option.some.inj hstep ▸ settleLoop_reaches hv h after left
  | verify start clearStart clearActive =>
    simp only [hpc] at hstep ⊢
    exact Option.some.inj hstep ▸ verifyLoop_reaches hv h start ⟨clearStart, clearActive⟩
  | retry =>
    simp only [hpc] at hstep ⊢
    exact Option.some.inj hstep ▸ retract_reaches hv h .retry

/-! ## A run -/

/-- A step that leaves the outputs to the worker, up to the end of the mission. -/
def Alone (s : CleanerSys) : CleanerSys.Input → Prop
  | .worker _ => OnMission s.cleaner
  | .updateCameraTarget _ _ | .updateGuard _ _ => True
  | _ => False

instance : ∀ pc, Decidable (Cleaner.InMission pc)
  | .idle | .ended _ | .closing _ _ | .releasing _ _ => .isFalse id
  | .nextCycle | .waitStain _ | .aim _ _ | .extend _ _ _ _ | .spray _ _ | .scrub _ _ _ _ | .ramp _ _
  | .settle _ _ | .verify _ _ _ | .retry => .isTrue trivial

instance (s : CleanerSys) : ∀ i, Decidable (Alone s i)
  | .worker _ => inferInstanceAs (Decidable (_ ∨ _))
  | .updateCameraTarget _ _ | .updateGuard _ _ => .isTrue trivial
  | .guardOutputs _ | .emergencyStop | .stopOutputs _ | .start _ | .reset | .resetOutputs _
  | .resetClear | .resetTimeout => .isFalse id

/-- A run from `s` in whose steps the worker had these looks. -/
inductive Looked (s : CleanerSys) : List Look → CleanerSys → Prop where
  | refl : Looked s [] s
  | worker {looks new : List Look} {t u : CleanerSys} {io : CleanerIo} (h : Looked s looks t)
      (step : t.step (.worker io) = some u) (seen : ∀ l ∈ new, Seen t.cleaner io l) :
      Looked s (looks ++ new) u
  | other {looks : List Look} {t u : CleanerSys} {i : CleanerSys.Input} (h : Looked s looks t)
      (step : t.step i = some u) (beside : ∀ io, i ≠ .worker io) : Looked s looks u

variable {s t : CleanerSys}

theorem run_resumes (h : Same g s.cleaner) (hidle : s.cleaner.worker = .idle)
    (hrun : CleanerSys.machine.Run Alone s t) :
    ∃ looks g', Looked s looks t ∧ Same g' t.cleaner ∧
      ∀ more, work s.cleaner.maxCycles g (looks ++ more) = resume t.cleaner g' more := by
  induction hrun with
  | refl =>
    refine ⟨[], g, .refl, h, fun _ => ?_⟩
    unfold resume
    rw [hidle]
    rfl
  | @step t u i _ hok hstep ih =>
    obtain ⟨looks, g', hlooked, hsame, hwork⟩ := ih
    have hstep : t.step i = some u := hstep
    cases i with
    | worker io =>
      obtain ⟨c, hc, rfl⟩ := Option.map_eq_some_iff.mp hstep
      obtain ⟨new, g'', hseen, hsame', hnew⟩ := workerStep_reaches hsame hok hc
      refine ⟨looks ++ new, g'', .worker hlooked hstep hseen, hsame', fun more => ?_⟩
      rw [List.append_assoc, hwork, hnew]
    | updateCameraTarget target now =>
      obtain rfl := Option.some.inj hstep
      exact ⟨looks, g', .other hlooked hstep nofun, { hsame with }, hwork⟩
    | updateGuard guard now =>
      obtain rfl := Option.some.inj hstep
      exact ⟨looks, g', .other hlooked hstep nofun, { hsame with }, hwork⟩
    | guardOutputs | emergencyStop | stopOutputs | start | reset | resetOutputs | resetClear
    | resetTimeout => exact hok.elim

/-- **The cycles of the worker are those of the procedures**: what every mission of them returns, a run of the
worker that has ended returns. -/
theorem ended_returned {result : RtErr} (h : Same g s.cleaner) (hmission : g.mission = [])
    (hidle : s.cleaner.worker = .idle) (hrun : CleanerSys.machine.Run Alone s t)
    (hended : t.cleaner.worker = .ended result) :
    ∃ g', Same g' t.cleaner ∧
      Returned CleanerConfig.default.sanitize s.cleaner.maxCycles.toNat result g' := by
  obtain ⟨looks, g', -, hsame, hwork⟩ := run_resumes h hidle hrun
  have hall := hwork []
  unfold resume at hall
  rw [hended] at hall
  exact ⟨g', hsame, (work_returned _ g _ ⟨h.config, hmission⟩).1 result g' [] hall⟩

end Hcics.Gimbal
