import Hcics.Track.Tracker

/-!
# The tracker executes its plan

`Paced` adds the times to the plan invariant: a timed action in progress ends a fixed time after the
tick that began it, and a path between two actions has waited since its last node. `tick_timed` says
what a tick does with a timed action, `finish_spec` how a path finishes.
-/

namespace Hcics.Tracker

open Track

/-! ## Nodes of a tick -/

@[simp] theorem beginAction_pathIndex (t : Track) (action : TrackAction) (now : UInt32) :
    (t.beginAction action now).1.pathIndex = t.pathIndex := by
  cases action <;> rfl

theorem pathIndex_succ_ne (i : UInt8) : i + 1 ≠ i := by
  grind

/-- The tick's case with the history it leaves: only an accepted node extends it. -/
inductive Ticked (s : Tracker) (now : Nat) : Tracker → Prop where
  /-- The tracker is not running. -/
  | idle (stopped : s.track.initialized = false ∨ s.track.running = false) :
      Ticked s now { s with lastTick := some now }
  /-- No node is accepted. -/
  | quiet (r : Track × Option (Int16 × Int16)) (init : s.track.initialized = true)
      (run : s.track.running = true) (case : TickCase s.track (UInt32.ofNat now) r)
      (same : r.1.pathIndex = s.track.pathIndex) :
      Ticked s now { s with track := r.1, lastTick := some now }
  /-- A node is accepted and a step begun. -/
  | node (step : TrackAction) (init : s.track.initialized = true) (run : s.track.running = true)
      (inactive : s.track.actionActive = false)
      (seen : s.track.nodeSeen (UInt32.ofNat now) = true) (path : s.track.path = true)
      (get : s.track.plannedPath.steps[s.track.pathIndex.toNat]? = some step) :
      Ticked s now
        { s with
          track := ({ s.track with
            lastTickMs := UInt32.ofNat now
            currentNodeIndex := s.track.pathIndex
            pathIndex := s.track.pathIndex + 1 }.beginAction step (UInt32.ofNat now)).1
          lastTick := some now
          begunAt := now
          nodes := now :: s.nodes
          nodeFrames := s.frames :: s.nodeFrames }

theorem doTick_ticked (s : Tracker) (now : Nat) (line : Int16 × Int16) :
    Ticked s now (s.doTick now line) := by
  by_cases hrun : s.track.initialized = true ∧ s.track.running = true
  · obtain ⟨hi, hr⟩ := hrun
    have hcase := tick_case hi hr (UInt32.ofNat now) line
    unfold doTick
    generalize s.track.tick (UInt32.ofNat now) line = r at hcase ⊢
    by_cases hsame : r.1.pathIndex = s.track.pathIndex
    · simp only [if_pos hsame]
      exact .quiet r hi hr hcase hsame
    · simp only [if_neg hsame]
      cases hcase with
      | wait | docked | resumed | exhausted | line => exact absurd rfl hsame
      | node step ha hseen hp hget => exact .node step hi hr ha hseen hp hget
  · have hidle : s.track.initialized = false ∨ s.track.running = false := by
      simpa [← Bool.not_eq_true, imp_iff_not_or] using hrun
    rw [doTick, tick_idle hidle, if_pos rfl]
    exact .idle hidle

/-! ## Times -/

/-- The times of the current path. -/
structure Paced (s : Tracker) : Prop where
  apart : s.nodes.Pairwise fun later earlier => earlier + currentCooldownMs.toNat ≤ later
  /-- A timed action in progress was begun at `begunAt` and is not over at the last tick. -/
  timed : s.track.running = true → s.track.actionActive = true →
    s.track.actionEndMs = UInt32.ofNat (s.begunAt + (durationMs s.track.activeAction).toNat) ∧
      (∀ node ∈ s.nodes.head?, node ≤ s.begunAt) ∧
      ∃ last, s.lastTick = some last ∧ s.begunAt ≤ last ∧
        last < s.begunAt + (durationMs s.track.activeAction).toNat
  /-- Between two actions, `last_node_ms` is a tick after the last node. -/
  waiting : s.track.running = true → s.track.actionActive = false → ∀ node ∈ s.nodes.head?,
    ∃ n last, s.lastTick = some last ∧ s.track.lastNodeMs = UInt32.ofNat n ∧ node ≤ n ∧ n ≤ last

theorem durationMs_pos {action : TrackAction} (h : Timed action) :
    0 < (durationMs action).toNat ∧ (durationMs action).toNat < 2 ^ 31 := by
  cases action with
  | forward => exact absurd rfl h.1
  | stopAtTarget => exact absurd rfl h.2
  | turnLeft | turnRight | uturn | finishDelay => decide

/-- Before the end of a timed action the signed comparison of the clock says so, and after it not. -/
theorem Paced.early_iff {s : Tracker} (h : Paced s) (hu : Underway s.track)
    (hr : s.track.running = true) (ha : s.track.actionActive = true) {now : Nat}
    {line : Int16 × Int16} (hnow : s.TickTime now) (hsoon : s.Timely (.tick now line)) :
    (UInt32.ofNat now - s.track.actionEndMs).toInt32 < 0 ↔
      now < s.begunAt + (durationMs s.track.activeAction).toNat := by
  obtain ⟨hend, -, last, hlast, hle, hlt⟩ := h.timed hr ha
  have h1 := hnow last hlast
  have h2 := hsoon last hlast
  have hdur := (durationMs_pos (hu.active ha).1).2
  rw [hend]
  exact Clock.signed_sub_neg_iff (by omega) (by omega)

theorem nodeSeen_cooldown {t : Track} {now : UInt32} (h : t.nodeSeen now = true) :
    currentCooldownMs ≤ now - t.lastNodeMs := by
  unfold nodeSeen at h
  split_ifs at h with h1 h2
  exact UInt32.not_lt.mp h2

theorem Paced.node_apart {s : Tracker} (h : Paced s) (hr : s.track.running = true)
    (ha : s.track.actionActive = false) {now : Nat} (hnow : s.TickTime now)
    (hseen : s.track.nodeSeen (UInt32.ofNat now) = true) :
    ∀ node ∈ s.nodes, node + currentCooldownMs.toNat ≤ now := by
  have hwait := h.waiting hr ha
  have hapart := h.apart
  cases hnodes : s.nodes with
  | nil => simp
  | cons head rest =>
    rw [hnodes] at hwait hapart
    obtain ⟨n, last, hlast, hn, hle, hle'⟩ := hwait head rfl
    have hlast := hnow last hlast
    have hhead : n + currentCooldownMs.toNat ≤ now :=
      Clock.elapsed_of_le_sub (by omega) (hn ▸ nodeSeen_cooldown hseen)
    intro node hmem
    rcases List.mem_cons.mp hmem with rfl | hmem
    · omega
    · have := (List.pairwise_cons.mp hapart).1 node hmem
      omega

theorem beginAction_timed {action : TrackAction} (h : Timed action) (t : Track) (now : UInt32) :
    (t.beginAction action now).1.actionActive = true ∧
      (t.beginAction action now).1.activeAction = action ∧
      (t.beginAction action now).1.actionEndMs = now + durationMs action := by
  cases action with
  | forward => exact absurd rfl h.1
  | stopAtTarget => exact absurd rfl h.2
  | turnLeft | turnRight | uturn | finishDelay => exact ⟨rfl, rfl, rfl⟩

theorem node_paced {t : Track} {now frames : Nat} {nodes nodeFrames : List Nat}
    {action : TrackAction} (happart : (now :: nodes).Pairwise fun later earlier =>
      earlier + currentCooldownMs.toNat ≤ later) (h : Timed action) :
    Paced ⟨(t.beginAction action (UInt32.ofNat now)).1, some now, now, now :: nodes, frames,
      nodeFrames⟩ := by
  obtain ⟨hact, haction, hend⟩ := beginAction_timed h t (UInt32.ofNat now)
  refine ⟨happart, fun _ _ => ?_, fun _ hf => Bool.noConfusion (hact.symm.trans hf)⟩
  dsimp only
  rw [hend, haction, Clock.ofNat_add_duration]
  exact ⟨rfl, by simp, now, rfl, Nat.le_refl _, Nat.lt_add_of_pos_right (durationMs_pos h).1⟩

theorem doTick_paced {s : Tracker} (hinv : s.track.PlanInv) (h : Paced s) {now : Nat}
    {line : Int16 × Int16} (hnow : s.TickTime now) (hsoon : s.Timely (.tick now line)) : Paced (s.doTick now line) := by
  have htick := doTick_ticked s now line
  generalize s.doTick now line = s' at htick ⊢
  rcases htick with hidle | ⟨r, hi, hr, hcase, hsame⟩ | ⟨step, hi, hr, ha, hseen, hp, hget⟩
  · have hstop : s.track.running = false := by
      rcases hidle with hidle | hidle
      · by_contra hr
        exact Bool.noConfusion (hidle.symm.trans (hinv.underway (by simpa using hr)).initialized)
      · exact hidle
    exact ⟨h.apart, fun hr => Bool.noConfusion (hstop.symm.trans hr),
      fun hr => Bool.noConfusion (hstop.symm.trans hr)⟩
  · have hu := hinv.underway hr
    cases hcase with
    | wait ha hearly =>
      obtain ⟨hend, hhead, last, hlast, hle, -⟩ := h.timed hr ha
      refine ⟨h.apart, fun _ _ => ⟨hend, hhead, now, rfl, ?_, ?_⟩,
        fun _ hf => Bool.noConfusion (ha.symm.trans hf)⟩
      · exact Nat.le_trans hle (hnow last hlast)
      · exact (h.early_iff hu hr ha hnow hsoon).mp hearly
    | docked => exact ⟨h.apart, fun hf => Bool.noConfusion hf, fun hf => Bool.noConfusion hf⟩
    | resumed ha =>
      obtain ⟨-, hhead, last, hlast, hle, -⟩ := h.timed hr ha
      refine ⟨h.apart, fun _ hf => Bool.noConfusion hf, fun _ _ node hnode => ?_⟩
      have hnode := hhead node hnode
      have hlast := hnow last hlast
      exact ⟨now, now, rfl, rfl, by omega, Nat.le_refl _⟩
    | node => exact absurd hsame (by rw [beginAction_pathIndex]; exact pathIndex_succ_ne _)
    | exhausted => exact ⟨h.apart, fun hf => Bool.noConfusion hf, fun hf => Bool.noConfusion hf⟩
    | line left right locked ha =>
      refine ⟨h.apart, fun _ hf => Bool.noConfusion (ha.symm.trans hf), fun _ _ node hnode => ?_⟩
      obtain ⟨n, last, hlast, hn, hle, hle'⟩ := h.waiting hr ha node hnode
      exact ⟨n, now, rfl, hn, hle, Nat.le_trans hle' (hnow last hlast)⟩
  · have happart := List.pairwise_cons.mpr ⟨h.node_apart hr ha hnow hseen, h.apart⟩
    cases step with
    | forward =>
      refine ⟨happart, fun _ hf => Bool.noConfusion hf, fun _ _ node hnode => ?_⟩
      obtain rfl : now = node := by simpa using hnode
      exact ⟨now, now, rfl, rfl, Nat.le_refl _, Nat.le_refl _⟩
    | stopAtTarget => exact ⟨happart, fun hf => Bool.noConfusion hf, fun hf => Bool.noConfusion hf⟩
    | turnLeft | turnRight | uturn | finishDelay => exact node_paced happart ⟨nofun, nofun⟩

theorem doStart_paced {s : Tracker} (h : Paced s) (hr : s.track.running = false) (targetId : UInt8)
    (nowMs : UInt32) : Paced (s.doStart targetId nowMs) := by
  unfold doStart
  dsimp only
  split_ifs with hres
  · obtain ⟨-, -, p, -, he⟩ := startPath_ok hres
    rw [he]
    exact ⟨.nil, fun _ hf => Bool.noConfusion hf, fun _ _ _ hnode => nomatch hnode⟩
  · have hstop : (s.track.startPath targetId nowMs).1.running = false := by
      rcases startPath_err hres with he | ⟨p, he⟩ <;> rw [he] <;> exact hr
    exact ⟨h.apart, fun hf => Bool.noConfusion (hstop.symm.trans hf),
      fun hf => Bool.noConfusion (hstop.symm.trans hf)⟩

theorem step_paced {s s' : Tracker} {i : Input} (hinv : s.track.PlanInv) (h : Paced s)
    (hsoon : s.Timely i) (hstep : s.step i = some s') : Paced s' := by
  cases step_case hstep with
  | tick hnow => exact doTick_paced hinv h hnow hsoon
  | startPath hr => exact doStart_paced h hr _ _
  | stop =>
    simp only [Track.stop]
    split_ifs
    · exact h
    · exact ⟨h.apart, fun hf => Bool.noConfusion hf, fun hf => Bool.noConfusion hf⟩
  | updateCamera target =>
    rw [Track.updateCamera_eq]
    exact ⟨h.apart, h.timed, h.waiting⟩
  | bind setMotor => exact ⟨h.apart, h.timed, h.waiting⟩
  | init => exact ⟨h.apart, fun hf => Bool.noConfusion hf, fun hf => Bool.noConfusion hf⟩

theorem paced_of_reach {s : Tracker} (h : machine.Reach Timely s) : Paced s :=
  h.inv (fun _ hs => hs ▸ ⟨.nil, fun hf => Bool.noConfusion hf, fun hf => Bool.noConfusion hf⟩)
    fun _ _ _ hr hs hsoon hstep => step_paced (planInv_of_reach hr) hs hsoon hstep

/-! ## Finishing -/

/-- The tick `i` finishes the path through the last step of its plan. -/
inductive FinishedBy (s : Tracker) (i : Input) (s' : Tracker) : Prop where
  /-- By beginning STOP_AT_TARGET. -/
  | stopAtTarget (now : Nat) (line : Int16 × Int16) (tick : i = .tick now line)
      (running : s.track.running = true) (inactive : s.track.actionActive = false)
      (last : s.track.plannedPath.steps.getLast? = some .stopAtTarget)
      (begun : s'.track.pathBegun = s.track.pathBegun ++ [.stopAtTarget])
      (all : s'.track.pathBegun = s.track.plannedPath.steps)
  /-- At the end of the delay of FINISH_DELAY. -/
  | finishDelay (now : Nat) (line : Int16 × Int16) (tick : i = .tick now line)
      (running : s.track.running = true) (active : s.track.actionActive = true)
      (last : s.track.plannedPath.steps.getLast? = some .finishDelay)
      (ended : s.begunAt + (durationMs .finishDelay).toNat ≤ now)
      (all : s'.track.pathBegun = s.track.plannedPath.steps)

theorem getLast?_of_get {steps : List TrackAction} {i : Nat} {a : TrackAction}
    (hget : steps[i]? = some a) (hlast : i + 1 = steps.length) : steps.getLast? = some a := by
  rw [List.getLast?_eq_getElem?, ← hlast]
  exact hget

theorem doTick_finishes {s : Tracker} (hinv : s.track.PlanInv) (h : Paced s) {now : Nat}
    {line : Int16 × Int16} (hnow : s.TickTime now) (hsoon : s.Timely (.tick now line)) (hf : s.track.finished = false)
    (hf' : (s.doTick now line).track.finished = true) :
    FinishedBy s (.tick now line) (s.doTick now line) := by
  have hall : (s.doTick now line).track.pathBegun = s.track.plannedPath.steps := by
    rw [doTick_track] at hf' ⊢
    exact (tick_finishes hinv hf hf').1
  have htick := doTick_ticked s now line
  generalize s.doTick now line = s' at htick hf' hall ⊢
  rcases htick with - | ⟨r, hi, hr, hcase, hsame⟩ | ⟨step, hi, hr, ha, hseen, hp, hget⟩
  · exact Bool.noConfusion (hf.symm.trans hf')
  · have hu := hinv.underway hr
    cases hcase with
    | wait | resumed | line => exact Bool.noConfusion (hf.symm.trans hf')
    | docked ha hover hlast =>
      obtain ⟨-, i, -, hget⟩ := hu.active ha
      rw [hlast] at hget
      have hlen := hu.plan.eq_last hget (.inl rfl)
      refine .finishDelay now line rfl hr ha (getLast?_of_get hget hlen) ?_ hall
      rw [h.early_iff hu hr ha hnow hsoon, hlast] at hover
      omega
    | node => exact absurd hsame (by rw [beginAction_pathIndex]; exact pathIndex_succ_ne _)
    | exhausted ha hget =>
      rw [if_pos hu.path, List.getElem?_eq_none_iff] at hget
      exact absurd (hu.left ha) (by omega)
  · have hu := hinv.underway hr
    cases step with
    | stopAtTarget =>
      have hlen := hu.plan.eq_last hget (.inr rfl)
      exact .stopAtTarget now line rfl hr ha (getLast?_of_get hget hlen) rfl hall
    | forward | turnLeft | turnRight | uturn | finishDelay =>
      exact Bool.noConfusion (hf.symm.trans hf')

theorem step_finishes {s s' : Tracker} {i : Input} (hinv : s.track.PlanInv) (h : Paced s)
    (hsoon : s.Timely i) (hstep : s.step i = some s') (hf : s.track.finished = false) (hf' : s'.track.finished = true) :
    FinishedBy s i s' := by
  cases step_case hstep with
  | tick hnow => exact doTick_finishes hinv h hnow hsoon hf hf'
  | @startPath targetId nowMs =>
    rw [doStart_track] at hf'
    by_cases hres : (s.track.startPath targetId nowMs).2 = RT_EOK
    · obtain ⟨-, -, p, -, he⟩ := startPath_ok hres
      rw [he] at hf'
      cases hf'
    · rcases startPath_err hres with he | ⟨p, he⟩ <;> rw [he] at hf' <;>
        exact Bool.noConfusion (hf.symm.trans hf')
  | stop =>
    revert hf'
    simp only [Track.stop]
    split_ifs
    · exact fun hf' => Bool.noConfusion (hf.symm.trans hf')
    · exact fun hf' => Bool.noConfusion hf'
  | updateCamera target =>
    rw [Track.updateCamera_eq] at hf'
    exact Bool.noConfusion (hf.symm.trans hf')
  | bind setMotor => exact Bool.noConfusion (hf.symm.trans hf')
  | init => exact Bool.noConfusion hf'

/-- A tick during a timed action: before its end nothing but the tick time changes, from its end on
the action is over; neither accepts a node. -/
theorem doTick_timed {s : Tracker} (hinv : s.track.PlanInv) (h : Paced s) {now : Nat}
    {line : Int16 × Int16} (hnow : s.TickTime now) (hsoon : s.Timely (.tick now line))
    (hr : s.track.running = true) (ha : s.track.actionActive = true) :
    (s.doTick now line).nodes = s.nodes ∧
      (now < s.begunAt + (durationMs s.track.activeAction).toNat →
        (s.doTick now line).track = { s.track with lastTickMs := UInt32.ofNat now }) ∧
      (s.begunAt + (durationMs s.track.activeAction).toNat ≤ now →
        (s.doTick now line).track.actionActive = false) := by
  have hu := hinv.underway hr
  have hearly := h.early_iff hu hr ha hnow hsoon
  have htick := doTick_ticked s now line
  generalize s.doTick now line = s' at htick ⊢
  rcases htick with hidle | ⟨r, -, -, hcase, hsame⟩ | ⟨_, -, -, ha', -⟩
  · rw [hu.initialized, hr] at hidle
    simp at hidle
  · cases hcase with
    | wait _ he => exact ⟨rfl, fun _ => rfl, fun hle => absurd (hearly.mp he) (by omega)⟩
    | docked _ he => exact ⟨rfl, fun hlt => absurd (hearly.mpr hlt) he, fun _ => rfl⟩
    | resumed _ he => exact ⟨rfl, fun hlt => absurd (hearly.mpr hlt) he, fun _ => rfl⟩
    | node _ ha' => exact Bool.noConfusion (ha'.symm.trans ha)
    | exhausted ha' => exact Bool.noConfusion (ha'.symm.trans ha)
    | line _ _ _ ha' => exact Bool.noConfusion (ha'.symm.trans ha)
  · exact Bool.noConfusion (ha'.symm.trans ha)

/-- **The tracker executes its plan exactly.** In every state of a timely run a running path has an index
within a plan of at most 16 steps and, unless a timed action is in progress, a step left; it is not
finished; the steps begun are the first `path_index` steps of the plan, and stay a prefix of it once
the path has ended. A path finishes only in a tick, through the last step of its plan and with all
steps begun. A timed action that is not stopped ends at the first tick at or after its start plus
its duration, and no tick until then accepts a node. The nodes of a path are at least the cooldown
apart. -/
theorem plan_executed {s : Tracker} (h : machine.Reach Timely s) :
    (s.track.running = true →
      s.track.pathIndex.toNat ≤ s.track.plannedPath.steps.length ∧
      s.track.plannedPath.steps.length ≤ maxPathSteps ∧
      s.track.finished = false ∧
      s.track.pathBegun = s.track.plannedPath.steps.take s.track.pathIndex.toNat ∧
      (s.track.actionActive = false →
        s.track.pathIndex.toNat < s.track.plannedPath.steps.length)) ∧
    s.track.pathBegun <+: s.track.plannedPath.steps ∧
    (∀ i s', s.Timely i → machine.step s i = some s' → s.track.finished = false →
      s'.track.finished = true → FinishedBy s i s') ∧
    (s.track.running = true → s.track.actionActive = true → ∀ now line s',
      s.Timely (.tick now line) → machine.step s (.tick now line) = some s' →
        s'.nodes = s.nodes ∧
        (now < s.begunAt + (durationMs s.track.activeAction).toNat →
          s'.track = { s.track with lastTickMs := UInt32.ofNat now }) ∧
        (s.begunAt + (durationMs s.track.activeAction).toNat ≤ now →
          s'.track.actionActive = false)) ∧
    s.nodes.Pairwise fun later earlier => earlier + currentCooldownMs.toNat ≤ later := by
  have hinv := planInv_of_reach h
  have hpaced := paced_of_reach h
  refine ⟨fun hr => ?_, hinv.begun, fun i s' hsoon hstep hf hf' =>
    step_finishes hinv hpaced hsoon hstep hf hf', fun hr ha now line s' hsoon hstep => ?_, hpaced.apart⟩
  · have hu := hinv.underway hr
    exact ⟨hu.index_le, hu.plan.length_le, hu.unfinished, hu.begun, hu.left⟩
  · simp only [machine, step] at hstep
    split at hstep
    · rename_i hnow
      obtain rfl := Option.some.inj hstep
      exact doTick_timed hinv hpaced hnow hsoon hr ha
    · cases hstep

/-- A path to panel 1 up to the middle of its turn into the row. -/
def turningRun : List Input :=
  [.init (some true) RT_EOK, .updateCamera ⟨1, 80, 60, 120, 3, 1000⟩, .startPath 1 1000,
    .tick 1000 (54, 54), .tick 1500 (54, 54), .tick 2000 (54, 54)]

/-- The turn into the row, begun at 1500, is over at the tick of 2250 and not at that of 2249. -/
theorem plan_executed_turning :
    let s := (machine.exec boot turningRun).get rfl
    s.track.pathBegun = [.forward, .turnRight] ∧ s.nodes = [1500, 1000] ∧
      (∀ s', machine.step s (.tick 2249 (54, 54)) = some s' → s'.track.actionActive = true) ∧
      (∀ s', machine.step s (.tick 2250 (54, 54)) = some s' → s'.track.actionActive = false) := by
  have hreach : machine.Reach Timely ((machine.exec boot turningRun).get rfl) :=
    ⟨_, rfl, .of_exec turningRun rfl (by decide)⟩
  have h := plan_executed hreach
  refine ⟨rfl, rfl, fun s' hs => ?_, fun s' hs => ?_⟩
  · rw [(h.2.2.2.1 rfl rfl _ _ _ (by decide) hs).2.1 (by decide)]
    rfl
  · exact (h.2.2.2.1 rfl rfl _ _ _ (by decide) hs).2.2 (by decide)

end Hcics.Tracker
