import Hcics.Track.Model

/-!
# What the operations of the tracker can do

`planPath_spec` gives the plans in closed form; `tick_case` says everything a tick can do. `PlanInv`
is the invariant that links the running path with its plan: a running path without a timed action
has a step left, and a timed action in progress is the step begun last.
-/

namespace Hcics.Track

/-! ## Plans -/

def outboundSteps (row col : Nat) : List TrackAction :=
  List.replicate row .forward ++ [.turnRight] ++ List.replicate (col - 1) .forward ++ [.stopAtTarget]

/-- The steps of `hcics_track_build_return_home` from a panel. -/
def returnSteps (row col : Nat) : List TrackAction :=
  [.uturn] ++ List.replicate (col - 1) .forward ++ [.turnLeft] ++ List.replicate row .forward ++
    [.finishDelay]

theorem addStep_ok {p : TrackPath} (action : TrackAction) (h : p.steps.length < maxPathSteps) :
    addStep p action = ({ p with steps := p.steps ++ [action] }, RT_EOK) := by
  rw [addStep, if_neg (by omega)]

theorem addForward_ok (n : Nat) (p : TrackPath) (h : p.steps.length + n ≤ maxPathSteps) :
    addForward p n = ({ p with steps := p.steps ++ List.replicate n .forward }, RT_EOK) := by
  induction n generalizing p with
  | zero => simp [addForward]
  | succ n ih =>
    have hadd := addStep_ok (p := p) .forward (by simp at h ⊢; omega)
    have hrest := ih { p with steps := p.steps ++ [.forward] } (by simp at h ⊢; omega)
    simp [addForward, hadd, hrest, List.replicate_succ]

theorem target_cases {targetId : UInt8} {grid : UInt8 × UInt8}
    (h : targetToGrid targetId = some grid) :
    targetId = 1 ∨ targetId = 2 ∨ targetId = 3 ∨ targetId = 4 ∨ targetId = 5 ∨ targetId = 6 ∨
      targetId = 7 ∨ targetId = 8 ∨ targetId = 9 := by
  unfold targetToGrid at h
  split at h
  · cases h
  · grind

theorem of_targetToGrid {targetId : UInt8} {grid : UInt8 × UInt8}
    (h : targetToGrid targetId = some grid) (P : UInt8 → UInt8 × UInt8 → Prop)
    [∀ target place, Decidable (P target place)]
    (hall : ([1, 2, 3, 4, 5, 6, 7, 8, 9].all fun target =>
      (targetToGrid target).all fun place => P target place) = true) : P targetId grid := by
  have hmem : targetId ∈ ([1, 2, 3, 4, 5, 6, 7, 8, 9] : List UInt8) := by
    rcases target_cases h with rfl | rfl | rfl | rfl | rfl | rfl | rfl | rfl | rfl <;> simp
  have hplace := List.all_eq_true.mp hall targetId hmem
  rw [h] at hplace
  exact of_decide_eq_true hplace

theorem targetToGrid_spec {targetId row col : UInt8} (h : targetToGrid targetId = some (row, col)) :
    (1 ≤ row.toNat ∧ row.toNat ≤ 3) ∧ (1 ≤ col.toNat ∧ col.toNat ≤ 3) ∧ targetId ≠ targetHome :=
  of_targetToGrid h (fun target grid => (1 ≤ grid.1.toNat ∧ grid.1.toNat ≤ 3) ∧
    (1 ≤ grid.2.toNat ∧ grid.2.toNat ≤ 3) ∧ target ≠ targetHome) (by decide)

theorem buildToTarget_eq {targetId row col : UInt8} (h : targetToGrid targetId = some (row, col)) :
    buildToTarget ⟨[], 0⟩ targetId = (⟨outboundSteps row.toNat col.toNat, targetId⟩, RT_EOK) := by
  obtain ⟨⟨-, hrow⟩, ⟨-, hcol⟩, -⟩ := targetToGrid_spec h
  simp only [buildToTarget, h]
  rw [addForward_ok _ _ (by simp; omega)]
  simp only [ne_eq, not_true_eq_false, if_false]
  rw [addStep_ok _ (by simp; omega)]
  simp only [not_true_eq_false, if_false]
  rw [addForward_ok _ _ (by simp; omega)]
  simp only [not_true_eq_false, if_false]
  rw [addStep_ok _ (by simp; omega)]
  simp [outboundSteps]

theorem buildReturnHome_eq {location row col : UInt8} (h : targetToGrid location = some (row, col)) :
    buildReturnHome ⟨[], 0⟩ location = (⟨returnSteps row.toNat col.toNat, targetHome⟩, RT_EOK) := by
  obtain ⟨⟨-, hrow⟩, ⟨-, hcol⟩, hne⟩ := targetToGrid_spec h
  simp only [buildReturnHome, h, if_neg hne]
  rw [addStep_ok _ (by simp)]
  simp only [ne_eq, not_true_eq_false, if_false]
  rw [addForward_ok _ _ (by simp; omega)]
  simp only [not_true_eq_false, if_false]
  rw [addStep_ok _ (by simp; omega)]
  simp only [not_true_eq_false, if_false]
  rw [addForward_ok _ _ (by simp; omega)]
  simp only [not_true_eq_false, if_false]
  rw [addStep_ok _ (by simp; omega)]
  simp [returnSteps]

/-- A successful plan: the settling delay at home, a way home from the recorded panel, or a way to
a panel. -/
theorem planPath_spec {location targetId : UInt8} {p : TrackPath}
    (h : planPath location targetId = (p, RT_EOK)) :
    (targetId = targetHome ∧ location = targetHome ∧ p = ⟨[.finishDelay], targetHome⟩) ∨
    (targetId = targetHome ∧ ∃ row col, targetToGrid location = some (row, col) ∧
      p = ⟨returnSteps row.toNat col.toNat, targetHome⟩) ∨
    (∃ row col, targetToGrid targetId = some (row, col) ∧
      p = ⟨outboundSteps row.toNat col.toNat, targetId⟩) := by
  unfold planPath at h
  split at h
  · rename_i htarget
    by_cases hloc : location = targetHome
    · subst hloc
      exact .inl ⟨htarget, rfl, by simpa [buildReturnHome, addStep, eq_comm] using h⟩
    · cases hgrid : targetToGrid location with
      | none => simp [buildReturnHome, hloc, hgrid] at h
      | some grid =>
        rw [buildReturnHome_eq hgrid] at h
        exact .inr (.inl ⟨htarget, _, _, rfl, (Prod.mk.inj h).1.symm⟩)
  · cases hgrid : targetToGrid targetId with
    | none => simp [buildToTarget, hgrid] at h
    | some grid =>
      rw [buildToTarget_eq hgrid] at h
      exact .inr (.inr ⟨_, _, rfl, (Prod.mk.inj h).1.symm⟩)

/-- The step that ends a path. -/
def Finishing (action : TrackAction) : Prop := action = .finishDelay ∨ action = .stopAtTarget

/-- A plan of at most 16 steps, the last of which, and no other, ends the path. -/
structure IsPlan (steps : List TrackAction) : Prop where
  length_le : steps.length ≤ maxPathSteps
  last : ∃ body last, steps = body ++ [last] ∧ Finishing last ∧ ∀ a ∈ body, ¬ Finishing a

theorem isPlan_of_planPath {location targetId : UInt8} {p : TrackPath}
    (h : planPath location targetId = (p, RT_EOK)) : IsPlan p.steps := by
  rcases planPath_spec h with ⟨-, -, rfl⟩ | ⟨-, row, col, hg, rfl⟩ | ⟨row, col, hg, rfl⟩
  · exact ⟨by simp, [], _, rfl, .inl rfl, by simp⟩
  · obtain ⟨⟨-, hrow⟩, ⟨-, hcol⟩, -⟩ := targetToGrid_spec hg
    refine ⟨by simp [returnSteps]; omega, _, _, rfl, .inl rfl, fun a ha => ?_⟩
    simp only [List.mem_append, List.mem_singleton, List.mem_replicate] at ha
    rcases ha with ((rfl | ⟨-, rfl⟩) | rfl) | ⟨-, rfl⟩ <;> simp [Finishing]
  · obtain ⟨⟨-, hrow⟩, ⟨-, hcol⟩, -⟩ := targetToGrid_spec hg
    refine ⟨by simp [outboundSteps]; omega, _, _, rfl, .inr rfl, fun a ha => ?_⟩
    simp only [List.mem_append, List.mem_singleton, List.mem_replicate] at ha
    rcases ha with (⟨-, rfl⟩ | rfl) | ⟨-, rfl⟩ <;> simp [Finishing]

theorem IsPlan.eq_last {steps : List TrackAction} (h : IsPlan steps) {i : Nat} {a : TrackAction}
    (hi : steps[i]? = some a) (ha : Finishing a) : i + 1 = steps.length := by
  obtain ⟨body, last, rfl, -, hbody⟩ := h.last
  by_contra hne
  have hlt : i < body.length := by
    have := (List.getElem?_eq_some_iff.mp hi).1
    simp at this hne
    omega
  rw [List.getElem?_append_left hlt] at hi
  exact hbody a (List.mem_of_getElem? hi) ha

theorem IsPlan.lt_of_not {steps : List TrackAction} (h : IsPlan steps) {i : Nat} {a : TrackAction}
    (hi : steps[i]? = some a) (ha : ¬ Finishing a) : i + 1 < steps.length := by
  obtain ⟨body, last, rfl, hlast, -⟩ := h.last
  by_contra hge
  have hlt := (List.getElem?_eq_some_iff.mp hi).1
  simp at hlt hge
  obtain rfl : i = body.length := by omega
  rw [List.getElem?_concat_length] at hi
  exact ha (Option.some.inj hi ▸ hlast)

/-! ## Ticks -/

/-- What a tick does on the running tracker `t` at `now`. -/
inductive TickCase (t : Track) (now : UInt32) : Track × Option (Int16 × Int16) → Prop where
  /-- A timed action is in progress and not over. -/
  | wait (active : t.actionActive = true) (early : (now - t.actionEndMs).toInt32 < 0) :
      TickCase t now ({ t with lastTickMs := now }, none)
  /-- The final delay is over. -/
  | docked (active : t.actionActive = true) (ended : ¬ (now - t.actionEndMs).toInt32 < 0)
      (last : t.activeAction = .finishDelay) :
      TickCase t now ({ t with lastTickMs := now }.finishPath now)
  /-- A turn is over. -/
  | resumed (active : t.actionActive = true) (ended : ¬ (now - t.actionEndMs).toInt32 < 0)
      (turn : t.activeAction ≠ .finishDelay) :
      TickCase t now ({ t with
        lastTickMs := now, actionActive := false, lastNodeMs := now
        visualMissionState := .line }.motionSet 54 54)
  /-- A node is accepted and the next step begun. -/
  | node (step : TrackAction) (inactive : t.actionActive = false) (seen : t.nodeSeen now = true)
      (path : t.path = true) (get : t.plannedPath.steps[t.pathIndex.toNat]? = some step) :
      TickCase t now ({ t with
        lastTickMs := now, currentNodeIndex := t.pathIndex
        pathIndex := t.pathIndex + 1 }.beginAction step now)
  /-- A node is accepted and no step is left. -/
  | exhausted (inactive : t.actionActive = false)
      (get : (if t.path then t.plannedPath.steps[t.pathIndex.toNat]? else none) = none) :
      TickCase t now ({ t with lastTickMs := now }.finishPath now)
  /-- The line is followed, or the wheels are stopped on a stale frame. -/
  | line (left right : Int16) (locked : Bool) (inactive : t.actionActive = false)
      (unseen : t.nodeSeen now = false) :
      TickCase t now ({ t with lastTickMs := now, targetLocked := locked }.motionSet left right)

theorem tick_idle {t : Track} (h : t.initialized = false ∨ t.running = false) (now : UInt32)
    (line : Int16 × Int16) : t.tick now line = (t, none) := by
  rw [tick, if_pos (by simpa using h)]

theorem tick_case {t : Track} (hi : t.initialized = true) (hr : t.running = true) (now : UInt32)
    (line : Int16 × Int16) : TickCase t now (t.tick now line) := by
  rw [tick, if_neg (by simp [hi, hr])]
  dsimp only
  split_ifs with ha hseen
  · rw [completeAction, if_neg (by simp [ha])]
    split_ifs with hearly hlast
    · exact .wait ha hearly
    · exact .docked ha hearly hlast
    · exact .resumed ha hearly hlast
  · have ha : t.actionActive = false := by simpa using ha
    unfold acceptNode
    split
    · rename_i hget
      exact .exhausted ha hget
    · rename_i step hget
      by_cases hp : t.path = true
      · rw [if_pos hp] at hget
        exact .node step ha hseen hp hget
      · rw [if_neg hp] at hget
        cases hget
  · have ha : t.actionActive = false := by simpa using ha
    have hun : t.nodeSeen now = false := by simpa [nodeSeen] using hseen
    simp only [applyLineFollow]
    split_ifs
    · exact .line 0 0 _ ha hun
    · exact .line line.1 line.2 _ ha hun

/-! ## The invariant of the planned path -/

/-- A timed action: a turn or the final delay. -/
def Timed (action : TrackAction) : Prop := action ≠ .forward ∧ action ≠ .stopAtTarget

/-- What links a running path with its plan. -/
structure Underway (t : Track) : Prop where
  initialized : t.initialized = true
  unfinished : t.finished = false
  path : t.path = true
  plan : IsPlan t.plannedPath.steps
  begun : t.pathBegun = t.plannedPath.steps.take t.pathIndex.toNat
  /-- A path without a timed action has a step left. -/
  left : t.actionActive = false → t.pathIndex.toNat < t.plannedPath.steps.length
  /-- A timed action is the step begun last. -/
  active : t.actionActive = true → Timed t.activeAction ∧ ∃ i, t.pathIndex.toNat = i + 1 ∧
    t.plannedPath.steps[i]? = some t.activeAction

structure PlanInv (t : Track) : Prop where
  underway : t.running = true → Underway t
  begun : t.pathBegun <+: t.plannedPath.steps

theorem Underway.index_le {t : Track} (h : Underway t) :
    t.pathIndex.toNat ≤ t.plannedPath.steps.length := by
  cases ha : t.actionActive with
  | false => exact Nat.le_of_lt (h.left ha)
  | true =>
    obtain ⟨-, i, hi, hget⟩ := h.active ha
    have := (List.getElem?_eq_some_iff.mp hget).1
    omega

theorem Underway.toNat_succ {t : Track} (h : Underway t) (ha : t.actionActive = false) :
    (t.pathIndex + 1).toNat = t.pathIndex.toNat + 1 := by
  have hlt := h.left ha
  have hle := h.plan.length_le
  simp only [maxPathSteps] at hle
  rw [UInt8.toNat_add, UInt8.toNat_one]
  omega

theorem planInv_zeroed : PlanInv zeroed :=
  ⟨fun h => Bool.noConfusion h, List.prefix_rfl⟩

theorem Underway.take_succ {t : Track} (h : Underway t) {step : TrackAction}
    (hget : t.plannedPath.steps[t.pathIndex.toNat]? = some step) :
    t.pathBegun ++ [step] = t.plannedPath.steps.take (t.pathIndex.toNat + 1) := by
  rw [h.begun, List.take_add_one, hget, Option.toList_some]

theorem tick_planInv {t : Track} (h : PlanInv t) (now : UInt32) (line : Int16 × Int16) :
    PlanInv (t.tick now line).1 := by
  by_cases hrun : t.initialized = true ∧ t.running = true
  · obtain ⟨hi, hr⟩ := hrun
    have hu := h.underway hr
    have hcase := tick_case hi hr now line
    generalize t.tick now line = r at hcase ⊢
    rcases hcase with ⟨ha, -⟩ | ⟨-, -, -⟩ | ⟨ha, -, hturn⟩ | ⟨step, ha, -, hp, hget⟩ | ⟨-, -⟩ |
      ⟨left, right, locked, ha, -⟩
    · exact ⟨fun _ => ⟨hi, hu.unfinished, hu.path, hu.plan, hu.begun, hu.left, hu.active⟩, h.begun⟩
    · exact ⟨fun h => Bool.noConfusion h, h.begun⟩
    · -- a turn never ends the plan
      obtain ⟨htimed, i, hi', hget⟩ := hu.active ha
      have hlt := hu.plan.lt_of_not hget fun hf => hf.elim hturn htimed.2
      exact ⟨fun _ => ⟨hi, hu.unfinished, hu.path, hu.plan, hu.begun, fun _ => hi'.symm ▸ hlt,
        fun h => Bool.noConfusion h⟩, h.begun⟩
    · have hsucc := hu.toNat_succ ha
      have hbegun := hu.take_succ hget
      have hstarts : t.pathBegun ++ [step] <+: t.plannedPath.steps := hbegun ▸ List.take_prefix _ _
      rw [← hsucc] at hbegun
      cases step with
      | forward =>
        refine ⟨fun _ => ⟨hi, hu.unfinished, hp, hu.plan, hbegun, fun _ => ?_,
          fun h => Bool.noConfusion h⟩, hstarts⟩
        exact hsucc.symm ▸ hu.plan.lt_of_not hget (by simp [Finishing])
      | stopAtTarget => exact ⟨fun h => Bool.noConfusion h, hstarts⟩
      | turnLeft | turnRight | uturn | finishDelay =>
        exact ⟨fun _ => ⟨hi, hu.unfinished, hp, hu.plan, hbegun, fun h => Bool.noConfusion h,
          fun _ => ⟨⟨nofun, nofun⟩, _, hsucc, hget⟩⟩, hstarts⟩
    · exact ⟨fun h => Bool.noConfusion h, h.begun⟩
    · exact ⟨fun _ => ⟨hi, hu.unfinished, hu.path, hu.plan, hu.begun, hu.left, hu.active⟩, h.begun⟩
  · rw [tick_idle (by simpa [← Bool.not_eq_true, imp_iff_not_or] using hrun)]
    exact h

theorem tick_finishes {t : Track} (h : PlanInv t) {now : UInt32} {line : Int16 × Int16}
    (hf : t.finished = false) (hf' : (t.tick now line).1.finished = true) :
    (t.tick now line).1.pathBegun = t.plannedPath.steps ∧ (t.tick now line).1.running = false ∧
      (t.setMotor = true → (t.tick now line).2 = some (0, 0)) := by
  by_cases hrun : t.initialized = true ∧ t.running = true
  · obtain ⟨hi, hr⟩ := hrun
    have hu := h.underway hr
    have hcase := tick_case hi hr now line
    generalize t.tick now line = r at hcase hf' ⊢
    cases hcase with
    | wait | resumed | line => exact Bool.noConfusion (hf.symm.trans hf')
    | docked ha hover hlast =>
      obtain ⟨-, i, hi', hget⟩ := hu.active ha
      rw [hlast] at hget
      have hlen := hu.plan.eq_last hget (.inl rfl)
      exact ⟨hu.begun.trans (by rw [hi', hlen, List.take_length]), rfl, fun hm => by
        simp [finishPath, motionSet, hm]⟩
    | node step ha hseen hp hget =>
      cases step with
      | stopAtTarget =>
        have hlen := hu.plan.eq_last hget (.inr rfl)
        exact ⟨(hu.take_succ hget).trans (by rw [hlen, List.take_length]), rfl, fun hm => by
          simp [beginAction, finishPath, motionSet, hm]⟩
      | forward | turnLeft | turnRight | uturn | finishDelay =>
        exact Bool.noConfusion (hf.symm.trans hf')
    | exhausted ha hget =>
      rw [if_pos hu.path, List.getElem?_eq_none_iff] at hget
      exact absurd (hu.left ha) (by omega)
  · rw [tick_idle (by simpa [← Bool.not_eq_true, imp_iff_not_or] using hrun)] at hf'
    exact Bool.noConfusion (hf.symm.trans hf')

theorem startPath_err {t : Track} {target : UInt8} {nowMs : UInt32}
    (h : (t.startPath target nowMs).2 ≠ RT_EOK) :
    (t.startPath target nowMs).1 = t ∨
      ∃ p, (t.startPath target nowMs).1 = { t with plannedPath := p, pathBegun := [] } := by
  unfold startPath at h ⊢
  split_ifs at h ⊢
  · exact .inl rfl
  · exact .inl rfl
  · rcases hplan : planPath t.currentLocation target with ⟨p, r⟩
    rw [hplan] at h
    dsimp only at h ⊢
    split_ifs at h ⊢
    · exact .inr ⟨p, rfl⟩
    · exact absurd rfl h

/-- The tracker after a successful start of the path `p`. -/
def started (t : Track) (p : TrackPath) (target : UInt8) (nowMs : UInt32) : Track :=
  { t with
    plannedPath := p, pathBegun := []
    path := true, targetId := target, pathIndex := 0, running := true, finished := false
    actionActive := false, nodeLatched := false
    lastTickMs := nowMs, lastNodeMs := nowMs - currentCooldownMs
    currentNodeIndex := 0, visualMissionState := .line }

theorem startPath_ok {t : Track} {target : UInt8} {nowMs : UInt32}
    (h : (t.startPath target nowMs).2 = RT_EOK) :
    t.initialized = true ∧ targetRecent t.camera nowMs = true ∧
      ∃ p, planPath t.currentLocation target = (p, RT_EOK) ∧
        (t.startPath target nowMs).1 = t.started p target nowMs := by
  unfold startPath at h ⊢
  split_ifs at h ⊢ with hready hrecent
  · cases h
  · cases h
  · rcases hplan : planPath t.currentLocation target with ⟨p, r⟩
    rw [hplan] at h
    dsimp only at h ⊢
    split_ifs at h ⊢ with hres
    · exact absurd h hres
    · have hi : t.initialized = true := by
        by_contra hi
        simp [motorReady, hi] at hready
      obtain rfl : r = RT_EOK := not_not.mp hres
      exact ⟨hi, by simpa using hrecent, p, rfl, rfl⟩

theorem started_underway {t : Track} (hi : t.initialized = true) {p : TrackPath}
    (hp : IsPlan p.steps) (target : UInt8) (nowMs : UInt32) :
    Underway (t.started p target nowMs) := by
  obtain ⟨body, last, hsteps, -⟩ := hp.last
  have hpos : 0 < p.steps.length := by simp [hsteps]
  exact ⟨hi, rfl, rfl, hp, rfl, fun _ => hpos, fun h => Bool.noConfusion h⟩

theorem startPath_planInv {t : Track} (h : PlanInv t) (hr : t.running = false) (target : UInt8)
    (nowMs : UInt32) : PlanInv (t.startPath target nowMs).1 := by
  by_cases hres : (t.startPath target nowMs).2 = RT_EOK
  · obtain ⟨hi, -, p, hplan, he⟩ := startPath_ok hres
    rw [he]
    exact ⟨fun _ => started_underway hi (isPlan_of_planPath hplan) target nowMs, List.nil_prefix⟩
  · rcases startPath_err hres with he | ⟨p, he⟩
    · rw [he]
      exact h
    · rw [he]
      exact ⟨fun hrun => absurd (hr.symm.trans hrun) nofun, List.nil_prefix⟩

theorem stop_planInv {t : Track} (h : PlanInv t) : PlanInv t.stop.1 := by
  unfold stop
  split_ifs
  · exact h
  · exact ⟨fun h => Bool.noConfusion h, h.begun⟩

theorem updateCamera_eq (t : Track) (target : CameraTarget) :
    t.updateCamera target = { t with
      camera := (t.updateCamera target).camera
      targetLocked := (t.updateCamera target).targetLocked } := by
  unfold updateCamera
  split <;> rfl

theorem updateCamera_planInv {t : Track} (h : PlanInv t) (target : CameraTarget) :
    PlanInv (t.updateCamera target) := by
  rw [updateCamera_eq]
  refine ⟨fun hr => ?_, h.begun⟩
  have hu := h.underway hr
  exact ⟨hu.initialized, hu.unfinished, hu.path, hu.plan, hu.begun, hu.left, hu.active⟩

/-- An init keeps the tracker, sets the motor operation of an initialised one, or starts it anew. -/
theorem init_cases (t : Track) (ops : Option Bool) (mutexResult : RtErr) :
    (∃ setMotor, (t.init ops mutexResult).1 = { t with setMotor := setMotor }) ∨
      t.initialized = false ∧ ∃ setMotor initialized nodeIndex state,
        (t.init ops mutexResult).1 = { zeroed with
          setMotor := setMotor, initialized := initialized
          currentNodeIndex := nodeIndex, visualMissionState := state } := by
  unfold init
  split_ifs with hi hops hmutex
  · rcases ops with _ | _ | _
    · exact .inl ⟨t.setMotor, rfl⟩
    · exact .inl ⟨t.setMotor, rfl⟩
    · exact .inl ⟨true, rfl⟩
  · exact .inl ⟨t.setMotor, rfl⟩
  · exact .inr ⟨by simpa using hi, _, _, _, _, rfl⟩
  · exact .inr ⟨by simpa using hi, _, _, _, _, rfl⟩

end Hcics.Track
