import Hcics.Lib.Observe
import Hcics.Track.Tracker

/-!
# A refused start

`hcics_track_start_path` refuses before it writes when the motor is not ready or the camera not
fresh. A third refusal comes from the planner, which has cleared `planned_path` by then, and
`planned_path` is what `g_track.path` points to: the path that is running has lost its steps and its
destination. `Emptying` is that refusal. It shows at the next node, where the path ends at home, and
it shows always, except in the last delay of a way home, which needs no step any more and ends at
home anyway.

`calls` is the tracker under every order of its public operations at any times, starts of a running
tracker among them.
-/

namespace Hcics.Track

open Tracker (Input)

/-! ## The calls and what they show -/

/-- What can be seen of the tracker between two calls. -/
structure View where
  history : List TrackAction
  finished : Bool
  currentLocation : UInt8
  deriving DecidableEq, Repr

/-- `hcics_track_is_finished`, the recorded location and the steps begun since boot. -/
def view (t : Track) : View := ⟨t.history, t.isFinished, t.currentLocation⟩

/-- What a call shows: its result, the motor command it gives, and what is seen after it. -/
structure Shown where
  result : RtErr
  motor : Option (Int16 × Int16)
  view : View
  deriving DecidableEq, Repr

/-- The tracker after a call, with the result and the motor command of the call. -/
def call (t : Track) : Input → Track × RtErr × Option (Int16 × Int16)
  | .init ops mutexResult => ((t.init ops mutexResult).1, (t.init ops mutexResult).2, none)
  | .startPath targetId nowMs => ((t.startPath targetId nowMs).1, (t.startPath targetId nowMs).2, none)
  | .stop => (t.stop.1, RT_EOK, t.stop.2)
  | .updateCamera target => (t.updateCamera target, RT_EOK, none)
  | .tick now line => ((t.tick (UInt32.ofNat now) line).1, RT_EOK, (t.tick (UInt32.ofNat now) line).2)

/-- The tracker under every order of its public operations. -/
def calls : Transducer Track Input Shown where
  step t i := ((t.call i).1, ⟨(t.call i).2.1, (t.call i).2.2, (t.call i).1.view⟩)

/-- The tracker `t` comes up in some order of calls since boot. -/
def Reachable (t : Track) : Prop := ∃ is, calls.run zeroed is = t

/-- A call that leaves `t'` where `t` was has not been noticed, and never will be. -/
def Unnoticed (t t' : Track) : Prop := t'.view = t.view ∧ calls.Alike t' t

def cleared (t : Track) : Track := { t with plannedPath := ⟨[], 0⟩, pathBegun := [] }

/-- A start that is refused by the planner while a path is running that still needs its plan. -/
def Emptying (t : Track) (targetId : UInt8) (nowMs : UInt32) : Prop :=
  t.motorReady = true ∧ targetRecent t.camera nowMs = true ∧ targetMax < targetId ∧
    t.running = true ∧ t.plannedPath.steps ≠ [] ∧
    ¬(t.actionActive = true ∧ t.activeAction = .finishDelay)

instance (t : Track) (targetId : UInt8) (nowMs : UInt32) : Decidable (t.Emptying targetId nowMs) :=
  inferInstanceAs (Decidable (_ ∧ _))

/-- A call that is a refused start. -/
def refused (t : Track) : Input → Bool
  | .startPath targetId nowMs => decide ((t.startPath targetId nowMs).2 ≠ RT_EOK)
  | _ => false

/-- A call that is no start of the kind that empties the running path. -/
def Sparing (t : Track) : Input → Prop
  | .startPath targetId nowMs => ¬ t.Emptying targetId nowMs
  | _ => True

instance (t : Track) : ∀ i, Decidable (t.Sparing i)
  | .startPath targetId nowMs => inferInstanceAs (Decidable (¬ t.Emptying targetId nowMs))
  | .init _ _ | .stop | .updateCamera _ | .tick _ _ => .isTrue trivial

/-! ## What the planner leaves behind -/

theorem planPath_failed (location targetId : UInt8)
    (h : (planPath location targetId).2 ≠ RT_EOK) : (planPath location targetId).1 = ⟨[], 0⟩ := by
  unfold planPath at h ⊢
  split at h
  · rename_i htarget
    rw [if_pos htarget]
    by_cases hloc : location = targetHome
    · subst hloc
      exact absurd rfl h
    · cases hgrid : targetToGrid location with
      | none => simp [buildReturnHome, hloc, hgrid]
      | some grid =>
        rw [buildReturnHome_eq hgrid] at h
        exact absurd rfl h
  · rename_i htarget
    rw [if_neg htarget]
    cases hgrid : targetToGrid targetId with
    | none => simp [buildToTarget, hgrid]
    | some grid =>
      rw [buildToTarget_eq hgrid] at h
      exact absurd rfl h

theorem targetToGrid_eq_none {targetId : UInt8} :
    targetToGrid targetId = none ↔ targetId < targetMin ∨ targetMax < targetId := by
  unfold targetToGrid
  split <;> simp_all

/-- From a recorded location that is home or a panel, planning fails exactly for a target past the
last panel. -/
theorem planPath_failed_iff {location targetId : UInt8} (hloc : location ≤ targetMax) :
    (planPath location targetId).2 ≠ RT_EOK ↔ targetMax < targetId := by
  unfold planPath
  split
  · rename_i htarget
    subst htarget
    have hok : (buildReturnHome ⟨[], 0⟩ location).2 = RT_EOK := by
      by_cases hhome : location = targetHome
      · subst hhome
        rfl
      · cases hgrid : targetToGrid location with
        | none =>
          rw [targetToGrid_eq_none] at hgrid
          rcases hgrid with hlow | hhigh
          · exact absurd (UInt8.lt_one_iff.mp hlow) hhome
          · exact absurd hhigh (UInt8.not_lt.mpr hloc)
        | some grid => rw [buildReturnHome_eq hgrid]
    exact iff_of_false (not_not.mpr hok) (by decide)
  · rename_i hhome
    cases hgrid : targetToGrid targetId with
    | none =>
      have hfail : (buildToTarget ⟨[], 0⟩ targetId).2 ≠ RT_EOK := by
        simp [buildToTarget, hgrid]
      rw [targetToGrid_eq_none] at hgrid
      refine iff_of_true hfail ?_
      rcases hgrid with hlow | hhigh
      · exact absurd (UInt8.lt_one_iff.mp hlow) hhome
      · exact hhigh
    | some grid =>
      rw [buildToTarget_eq hgrid]
      refine iff_of_false (by simp) ?_
      intro hhigh
      rw [targetToGrid_eq_none.mpr (.inr hhigh)] at hgrid
      cases hgrid

/-- What a refused start leaves: the tracker as it was, or the tracker with the plan cleared. -/
theorem startPath_refused {t : Track} {targetId : UInt8} {nowMs : UInt32}
    (h : (t.startPath targetId nowMs).2 ≠ RT_EOK) :
    (t.startPath targetId nowMs).1 =
      if t.motorReady = true ∧ targetRecent t.camera nowMs = true then t.cleared else t := by
  unfold startPath at h ⊢
  split_ifs at h ⊢ with hready hrecent hboth hboth
  · simp_all
  · rfl
  · simp_all
  · rfl
  · have hplan := planPath_failed t.currentLocation targetId
    rcases hp : planPath t.currentLocation targetId with ⟨p, r⟩
    rw [hp] at h hplan
    dsimp only at h hplan ⊢
    split_ifs at h ⊢ with hres
    · rw [hplan hres]
      rfl
    · exact absurd rfl h
  · simp_all

/-! ## The invariant under every order of calls -/

/-- What every order of calls keeps: the plan links up with the running path or is cleared, and the
locations are home and the panels. -/
structure CallInv (t : Track) : Prop where
  initialized : t.running = true → t.initialized = true
  planned : PlanInv t ∨ t.plannedPath = ⟨[], 0⟩
  /-- Only a way home ends with the delay. -/
  homing : .finishDelay ∈ t.plannedPath.steps → t.plannedPath.destination = targetHome
  destination : t.plannedPath.destination ≤ targetMax
  location : t.currentLocation ≤ targetMax

theorem targetHome_le : targetHome ≤ targetMax := by decide

theorem callInv_zeroed : CallInv zeroed :=
  ⟨fun h => Bool.noConfusion h, .inr rfl, by simp [zeroed], targetHome_le, targetHome_le⟩

/-- A plan that succeeds leads to home or a panel, and ends with the delay only on a way home. -/
theorem planPath_destination {location targetId : UInt8} {p : TrackPath}
    (h : planPath location targetId = (p, RT_EOK)) :
    (.finishDelay ∈ p.steps → p.destination = targetHome) ∧ p.destination ≤ targetMax := by
  rcases planPath_spec h with ⟨-, -, rfl⟩ | ⟨-, row, col, -, rfl⟩ | ⟨row, col, hg, rfl⟩
  · exact ⟨fun _ => rfl, targetHome_le⟩
  · exact ⟨fun _ => rfl, targetHome_le⟩
  · refine ⟨?_, ?_⟩
    · intro hmem
      simp [outboundSteps] at hmem
    · by_contra hhigh
      rw [targetToGrid_eq_none.mpr (.inr (UInt8.not_le.mp hhigh))] at hg
      cases hg

/-- A tick leaves the plan and the connection to the motor alone; the recorded location is the old
one or the destination. -/
theorem tick_frame (t : Track) (now : UInt32) (line : Int16 × Int16) :
    (t.tick now line).1.plannedPath = t.plannedPath ∧
      (t.tick now line).1.initialized = t.initialized ∧
      ((t.tick now line).1.running = true → t.running = true) ∧
      ((t.tick now line).1.currentLocation = t.currentLocation ∨
        (t.tick now line).1.currentLocation = t.plannedPath.destination ∨
        (t.tick now line).1.currentLocation = targetHome) := by
  have hdest : ∀ path : Bool, (if path then t.plannedPath.destination else targetHome) =
      t.plannedPath.destination ∨
      (if path then t.plannedPath.destination else targetHome) = targetHome := by
    intro path
    cases path
    · exact .inr rfl
    · exact .inl rfl
  by_cases hrun : t.initialized = true ∧ t.running = true
  · obtain ⟨hi, hr⟩ := hrun
    have hcase := tick_case hi hr now line
    generalize t.tick now line = r at hcase ⊢
    cases hcase with
    | wait | resumed | line => exact ⟨rfl, rfl, fun _ => hr, .inl rfl⟩
    | docked | exhausted => exact ⟨rfl, rfl, fun _ => hr, .inr (hdest t.path)⟩
    | node step ha hseen hp hget =>
      cases step with
      | stopAtTarget => exact ⟨rfl, rfl, fun _ => hr, .inr (hdest t.path)⟩
      | forward | turnLeft | turnRight | uturn | finishDelay =>
        exact ⟨rfl, rfl, fun _ => hr, .inl rfl⟩
  · rw [tick_idle (by simpa [← Bool.not_eq_true, imp_iff_not_or] using hrun)]
    exact ⟨rfl, rfl, id, .inl rfl⟩

theorem tick_callInv {t : Track} (h : CallInv t) (now : UInt32) (line : Int16 × Int16) :
    CallInv (t.tick now line).1 := by
  obtain ⟨hplan, hinit, hrun, hloc⟩ := tick_frame t now line
  refine ⟨?_, ?_, ?_, ?_, ?_⟩
  · intro hr
    rw [hinit]
    exact h.initialized (hrun hr)
  · rcases h.planned with hp | hp
    · exact .inl (tick_planInv hp now line)
    · exact .inr (hplan.trans hp)
  · rw [hplan]
    exact h.homing
  · rw [hplan]
    exact h.destination
  · rcases hloc with hl | hl | hl <;> rw [hl]
    · exact h.location
    · exact h.destination
    · decide

theorem startPath_callInv {t : Track} (h : CallInv t) (targetId : UInt8) (nowMs : UInt32) :
    CallInv (t.startPath targetId nowMs).1 := by
  by_cases hres : (t.startPath targetId nowMs).2 = RT_EOK
  · obtain ⟨hi, -, p, hplan, he⟩ := startPath_ok hres
    obtain ⟨hhoming, hdest⟩ := planPath_destination hplan
    rw [he]
    refine ⟨fun _ => hi, .inl ⟨fun _ => ?_, List.nil_prefix⟩, hhoming, hdest, h.location⟩
    exact started_underway hi (isPlan_of_planPath hplan) targetId nowMs
  · rw [startPath_refused hres]
    split
    · exact ⟨h.initialized, .inr rfl, by simp [cleared], targetHome_le, h.location⟩
    · exact h

theorem call_callInv {t : Track} (h : CallInv t) (i : Input) : CallInv (t.call i).1 := by
  cases i with
  | init ops mutexResult =>
    simp only [call]
    rcases t.init_cases ops mutexResult with ⟨setMotor, he⟩ |
      ⟨hfresh, setMotor, initialized, nodeIndex, state, he⟩ <;> rw [he]
    · refine ⟨h.initialized, ?_, h.homing, h.destination, h.location⟩
      rcases h.planned with hp | hp
      · refine .inl ⟨fun hr => ?_, hp.begun⟩
        have hu := hp.underway hr
        exact ⟨hu.initialized, hu.unfinished, hu.path, hu.plan, hu.begun, hu.left, hu.active⟩
      · exact .inr hp
    · exact ⟨fun hr => Bool.noConfusion hr, .inr rfl, by simp [zeroed], targetHome_le, targetHome_le⟩
  | startPath targetId nowMs => exact startPath_callInv h targetId nowMs
  | stop =>
    simp only [call]
    refine ⟨?_, ?_, ?_, ?_, ?_⟩
    · intro hr
      simp only [stop] at hr ⊢
      split_ifs at hr ⊢ with hi
      · exact h.initialized hr
      · exact Bool.noConfusion hr
    · rcases h.planned with hp | hp
      · exact .inl (stop_planInv hp)
      · refine .inr ?_
        unfold stop
        split_ifs
        · exact hp
        · exact hp
    all_goals
      unfold stop
      split_ifs
    · exact h.homing
    · exact h.homing
    · exact h.destination
    · exact h.destination
    · exact h.location
    · exact h.location
  | updateCamera target =>
    simp only [call]
    have hplan : PlanInv t → PlanInv (t.updateCamera target) := fun hp =>
      updateCamera_planInv hp target
    rw [updateCamera_eq] at hplan ⊢
    exact ⟨h.initialized, h.planned.imp hplan id, h.homing, h.destination, h.location⟩
  | tick now line => exact tick_callInv h _ line

theorem callInv_of_reachable {t : Track} (h : Reachable t) : CallInv t := by
  obtain ⟨is, rfl⟩ := h
  exact Transducer.run_inv (P := CallInv) (fun _ i ht => call_callInv ht i) is callInv_zeroed

/-! ## A cleared plan that nothing reads -/

/-- Two trackers that differ in the plan and the record of its steps at most, and in the plan of a
running path only when the path waits for the end of its last delay, at the same destination. -/
def Spared (t t' : Track) : Prop :=
  ∃ p begun, t' = { t with plannedPath := p, pathBegun := begun } ∧
    (t.running = true → p = t.plannedPath ∨ (t.actionActive = true ∧
      t.activeAction = .finishDelay ∧ p.destination = t.plannedPath.destination))

theorem Spared.refl (t : Track) : Spared t t := ⟨t.plannedPath, t.pathBegun, rfl, fun _ => .inl rfl⟩

theorem tick_pathBegun (t : Track) (begun : List TrackAction) (now : UInt32) (line : Int16 × Int16) :
    ∃ begun', { t with pathBegun := begun }.tick now line =
      ({ (t.tick now line).1 with pathBegun := begun' }, (t.tick now line).2) := by
  unfold tick
  by_cases hidle : (!t.initialized || !t.running) = true
  · exact ⟨begun, by rw [if_pos hidle, if_pos hidle]⟩
  · rw [if_neg hidle, if_neg hidle]
    dsimp only
    split_ifs with hactive hseen hseen' hseen'
    · refine ⟨begun, ?_⟩
      unfold completeAction
      split_ifs <;> rfl
    · unfold acceptNode
      dsimp only
      generalize (if t.path = true then t.plannedPath.steps[t.pathIndex.toNat]? else none) = get
      cases get with
      | none => exact ⟨begun, rfl⟩
      | some step => cases step <;> exact ⟨begun ++ [_], rfl⟩
    · exact absurd hseen hseen'
    · exact absurd hseen' hseen
    · refine ⟨begun, ?_⟩
      simp only [applyLineFollow]
      split_ifs <;> rfl

theorem completeAction_delay {t : Track} (ha : t.actionActive = true)
    (hd : t.activeAction = .finishDelay) (now : UInt32) :
    t.completeAction now =
      if (now - t.actionEndMs).toInt32 < 0 then (t, none) else t.finishPath now := by
  rw [completeAction, if_neg (by simp [ha]), if_pos hd]

theorem tick_delay {t : Track} (ha : t.actionActive = true) (hd : t.activeAction = .finishDelay)
    {p : TrackPath} (hp : p.destination = t.plannedPath.destination) (begun : List TrackAction)
    (now : UInt32) (line : Int16 × Int16) :
    { t with plannedPath := p, pathBegun := begun }.tick now line =
        ({ (t.tick now line).1 with plannedPath := p, pathBegun := begun }, (t.tick now line).2) ∧
      ((t.tick now line).1.running = true → (t.tick now line).1.actionActive = true ∧
        (t.tick now line).1.activeAction = .finishDelay) := by
  by_cases hidle : (!t.initialized || !t.running) = true
  · rw [tick, tick, if_pos hidle, if_pos hidle]
    exact ⟨rfl, fun _ => ⟨ha, hd⟩⟩
  · rw [tick, tick, if_neg hidle, if_neg hidle]
    dsimp only
    rw [if_pos ha, if_pos ha, completeAction_delay (by exact ha) (by exact hd),
      completeAction_delay (by exact ha) (by exact hd)]
    dsimp only
    split_ifs
    · exact ⟨rfl, fun _ => ⟨ha, hd⟩⟩
    · refine ⟨?_, fun hr => Bool.noConfusion hr⟩
      simp [finishPath, motionSet, hp]

theorem Spared.tick {t t' : Track} (h : Spared t t') (now : UInt32) (line : Int16 × Int16) :
    (t'.tick now line).2 = (t.tick now line).2 ∧
      Spared (t.tick now line).1 (t'.tick now line).1 := by
  obtain ⟨p, begun, rfl, hrun⟩ := h
  by_cases hr : t.initialized = true ∧ t.running = true
  · rcases hrun hr.2 with rfl | ⟨ha, hd, hp⟩
    · obtain ⟨begun', he⟩ := tick_pathBegun t begun now line
      have he : { t with plannedPath := t.plannedPath, pathBegun := begun }.tick now line = _ := he
      rw [he]
      exact ⟨rfl, t.plannedPath, begun', by rw [← (tick_frame t now line).1], fun _ => .inl
        (tick_frame t now line).1.symm⟩
    · obtain ⟨he, hstill⟩ := tick_delay ha hd hp begun now line
      rw [he]
      refine ⟨rfl, p, begun, rfl, fun hr' => .inr ?_⟩
      obtain ⟨ha', hd'⟩ := hstill hr'
      exact ⟨ha', hd', hp.trans (congrArg _ (tick_frame t now line).1.symm)⟩
  · have hidle : t.initialized = false ∨ t.running = false := by
      simpa [← Bool.not_eq_true, imp_iff_not_or] using hr
    rw [tick_idle hidle, tick_idle (t := { t with plannedPath := p, pathBegun := begun }) hidle]
    exact ⟨rfl, p, begun, rfl, hrun⟩

theorem startPath_spared (t : Track) (p : TrackPath) (begun : List TrackAction) (targetId : UInt8)
    (nowMs : UInt32) :
    ({ t with plannedPath := p, pathBegun := begun }.startPath targetId nowMs).2 =
        (t.startPath targetId nowMs).2 ∧
      (({ t with plannedPath := p, pathBegun := begun }.startPath targetId nowMs).1 =
          { t with plannedPath := p, pathBegun := begun } ∧
          (t.startPath targetId nowMs).1 = t ∨
        ({ t with plannedPath := p, pathBegun := begun }.startPath targetId nowMs).1 =
          (t.startPath targetId nowMs).1) := by
  unfold startPath
  have hready : { t with plannedPath := p, pathBegun := begun }.motorReady = t.motorReady := rfl
  rw [hready]
  split_ifs
  · exact ⟨rfl, .inl ⟨rfl, rfl⟩⟩
  · exact ⟨rfl, .inl ⟨rfl, rfl⟩⟩
  · dsimp only
    split_ifs
    · exact ⟨rfl, .inr rfl⟩
    · exact ⟨rfl, .inr rfl⟩

theorem Spared.call {t t' : Track} (h : Spared t t') (i : Input) :
    (t'.call i).2 = (t.call i).2 ∧ Spared (t.call i).1 (t'.call i).1 := by
  obtain ⟨p, begun, rfl, hrun⟩ := h
  cases i with
  | init ops mutexResult =>
    simp only [Track.call, init]
    split_ifs
    · rcases ops with _ | _ | _
      · exact ⟨rfl, p, begun, rfl, hrun⟩
      · exact ⟨rfl, p, begun, rfl, hrun⟩
      · exact ⟨rfl, p, begun, rfl, hrun⟩
    · exact ⟨rfl, p, begun, rfl, hrun⟩
    · exact ⟨rfl, .refl _⟩
    · exact ⟨rfl, .refl _⟩
  | startPath targetId nowMs =>
    obtain ⟨hres, he⟩ := startPath_spared t p begun targetId nowMs
    simp only [Track.call]
    rw [hres]
    refine ⟨rfl, ?_⟩
    rcases he with ⟨he', he⟩ | he
    · rw [he', he]
      exact ⟨p, begun, rfl, hrun⟩
    · rw [he]
      exact .refl _
  | stop =>
    simp only [Track.call, stop]
    split_ifs
    · exact ⟨rfl, p, begun, rfl, hrun⟩
    · exact ⟨rfl, p, begun, rfl, fun hr => Bool.noConfusion hr⟩
  | updateCamera target =>
    have he : { t with plannedPath := p, pathBegun := begun }.updateCamera target =
        { t.updateCamera target with plannedPath := p, pathBegun := begun } := by
      have hstores : { t with plannedPath := p, pathBegun := begun }.storesFrame target =
        t.storesFrame target := rfl
      rw [updateCamera, updateCamera, hstores]
      split <;> rfl
    refine ⟨rfl, p, begun, he, ?_⟩
    simp only [Track.call]
    rw [updateCamera_eq]
    exact hrun
  | tick now line =>
    obtain ⟨hmotor, hspared⟩ := Spared.tick ⟨p, begun, rfl, hrun⟩ (UInt32.ofNat now) line
    exact ⟨congrArg (Prod.mk RT_EOK) hmotor, hspared⟩

theorem Spared.view_eq {t t' : Track} (h : Spared t t') : t'.view = t.view := by
  obtain ⟨p, begun, rfl, -⟩ := h
  rfl

theorem Spared.alike {t t' : Track} (h : Spared t t') : calls.Alike t' t := by
  refine (Transducer.alike_of_bisimulation (R := Spared) ?_ h).symm
  intro t t' i h
  obtain ⟨hcall, hspared⟩ := h.call i
  refine ⟨?_, hspared⟩
  simp only [calls]
  rw [hcall, hspared.view_eq]

/-! ## A cleared plan that is missed -/

def nodeFrame (tick : Tick) : CameraTarget := ⟨HCICS_CAM_MODE_TRACK, 80, 60, nodeWideW, 3, tick⟩

/-- A time at which the cooldown since `lastNodeMs` is over and which is no zero tick. -/
def nodeTime (lastNodeMs : UInt32) : UInt32 :=
  if lastNodeMs + currentCooldownMs = 0 then 1 else lastNodeMs + currentCooldownMs

def nodeCalls (lastNodeMs : UInt32) : List Input :=
  [.updateCamera (nodeFrame (nodeTime lastNodeMs)), .tick (nodeTime lastNodeMs).toNat (54, 54)]

theorem nodeTime_spec (lastNodeMs : UInt32) :
    nodeTime lastNodeMs ≠ 0 ∧ ¬ nodeTime lastNodeMs - lastNodeMs < currentCooldownMs := by
  unfold nodeTime
  split
  · rename_i hzero
    have hlast : lastNodeMs = 0 - currentCooldownMs := by
      rw [← hzero]
      simp
    rw [hlast]
    decide
  · rename_i hzero
    refine ⟨hzero, ?_⟩
    rw [UInt32.add_comm, UInt32.add_sub_cancel]
    exact UInt32.lt_irrefl _

theorem nodeSeen_nodeFrame {t : Track} (hc : t.camera = nodeFrame (nodeTime t.lastNodeMs)) :
    t.nodeSeen (nodeTime t.lastNodeMs) = true := by
  obtain ⟨hne, hcool⟩ := nodeTime_spec t.lastNodeMs
  have hrecent : targetRecent t.camera (nodeTime t.lastNodeMs) = true := by
    rw [hc]
    have hwidth : ¬ nodeWideW < minTargetW := by decide
    rw [targetRecent, if_neg (by simp [nodeFrame, hne, hwidth])]
    simp [nodeFrame]
  rw [nodeSeen, if_neg (by simp [hrecent]), if_neg hcool, hc]
  rfl

theorem run_nodeCalls {t : Track} (hi : t.initialized = true) (hr : t.running = true)
    (ha : t.actionActive = false) :
    (calls.run t (nodeCalls t.lastNodeMs)).history = t.history ++
      (if t.path then t.plannedPath.steps[t.pathIndex.toNat]? else none).toList := by
  have hstores : t.storesFrame (nodeFrame (nodeTime t.lastNodeMs)) = true := by
    simp [storesFrame, nodeFrame, hi]
  have hcamera := updateCamera_eq t (nodeFrame (nodeTime t.lastNodeMs))
  have hframe : (t.updateCamera (nodeFrame (nodeTime t.lastNodeMs))).camera =
      nodeFrame (nodeTime t.lastNodeMs) := by
    rw [updateCamera, if_pos hstores]
  simp only [nodeCalls, Transducer.run, calls, call]
  rw [hcamera, hframe, UInt32.ofNat_toNat, tick, if_neg (by simp [hi, hr])]
  dsimp only
  rw [if_neg (by simp [ha]), if_pos (nodeSeen_nodeFrame rfl)]
  unfold acceptNode
  dsimp only
  generalize (if t.path = true then t.plannedPath.steps[t.pathIndex.toNat]? else none) = get
  cases get with
  | none => simp [finishPath, motionSet]
  | some step => cases step <;> rfl

theorem tick_turn {t : Track} (hi : t.initialized = true) (hr : t.running = true)
    (ha : t.actionActive = true) (hd : t.activeAction ≠ .finishDelay) :
    (t.tick t.actionEndMs (54, 54)).1 = { t with
      lastTickMs := t.actionEndMs, actionActive := false, lastNodeMs := t.actionEndMs
      visualMissionState := .line, leftCmd := 54, rightCmd := 54 } := by
  rw [tick, if_neg (by simp [hi, hr])]
  dsimp only
  rw [if_pos ha, completeAction, if_neg (by simp [ha]), if_neg (by simp), if_neg hd]
  rfl

theorem alike_tick {t t' : Track} (h : calls.Alike t t') (now : UInt32) (line : Int16 × Int16) :
    calls.Alike (t.tick now line).1 (t'.tick now line).1 := by
  have hstep := (h.step (.tick now.toNat line)).2
  have he (t : Track) : (calls.step t (.tick now.toNat line)).1 = (t.tick now line).1 := by
    simp [calls, call]
  rwa [he, he] at hstep

theorem history_eq_of_alike {t t' : Track} (h : calls.Alike t' t) : t'.history = t.history := by
  have hshown := (h.step .stop).1
  have hview := congrArg (fun shown => shown.view.history) hshown
  simp only [calls, call, view, stop] at hview
  split_ifs at hview <;> exact hview

theorem not_alike_inactive {t : Track} (hi : t.initialized = true) (hr : t.running = true)
    (ha : t.actionActive = false) (hp : t.path = true)
    (hlt : t.pathIndex.toNat < t.plannedPath.steps.length) : ¬ calls.Alike t.cleared t := by
  intro halike
  have hwith := run_nodeCalls hi hr ha
  have hwithout := run_nodeCalls (t := t.cleared) hi hr ha
  have hsame := history_eq_of_alike (halike.run (nodeCalls t.lastNodeMs))
  rw [if_pos hp, List.getElem?_eq_getElem hlt] at hwith
  have hnone : (if t.cleared.path = true then t.cleared.plannedPath.steps[t.cleared.pathIndex.toNat]?
      else none) = none := by
    simp [cleared]
  rw [hnone] at hwithout
  have hlen := congrArg List.length (hwithout.symm.trans (hsame.trans hwith))
  simp [cleared] at hlen

/-- Without its plan a running path does not begin the step it would have begun next, now or after
the turn in progress. -/
theorem not_alike_cleared {t : Track} (hu : Underway t) (hr : t.running = true)
    (hd : ¬(t.actionActive = true ∧ t.activeAction = .finishDelay)) :
    ¬ calls.Alike t.cleared t := by
  intro halike
  cases ha : t.actionActive with
  | false => exact not_alike_inactive hu.initialized hr ha hu.path (hu.left ha) halike
  | true =>
    obtain ⟨htimed, i, hindex, hget⟩ := hu.active ha
    have hturn : t.activeAction ≠ .finishDelay := fun hdelay => hd ⟨ha, hdelay⟩
    have hlt := hu.plan.lt_of_not hget fun hf => hf.elim hturn htimed.2
    have hafter := alike_tick halike t.actionEndMs (54, 54)
    have hcleared : (t.cleared.tick t.actionEndMs (54, 54)).1 = _ :=
      tick_turn (t := t.cleared) hu.initialized hr ha hturn
    rw [tick_turn hu.initialized hr ha hturn, hcleared] at hafter
    exact not_alike_inactive (t := { t with
      lastTickMs := t.actionEndMs, actionActive := false, lastNodeMs := t.actionEndMs
      visualMissionState := .line, leftCmd := 54, rightCmd := 54 })
      hu.initialized hr rfl hu.path (hindex ▸ hlt) hafter

/-! ## Refused starts -/

/-- A refused start of a ready tracker with a fresh camera is for a target past the last panel. -/
theorem refused_target {t : Track} (h : CallInv t) {targetId : UInt8} {nowMs : UInt32}
    (hready : t.motorReady = true) (hrecent : targetRecent t.camera nowMs = true)
    (hres : (t.startPath targetId nowMs).2 ≠ RT_EOK) : targetMax < targetId := by
  rw [← planPath_failed_iff h.location]
  intro hok
  apply hres
  simp [startPath, hready, hrecent, hok]

theorem CallInv.eq_cleared {t : Track} (h : CallInv t) (hr : t.running = true)
    (hnil : t.plannedPath.steps = []) : t.plannedPath = ⟨[], 0⟩ := by
  rcases h.planned with hp | hp
  · obtain ⟨body, last, hsteps, -⟩ := (hp.underway hr).plan.last
    rw [hsteps] at hnil
    simp at hnil
  · exact hp

theorem CallInv.underway {t : Track} (h : CallInv t) (hr : t.running = true)
    (hsteps : t.plannedPath.steps ≠ []) : Underway t := by
  rcases h.planned with hp | hp
  · exact hp.underway hr
  · rw [hp] at hsteps
    exact absurd rfl hsteps

theorem CallInv.delay_home {t : Track} (h : CallInv t) (hr : t.running = true)
    (ha : t.actionActive = true) (hd : t.activeAction = .finishDelay) :
    t.plannedPath.destination = targetHome := by
  by_cases hnil : t.plannedPath.steps = []
  · rw [h.eq_cleared hr hnil]
  · obtain ⟨-, i, -, hget⟩ := (h.underway hr hnil).active ha
    apply h.homing
    rw [← hd]
    exact List.mem_of_getElem? hget

/-- A refused start that leaves a running path its plan, or that comes when the path does not need
it any more, is not noticed. -/
theorem unnoticed_of_sparing {t : Track} (h : CallInv t) {targetId : UInt8} {nowMs : UInt32}
    (hres : (t.startPath targetId nowMs).2 ≠ RT_EOK) (hspare : ¬ t.Emptying targetId nowMs) :
    Unnoticed t (t.startPath targetId nowMs).1 := by
  suffices hspared : Spared t (t.startPath targetId nowMs).1 from ⟨hspared.view_eq, hspared.alike⟩
  rw [startPath_refused hres]
  split_ifs with hboth
  · obtain ⟨hready, hrecent⟩ := hboth
    have htarget := refused_target h hready hrecent hres
    refine ⟨⟨[], 0⟩, [], rfl, ?_⟩
    intro hr
    by_cases hnil : t.plannedPath.steps = []
    · exact .inl (h.eq_cleared hr hnil).symm
    · by_cases hdelay : t.actionActive = true ∧ t.activeAction = .finishDelay
      · obtain ⟨ha, hd⟩ := hdelay
        exact .inr ⟨ha, hd, (h.delay_home hr ha hd).symm⟩
      · exact absurd ⟨hready, hrecent, htarget, hr, hnil, hdelay⟩ hspare
  · exact .refl t

/-- **Exactly when a refused start changes nothing.** Whatever the order of calls before it, a
refused start shows at no later call if and only if it is not one that the planner refuses, for a
target past the last panel, while a path is running that still has its plan and is not in the last
delay. A run without a start of that kind shows, between its refused starts, what it shows when
these are left out. -/
theorem refused_start (t : Track) (targetId : UInt8) (nowMs : UInt32) (h : Reachable t)
    (hres : (t.startPath targetId nowMs).2 ≠ RT_EOK) :
    (Unnoticed t (t.startPath targetId nowMs).1 ↔ ¬ t.Emptying targetId nowMs) ∧
      ∀ is, calls.Meets Sparing t is →
        calls.shown refused t is = calls.outputs t (calls.erase refused t is) := by
  have hinv := callInv_of_reachable h
  refine ⟨⟨?_, unnoticed_of_sparing hinv hres⟩, ?_⟩
  · rintro ⟨-, halike⟩ ⟨hready, hrecent, -, hr, hsteps, hdelay⟩
    rw [startPath_refused hres, if_pos ⟨hready, hrecent⟩] at halike
    exact not_alike_cleared (hinv.underway hr hsteps) hr hdelay halike
  · intro is hmeets
    refine Transducer.shown_eq (P := CallInv) (fun s i hs => call_callInv hs i) ?_ is hinv hmeets
    intro s i hs hspare hrefused
    cases i with
    | startPath targetId nowMs =>
      exact (unnoticed_of_sparing hs (of_decide_eq_true hrefused) hspare).2
    | init | stop | updateCamera | tick => exact Bool.noConfusion hrefused

/-- On the way to panel 5, before and after its first step. -/
def outboundRun : List Input :=
  [.init (some true) RT_EOK, .updateCamera ⟨1, 80, 60, 120, 3, 1000⟩, .startPath 5 1000,
    .tick 1000 (54, 54)]

/-- A start for panel 10 on the way to panel 5 is refused, and the next node is then home. -/
theorem refused_start_ends_path :
    ¬ ∀ (t : Track) (targetId : UInt8) (nowMs : UInt32), Reachable t →
      (t.startPath targetId nowMs).2 ≠ RT_EOK → Unnoticed t (t.startPath targetId nowMs).1 := by
  intro h
  obtain ⟨-, halike⟩ := h (calls.run zeroed outboundRun) 10 1100 ⟨outboundRun, rfl⟩ (by decide)
  have hnext := halike [.tick 1500 (54, 54)]
  revert hnext
  decide

/-- Before the first path a refused start for panel 10 is not noticed. -/
theorem refused_start_idle :
    let t := calls.run zeroed (outboundRun.take 2)
    (t.startPath 10 1100).2 = -RT_EINVAL ∧ Unnoticed t (t.startPath 10 1100).1 :=
  ⟨by decide, ((refused_start _ 10 1100 ⟨outboundRun.take 2, rfl⟩ (by decide)).1).mpr (by decide)⟩

end Hcics.Track
