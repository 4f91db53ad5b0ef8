import Hcics.Track.Tracker

/-!
# Where the vehicle is

`location` replays every step begun since boot on the 3×3 grid. The planner does not know it: an
outbound plan assumes the vehicle at home, a plan home assumes it at the recorded
`current_location`, which only a finished path updates. `planPath_ends_iff` says that a plan ends at
its target exactly from the start it assumes.
-/

namespace Hcics

/-- A place on the grid and, away from home, whether the vehicle heads out. Rows and columns count
from 0 here, so the lane's row 0 is one row up from home. -/
inductive Loc where
  | home
  | lane (row : Fin 3) (out : Bool)
  | cell (row col : Fin 3) (out : Bool)
  deriving DecidableEq, Repr

namespace Loc

/-- The row or column after `i`. -/
def next (i : Fin 3) : Option (Fin 3) := if i = 2 then none else some (i + 1)

/-- The row or column before `i`. -/
def prev (i : Fin 3) : Option (Fin 3) := if i = 0 then none else some (i - 1)

/-- Where a step takes the vehicle; `none` where the step leaves the grid. -/
def move : Loc → TrackAction → Option Loc
  | home, .forward => some (lane 0 true)
  | lane row true, .forward => (next row).map (lane · true)
  | lane row false, .forward => some (((prev row).map (lane · false)).getD home)
  | cell row col true, .forward => (next col).map (cell row · true)
  | cell row col false, .forward => (prev col).map (cell row · false)
  | lane row true, .turnRight => some (cell row 0 true)
  | cell row 0 false, .turnLeft => some (lane row false)
  | home, .uturn => some home
  | lane row out, .uturn => some (lane row !out)
  | cell row col out, .uturn => some (cell row col !out)
  | l, .finishDelay => some l
  | l, .stopAtTarget => some l
  | _, _ => none

/-- Where a list of steps takes the vehicle. -/
def replay (l : Loc) (steps : List TrackAction) : Option Loc := steps.foldlM move l

theorem replay_append (l : Loc) (xs ys : List TrackAction) :
    l.replay (xs ++ ys) = (l.replay xs).bind fun l' => l'.replay ys := by
  unfold replay
  rw [List.foldlM_append]
  rfl

/-- The panel of a target, headed for the far end of its row; home for every other target. -/
def ofTarget (targetId : UInt8) : Loc :=
  match Track.targetToGrid targetId with
  | some (row, col) => cell (Fin.ofNat 3 (row.toNat - 1)) (Fin.ofNat 3 (col.toNat - 1)) true
  | none => home

/-- The vehicle is at a target, whatever its heading. -/
def At (targetId : UInt8) (l : Loc) : Prop :=
  match ofTarget targetId, l with
  | home, home => True
  | cell row col _, cell row' col' _ => row = row' ∧ col = col'
  | _, _ => False

instance (targetId : UInt8) (l : Loc) : Decidable (At targetId l) := by
  unfold At
  split <;> infer_instance

/-- The steps, executed from a location of the vehicle, end at a target. -/
def EndsAt (targetId : UInt8) (steps : List TrackAction) (l : Option Loc) : Prop :=
  ∃ l' ∈ l.bind (replay · steps), At targetId l'

instance (targetId : UInt8) (steps : List TrackAction) (l : Option Loc) :
    Decidable (EndsAt targetId steps l) :=
  inferInstanceAs (Decidable (∃ l' ∈ l.bind (replay · steps), At targetId l'))

/-- The grid has finitely many places. -/
instance decidableForall (P : Loc → Prop) [DecidablePred P] : Decidable (∀ l, P l) :=
  decidable_of_iff
    (P home ∧ (∀ row out, P (lane row out)) ∧ ∀ row col out, P (cell row col out))
    ⟨fun ⟨h1, h2, h3⟩ l => match l with
      | home => h1
      | lane row out => h2 row out
      | cell row col out => h3 row col out,
    fun h => ⟨h _, fun _ _ => h _, fun _ _ _ => h _⟩⟩

theorem endsAt_iff_of_forall {targetId : UInt8} {steps : List TrackAction} {start : Loc}
    (h : ∀ l, EndsAt targetId steps (some l) ↔ l = start) (l : Option Loc) :
    EndsAt targetId steps l ↔ l = some start := by
  cases l with
  | none => simp [EndsAt]
  | some l => simpa using h l

end Loc

namespace Track

open Loc

theorem outbound_endsAt {targetId row col : UInt8} (h : targetToGrid targetId = some (row, col))
    (l : Option Loc) : EndsAt targetId (outboundSteps row.toNat col.toNat) l ↔ l = some .home := by
  have hall := of_targetToGrid h (fun target grid => ∀ l,
    EndsAt target (outboundSteps grid.1.toNat grid.2.toNat) (some l) ↔ l = home) (by decide)
  exact endsAt_iff_of_forall hall l

theorem return_endsAt {location row col : UInt8} (h : targetToGrid location = some (row, col))
    (l : Option Loc) :
    EndsAt targetHome (returnSteps row.toNat col.toNat) l ↔ l = some (ofTarget location) := by
  have hall := of_targetToGrid h (fun target grid => ∀ l,
    EndsAt targetHome (returnSteps grid.1.toNat grid.2.toNat) (some l) ↔ l = ofTarget target)
    (by decide)
  exact endsAt_iff_of_forall hall l

/-- The start a plan assumes: home for an outbound one, the recorded location for one home. -/
def assumedStart (t : Track) (targetId : UInt8) : Loc :=
  if targetId = targetHome then ofTarget t.currentLocation else home

theorem planPath_endsAt {t : Track} {targetId : UInt8} {p : TrackPath}
    (h : planPath t.currentLocation targetId = (p, RT_EOK)) (l : Option Loc) :
    EndsAt targetId p.steps l ↔ l = some (t.assumedStart targetId) := by
  unfold assumedStart
  rcases planPath_spec h with ⟨rfl, hloc, rfl⟩ | ⟨rfl, row, col, hg, rfl⟩ | ⟨row, col, hg, rfl⟩
  · rw [if_pos rfl, hloc]
    exact endsAt_iff_of_forall (by decide) l
  · rw [if_pos rfl]
    exact return_endsAt hg l
  · rw [if_neg (targetToGrid_spec hg).2.2]
    exact outbound_endsAt hg l

theorem planPath_replay {location targetId : UInt8} {p : TrackPath}
    (h : planPath location targetId = (p, RT_EOK))
    (hout : targetId ≠ targetHome → location = targetHome) :
    (ofTarget location).replay p.steps = some (ofTarget p.destination) := by
  rcases planPath_spec h with ⟨-, rfl, rfl⟩ | ⟨-, row, col, hg, rfl⟩ | ⟨row, col, hg, rfl⟩
  · decide
  · exact of_targetToGrid hg (fun target grid =>
      (ofTarget target).replay (returnSteps grid.1.toNat grid.2.toNat) =
        some (ofTarget targetHome)) (by decide)
  · rw [hout (targetToGrid_spec hg).2.2]
    exact of_targetToGrid hg (fun target grid =>
      (ofTarget targetHome).replay (outboundSteps grid.1.toNat grid.2.toNat) =
        some (ofTarget target)) (by decide)

/-- The vehicle's location: every step begun since boot, replayed from home. -/
def location (t : Track) : Option Loc := home.replay t.history

/-- The tracker's record is true: the recorded location where no path runs, and else the point its
steps begun so far lead to, on a plan that ends at its destination. -/
structure Located (t : Track) : Prop where
  stopped : t.running = false → t.location = some (ofTarget t.currentLocation)
  running : t.running = true →
    t.location = (ofTarget t.currentLocation).replay t.pathBegun ∧
      (ofTarget t.currentLocation).replay t.plannedPath.steps =
        some (ofTarget t.plannedPath.destination)

theorem Located.congr {t t' : Track} (h : Located t) (hr : t'.running = t.running)
    (hh : t'.history = t.history) (hb : t'.pathBegun = t.pathBegun)
    (hc : t'.currentLocation = t.currentLocation) (hp : t'.plannedPath = t.plannedPath) :
    Located t' := by
  obtain ⟨h1, h2⟩ := h
  refine ⟨fun hs => ?_, fun hs => ?_⟩
  · rw [location, hh, hc]
    exact h1 (hr ▸ hs)
  · rw [location, hh, hb, hc, hp]
    exact h2 (hr ▸ hs)

theorem Located.begin {t : Track} (h : Located t) (hr : t.running = true) (step : TrackAction) :
    home.replay (t.history ++ [step]) =
      (ofTarget t.currentLocation).replay (t.pathBegun ++ [step]) := by
  have hloc := (h.running hr).1
  rw [location] at hloc
  rw [replay_append, replay_append, hloc]

theorem tick_located {t : Track} (hinv : PlanInv t) (h : Located t) (now : UInt32)
    (line : Int16 × Int16) : Located (t.tick now line).1 := by
  by_cases hrun : t.initialized = true ∧ t.running = true
  · obtain ⟨hi, hr⟩ := hrun
    have hu := hinv.underway hr
    obtain ⟨hloc, hend⟩ := h.running hr
    have hcase := tick_case hi hr now line
    generalize t.tick now line = r at hcase ⊢
    cases hcase with
    | wait | resumed | line => exact h.congr rfl rfl rfl rfl rfl
    | docked ha hover hlast =>
      obtain ⟨-, i, hi', hget⟩ := hu.active ha
      have hlen := hu.plan.eq_last hget (.inl hlast)
      have hall : t.pathBegun = t.plannedPath.steps :=
        hu.begun.trans (by rw [hi', hlen, List.take_length])
      refine ⟨fun _ => ?_, fun hf => Bool.noConfusion hf⟩
      simp only [finishPath, motionSet, hu.path, if_true, location]
      exact hloc.trans (hall ▸ hend)
    | exhausted ha hget =>
      rw [if_pos hu.path, List.getElem?_eq_none_iff] at hget
      exact absurd (hu.left ha) (by omega)
    | node step ha hseen hp hget =>
      have hbegin := h.begin hr step
      cases step with
      | stopAtTarget =>
        have hlen := hu.plan.eq_last hget (.inr rfl)
        have hall := (hu.take_succ hget).trans (by rw [hlen, List.take_length])
        refine ⟨fun _ => ?_, fun hf => Bool.noConfusion hf⟩
        simp only [beginAction, finishPath, motionSet, hp, if_true, location]
        exact hbegin.trans (hall ▸ hend)
      | forward | turnLeft | turnRight | uturn | finishDelay =>
        exact ⟨fun hf => Bool.noConfusion (hr.symm.trans hf), fun _ => ⟨hbegin, hend⟩⟩
  · rw [tick_idle (by simpa [← Bool.not_eq_true, imp_iff_not_or] using hrun)]
    exact h

end Track

namespace Tracker

open Track

/-- A path is stopped only before its first step, and an outbound one starts from home. -/
def Orderly (s : Tracker) : Input → Prop
  | .stop => s.track.running = true → s.track.pathBegun = []
  | .startPath targetId _ => targetId ≠ targetHome → s.track.currentLocation = targetHome
  | _ => True

instance (s : Tracker) : ∀ i, Decidable (s.Orderly i)
  | .stop => inferInstanceAs (Decidable (s.track.running = true → s.track.pathBegun = []))
  | .startPath targetId _ => inferInstanceAs
      (Decidable (targetId ≠ targetHome → s.track.currentLocation = targetHome))
  | .init _ _ | .updateCamera _ | .tick _ _ => .isTrue trivial

theorem step_located {s s' : Tracker} {i : Input} (hinv : s.track.PlanInv) (h : s.track.Located)
    (hok : s.Orderly i) (hstep : s.step i = some s') : s'.track.Located := by
  cases step_case hstep with
  | tick hnow =>
    rw [doTick_track]
    exact tick_located hinv h _ _
  | @startPath targetId nowMs hr =>
    rw [doStart_track]
    by_cases hres : (s.track.startPath targetId nowMs).2 = RT_EOK
    · obtain ⟨-, -, p, hplan, he⟩ := startPath_ok hres
      rw [he]
      exact ⟨fun hf => Bool.noConfusion hf, fun _ => ⟨h.stopped hr, planPath_replay hplan hok⟩⟩
    · rcases startPath_err hres with he | ⟨p, he⟩ <;> rw [he]
      · exact h
      · exact ⟨h.stopped, fun hf => Bool.noConfusion (hr.symm.trans hf)⟩
  | stop =>
    simp only [Track.stop]
    split_ifs
    · exact h
    · refine ⟨fun _ => ?_, fun hf => Bool.noConfusion hf⟩
      cases hr : s.track.running with
      | false => exact h.stopped hr
      | true =>
        have hloc := (h.running hr).1
        rw [hok hr] at hloc
        exact hloc
  | updateCamera target =>
    rw [Track.updateCamera_eq]
    exact h.congr rfl rfl rfl rfl rfl
  | bind setMotor => exact h.congr rfl rfl rfl rfl rfl
  | init => exact ⟨fun _ => rfl, fun hf => Bool.noConfusion hf⟩

theorem located_of_reach {s : Tracker} (h : machine.Reach Orderly s) : s.track.Located :=
  h.inv (fun _ hs => hs ▸ ⟨fun _ => rfl, fun hf => Bool.noConfusion hf⟩)
    fun _ _ _ hr hs hok hstep => step_located (planInv_of_reach hr) hs hok hstep

/-- **Exactly when an accepted path starts where the vehicle is.** Whenever a start returns
`RT_EOK`, the planned steps, executed from the vehicle's location, end at the target if and only if
the vehicle is at the start that the plan assumes: at home for an outbound plan, at the recorded
location, heading out, for a plan home. In every run in which a path is only stopped before its
first step and an outbound path only starts with home recorded, that is always so. -/
theorem accepted_path_ends (s : Tracker) (targetId : UInt8) (nowMs : UInt32) :
    ((s.track.startPath targetId nowMs).2 = RT_EOK →
      (Loc.EndsAt targetId (s.track.startPath targetId nowMs).1.plannedPath.steps
        s.track.location ↔ s.track.location = some (s.track.assumedStart targetId))) ∧
    (machine.Reach Orderly s → s.track.running = false → s.Orderly (.startPath targetId nowMs) →
      (s.track.startPath targetId nowMs).2 = RT_EOK →
        Loc.EndsAt targetId (s.track.startPath targetId nowMs).1.plannedPath.steps
          s.track.location) := by
  have hiff (hres : (s.track.startPath targetId nowMs).2 = RT_EOK) :
      Loc.EndsAt targetId (s.track.startPath targetId nowMs).1.plannedPath.steps
        s.track.location ↔ s.track.location = some (s.track.assumedStart targetId) := by
    obtain ⟨-, -, p, hplan, he⟩ := startPath_ok hres
    rw [he]
    exact planPath_endsAt hplan _
  refine ⟨hiff, fun h hr hok hres => (hiff hres).mpr ?_⟩
  rw [(located_of_reach h).stopped hr, assumedStart]
  split_ifs with htarget
  · rfl
  · rw [hok htarget]
    rfl

/-- The way to panel 5, stopped after its first step. -/
def stoppedRun : List Input :=
  [.init (some true) RT_EOK, .updateCamera ⟨1, 80, 60, 120, 3, 1000⟩, .startPath 5 1000,
    .tick 1000 (54, 54), .stop]

/-- Started again from one row up, the way to panel 5 leads to panel 8. -/
theorem accepted_path_astray :
    let s := (machine.exec boot stoppedRun).get rfl
    machine.Reach Machine.free s ∧ s.track.location = some (.lane 0 true) ∧
      (s.track.startPath 5 1100).2 = RT_EOK ∧
      (Loc.lane 0 true).replay (s.track.startPath 5 1100).1.plannedPath.steps =
        some (.cell 2 1 true) ∧
      Loc.At 8 (.cell 2 1 true) ∧
      ¬ Loc.EndsAt 5 (s.track.startPath 5 1100).1.plannedPath.steps s.track.location :=
  ⟨.get rfl rfl, rfl, rfl, by decide, by decide, by decide⟩

def deliveredRun : List Input :=
  [.init (some true) RT_EOK, .updateCamera ⟨1, 80, 60, 120, 3, 1000⟩, .startPath 1 1000,
    .tick 1000 (54, 54), .tick 1500 (54, 54), .tick 2250 (54, 54),
    .updateCamera ⟨1, 80, 60, 120, 3, 2700⟩, .tick 2750 (54, 54)]

/-- From panel 1 the way home ends at home. -/
theorem accepted_path_ends_delivered :
    let s := (machine.exec boot deliveredRun).get rfl
    s.track.location = some (.cell 0 0 true) ∧
      Loc.EndsAt targetHome (s.track.startPath targetHome 2800).1.plannedPath.steps
        s.track.location :=
  ⟨by decide, (accepted_path_ends _ _ _).2 ⟨_, rfl, .of_exec deliveredRun rfl (by decide)⟩
    rfl (by decide) rfl⟩

end Tracker

end Hcics
