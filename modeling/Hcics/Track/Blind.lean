import Hcics.Track.Refused

/-!
# Driving blind

Line following looks at the age of the stored frame, and stops the wheels on an old one; so does the
acceptance of a node, which keeps the command. The end of a turn does neither: it goes back to the
line with both wheels at the base speed, and the frame is looked at one tick later.
-/

namespace Hcics.Track

open Tracker (Input)

/-- The frame shows a line that is wide enough, and is not old. -/
def Sees (target : CameraTarget) (nowMs : UInt32) : Prop :=
  target.mode = HCICS_CAM_MODE_TRACK ∧ minTargetW ≤ target.width ∧
    nowMs - tickToMs target.tick ≤ targetStaleMs

instance (target : CameraTarget) (nowMs : UInt32) : Decidable (Sees target nowMs) :=
  inferInstanceAs (Decidable (_ ∧ _ ∧ _))

/-- On the line, the tracker only drives while it sees. -/
def Watchful (t : Track) (nowMs : UInt32) : Prop :=
  t.running = true ∧ t.visualMissionState = .line →
    (t.leftCmd = 0 ∧ t.rightCmd = 0) ∨ Sees t.camera nowMs

instance (t : Track) (nowMs : UInt32) : Decidable (t.Watchful nowMs) :=
  inferInstanceAs (Decidable (_ → _))

/-- The tick ends a turn while the stored frame shows nothing. -/
def ResumesBlind (t : Track) (nowMs : UInt32) : Prop :=
  t.initialized = true ∧ t.running = true ∧ t.actionActive = true ∧
    t.activeAction ≠ .finishDelay ∧ ¬ (nowMs - t.actionEndMs).toInt32 < 0 ∧ ¬ Sees t.camera nowMs

/-- Every tick ends watchful. -/
def EndsWatchful (_ : Track) : Input → Track → Prop
  | .tick now _, t' => t'.Watchful (UInt32.ofNat now)
  | _, _ => True

instance (t t' : Track) : ∀ i, Decidable (t.EndsWatchful i t')
  | .tick now _ => inferInstanceAs (Decidable (t'.Watchful (UInt32.ofNat now)))
  | .init _ _ | .stop | .updateCamera _ | .startPath _ _ => .isTrue trivial

/-- The call is no tick that ends a turn while the stored frame shows nothing. -/
def Guided (t : Track) : Input → Prop
  | .tick now _ => ¬ t.ResumesBlind (UInt32.ofNat now)
  | _ => True

/-- A running tracker is initialised, and is not on the line while an action is in progress. -/
structure OffLine (t : Track) : Prop where
  initialized : t.running = true → t.initialized = true
  off : t.running = true → t.actionActive = true → t.visualMissionState ≠ .line

theorem targetRecent_iff {target : CameraTarget} {nowMs : UInt32} :
    targetRecent target nowMs = true ↔ target.tick ≠ 0 ∧ Sees target nowMs := by
  unfold targetRecent Sees
  by_cases hbad : target.mode ≠ HCICS_CAM_MODE_TRACK ∨ target.tick = 0 ∨ target.width < minTargetW
  · rw [if_pos hbad]
    refine iff_of_false (by simp) ?_
    rintro ⟨htick, hmode, hwidth, -⟩
    rcases hbad with hne | hzero | hnarrow
    · exact hne hmode
    · exact htick hzero
    · exact UInt8.not_lt.mpr hwidth hnarrow
  · rw [if_neg hbad, decide_eq_true_eq]
    simp only [not_or, not_not, UInt8.not_lt] at hbad
    obtain ⟨hmode, htick, hwidth⟩ := hbad
    exact ⟨fun hage => ⟨htick, hmode, hwidth, hage⟩, fun h => h.2.2.2⟩

theorem sees_of_recent {target : CameraTarget} {nowMs : UInt32}
    (h : targetRecent target nowMs = true) : Sees target nowMs :=
  (targetRecent_iff.mp h).2

theorem sees_of_node {t : Track} {nowMs : UInt32} (h : t.nodeSeen nowMs = true) :
    Sees t.camera nowMs := by
  unfold nodeSeen at h
  split at h
  · cases h
  · next hrecent => exact sees_of_recent (by simpa using hrecent)

theorem applyLineFollow_watchful (t : Track) (nowMs : UInt32) (line : Int16 × Int16) :
    (t.applyLineFollow nowMs line).1.Watchful nowMs := by
  unfold applyLineFollow
  dsimp only
  by_cases hrecent : targetRecent t.camera nowMs = true
  · rw [if_neg (by simp [hrecent])]
    exact fun _ => .inr (sees_of_recent hrecent)
  · rw [if_pos (by simpa using hrecent)]
    exact fun _ => .inl ⟨rfl, rfl⟩

theorem finishPath_watchful (t : Track) (nowMs : UInt32) :
    (t.finishPath nowMs).1.Watchful nowMs ∧ (t.finishPath nowMs).1.OffLine :=
  ⟨(fun hr => by cases hr.1), (fun hr => by cases hr), fun hr => by cases hr⟩

/-- A step that is begun goes off the line, or keeps on it with the frame that showed its node. -/
theorem beginAction_watchful {t : Track} {nowMs : UInt32} (hi : t.initialized = true)
    (h : Sees t.camera nowMs) (step : TrackAction) :
    (t.beginAction step nowMs).1.Watchful nowMs ∧ (t.beginAction step nowMs).1.OffLine := by
  cases step with
  | forward => exact ⟨fun _ => .inr h, fun _ => hi, fun _ hactive => by cases hactive⟩
  | stopAtTarget => exact finishPath_watchful _ nowMs
  | turnLeft | turnRight | uturn | finishDelay =>
    exact ⟨(fun hr => by cases hr.2), fun _ => hi, fun _ _ hline => by cases hline⟩

theorem acceptNode_watchful {t : Track} {nowMs : UInt32} (hi : t.initialized = true)
    (h : Sees t.camera nowMs) :
    (t.acceptNode nowMs).1.Watchful nowMs ∧ (t.acceptNode nowMs).1.OffLine := by
  unfold acceptNode
  split
  · exact finishPath_watchful t nowMs
  · exact beginAction_watchful
      (t := { t with currentNodeIndex := t.pathIndex, pathIndex := t.pathIndex + 1 }) hi h _

/-- The end of a turn is the one place where the wheels run without a look at the frame. -/
theorem completeAction_watchful {t : Track} {nowMs : UInt32} (hi : t.initialized = true)
    (hr : t.running = true) (ha : t.actionActive = true) (h : t.OffLine) :
    ((t.completeAction nowMs).1.Watchful nowMs ↔ ¬ t.ResumesBlind nowMs) ∧
      (t.completeAction nowMs).1.OffLine := by
  rw [completeAction, if_neg (by simp [ha])]
  by_cases hearly : (nowMs - t.actionEndMs).toInt32 < 0
  · rw [if_pos hearly]
    refine ⟨iff_of_true (fun hline => absurd hline.2 (h.off hr ha)) ?_, h⟩
    rintro ⟨-, -, -, -, hended, -⟩
    exact hended hearly
  · rw [if_neg hearly]
    by_cases hlast : t.activeAction = .finishDelay
    · rw [if_pos hlast]
      obtain ⟨hwatch, hoff⟩ := finishPath_watchful t nowMs
      refine ⟨iff_of_true hwatch ?_, hoff⟩
      rintro ⟨-, -, -, hturn, -, -⟩
      exact hturn hlast
    · rw [if_neg hlast]
      refine ⟨⟨?_, ?_⟩, fun _ => hi, fun _ hactive => by cases hactive⟩
      · rintro hwatch ⟨-, -, -, -, -, hblind⟩
        rcases hwatch ⟨hr, rfl⟩ with ⟨hleft, -⟩ | hsees
        · exact absurd hleft (show (54 : Int16) ≠ 0 by decide)
        · exact hblind hsees
      · intro hnot _
        by_contra hdrives
        exact hnot ⟨hi, hr, ha, hlast, hearly, fun hsees => hdrives (.inr hsees)⟩

/-- What one tick does: it ends watchful exactly where it does not end a turn blind. -/
theorem tick_watchful {t : Track} (h : t.OffLine) (now : UInt32) (line : Int16 × Int16) :
    ((t.tick now line).1.Watchful now ↔ ¬ t.ResumesBlind now) ∧ (t.tick now line).1.OffLine := by
  by_cases hr : t.running = true
  · have hi := h.initialized hr
    rw [tick, if_neg (by simp [hi, hr])]
    dsimp only
    by_cases ha : t.actionActive = true
    · rw [if_pos ha]
      exact completeAction_watchful (t := { t with lastTickMs := now }) hi hr ha ⟨h.1, h.2⟩
    · rw [if_neg ha]
      have hnot : ¬ t.ResumesBlind now := by
        rintro ⟨-, -, hactive, -⟩
        exact ha hactive
      by_cases hseen : t.nodeSeen now = true
      · rw [if_pos (show nodeSeen { t with lastTickMs := now } now = true from hseen)]
        obtain ⟨hwatch, hoff⟩ := acceptNode_watchful (t := { t with lastTickMs := now }) hi
          (sees_of_node hseen)
        exact ⟨iff_of_true hwatch hnot, hoff⟩
      · rw [if_neg (show ¬ nodeSeen { t with lastTickMs := now } now = true from hseen)]
        refine ⟨iff_of_true (applyLineFollow_watchful _ now line) hnot, ?_⟩
        unfold applyLineFollow
        dsimp only
        split <;> exact ⟨fun _ => hi, fun _ hactive => absurd hactive ha⟩
  · rw [tick_idle (.inr (by simpa using hr))]
    refine ⟨iff_of_true (fun hrun => absurd hrun.1 hr) ?_, h⟩
    rintro ⟨-, hrun, -⟩
    exact hr hrun

theorem call_offLine {t : Track} (h : t.OffLine) (i : Input) : (t.call i).1.OffLine := by
  cases i with
  | init ops mutexResult =>
    rcases t.init_cases ops mutexResult with ⟨setMotor, he⟩ | ⟨-, _, _, _, _, he⟩ <;>
      simp only [call, he]
    · exact ⟨h.1, h.2⟩
    · exact ⟨(fun hr => by cases hr), fun hr => by cases hr⟩
  | startPath targetId nowMs =>
    by_cases hres : (t.startPath targetId nowMs).2 = RT_EOK
    · obtain ⟨hi, -, p, -, he⟩ := startPath_ok hres
      simp only [call, he]
      exact ⟨fun _ => hi, fun _ hactive => by cases hactive⟩
    · rcases startPath_err hres with he | ⟨p, he⟩ <;> simp only [call, he]
      · exact h
      · exact ⟨h.1, h.2⟩
  | stop =>
    simp only [call, stop]
    split
    · exact h
    · exact ⟨(fun hr => by cases hr), fun hr => by cases hr⟩
  | updateCamera target =>
    show (t.updateCamera target).OffLine
    rw [updateCamera_eq]
    exact ⟨h.1, h.2⟩
  | tick now line => exact (tick_watchful h _ line).2

/-- When the tracker never drives blind on the line. In a run of any calls at any times, starts,
frames and stops among them, every tick that leaves the tracker running on the line leaves the wheels
stopped or the stored frame one of mode 1 that is wide enough and at most 1500 ms old, exactly where
no tick of the run ends a turn while the stored frame is not such a one. -/
theorem drives_seeing (is : List Input) :
    calls.Each EndsWatchful zeroed is ↔ calls.Meets Guided zeroed is := by
  have hzeroed : zeroed.OffLine := ⟨(fun hr => by cases hr), fun hr => by cases hr⟩
  refine Transducer.each_iff_meets (Q := OffLine) (fun t i h => call_offLine h i) ?_ is hzeroed
  intro t i h
  cases i with
  | tick now line => exact (tick_watchful h _ line).1
  | _ => exact Iff.rfl

/-- A path to the first panel, with one frame that shows a node and none after it: two nodes are
accepted from it, and the turn ends when it is 1600 ms old. -/
def lostLine : List Input :=
  [.init (some true) RT_EOK, .updateCamera ⟨1, 0, 0, 100, 3, 1000⟩, .startPath 1 1000,
    .tick 1000 (54, 54), .tick 1500 (54, 54), .tick 2600 (54, 54)]

/-- After the turn the wheels run at the base speed. -/
theorem drives_seeing_lost : ¬ calls.Each EndsWatchful zeroed lostLine ∧
    (calls.run zeroed lostLine).leftCmd = 54 ∧ (calls.run zeroed lostLine).rightCmd = 54 ∧
    (calls.run zeroed lostLine).running = true ∧
    (calls.run zeroed lostLine).visualMissionState = .line ∧
    ¬ Sees (calls.run zeroed lostLine).camera 2600 := by
  decide

end Hcics.Track
