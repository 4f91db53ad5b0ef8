import Hcics.Track.Plan

/-!
# One frame, one node

`node_latched` is declared and never tested, so nothing but the cooldown keeps the stored frame from
being accepted as a second node. `SilentCamera` is the tick at which that happens: no frame was
delivered since the one the last node was accepted from, the cooldown is over and the frame is still
fresh.
-/

namespace Hcics.Tracker

open Track

/-- A tick of a running path without a timed action, at which the stored frame is the one the last
node was accepted from, the cooldown is over and the frame is not stale. -/
def SilentCamera (s : Tracker) : Input → Prop
  | .tick now _ =>
    s.track.running = true ∧ s.track.actionActive = false ∧
      s.nodeFrames.head? = some s.frames ∧
      currentCooldownMs ≤ UInt32.ofNat now - s.track.lastNodeMs ∧
      UInt32.ofNat now - tickToMs s.track.camera.tick ≤ targetStaleMs
  | _ => False

instance (s : Tracker) : ∀ i, Decidable (s.SilentCamera i)
  | .tick _ _ => inferInstanceAs (Decidable (_ ∧ _))
  | .init _ _ | .startPath _ _ | .stop | .updateCamera _ => .isFalse id

/-- The frames of the current path: in order, none later than the stored one, and the stored one,
where a node was accepted from it, shows a node. -/
structure Framed (s : Tracker) : Prop where
  initialized : s.nodeFrames ≠ [] → s.track.initialized = true
  ordered : s.nodeFrames.Pairwise fun later earlier => earlier ≤ later
  stored : ∀ frame ∈ s.nodeFrames.head?, frame ≤ s.frames
  shown : s.nodeFrames.head? = some s.frames → ∀ nowMs, nowMs - tickToMs s.track.camera.tick ≤
    targetStaleMs → targetRecent s.track.camera nowMs = true ∧ isNode s.track.camera = true

theorem nodeSeen_iff {t : Track} {nowMs : UInt32} :
    t.nodeSeen nowMs = true ↔ targetRecent t.camera nowMs = true ∧
      currentCooldownMs ≤ nowMs - t.lastNodeMs ∧ isNode t.camera = true := by
  unfold nodeSeen
  split_ifs with h1 h2
  · simp [show targetRecent t.camera nowMs = false by simpa using h1]
  · simp [UInt32.not_le.mpr h2]
  · simp [show targetRecent t.camera nowMs = true by simpa using h1, UInt32.not_lt.mp h2]

theorem fresh_of_targetRecent {target : CameraTarget} {nowMs : UInt32}
    (h : targetRecent target nowMs = true) : nowMs - tickToMs target.tick ≤ targetStaleMs := by
  unfold targetRecent at h
  split_ifs at h
  simpa using h

theorem targetRecent_of_fresh {target : CameraTarget} {nowMs nowMs' : UInt32}
    (h : targetRecent target nowMs = true) (h' : nowMs' - tickToMs target.tick ≤ targetStaleMs) :
    targetRecent target nowMs' = true := by
  unfold targetRecent at h ⊢
  split_ifs at h ⊢
  simpa using h'

@[simp] theorem beginAction_camera (t : Track) (action : TrackAction) (now : UInt32) :
    (t.beginAction action now).1.camera = t.camera := by
  cases action <;> rfl

@[simp] theorem beginAction_initialized (t : Track) (action : TrackAction) (now : UInt32) :
    (t.beginAction action now).1.initialized = t.initialized := by
  cases action <;> rfl

theorem TickCase.kept {t : Track} {now : UInt32} {r : Track × Option (Int16 × Int16)}
    (h : TickCase t now r) : r.1.camera = t.camera ∧ r.1.initialized = t.initialized := by
  cases h with
  | wait | docked | resumed | exhausted | line => exact ⟨rfl, rfl⟩
  | node => simp

theorem doTick_framed {s : Tracker} (h : Framed s) (now : Nat) (line : Int16 × Int16) :
    Framed (s.doTick now line) := by
  have htick := doTick_ticked s now line
  generalize s.doTick now line = s' at htick ⊢
  rcases htick with - | ⟨r, hi, hr, hcase, hsame⟩ | ⟨step, hi, hr, ha, hseen, hp, hget⟩
  · exact ⟨h.initialized, h.ordered, h.stored, h.shown⟩
  · obtain ⟨hcam, hinit⟩ := TickCase.kept hcase
    exact ⟨fun hne => hinit.trans (h.initialized hne), h.ordered, h.stored, by
      simpa only [hcam] using h.shown⟩
  · have hall : ∀ frame ∈ s.nodeFrames, frame ≤ s.frames := by
      intro frame hmem
      cases hframes : s.nodeFrames with
      | nil => simp [hframes] at hmem
      | cons head rest =>
        have hhead := h.stored head (by simp [hframes])
        have hord := h.ordered
        rw [hframes] at hmem hord
        rcases List.mem_cons.mp hmem with rfl | hmem
        · exact hhead
        · exact Nat.le_trans ((List.pairwise_cons.mp hord).1 frame hmem) hhead
    obtain ⟨hrecent, -, hnode⟩ := nodeSeen_iff.mp hseen
    refine ⟨fun _ => by simpa using hi, List.pairwise_cons.mpr ⟨hall, h.ordered⟩, ?_, ?_⟩
    · intro frame hmem
      obtain rfl : s.frames = frame := by simpa using hmem
      exact Nat.le_refl _
    · intro _ nowMs hfresh
      simp only [beginAction_camera] at hfresh ⊢
      exact ⟨targetRecent_of_fresh hrecent hfresh, hnode⟩

theorem step_framed {s s' : Tracker} {i : Input} (h : Framed s) (hstep : s.step i = some s') :
    Framed s' := by
  cases step_case hstep with
  | tick => exact doTick_framed h _ _
  | @startPath targetId nowMs =>
    unfold doStart
    dsimp only
    split_ifs with hres
    · exact ⟨fun hne => absurd rfl hne, .nil, by simp, by simp⟩
    · rcases startPath_err hres with he | ⟨p, he⟩ <;> rw [he] <;>
        exact ⟨h.initialized, h.ordered, h.stored, h.shown⟩
  | stop =>
    simp only [Track.stop]
    split_ifs <;> exact ⟨h.initialized, h.ordered, h.stored, h.shown⟩
  | updateCamera target =>
    simp only [Track.updateCamera]
    split_ifs with hstore
    · -- a new frame has a number of its own
      refine ⟨h.initialized, h.ordered, fun frame hf => Nat.le_succ_of_le (h.stored frame hf),
        fun hf => ?_⟩
      exact absurd (h.stored _ hf) (Nat.not_succ_le_self _)
    · exact h
  | bind setMotor => exact ⟨h.initialized, h.ordered, h.stored, h.shown⟩
  | init hfresh =>
    have hnil : s.nodeFrames = [] := by
      by_contra hne
      exact Bool.noConfusion (hfresh.symm.trans (h.initialized hne))
    exact ⟨fun hne => absurd hnil hne, h.ordered, h.stored, fun hf => by simp [hnil] at hf⟩

theorem framed_of_reach {ok : Tracker → Input → Prop} {s : Tracker} (h : machine.Reach ok s) :
    Framed s :=
  h.inv (fun _ hs => hs ▸ ⟨fun hne => absurd rfl hne, .nil, fun _ hf => (nomatch hf),
    fun hf => (nomatch hf)⟩) fun _ _ _ _ hs _ hstep => step_framed hs hstep

theorem Framed.not_mem {s : Tracker} (h : Framed s) (hne : s.nodeFrames.head? ≠ some s.frames) :
    s.frames ∉ s.nodeFrames := by
  intro hmem
  cases hframes : s.nodeFrames with
  | nil => simp [hframes] at hmem
  | cons head rest =>
    have hhead := h.stored head (by simp [hframes])
    have hord := h.ordered
    rw [hframes] at hmem hord hne
    rcases List.mem_cons.mp hmem with heq | hmem
    · exact hne (by simp [heq])
    · have := (List.pairwise_cons.mp hord).1 _ hmem
      exact hne (by simp; omega)

/-- A step keeps the frames distinct exactly unless it is a tick under a silent camera. -/
theorem step_nodup_iff {s s' : Tracker} {i : Input} (hinv : s.track.PlanInv) (h : Framed s)
    (hd : s.nodeFrames.Nodup) (hstep : s.step i = some s') :
    s'.nodeFrames.Nodup ↔ ¬ s.SilentCamera i := by
  cases step_case hstep with
  | @tick now line =>
    have htick := doTick_ticked s now line
    generalize s.doTick now line = s' at htick ⊢
    rcases htick with hidle | ⟨r, hi, hr, hcase, hsame⟩ | ⟨step, hi, hr, ha, hseen, hp, hget⟩
    · refine ⟨fun _ hs => ?_, fun _ => hd⟩
      have hi := (hinv.underway hs.1).initialized
      rw [hi, hs.1] at hidle
      simp at hidle
    · refine ⟨fun _ hs => ?_, fun _ => hd⟩
      obtain ⟨-, ha, hhead, hcool, hfresh⟩ := hs
      have hu := hinv.underway hr
      obtain ⟨hrecent, hnode⟩ := h.shown hhead _ hfresh
      have hseen := nodeSeen_iff.mpr ⟨hrecent, hcool, hnode⟩
      cases hcase with
      | wait ha' | docked ha' | resumed ha' => exact Bool.noConfusion (ha.symm.trans ha')
      | node => exact absurd hsame (by rw [beginAction_pathIndex]; exact pathIndex_succ_ne _)
      | exhausted _ hget =>
        rw [if_pos hu.path, List.getElem?_eq_none_iff] at hget
        exact absurd (hu.left ha) (by omega)
      | line _ _ _ _ hunseen => exact Bool.noConfusion (hunseen.symm.trans hseen)
    · obtain ⟨hrecent, hcool, -⟩ := nodeSeen_iff.mp hseen
      refine ⟨fun hnd hs => ?_, fun hs => List.nodup_cons.mpr ⟨h.not_mem fun hhead => ?_, hd⟩⟩
      · exact (List.nodup_cons.mp hnd).1 (List.mem_of_head? hs.2.2.1)
      · exact hs ⟨hr, ha, hhead, hcool, fresh_of_targetRecent hrecent⟩
  | startPath =>
    refine ⟨fun _ => id, fun _ => ?_⟩
    unfold doStart
    dsimp only
    split_ifs
    · exact List.nodup_nil
    · exact hd
  | stop | updateCamera | bind | init => exact ⟨fun _ => id, fun _ => hd⟩

/-- **Exactly when one camera frame counts as one node.** In every run without a tick under a silent
camera, two different nodes of a path are accepted from two different frames; and from every
reachable state in which that holds, a tick under a silent camera breaks it. -/
theorem node_frames_distinct (s : Tracker) :
    (machine.Reach (fun s i => ¬ s.SilentCamera i) s → s.nodeFrames.Nodup) ∧
      ∀ i s', machine.Reach Machine.free s → s.nodeFrames.Nodup → machine.step s i = some s' →
        (s'.nodeFrames.Nodup ↔ ¬ s.SilentCamera i) := by
  refine ⟨fun h => ?_, fun i s' h hd hstep =>
    step_nodup_iff (planInv_of_reach h) (framed_of_reach h) hd hstep⟩
  refine h.inv (P := fun s => s.nodeFrames.Nodup) ?_ fun s i s' hreach hd hok hstep => ?_
  · rintro _ rfl
    exact List.nodup_nil
  · exact (step_nodup_iff (planInv_of_reach hreach) (framed_of_reach hreach) hd hstep).mpr hok

/-- On the way to panel 1 the junction is seen once, at 1000, and the stored frame is accepted again
500 ms later: the vehicle turns into a row at a node the camera did not report. -/
theorem node_frames_reused :
    let s := (machine.exec boot turningRun).get rfl
    machine.Reach Machine.free s ∧ s.track.pathBegun = [.forward, .turnRight] ∧
      s.nodeFrames = [1, 1] ∧ ¬ s.nodeFrames.Nodup :=
  ⟨.get rfl rfl, rfl, rfl, by decide⟩

/-- The same way with a frame for each node. -/
def framedRun : List Input :=
  [.init (some true) RT_EOK, .updateCamera ⟨1, 80, 60, 120, 3, 1000⟩, .startPath 1 1000,
    .tick 1000 (54, 54), .updateCamera ⟨1, 80, 60, 20, 0, 1200⟩, .tick 1500 (54, 54),
    .updateCamera ⟨1, 80, 60, 120, 3, 1600⟩, .tick 1600 (54, 54)]

theorem node_frames_distinct_framed :
    let s := (machine.exec boot framedRun).get rfl
    s.nodeFrames = [3, 1] ∧ s.nodeFrames.Nodup :=
  ⟨rfl, (node_frames_distinct _).1 ⟨_, rfl, .of_exec framedRun rfl (by decide)⟩⟩

end Hcics.Tracker
