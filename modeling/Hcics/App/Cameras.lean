import Hcics.App.Missions
import Hcics.Cleaner.Camera
import Hcics.Lib.Window
import Hcics.Protocol.Camera
import Hcics.Track.Frames

/-!
# The two cameras

The camera threads over the application. Each runs `hcics_camera_uart_loop` with a parser of its own
and the mode of its role, and hands its frames to `hcics_app_update_camera`, which both share and which
goes by the mode of the frame alone. A step reads a byte, is the section under `camera_lock`, or hands
the frame on.

A `Side` is a camera thread by itself, with the module its frames end in. Two windows show the two
sides of the application as such machines, so neither depends on the other, nor on anything else that
the application does.
-/

namespace Hcics

inductive Role where
  | track | clean
  deriving DecidableEq, Repr

def Role.mode : Role → UInt8
  | .track => HCICS_CAM_MODE_TRACK
  | .clean => HCICS_CAM_MODE_CLEAN

abbrev RoleTarget (role : Role) := { target : CameraTarget // target.mode = role.mode }

/-- The copy that `hcics_app_update_role_camera` makes of a frame. -/
def roleTarget (role : Role) (target : CameraTarget) : RoleTarget role :=
  if h : target.mode = role.mode then ⟨target, h⟩ else ⟨{ target with mode := role.mode }, rfl⟩

inductive ReaderPc (role : Role) where
  /-- In `rt_device_read`. -/
  | read
  /-- Before the section of `hcics_app_update_camera`. -/
  | store (target : RoleTarget role)
  /-- After it, before the frame is handed to its module. -/
  | forward (target : RoleTarget role)
  deriving DecidableEq, Repr

def ReaderPc.toStore {role : Role} : ReaderPc role → List CameraTarget
  | .store target => [target.val]
  | _ => []

def ReaderPc.toForward {role : Role} : ReaderPc role → Option CameraTarget
  | .forward target => some target.val
  | _ => none

/-- A thread in `hcics_camera_uart_loop`. `bytes` is history: the bytes read, with the tick at which
they were fed to the parser. -/
structure CameraReader (role : Role) where
  parser : CameraParser
  pc : ReaderPc role
  bytes : List (UInt8 × Tick)
  deriving DecidableEq, Repr

namespace CameraReader

variable {role : Role}

def init : CameraReader role := ⟨CameraParser.init, .read, []⟩

/-- A byte is read and fed; a frame that passes the parser goes to `hcics_app_update_role_camera`. -/
def feed (r : CameraReader role) (byte : UInt8) (now : Tick) : Option (CameraReader role) :=
  match r.pc with
  | .read =>
    let (parser, target, result) := r.parser.feed byte now
    let pc := match result, target with
      | true, some target => .store (roleTarget role target)
      | _, _ => .read
    some ⟨parser, pc, r.bytes ++ [(byte, now)]⟩
  | _ => none

end CameraReader

/-- The application with its camera threads. `latest`, `trackFrames` and `cleanFrames` are history,
oldest first: the frames stored in `latest_track` and in `latest_clean`, in the tracker and in the
cleaner. -/
structure Cameras where
  app : App
  latestClean : CameraTarget
  reader : (role : Role) → CameraReader role
  latest : Role → List CameraTarget
  trackFrames : List CameraTarget
  cleanFrames : List CleanerTarget

inductive CameraStep where
  | read (byte : UInt8) (now : Tick)
  | store
  | forward (now : Tick)
  deriving DecidableEq, Repr

def CameraStep.byte : CameraStep → Option (UInt8 × Tick)
  | .read byte now => some (byte, now)
  | _ => none

def App.Input.ofCamera : App.Input → Bool
  | .trackCamera _ | .trackForward | .cleanCamera _ _ => true
  | _ => false

namespace Cameras

/-! ## The camera threads -/

def setReader (s : Cameras) (role : Role) (r : CameraReader role) : Cameras :=
  { s with reader := Function.update s.reader role r }

/-- A frame is added to those stored in `latest_track` or `latest_clean`. -/
def keep (s : Cameras) (role : Role) (target : CameraTarget) : Cameras :=
  { s with latest := Function.update s.latest role (s.latest role ++ [target]) }

def storeFrame (s : Cameras) (target : CameraTarget) : Option Cameras :=
  if target.mode = HCICS_CAM_MODE_CLEAN then
    some ({ s with latestClean := target }.keep .clean target)
  else if target.mode = HCICS_CAM_MODE_TRACK then
    (s.app.step (.trackCamera target)).map fun app =>
      { s with app := app }.keep .track app.latestTrack
  else some s

/-- What `hcics_app_update_camera` does after its section: `hcics_forward_clean_camera`, or
`hcics_track_update_camera`. -/
def forwardFrame (s : Cameras) (target : CameraTarget) (now : Tick) : Option Cameras :=
  if target.mode = HCICS_CAM_MODE_CLEAN then
    (s.app.step (.cleanCamera target now)).map fun app =>
      { s with app := app, cleanFrames := s.cleanFrames ++ [app.cleaner.cleaner.camera] }
  else if target.mode = HCICS_CAM_MODE_TRACK then
    (s.app.step .trackForward).map fun app =>
      { s with
        app := app
        trackFrames :=
          if s.app.track.storesFrame target then s.trackFrames ++ [app.track.camera]
          else s.trackFrames }
  else some s

def cameraStep (s : Cameras) (role : Role) : CameraStep → Option Cameras
  | .read byte now => ((s.reader role).feed byte now).map (s.setReader role)
  | .store =>
    match (s.reader role).pc with
    | .store target =>
      (s.storeFrame target.val).map (·.setReader role { s.reader role with pc := .forward target })
    | _ => none
  | .forward now =>
    match (s.reader role).pc with
    | .forward target =>
      (s.forwardFrame target.val now).map (·.setReader role { s.reader role with pc := .read })
    | _ => none

/-! ## The application as a machine -/

/-- A step of a camera thread, or of another thread. -/
inductive Input where
  | camera (role : Role) (i : CameraStep)
  | other (i : App.Input)

def step (s : Cameras) : Input → Option Cameras
  | .camera role i => s.cameraStep role i
  | .other i => if i.ofCamera then none else (s.app.step i).map fun app => { s with app := app }

/-- The application after `hcics_app_init`, with the camera threads. -/
def booted (app : App) : Cameras where
  app := app
  latestClean := ⟨0, 0, 0, 0, 0, 0⟩
  reader _ := .init
  latest _ := []
  trackFrames := []
  cleanFrames := []

def machine : Machine Cameras Input where
  start s := ∃ app, App.machine.start app ∧ s = booted app
  step := step

end Cameras

/-! ## One side -/

/-- A camera thread, `latest_track` or `latest_clean`, and the frame of its module. `stored` and
`frames` are history: the frames stored in the one and in the other. -/
structure Side (role : Role) (β : Type) where
  reader : CameraReader role
  latest : CameraTarget
  stored : List CameraTarget
  camera : β
  frames : List β

namespace CameraParser

theorem run_append (p : CameraParser) (s s' : List (UInt8 × Tick)) :
    p.run (s ++ s') = (((p.run s).1.run s').1, (p.run s).2 ++ ((p.run s).1.run s').2) := by
  induction s generalizing p with
  | nil => rfl
  | cons b s ih =>
    simp only [List.cons_append, run, ih, List.append_assoc]

theorem run_single (p : CameraParser) (byte : UInt8) (now : Tick) :
    p.run [(byte, now)] = ((p.feed byte now).1, accepted (p.feed byte now)) := by
  simp only [run, List.append_nil]

end CameraParser

namespace CameraReader

variable {role : Role} {r r' : CameraReader role} {byte : UInt8} {now : Tick}

theorem feed_eq (h : r.feed byte now = some r') :
    r.pc = .read ∧ r'.parser = (r.parser.feed byte now).1 ∧
      r'.pc.toStore = (CameraParser.accepted (r.parser.feed byte now)).map
        (fun target => (roleTarget role target).val) ∧
      r'.pc.toForward = none ∧ r'.bytes = r.bytes ++ [(byte, now)] := by
  unfold feed at h
  cases hpc : r.pc with
  | read =>
    rw [hpc] at h
    dsimp only at h
    obtain rfl := Option.some.inj h
    generalize r.parser.feed byte now = fed
    obtain ⟨parser, target, result⟩ := fed
    refine ⟨rfl, rfl, ?_, ?_, rfl⟩
    · cases result <;> cases target <;> rfl
    · cases result <;> cases target <;> rfl
  | store target =>
    rw [hpc] at h
    cases h
  | forward target =>
    rw [hpc] at h
    cases h

end CameraReader

namespace Side

variable {role : Role} {β : Type} (hand : CameraTarget → Tick → β)

def step (v : Side role β) : CameraStep → Option (Side role β)
  | .read byte now => (v.reader.feed byte now).map fun r => { v with reader := r }
  | .store =>
    match v.reader.pc with
    | .store target =>
      some { v with
        reader := { v.reader with pc := .forward target }
        latest := target.val
        stored := v.stored ++ [target.val] }
    | _ => none
  | .forward now =>
    match v.reader.pc with
    | .forward target =>
      some { v with
        reader := { v.reader with pc := .read }
        camera := hand target.val now
        frames := v.frames ++ [hand target.val now] }
    | _ => none

def init (camera : β) : Side role β := ⟨.init, ⟨0, 0, 0, 0, 0, 0⟩, [], camera, []⟩

def machine (camera : β) : Machine (Side role β) CameraStep where
  start v := v = init camera
  step := step hand

/-- The frame `f` is what the module made of `target`, at some tick. -/
def Handed (f : β) (target : CameraTarget) : Prop := ∃ now, f = hand target now

/-- What is stored is what the parser makes of the bytes, with the mode of the role. -/
structure Inv (camera : β) (v : Side role β) : Prop where
  parser : v.reader.parser = (CameraParser.init.run v.reader.bytes).1
  stored : v.stored ++ v.reader.pc.toStore =
    (CameraParser.init.run v.reader.bytes).2.map fun target => (roleTarget role target).val
  mode : ∀ target ∈ v.stored, target.mode = role.mode
  latest : v.latest = v.stored.getLast?.getD ⟨0, 0, 0, 0, 0, 0⟩
  handed : ∃ handed, handed ++ v.reader.pc.toForward.toList = v.stored ∧
    List.Forall₂ (Handed hand) v.frames handed
  camera : v.camera = v.frames.getLast?.getD camera

variable {hand} {camera : β} {v v' : Side role β}

theorem step_inv {i : CameraStep} (h : Inv hand camera v) (hstep : v.step hand i = some v') :
    Inv hand camera v' := by
  cases i with
  | read byte now =>
    obtain ⟨r, hr, rfl⟩ := Option.map_eq_some_iff.mp hstep
    obtain ⟨hpc, hparser, htoStore, htoForward, hbytes⟩ := CameraReader.feed_eq hr
    have hstored := h.stored
    have hhanded := h.handed
    rw [hpc] at hstored hhanded
    have hrun : CameraParser.init.run r.bytes =
        ((v.reader.parser.feed byte now).1, (CameraParser.init.run v.reader.bytes).2 ++
          CameraParser.accepted (v.reader.parser.feed byte now)) := by
      rw [hbytes, CameraParser.run_append, CameraParser.run_single, ← h.parser]
    refine { h with parser := ?_, stored := ?_, handed := ?_ }
    · rw [hrun, hparser]
    · rw [hrun, List.map_append, ← hstored, htoStore]
      exact congrArg (· ++ _) (List.append_nil _).symm
    · rw [htoForward]
      exact hhanded
  | store =>
    simp only [step] at hstep
    cases hpc : v.reader.pc with
    | store target =>
      rw [hpc] at hstep
      obtain rfl := Option.some.inj hstep
      have hstored := h.stored
      obtain ⟨handed, hsplit, hframes⟩ := h.handed
      rw [hpc] at hstored hsplit
      refine { h with stored := ?_, mode := ?_, latest := ?_, handed := ?_ }
      · rw [← hstored]
        exact List.append_nil _
      · intro t ht
        rcases List.mem_append.mp ht with ht | ht
        · exact h.mode t ht
        · rw [List.mem_singleton.mp ht]
          exact target.property
      · rw [List.getLast?_concat]
        rfl
      · have hall : handed = v.stored := (List.append_nil handed).symm.trans hsplit
        exact ⟨v.stored, rfl, hall ▸ hframes⟩
    | read =>
      rw [hpc] at hstep
      cases hstep
    | forward target =>
      rw [hpc] at hstep
      cases hstep
  | forward now =>
    simp only [step] at hstep
    cases hpc : v.reader.pc with
    | forward target =>
      rw [hpc] at hstep
      obtain rfl := Option.some.inj hstep
      have hstored := h.stored
      obtain ⟨handed, hsplit, hframes⟩ := h.handed
      rw [hpc] at hstored hsplit
      refine { h with stored := hstored, handed := ⟨v.stored, List.append_nil _, ?_⟩, camera := ?_ }
      · rw [← hsplit]
        exact List.rel_append hframes (.cons ⟨now, rfl⟩ .nil)
      · rw [List.getLast?_concat]
        rfl
    | read =>
      rw [hpc] at hstep
      cases hstep
    | store target =>
      rw [hpc] at hstep
      cases hstep

theorem inv_of_reach {ok : Side role β → CameraStep → Prop} (h : (machine hand camera).Reach ok v) :
    Inv hand camera v := by
  refine h.inv ?_ fun v i v' _ hv _ hstep => step_inv hv hstep
  rintro _ rfl
  exact ⟨rfl, rfl, nofun, rfl, ⟨[], rfl, .nil⟩, rfl⟩

theorem exec_bytes {is : List CameraStep} (h : (machine hand camera).exec v is = some v') :
    v'.reader.bytes = v.reader.bytes ++ is.filterMap CameraStep.byte := by
  induction is generalizing v with
  | nil =>
    obtain rfl : v = v' := Option.some.inj h
    exact (List.append_nil _).symm
  | cons i is ih =>
    obtain ⟨w, hw, hrest⟩ := Option.bind_eq_some_iff.mp h
    rw [ih hrest]
    simp only [machine, step] at hw
    cases i with
    | read byte now =>
      obtain ⟨r, hr, rfl⟩ := Option.map_eq_some_iff.mp hw
      obtain ⟨-, -, -, -, hbytes⟩ := CameraReader.feed_eq hr
      show r.bytes ++ is.filterMap CameraStep.byte = v.reader.bytes ++ (byte, now) :: _
      rw [hbytes, List.append_assoc]
      rfl
    | store =>
      dsimp only at hw
      split at hw
      · obtain rfl := Option.some.inj hw
        rfl
      · cases hw
    | forward now =>
      dsimp only at hw
      split at hw
      · obtain rfl := Option.some.inj hw
        rfl
      · cases hw

end Side

/-! ## The other threads -/

namespace Track

theorem stop_camera (t : Track) : t.stop.1.camera = t.camera := by
  unfold stop
  split <;> rfl

theorem startPath_camera (t : Track) (target : UInt8) (nowMs : UInt32) :
    (t.startPath target nowMs).1.camera = t.camera := by
  unfold startPath
  dsimp only
  split_ifs <;> rfl

theorem tick_camera (t : Track) (nowMs : UInt32) (line : Int16 × Int16) :
    (t.tick nowMs line).1.camera = t.camera := by
  by_cases hrun : t.initialized = true ∧ t.running = true
  · exact (Tracker.TickCase.kept (tick_case hrun.1 hrun.2 nowMs line)).1
  · rw [tick_idle (by simpa [← Bool.not_eq_true, imp_iff_not_or] using hrun)]

end Track

namespace App

variable {s s' : App}

/-- No frame is stored, and none is handed to a module. -/
structure SameFrames (s s' : App) : Prop where
  latestTrack : s'.latestTrack = s.latestTrack
  trackFrame : s'.trackFrame = s.trackFrame
  track : s'.track.camera = s.track.camera
  cleaner : s'.cleaner.cleaner.camera = s.cleaner.cleaner.camera

theorem SameFrames.cleanerStep {i : CleanerSys.Input} (h : s.cleanerStep i = some s')
    (hi : ∀ target now, i ≠ .updateCameraTarget target now) : SameFrames s s' := by
  obtain ⟨c, hc, rfl⟩ := cleanerStep_some h
  exact ⟨rfl, rfl, rfl, CleanerSys.step_camera hi hc⟩

theorem MissionStep.frames (h : MissionStep s s') : SameFrames s s' := by
  refine ⟨h.latestTrack, h.trackFrame, ?_, ?_⟩
  · rcases h.track with ht | ht | ⟨target, now, ht⟩
    · rw [ht]
    · rw [ht, Track.stop_camera]
    · rw [ht, Track.startPath_camera]
  · rcases h.cleaner with hc | ⟨i, -, hi, -, hc⟩
    · rw [hc]
    · exact CleanerSys.step_camera hi hc

theorem stopPart_frames {io : AppIo} {pc : StopPc} (h : s.stopPart io pc = some s') :
    SameFrames s s' := by
  cases pc <;> simp only [stopPart] at h
  case abort | motion => exact Option.some.inj h ▸ ⟨rfl, rfl, rfl, rfl⟩
  case track => exact Option.some.inj h ▸ ⟨rfl, rfl, Track.stop_camera s.track, rfl⟩
  case cleaner | cleanerOutputs => exact .cleanerStep h (by simp)

theorem step_frames {i : Input} (hi : i.ofCamera = false) (hstep : s.step i = some s') :
    SameFrames s s' := by
  cases i with
  | mission io =>
    rcases stepMission_case hstep with ⟨msg, -, hstep⟩ | ⟨-, l, state, work, trace, -, rfl⟩
    · exact (stepWork_step hstep).frames
    · exact ⟨rfl, rfl, rfl, rfl⟩
  | udp io =>
    obtain ⟨t, ht, -, rfl⟩ := stepUdp_case hstep
    rcases ht with rfl | ⟨pc, ht⟩
    · exact ⟨rfl, rfl, rfl, rfl⟩
    · obtain ⟨h1, h2, h3, h4⟩ := stopPart_frames ht
      exact ⟨h1, h2, h3, h4⟩
  | control io =>
    obtain rfl := Option.some.inj hstep
    unfold stepControl
    split
    · exact ⟨rfl, rfl, Track.tick_camera s.track _ _, rfl⟩
    · exact ⟨rfl, rfl, rfl, rfl⟩
    · exact ⟨rfl, rfl, rfl, rfl⟩
  | worker io =>
    obtain ⟨c, hc, rfl⟩ := Option.map_eq_some_iff.mp hstep
    exact ⟨rfl, rfl, rfl, CleanerSys.step_camera (i := .worker io) (by simp) hc⟩
  | trackCamera | trackForward | cleanCamera => cases hi
  | guard reading now => exact .cleanerStep hstep (by simp)
  | guardOutputs io => exact .cleanerStep hstep (by simp)

end App

/-! ## The two sides -/

namespace Cameras

variable {s s' : Cameras}

def trackSide (s : Cameras) : Side .track CameraTarget :=
  ⟨s.reader .track, s.app.latestTrack, s.latest .track, s.app.track.camera, s.trackFrames⟩

def cleanSide (s : Cameras) : Side .clean CleanerTarget :=
  ⟨s.reader .clean, s.latestClean, s.latest .clean, s.app.cleaner.cleaner.camera, s.cleanFrames⟩

/-- What the tracker stores of a frame. -/
def trackHand (target : CameraTarget) (_ : Tick) : CameraTarget := target

/-- What the cleaner stores of a frame; it stamps one without a tick. -/
def cleanHand (target : CameraTarget) (now : Tick) : CleanerTarget :=
  let clean := App.cleanTarget target
  if clean.tick = 0 then { clean with tick := now } else clean

/-- A step of a thread, seen from its own side. -/
def sees (role : Role) : Input → Option CameraStep
  | .camera role' i => if role' = role then some i else none
  | .other _ => none

/-- The bytes of a UART, with the ticks at which they are fed. -/
def bytes (role : Role) (is : List Input) : List (UInt8 × Tick) :=
  (is.filterMap (sees role)).filterMap CameraStep.byte

/-! ## The track camera's thread -/

section Track

variable (target : RoleTarget .track)

theorem storeFrame_track : s.storeFrame target.val =
    (s.app.step (.trackCamera target.val)).map fun app =>
      { s with app := app }.keep .track app.latestTrack := by
  have hmode : target.val.mode = HCICS_CAM_MODE_TRACK := target.property
  rw [storeFrame, if_neg (by rw [hmode]; decide), if_pos hmode]

theorem forwardFrame_track (now : Tick) : s.forwardFrame target.val now =
    (s.app.step .trackForward).map fun app =>
      { s with
        app := app
        trackFrames :=
          if s.app.track.storesFrame target.val then s.trackFrames ++ [app.track.camera]
          else s.trackFrames } := by
  have hmode : target.val.mode = HCICS_CAM_MODE_TRACK := target.property
  rw [forwardFrame, if_neg (by rw [hmode]; decide), if_pos hmode]

theorem step_trackCamera {app : App} (h : app.trackFrame = none) :
    app.step (.trackCamera target.val) =
      some { app with latestTrack := target.val, trackFrame := some target.val } := by
  have hmode : target.val.mode = HCICS_CAM_MODE_TRACK := target.property
  have hsame : { target.val with mode := HCICS_CAM_MODE_TRACK } = target.val := by rw [← hmode]
  simp only [App.step, h, hsame]

theorem storesFrame_track {t : Track} (h : t.initialized = true) : t.storesFrame target.val = true := by
  have hmode : target.val.mode = HCICS_CAM_MODE_TRACK := target.property
  rw [Track.storesFrame, h, hmode]
  rfl

theorem updateCamera_track {t : Track} (h : t.initialized = true) :
    (t.updateCamera target.val).camera = target.val := by
  rw [Track.updateCamera, if_pos (storesFrame_track target h)]

end Track

/-! ## The clean camera's thread -/

section Clean

variable (target : RoleTarget .clean)

theorem storeFrame_clean : s.storeFrame target.val =
    some ({ s with latestClean := target.val }.keep .clean target.val) :=
  if_pos target.property

theorem forwardFrame_clean (now : Tick) : s.forwardFrame target.val now =
    (s.app.step (.cleanCamera target.val now)).map fun app =>
      { s with app := app, cleanFrames := s.cleanFrames ++ [app.cleaner.cleaner.camera] } :=
  if_pos target.property

theorem step_cleanCamera (app : App) (frame : CameraTarget) (now : Tick) :
    app.step (.cleanCamera frame now) =
      some { app with cleaner := { app.cleaner with
        cleaner := { app.cleaner.cleaner with camera := cleanHand frame now } } } := rfl

end Clean

/-! ## A step and the application -/

theorem storeFrame_app {target : CameraTarget} (h : s.storeFrame target = some s') :
    s'.app = s.app ∨ ∃ j, s.app.step j = some s'.app := by
  unfold storeFrame at h
  split_ifs at h
  · exact .inl (Option.some.inj h ▸ rfl)
  · obtain ⟨app, happ, rfl⟩ := Option.map_eq_some_iff.mp h
    exact .inr ⟨_, happ⟩
  · exact .inl (Option.some.inj h ▸ rfl)

theorem forwardFrame_app {target : CameraTarget} {now : Tick}
    (h : s.forwardFrame target now = some s') :
    s'.app = s.app ∨ ∃ j, s.app.step j = some s'.app := by
  unfold forwardFrame at h
  split at h
  · obtain ⟨app, happ, rfl⟩ := Option.map_eq_some_iff.mp h
    exact .inr ⟨_, happ⟩
  split at h
  · obtain ⟨app, happ, rfl⟩ := Option.map_eq_some_iff.mp h
    exact .inr ⟨_, happ⟩
  · exact .inl (Option.some.inj h ▸ rfl)

theorem step_app {i : Input} (hstep : s.step i = some s') :
    s'.app = s.app ∨ ∃ j, s.app.step j = some s'.app := by
  cases i with
  | camera role i =>
    cases i with
    | read byte now =>
      obtain ⟨r, -, rfl⟩ := Option.map_eq_some_iff.mp hstep
      exact .inl rfl
    | store =>
      simp only [step, cameraStep] at hstep
      split at hstep
      · obtain ⟨t, ht, rfl⟩ := Option.map_eq_some_iff.mp hstep
        show t.app = s.app ∨ ∃ j, s.app.step j = some t.app
        exact storeFrame_app ht
      · cases hstep
    | forward now =>
      simp only [step, cameraStep] at hstep
      split at hstep
      · obtain ⟨t, ht, rfl⟩ := Option.map_eq_some_iff.mp hstep
        show t.app = s.app ∨ ∃ j, s.app.step j = some t.app
        exact forwardFrame_app ht
      · cases hstep
  | other i =>
    simp only [step] at hstep
    split at hstep
    · cases hstep
    · obtain ⟨app, happ, rfl⟩ := Option.map_eq_some_iff.mp hstep
      exact .inr ⟨i, happ⟩

theorem app_reach (h : machine.Reach Machine.free s) : App.machine.Reach Machine.free s.app := by
  refine h.inv (P := fun s => App.machine.Reach Machine.free s.app) ?_ ?_
  · rintro _ ⟨app, happ, rfl⟩
    exact .base happ
  · intro s i t _ happ _ hstep
    rcases step_app hstep with he | ⟨j, hj⟩
    · rw [he]
      exact happ
    · exact happ.step trivial hj

/-! ## A step and the sides -/

/-- What the track camera's thread is about to hand on is the frame it has stored. -/
def Handing (s : Cameras) : Prop := s.app.trackFrame = (s.reader .track).pc.toForward

theorem cameraStep_track (hhand : Handing s) (hinit : s.app.track.initialized = true)
    (i : CameraStep) : (s.cameraStep .track i).map trackSide = s.trackSide.step trackHand i := by
  cases i with
  | read byte now =>
    show (((s.reader .track).feed byte now).map (s.setReader .track)).map trackSide =
      ((s.reader .track).feed byte now).map fun r => { s.trackSide with reader := r }
    cases (s.reader .track).feed byte now <;> rfl
  | store =>
    simp only [cameraStep, Side.step, trackSide]
    cases hpc : (s.reader .track).pc with
    | store target =>
      have hnone : s.app.trackFrame = none := by rw [hhand, hpc]; rfl
      dsimp only
      rw [storeFrame_track, step_trackCamera target hnone]
      rfl
    | read => rfl
    | forward target => rfl
  | forward now =>
    simp only [cameraStep, Side.step, trackSide]
    cases hpc : (s.reader .track).pc with
    | forward target =>
      have hsome : s.app.trackFrame = some target.val := by rw [hhand, hpc]; rfl
      have hcamera := updateCamera_track target hinit
      dsimp only
      rw [forwardFrame_track]
      simp only [App.step, hsome, Option.map_some, storesFrame_track target hinit, if_true]
      show some (Side.mk _ _ _ (s.app.track.updateCamera target.val).camera
        (s.trackFrames ++ [(s.app.track.updateCamera target.val).camera])) = _
      rw [hcamera]
      rfl
    | read => rfl
    | store target => rfl

theorem cameraStep_clean (i : CameraStep) :
    (s.cameraStep .clean i).map cleanSide = s.cleanSide.step cleanHand i := by
  cases i with
  | read byte now =>
    show (((s.reader .clean).feed byte now).map (s.setReader .clean)).map cleanSide =
      ((s.reader .clean).feed byte now).map fun r => { s.cleanSide with reader := r }
    cases (s.reader .clean).feed byte now <;> rfl
  | store =>
    simp only [cameraStep, Side.step, cleanSide]
    cases hpc : (s.reader .clean).pc with
    | store target =>
      dsimp only
      rw [storeFrame_clean]
      rfl
    | read => rfl
    | forward target => rfl
  | forward now =>
    simp only [cameraStep, Side.step, cleanSide]
    cases hpc : (s.reader .clean).pc with
    | forward target =>
      dsimp only
      rw [forwardFrame_clean, step_cleanCamera]
      rfl
    | read => rfl
    | store target => rfl

theorem cameraStep_clean_trackSide {i : CameraStep} (hstep : s.cameraStep .clean i = some s') :
    s'.trackSide = s.trackSide ∧ s'.app.trackFrame = s.app.trackFrame := by
  cases i with
  | read byte now =>
    obtain ⟨r, -, rfl⟩ := Option.map_eq_some_iff.mp hstep
    exact ⟨rfl, rfl⟩
  | store =>
    simp only [cameraStep] at hstep
    split at hstep
    · rw [storeFrame_clean] at hstep
      exact Option.some.inj hstep ▸ ⟨rfl, rfl⟩
    · cases hstep
  | forward now =>
    simp only [cameraStep] at hstep
    split at hstep
    · rw [forwardFrame_clean, step_cleanCamera] at hstep
      exact Option.some.inj hstep ▸ ⟨rfl, rfl⟩
    · cases hstep

theorem cameraStep_track_cleanSide {i : CameraStep} (hstep : s.cameraStep .track i = some s') :
    s'.cleanSide = s.cleanSide := by
  cases i with
  | read byte now =>
    obtain ⟨r, -, rfl⟩ := Option.map_eq_some_iff.mp hstep
    rfl
  | store =>
    simp only [cameraStep] at hstep
    split at hstep
    · rename_i target _
      rw [storeFrame_track] at hstep
      obtain ⟨t, ht, rfl⟩ := Option.map_eq_some_iff.mp hstep
      obtain ⟨app, happ, rfl⟩ := Option.map_eq_some_iff.mp ht
      simp only [App.step] at happ
      split at happ
      · cases happ
      · exact Option.some.inj happ ▸ rfl
    · cases hstep
  | forward now =>
    simp only [cameraStep] at hstep
    split at hstep
    · rw [forwardFrame_track] at hstep
      obtain ⟨t, ht, rfl⟩ := Option.map_eq_some_iff.mp hstep
      obtain ⟨app, happ, rfl⟩ := Option.map_eq_some_iff.mp ht
      obtain ⟨frame, -, rfl⟩ := Option.map_eq_some_iff.mp happ
      rfl
    · cases hstep

theorem other_sides {i : App.Input} (hstep : s.step (.other i) = some s') :
    s'.trackSide = s.trackSide ∧ s'.cleanSide = s.cleanSide ∧
      s'.app.trackFrame = s.app.trackFrame := by
  simp only [step] at hstep
  split at hstep
  · cases hstep
  · rename_i hi
    obtain ⟨app, happ, rfl⟩ := Option.map_eq_some_iff.mp hstep
    obtain ⟨h1, h2, h3, h4⟩ := App.step_frames (by simpa using hi) happ
    refine ⟨?_, ?_, h2⟩
    · simp only [trackSide, h1, h3]
    · simp only [cleanSide, h4]

theorem handing_of_reach (h : machine.Reach Machine.free s) : Handing s := by
  refine h.inv (P := Handing) ?_ ?_
  · rintro _ ⟨_, ⟨pins, io, -, rfl⟩, rfl⟩
    rfl
  · intro s i s' hreach hhand _ hstep
    have hinit := (App.inv_of_reach (app_reach hreach)).tracker.1
    cases i with
    | other i =>
      obtain ⟨hside, -, hframe⟩ := other_sides hstep
      have hreader := congrArg Side.reader hside
      show s'.app.trackFrame = s'.trackSide.reader.pc.toForward
      rw [hframe, hreader]
      exact hhand
    | camera role i =>
      cases role with
      | clean =>
        obtain ⟨hside, hframe⟩ := cameraStep_clean_trackSide hstep
        have hreader := congrArg Side.reader hside
        show s'.app.trackFrame = s'.trackSide.reader.pc.toForward
        rw [hframe, hreader]
        exact hhand
      | track =>
        cases i with
        | read byte now =>
          obtain ⟨r, hr, rfl⟩ := Option.map_eq_some_iff.mp hstep
          obtain ⟨hpc, -, -, hforward, -⟩ := CameraReader.feed_eq hr
          show s.app.trackFrame = r.pc.toForward
          rw [hforward, hhand, hpc]
          rfl
        | store =>
          simp only [machine, step, cameraStep] at hstep
          split at hstep
          · rename_i target hpc
            have hnone : s.app.trackFrame = none := by rw [hhand, hpc]; rfl
            rw [storeFrame_track, step_trackCamera target hnone] at hstep
            exact Option.some.inj hstep ▸ rfl
          · cases hstep
        | forward now =>
          simp only [machine, step, cameraStep] at hstep
          split at hstep
          · rename_i target hpc
            have hsome : s.app.trackFrame = some target.val := by rw [hhand, hpc]; rfl
            rw [forwardFrame_track] at hstep
            simp only [App.step, hsome] at hstep
            exact Option.some.inj hstep ▸ rfl
          · cases hstep

def trackMachine : Machine (Side .track CameraTarget) CameraStep :=
  Side.machine trackHand ⟨0, 0, 0, 0, 0, 0⟩

def cleanMachine : Machine (Side .clean CleanerTarget) CameraStep :=
  Side.machine cleanHand ⟨0, 0, 0, 0, 0, false, 0⟩

/-- The track camera's side runs as it does by itself. -/
def trackWindow : machine.Window trackMachine where
  view := trackSide
  sees := sees .track
  start := by
    rintro _ ⟨_, ⟨pins, io, -, rfl⟩, rfl⟩
    rfl
  hidden := by
    intro s t i _ hi hstep
    cases i with
    | camera role i =>
      cases role with
      | track => cases hi
      | clean => exact (cameraStep_clean_trackSide hstep).1
    | other i => exact (other_sides hstep).1
  seen := by
    intro s i k hreach hi
    have hinit := (App.inv_of_reach (app_reach hreach)).tracker.1
    cases i with
    | camera role i =>
      cases role with
      | track =>
        obtain rfl : i = k := Option.some.inj hi
        exact cameraStep_track (handing_of_reach hreach) hinit i
      | clean => cases hi
    | other i => cases hi

/-- The clean camera's side runs as it does by itself. -/
def cleanWindow : machine.Window cleanMachine where
  view := cleanSide
  sees := sees .clean
  start := by
    rintro _ ⟨_, ⟨pins, io, -, rfl⟩, rfl⟩
    rfl
  hidden := by
    intro s t i _ hi hstep
    cases i with
    | camera role i =>
      cases role with
      | track => exact cameraStep_track_cleanSide hstep
      | clean => cases hi
    | other i => exact (other_sides hstep).2.1
  seen := by
    intro s i k _ hi
    cases i with
    | camera role i =>
      cases role with
      | track => cases hi
      | clean =>
        obtain rfl : i = k := Option.some.inj hi
        exact cameraStep_clean i
    | other i => cases hi

/-! ## The cameras do not interfere -/

theorem trackSide_inv (h : machine.Reach Machine.free s) :
    Side.Inv trackHand ⟨0, 0, 0, 0, 0, 0⟩ s.trackSide :=
  Side.inv_of_reach (trackWindow.reach_view h)

theorem cleanSide_inv (h : machine.Reach Machine.free s) :
    Side.Inv cleanHand ⟨0, 0, 0, 0, 0, false, 0⟩ s.cleanSide :=
  Side.inv_of_reach (cleanWindow.reach_view h)

theorem reader_bytes {s₀ : Cameras} {is : List Input} (h0 : machine.start s₀)
    (h : machine.exec s₀ is = some s) (role : Role) : (s.reader role).bytes = bytes role is := by
  have hreach : machine.Reach Machine.free s₀ := .base h0
  obtain ⟨app, -, rfl⟩ := h0
  cases role with
  | track => exact Side.exec_bytes (trackWindow.exec_view hreach h)
  | clean => exact Side.exec_bytes (cleanWindow.exec_view hreach h)

theorem cleanHand_mode (target : CameraTarget) (now : Tick) :
    (cleanHand target now).mode = HCICS_CAM_MODE_CLEAN := by
  unfold cleanHand
  dsimp only
  split <;> rfl

/-- The tracker stores every frame of `latest_track` but the one still to be handed on. -/
theorem trackFrames_eq (h : machine.Reach Machine.free s) :
    s.trackFrames ++ (s.reader .track).pc.toForward.toList = s.latest .track := by
  obtain ⟨handed, hsplit, hframes⟩ := (trackSide_inv h).handed
  have hsame : s.trackFrames = handed := by
    refine List.forall₂_eq_eq_eq ▸ hframes.imp ?_
    rintro f target ⟨now, rfl⟩
    rfl
  rw [hsame]
  exact hsplit

/-- The cleaner stores every frame of `latest_clean` but the one still to be handed on. -/
theorem cleanFrames_eq (h : machine.Reach Machine.free s) :
    ∃ handed, handed ++ (s.reader .clean).pc.toForward.toList = s.latest .clean ∧
      List.Forall₂ (Side.Handed cleanHand) s.cleanFrames handed :=
  (cleanSide_inv h).handed

theorem cleanFrames_mode (h : machine.Reach Machine.free s) :
    ∀ frame ∈ s.cleanFrames, frame.mode = HCICS_CAM_MODE_CLEAN := by
  obtain ⟨handed, -, hframes⟩ := cleanFrames_eq h
  have hmode : List.Forall₂ (fun frame target =>
      frame.mode = HCICS_CAM_MODE_CLEAN ∧ Side.Handed cleanHand frame target) s.cleanFrames handed := by
    refine hframes.imp ?_
    rintro frame target ⟨now, rfl⟩
    exact ⟨cleanHand_mode target now, now, rfl⟩
  exact ((List.forall₂_and_left _ _).mp hmode).1

/-- **The two cameras do not interfere.** In every run the frames stored in `latest_track` and in
`latest_clean`, and the one about to be, are what the parser makes of the bytes of the one UART and of
the other, with the mode of the role; the tracker and the cleaner store the same frames, in order. In
two runs that agree on the steps of one camera thread, its bytes and its clock, that camera's side is
the same, whatever the other UART carries and whatever the other threads do. -/
theorem cameras_apart {s₀ s₀' s s' : Cameras} {is is' : List Input} (h0 : machine.start s₀)
    (h0' : machine.start s₀') (h : machine.exec s₀ is = some s) (h' : machine.exec s₀' is' = some s') :
    (∀ role, s.latest role ++ (s.reader role).pc.toStore =
        (CameraParser.init.run (bytes role is)).2.map fun target => (roleTarget role target).val) ∧
      (∀ role, ∀ target ∈ s.latest role, target.mode = role.mode) ∧
      s.trackFrames ++ (s.reader .track).pc.toForward.toList = s.latest .track ∧
      (∃ handed, handed ++ (s.reader .clean).pc.toForward.toList = s.latest .clean ∧
        List.Forall₂ (Side.Handed cleanHand) s.cleanFrames handed) ∧
      (∀ frame ∈ s.cleanFrames, frame.mode = HCICS_CAM_MODE_CLEAN) ∧
      s.app.latestTrack = (s.latest .track).getLast?.getD ⟨0, 0, 0, 0, 0, 0⟩ ∧
      s.latestClean = (s.latest .clean).getLast?.getD ⟨0, 0, 0, 0, 0, 0⟩ ∧
      s.app.track.camera = s.trackFrames.getLast?.getD ⟨0, 0, 0, 0, 0, 0⟩ ∧
      s.app.cleaner.cleaner.camera = s.cleanFrames.getLast?.getD ⟨0, 0, 0, 0, 0, false, 0⟩ ∧
      (is.filterMap (sees .track) = is'.filterMap (sees .track) → s.trackSide = s'.trackSide) ∧
      (is.filterMap (sees .clean) = is'.filterMap (sees .clean) → s.cleanSide = s'.cleanSide) := by
  have hreach : machine.Reach Machine.free s := .of_exec h0 h
  have htrack := trackSide_inv hreach
  have hclean := cleanSide_inv hreach
  refine ⟨?_, ?_, trackFrames_eq hreach, cleanFrames_eq hreach, ?_, htrack.latest, hclean.latest,
    htrack.camera, hclean.camera, ?_, ?_⟩
  · intro role
    rw [← reader_bytes h0 h role]
    cases role with
    | track => exact htrack.stored
    | clean => exact hclean.stored
  · intro role
    cases role with
    | track => exact htrack.mode
    | clean => exact hclean.mode
  · exact cleanFrames_mode hreach
  · intro hsees
    refine trackWindow.two_runs (.base h0) (.base h0') ?_ hsees h h'
    exact (trackWindow.start h0).trans (trackWindow.start h0').symm
  · intro hsees
    refine cleanWindow.two_runs (.base h0) (.base h0') ?_ hsees h h'
    exact (cleanWindow.start h0).trans (cleanWindow.start h0').symm

/-- A UART carries a frame with the mode byte `mode`, which is stored and handed on. -/
def frameRun (role : Role) (mode : UInt8) : List Input :=
  ([0xAA, mode, 0, 50, 0, 60, 20, 3, 0x55].map fun b => .camera role (.read b 7)) ++
    [.camera role .store, .camera role (.forward 9)]

/-- Each UART carries a frame with the mode of the other. -/
def crossed : Cameras :=
  (machine.exec (booted App.boot) (frameRun .clean 1 ++ frameRun .track 2)).get (by decide +kernel)

/-- The track UART carries its frame alone. -/
def alone : Cameras :=
  (machine.exec (booted App.boot) (frameRun .track 2)).get (by decide +kernel)

/-- The frame is the tracker's either way. -/
theorem crossed_apart : crossed.trackFrames = [⟨1, 50, 60, 20, 3, 7⟩] ∧
    crossed.cleanFrames = [⟨2, 50, 60, 20, 3, true, 7⟩] ∧ crossed.trackSide = alone.trackSide := by
  have hstart : machine.start (booted App.boot) := ⟨App.boot, App.boot_start, rfl⟩
  have hcrossed : machine.exec (booted App.boot) (frameRun .clean 1 ++ frameRun .track 2) =
      some crossed := (Option.some_get _).symm
  have halone : machine.exec (booted App.boot) (frameRun .track 2) = some alone :=
    (Option.some_get _).symm
  obtain ⟨-, -, -, -, -, -, -, -, -, htrack, -⟩ := cameras_apart hstart hstart hcrossed halone
  exact ⟨by decide +kernel, by decide +kernel, htrack (by decide +kernel)⟩

end Cameras

end Hcics
