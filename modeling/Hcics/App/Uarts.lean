import Hcics.App.Cameras
import Hcics.Driver.Serial

/-!
# From the UARTs to the tracker and the cleaner

The application with its camera threads, fed by the interrupts of the two UARTs: a character goes into
the receive buffer of its UART, and the camera thread takes it from there one by one, with a delay
where there is none. The buffer drops the oldest character when it is full; as long as it does not,
the frames that arrive are the frames that the camera sent.

`received` and `overruns` are history: the characters that the interrupts stored, and how often one
overwrote another.
-/

namespace Hcics

/-- The application with its camera threads and their UARTs. -/
structure Uarts where
  cameras : Cameras
  fifo : Role → RxFifo
  received : Role → List UInt8
  overruns : Role → Nat

namespace Uarts

/-- An interrupt, a `rt_device_read` of a camera thread, or another step of the application. -/
inductive Input where
  | isr (role : Role) (ch : UInt8)
  | read (role : Role) (now : Tick)
  | other (i : Cameras.Input)

/-- The step is a read of a camera thread, which needs a character. -/
def reads : Cameras.Input → Bool
  | .camera _ (.read _ _) => true
  | _ => false

def step (s : Uarts) : Input → Option Uarts
  | .isr role ch =>
    some { s with
      fifo := Function.update s.fifo role ((s.fifo role).isr ch)
      received := Function.update s.received role (s.received role ++ [ch])
      overruns := Function.update s.overruns role
        (s.overruns role + if (s.fifo role).dropsOldest then 1 else 0) }
  | .read role now =>
    match (s.fifo role).intRx with
    | none => some s
    | some (ch, fifo) =>
      (s.cameras.cameraStep role (.read ch now)).map fun cameras =>
        { s with cameras := cameras, fifo := Function.update s.fifo role fifo }
  | .other i => if reads i then none else (s.cameras.step i).map fun cameras => { s with cameras }

/-- The application after `hcics_app_init`, with its UARTs. -/
def booted (cameras : Cameras) (bufsz : UInt16) : Uarts :=
  ⟨cameras, fun _ => .opened bufsz, fun _ => [], fun _ => 0⟩

/-- The application under every order of its threads' and interrupts' steps. -/
def machine (bufsz : UInt16) : Machine Uarts Input where
  start s := ∃ cameras, Cameras.machine.start cameras ∧ s = booted cameras bufsz
  step := step

variable {bufsz : UInt16} {s s' : Uarts} {role : Role}

theorem cameras_simulation (ok : Uarts → Input → Prop) :
    (machine bufsz).Simulation Cameras.machine ok Machine.free fun s c => s.cameras = c where
  start := by
    rintro _ ⟨cameras, hstart, rfl⟩
    exact ⟨cameras, hstart, rfl⟩
  step := by
    rintro s i s' _ - rfl - hstep
    cases i with
    | isr role ch =>
      obtain rfl := Option.some.inj hstep
      exact ⟨_, .refl, rfl⟩
    | read role now =>
      simp only [machine, step] at hstep
      split at hstep
      · obtain rfl := Option.some.inj hstep
        exact ⟨_, .refl, rfl⟩
      · next ch fifo _ =>
        obtain ⟨cameras, hcameras, rfl⟩ := Option.map_eq_some_iff.mp hstep
        exact ⟨cameras, .single (i := .camera role (.read ch now)) trivial hcameras, rfl⟩
    | other i =>
      simp only [machine, step] at hstep
      split at hstep
      · cases hstep
      · obtain ⟨cameras, hcameras, rfl⟩ := Option.map_eq_some_iff.mp hstep
        exact ⟨cameras, .single (i := i) trivial hcameras, rfl⟩

theorem cameras_reach (h : (machine bufsz).Reach Machine.free s) :
    Cameras.machine.Reach Machine.free s.cameras := by
  obtain ⟨_, hreach, rfl⟩ := (cameras_simulation Machine.free).reach h
  exact hreach

/-! ## What the camera threads read -/

/-- The characters that the parser of a role was fed. -/
def readBytes (s : Uarts) (role : Role) : List UInt8 :=
  (s.cameras.reader role).bytes.map Prod.fst

theorem storeFrame_reader {c c' : Cameras} {target : CameraTarget} (h : c.storeFrame target = some c') :
    c'.reader = c.reader := by
  unfold Cameras.storeFrame at h
  split_ifs at h
  · exact Option.some.inj h ▸ rfl
  · obtain ⟨app, -, rfl⟩ := Option.map_eq_some_iff.mp h
    rfl
  · exact Option.some.inj h ▸ rfl

theorem forwardFrame_reader {c c' : Cameras} {target : CameraTarget} {now : Tick}
    (h : c.forwardFrame target now = some c') : c'.reader = c.reader := by
  unfold Cameras.forwardFrame at h
  split at h
  · obtain ⟨app, -, rfl⟩ := Option.map_eq_some_iff.mp h
    rfl
  split at h
  · obtain ⟨app, -, rfl⟩ := Option.map_eq_some_iff.mp h
    rfl
  · exact Option.some.inj h ▸ rfl

theorem setReader_bytes {c : Cameras} {role : Role} {r : CameraReader role}
    (h : r.bytes = (c.reader role).bytes) (role' : Role) :
    ((c.setReader role r).reader role').bytes = (c.reader role').bytes := by
  by_cases hrole : role' = role
  · subst hrole
    simp only [Cameras.setReader, Function.update_self, h]
  · simp only [Cameras.setReader, Function.update_of_ne hrole]

theorem step_bytes {c c' : Cameras} {i : Cameras.Input} (hi : reads i = false)
    (hstep : c.step i = some c') (role : Role) :
    (c'.reader role).bytes = (c.reader role).bytes := by
  cases i with
  | other i =>
    simp only [Cameras.step] at hstep
    split at hstep
    · cases hstep
    · obtain ⟨app, -, rfl⟩ := Option.map_eq_some_iff.mp hstep
      rfl
  | camera role' i =>
    cases i with
    | read byte now => cases hi
    | store =>
      simp only [Cameras.step, Cameras.cameraStep] at hstep
      split at hstep
      · obtain ⟨t, ht, rfl⟩ := Option.map_eq_some_iff.mp hstep
        have hreader := storeFrame_reader ht
        rw [setReader_bytes (by rw [hreader]), hreader]
      · cases hstep
    | forward now =>
      simp only [Cameras.step, Cameras.cameraStep] at hstep
      split at hstep
      · obtain ⟨t, ht, rfl⟩ := Option.map_eq_some_iff.mp hstep
        have hreader := forwardFrame_reader ht
        rw [setReader_bytes (by rw [hreader]), hreader]
      · cases hstep

/-- What a role's buffer holds is left of what its UART received and its thread did not read. -/
def Inv (bufsz : UInt16) (s : Uarts) : Prop :=
  ∀ role, ∃ unread, RxFifo.Carries bufsz (s.fifo role) (s.received role) (s.readBytes role) unread
    (s.overruns role)

theorem inv_of_reach (hsize : 1 < bufsz.toNat) (h : (machine bufsz).Reach Machine.free s) :
    Inv bufsz s := by
  refine h.inv ?_ ?_
  · rintro _ ⟨_, ⟨app, -, rfl⟩, rfl⟩ role
    exact ⟨[], .opened (Nat.lt_of_succ_lt hsize)⟩
  · intro s i s' _ hinv _ hstep role
    cases i with
    | isr role' ch =>
      obtain rfl := Option.some.inj hstep
      by_cases hrole : role = role'
      · subst hrole
        obtain ⟨unread, hcarries⟩ := hinv role
        simp only [Function.update_self]
        exact ⟨_, hcarries.isr hsize ch⟩
      · simp only [Function.update_of_ne hrole]
        exact hinv role
    | read role' now =>
      obtain ⟨unread, hcarries⟩ := hinv role'
      rcases hcarries.intRx with ⟨-, hread⟩ | ⟨ch, rest, f', -, hread, hcarries'⟩
      · simp only [machine, step, hread] at hstep
        exact Option.some.inj hstep ▸ hinv role
      · simp only [machine, step, hread] at hstep
        obtain ⟨c, hc, rfl⟩ := Option.map_eq_some_iff.mp hstep
        obtain ⟨r, hr, rfl⟩ := Option.map_eq_some_iff.mp hc
        obtain ⟨-, -, -, -, hbytes⟩ := CameraReader.feed_eq hr
        by_cases hrole : role = role'
        · subst hrole
          simp only [readBytes, Cameras.setReader, Function.update_self, hbytes, List.map_append]
          exact ⟨rest, hcarries'⟩
        · simp only [readBytes, Cameras.setReader, Function.update_of_ne hrole]
          exact hinv role
    | other i =>
      simp only [machine, step] at hstep
      split at hstep
      · cases hstep
      · rename_i hi
        obtain ⟨c, hc, rfl⟩ := Option.map_eq_some_iff.mp hstep
        simp only [readBytes, step_bytes (by simpa using hi) hc role]
        exact hinv role

theorem roleTarget_tick (role : Role) (target : CameraTarget) :
    (roleTarget role target).val.tick = target.tick := by
  unfold roleTarget
  split <;> rfl

/-- **A camera thread reads what its UART received.** Under every order of the interrupts and of all
threads' steps, the characters that a camera thread read and the ones that wait are those its UART
received, in order, but for the ones that dropped out of a full buffer; these are counted, and where
there are none nothing is lost. -/
theorem camera_bytes (hsize : 1 < bufsz.toNat) (h : (machine bufsz).Reach Machine.free s) (role : Role) :
    ∃ unread, (s.fifo role).Holds unread ∧ unread.length < bufsz.toNat ∧
      (s.readBytes role ++ unread).Sublist (s.received role) ∧
      (s.received role).length = (s.readBytes role).length + unread.length + s.overruns role ∧
      (s.overruns role = 0 → s.readBytes role ++ unread = s.received role) := by
  obtain ⟨unread, hcarries⟩ := inv_of_reach hsize h role
  refine ⟨unread, hcarries.holds, ?_, hcarries.sublist, hcarries.length, fun hnone => ?_⟩
  · have hlt := hcarries.holds.ring.length_lt
    simp only [RxFifo.ring, hcarries.bufsz] at hlt
    exact hlt
  · rw [hnone] at hcarries
    exact hcarries.eq_received

/-- Two characters for a buffer of one, whose thread then reads, and a third one. -/
def overrun : Uarts :=
  ((machine 2).exec (booted (Cameras.booted App.boot) 2)
    [.isr .track 1, .isr .track 2, .read .track 0, .isr .track 3]).get (by decide +kernel)

theorem booted_start : (machine bufsz).start (booted (Cameras.booted App.boot) bufsz) :=
  ⟨_, ⟨App.boot, App.boot_start, rfl⟩, rfl⟩

/-- The thread reads the second one, and the third one waits. -/
theorem camera_bytes_overrun : overrun.readBytes .track = [2] ∧ overrun.overruns .track = 1 ∧
    ∃ ch, (overrun.fifo .track).Holds [ch] ∧ [2, ch].Sublist (overrun.received .track) := by
  have hreach : (machine 2).Reach Machine.free overrun := .get booted_start _
  have hread : overrun.readBytes .track = [2] := by decide +kernel
  have hoverruns : overrun.overruns .track = 1 := by decide +kernel
  have hreceived : (overrun.received .track).length = 3 := by decide +kernel
  obtain ⟨unread, hholds, -, hsublist, hcount, -⟩ := camera_bytes (by decide) hreach .track
  rw [hread, hoverruns, hreceived] at hcount
  obtain ⟨ch, rfl⟩ := List.length_eq_one_iff.mp (show unread.length = 1 by
    simp only [List.length_singleton] at hcount
    omega)
  rw [hread] at hsublist
  exact ⟨hread, hoverruns, ch, hholds, hsublist⟩

/-- The frames stored, and the one about to be, are what the parser made of the bytes. -/
theorem stored_eq (h : (machine bufsz).Reach Machine.free s) (role : Role) :
    s.cameras.latest role ++ (s.cameras.reader role).pc.toStore =
      (CameraParser.init.run (s.cameras.reader role).bytes).2.map
        fun target => (roleTarget role target).val := by
  cases role with
  | track => exact (Cameras.trackSide_inv (cameras_reach h)).stored
  | clean => exact (Cameras.cleanSide_inv (cameras_reach h)).stored

theorem run_gaps {bytes : List (UInt8 × Tick)} {l : List (List UInt8 × CameraFrame)}
    (hgap : ∀ g ∈ l, HCICS_CAM_HEAD ∉ g.1) (hbytes : bytes.map Prod.fst = l.flatMap fun g => g.1 ++ g.2.encode) :
    List.Forall₂ (fun (t : CameraTarget) (f : CameraFrame) => t = f.target t.tick)
      (CameraParser.init.run bytes).2 (l.map Prod.snd) := by
  rw [(CameraParser.init_holds.run bytes).2]
  apply CameraFrame.filterMap_decodeFrame
  have hframes := cameraFormat_feed [] bytes
  rw [List.map_nil, hbytes, Framing.Format.feed_eq_frames, Framing.Format.feed_eq_frames] at hframes
  have hcut := Framing.Format.frames_gaps (F := cameraBytes) (l := l.map fun g => (g.1, g.2.encode))
    (fun gf hgf b hb => ?_) fun gf hgf => ?_
  · rw [List.flatMap_map] at hcut
    rw [Framing.Format.feed_eq_frames, ← hframes, hcut, List.map_map, List.map_map]
    rfl
  · obtain ⟨g, hg, rfl⟩ := List.mem_map.mp hgf
    have hne : b ≠ HCICS_CAM_HEAD := fun he => hgap g hg (he ▸ hb)
    simpa [cameraBytes] using hne
  · obtain ⟨g, -, rfl⟩ := List.mem_map.mp hgf
    exact g.2.encode_whole

/-- **The frames of a camera arrive.** Under every order of the interrupts and of all threads' steps,
as long as the receive buffer of a UART never overran and what it received are frames with gaps that
hold no header, the frames stored, and the one about to be, are the first of them, in order, none
twice; and all of them where no character waits. -/
theorem camera_frames_arrive (hsize : 1 < bufsz.toNat) (h : (machine bufsz).Reach Machine.free s)
    (role : Role) (hnone : s.overruns role = 0) (l : List (List UInt8 × CameraFrame))
    (hgap : ∀ g ∈ l, HCICS_CAM_HEAD ∉ g.1)
    (hreceived : s.received role = l.flatMap fun g => g.1 ++ g.2.encode) :
    ∃ arrived rest, l.map Prod.snd = arrived ++ rest ∧
      List.Forall₂ (fun (t : CameraTarget) (f : CameraFrame) => t = (roleTarget role (f.target t.tick)).val)
        (s.cameras.latest role ++ (s.cameras.reader role).pc.toStore) arrived ∧
      ((s.fifo role).intRx = none → rest = []) := by
  obtain ⟨unread, hcarries⟩ := inv_of_reach hsize h role
  rw [hnone] at hcarries
  -- the bytes fed, followed by those that wait
  let waiting : List (UInt8 × Tick) := unread.map (·, 0)
  have hall : ((s.cameras.reader role).bytes ++ waiting).map Prod.fst =
      l.flatMap fun g => g.1 ++ g.2.encode := by
    rw [← hreceived, ← hcarries.eq_received, List.map_append, List.map_map]
    exact congrArg (s.readBytes role ++ ·) (List.map_id unread)
  have hframes := run_gaps hgap hall
  rw [CameraParser.run_append] at hframes
  set fed := (CameraParser.init.run (s.cameras.reader role).bytes).2 with hfed
  set more := ((CameraParser.init.run (s.cameras.reader role).bytes).1.run waiting).2 with hmore
  refine ⟨(l.map Prod.snd).take fed.length, (l.map Prod.snd).drop fed.length,
    (List.take_append_drop _ _).symm, ?_, fun hempty => ?_⟩
  · have harrived := List.forall₂_take fed.length hframes
    rw [List.take_left] at harrived
    rw [stored_eq h, List.forall₂_map_left_iff]
    refine harrived.imp ?_
    intro t f ht
    rw [roleTarget_tick, ← ht]
  · rcases hcarries.intRx with ⟨rfl, -⟩ | ⟨ch, rest, f', -, hread, -⟩
    · have hlength := hframes.length_eq
      rw [show more = [] from rfl, List.append_nil] at hlength
      rw [hlength, List.drop_length]
    · rw [hempty] at hread
      cases hread

/-- A character of noise, then a frame. -/
def noisyFrame : List (List UInt8 × CameraFrame) := [([7], ⟨1, 50, 60, 20, 3, .inl rfl⟩)]

/-- The track UART receives them, and its thread reads all of them. -/
def noisy : Uarts :=
  ((machine 64).exec (booted (Cameras.booted App.boot) 64)
    (([7, 0xAA, 1, 0, 50, 0, 60, 20, 3, 0x55].map (.isr .track)) ++
      List.replicate 10 (.read .track 5))).get (by decide +kernel)

theorem noisy_arrives : ∃ arrived rest, noisyFrame.map Prod.snd = arrived ++ rest ∧
    List.Forall₂ (fun (t : CameraTarget) (f : CameraFrame) => t = (roleTarget .track (f.target t.tick)).val)
      (noisy.cameras.latest .track ++ (noisy.cameras.reader .track).pc.toStore) arrived ∧
    rest = [] := by
  have hreach : (machine 64).Reach Machine.free noisy := .get booted_start _
  obtain ⟨arrived, rest, hsplit, harrived, hall⟩ := camera_frames_arrive (by decide) hreach .track
    (by decide +kernel) noisyFrame (by decide) (by decide +kernel)
  exact ⟨arrived, rest, hsplit, harrived, hall (by decide +kernel)⟩

end Uarts

end Hcics
