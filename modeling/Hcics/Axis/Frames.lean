import Hcics.Axis.Wire
import Hcics.Lib.Codes
import Hcics.Lib.Transition
import Mathlib.Logic.Function.Basic

/-!
# The commands of the axis on the wire

Every command of `hcics_axis.c` is a frame of bytes. `AxisBus` runs any number of threads through the
calls that send frames: the checks of `ready`, the mutex, and the bytes one at a time. The motor sees
the bytes only; `frames_prefixFree` and `frame_eq_iff` are why they tell it the commands.

A command as the code normalises it has its speed capped, and is a stop where there is nothing to
move.
-/

namespace Hcics

namespace Axis

abbrev motorId : UInt8 := 1
abbrev dirPositive : UInt8 := 0x01
abbrev dirNegative : UInt8 := 0x00
abbrev invertDirection : Bool := false

def dir (positive : Bool) : UInt8 :=
  let actualPositive := if invertDirection then !positive else positive
  if actualPositive then dirPositive else dirNegative

def clampSpeed (speed : UInt16) : UInt16 :=
  if speed = 0 then 0 else if speed > 3000 then 3000 else speed

/-- The frame of `hcics_axis_enable`. -/
def enableFrame : List UInt8 := [motorId, 0xF3, 0xAB, motorId + 0xF3 + 0xAB]

/-- The frame of `hcics_axis_speed`. -/
def speedFrame (positive : Bool) (speed : UInt16) : List UInt8 :=
  let clamped := clampSpeed speed
  [motorId, 0xF6, dir positive, (clamped >>> 8).toUInt8, (clamped &&& 0xFF).toUInt8,
    0x00, 0x00, 0x6B]

/-- The frame of `hcics_axis_move_pulses` where there is something to move. -/
def moveFrame (positive : Bool) (speed : UInt16) (pulses : UInt32) : List UInt8 :=
  let clamped := clampSpeed speed
  [motorId, 0xFD, dir positive, (clamped >>> 8).toUInt8, (clamped &&& 0xFF).toUInt8, 0x00,
    ((pulses >>> 24) &&& 0xFF).toUInt8, ((pulses >>> 16) &&& 0xFF).toUInt8,
    ((pulses >>> 8) &&& 0xFF).toUInt8, (pulses &&& 0xFF).toUInt8, 0x00, 0x00, 0x6B]

inductive Call where
  | enable
  | speed (positive : Bool) (value : UInt16)
  | stop
  | movePulses (positive : Bool) (value : UInt16) (pulses : UInt32)
  deriving DecidableEq, Repr

namespace Call

/-- The frame that `hcics_axis_enable`, `hcics_axis_speed`, `hcics_axis_stop` or
`hcics_axis_move_pulses` hands to `hcics_axis_write`. -/
def frame : Call → List UInt8
  | .enable => enableFrame
  | .speed positive value => speedFrame positive value
  | .stop => speedFrame true 0
  | .movePulses positive value pulses =>
    if pulses = 0 then speedFrame true 0 else moveFrame positive value pulses

def normalise : Call → Call
  | .enable => .enable
  | .speed positive value => .speed positive (clampSpeed value)
  | .stop => .speed true 0
  | .movePulses positive value pulses =>
    if pulses = 0 then .speed true 0 else .movePulses positive (clampSpeed value) pulses

end Call

/-! ## A frame tells its command -/

theorem dir_injective {p q : Bool} (h : dir p = dir q) : p = q := by
  revert h
  cases p <;> cases q <;> decide

theorem toNat_lowByte16 (x : UInt16) : (x &&& 0xFF).toUInt8.toNat = x.toNat % 256 := by
  rw [UInt16.toNat_toUInt8, UInt16.toNat_and]
  have hmask : (0xFF : UInt16).toNat = 2 ^ 8 - 1 := rfl
  rw [hmask, Nat.and_two_pow_sub_one_eq_mod]
  omega

theorem toNat_highByte16 (x : UInt16) : (x >>> 8).toUInt8.toNat = x.toNat / 256 := by
  have hlt := x.toNat_lt
  have hshift : (x >>> 8).toNat = x.toNat / 256 := by
    rw [UInt16.toNat_shiftRight]
    exact Nat.shiftRight_eq_div_pow x.toNat 8
  rw [UInt16.toNat_toUInt8, hshift]
  omega

theorem toNat_lowByte32 (x : UInt32) : (x &&& 0xFF).toUInt8.toNat = x.toNat % 256 := by
  rw [UInt32.toNat_toUInt8, UInt32.toNat_and]
  have hmask : (0xFF : UInt32).toNat = 2 ^ 8 - 1 := rfl
  rw [hmask, Nat.and_two_pow_sub_one_eq_mod]
  omega

theorem eq_of_bytes16 {x y : UInt16} (hhigh : (x >>> 8).toUInt8 = (y >>> 8).toUInt8)
    (hlow : (x &&& 0xFF).toUInt8 = (y &&& 0xFF).toUInt8) : x = y := by
  rw [← UInt8.toNat_inj, toNat_highByte16, toNat_highByte16] at hhigh
  rw [← UInt8.toNat_inj, toNat_lowByte16, toNat_lowByte16] at hlow
  rw [← UInt16.toNat_inj]
  omega

theorem eq_of_bytes32 {x y : UInt32}
    (h24 : ((x >>> 24) &&& 0xFF).toUInt8 = ((y >>> 24) &&& 0xFF).toUInt8)
    (h16 : ((x >>> 16) &&& 0xFF).toUInt8 = ((y >>> 16) &&& 0xFF).toUInt8)
    (h8 : ((x >>> 8) &&& 0xFF).toUInt8 = ((y >>> 8) &&& 0xFF).toUInt8)
    (h0 : (x &&& 0xFF).toUInt8 = (y &&& 0xFF).toUInt8) : x = y := by
  have hbyte : ∀ (z : UInt32),
      (z >>> 24).toNat = z.toNat / 2 ^ 24 ∧ (z >>> 16).toNat = z.toNat / 2 ^ 16 ∧
      (z >>> 8).toNat = z.toNat / 2 ^ 8 := by
    intro z
    simp only [UInt32.toNat_shiftRight]
    exact ⟨Nat.shiftRight_eq_div_pow z.toNat 24, Nat.shiftRight_eq_div_pow z.toNat 16,
      Nat.shiftRight_eq_div_pow z.toNat 8⟩
  have hx := x.toNat_lt
  have hy := y.toNat_lt
  obtain ⟨hx24, hx16, hx8⟩ := hbyte x
  obtain ⟨hy24, hy16, hy8⟩ := hbyte y
  rw [← UInt8.toNat_inj, toNat_lowByte32, toNat_lowByte32] at h24 h16 h8 h0
  rw [hx24, hy24] at h24
  rw [hx16, hy16] at h16
  rw [hx8, hy8] at h8
  rw [← UInt32.toNat_inj]
  omega

theorem speedFrame_injective {p q : Bool} {v w : UInt16} (h : speedFrame p v = speedFrame q w) :
    p = q ∧ clampSpeed v = clampSpeed w := by
  simp only [speedFrame, List.cons.injEq, and_true, true_and] at h
  obtain ⟨hdir, hhigh, hlow⟩ := h
  exact ⟨dir_injective hdir, eq_of_bytes16 hhigh hlow⟩

theorem moveFrame_injective {p q : Bool} {v w : UInt16} {m n : UInt32}
    (h : moveFrame p v m = moveFrame q w n) : p = q ∧ clampSpeed v = clampSpeed w ∧ m = n := by
  simp only [moveFrame, List.cons.injEq, and_true, true_and] at h
  obtain ⟨hdir, hhigh, hlow, h24, h16, h8, h0⟩ := h
  exact ⟨dir_injective hdir, eq_of_bytes16 hhigh hlow, eq_of_bytes32 h24 h16 h8 h0⟩

theorem clampSpeed_clampSpeed (v : UInt16) : clampSpeed (clampSpeed v) = clampSpeed v := by
  unfold clampSpeed
  by_cases hzero : v = 0
  · rw [if_pos hzero, if_pos rfl]
  · rw [if_neg hzero]
    by_cases hmax : v > 3000
    · rw [if_pos hmax]
      decide
    · rw [if_neg hmax, if_neg hzero, if_neg hmax]

namespace Call

/-- The three kinds of frames, with the command that each sends. -/
inductive FrameCase (c : Call) : Prop where
  | enable (command : c.normalise = .enable) (frame : c.frame = enableFrame)
  | speed (p : Bool) (v : UInt16) (command : c.normalise = .speed p (clampSpeed v))
      (frame : c.frame = speedFrame p v)
  | move (p : Bool) (v : UInt16) (n : UInt32)
      (command : c.normalise = .movePulses p (clampSpeed v) n) (frame : c.frame = moveFrame p v n)

theorem frame_case (c : Call) : FrameCase c := by
  cases c with
  | enable => exact .enable rfl rfl
  | speed positive value => exact .speed positive value rfl rfl
  | stop => exact .speed true 0 rfl rfl
  | movePulses positive value pulses =>
    by_cases hp : pulses = 0
    · exact .speed true 0 (if_pos hp) (if_pos hp)
    · exact .move positive value pulses (if_neg hp) (if_neg hp)

theorem normalise_eq_of_frame_eq {c d : Call} (h : c.frame = d.frame) :
    c.normalise = d.normalise := by
  have hlen := congrArg List.length h
  cases frame_case c with
  | enable hc hcf =>
    cases frame_case d with
    | enable hd hdf => rw [hc, hd]
    | speed q w hd hdf => rw [hcf, hdf] at hlen; cases hlen
    | move q w n hd hdf => rw [hcf, hdf] at hlen; cases hlen
  | speed p v hc hcf =>
    cases frame_case d with
    | enable hd hdf => rw [hcf, hdf] at hlen; cases hlen
    | speed q w hd hdf =>
      rw [hcf, hdf] at h
      obtain ⟨rfl, hspeed⟩ := speedFrame_injective h
      rw [hc, hd, hspeed]
    | move q w n hd hdf => rw [hcf, hdf] at hlen; cases hlen
  | move p v m hc hcf =>
    cases frame_case d with
    | enable hd hdf => rw [hcf, hdf] at hlen; cases hlen
    | speed q w hd hdf => rw [hcf, hdf] at hlen; cases hlen
    | move q w n hd hdf =>
      rw [hcf, hdf] at h
      obtain ⟨rfl, hspeed, rfl⟩ := moveFrame_injective h
      rw [hc, hd, hspeed]

def kind : Call → UInt8
  | .enable => 0xF3
  | .speed _ _ => 0xF6
  | .stop => 0xF6
  | .movePulses _ _ pulses => if pulses = 0 then 0xF6 else 0xFD

def lengthOf (kind : UInt8) : ℕ := if kind = 0xF3 then 4 else if kind = 0xF6 then 8 else 13

theorem frame_head (c : Call) :
    c.frame.take 2 = [motorId, c.kind] ∧ c.frame.length = lengthOf c.kind := by
  cases c with
  | enable => exact ⟨rfl, rfl⟩
  | speed positive value => exact ⟨rfl, rfl⟩
  | stop => exact ⟨rfl, rfl⟩
  | movePulses positive value pulses =>
    by_cases hp : pulses = 0
    · simp only [frame, kind, if_pos hp]
      exact ⟨rfl, rfl⟩
    · simp only [frame, kind, if_neg hp]
      exact ⟨rfl, rfl⟩

theorem frames_prefixFree : Codes.PrefixFree (Set.range frame) := by
  refine .of_head (n := 2) (by omega) ?_ ?_
  · rintro _ ⟨c, rfl⟩
    rw [(frame_head c).2, lengthOf]
    split_ifs <;> omega
  · rintro _ ⟨c, rfl⟩ _ ⟨d, rfl⟩ h
    rw [(frame_head c).1, (frame_head d).1] at h
    obtain ⟨-, hkind⟩ : motorId = motorId ∧ c.kind = d.kind := by simpa using h
    rw [(frame_head c).2, (frame_head d).2, hkind]

/-- Streams of frames with the same bytes, up to a frame that is not complete: the commands are the
same, and the frames end at the same places. -/
theorem stream_unique {cs ds : List Call} {x y : List UInt8}
    (hx : Codes.Unfinished (Set.range frame) x) (hy : Codes.Unfinished (Set.range frame) y)
    (h : (cs.map frame).flatten ++ x = (ds.map frame).flatten ++ y) :
    cs.map normalise = ds.map normalise ∧ cs.map frame = ds.map frame ∧ x = y := by
  have hmem : ∀ bs : List Call, ∀ w ∈ bs.map frame, w ∈ Set.range frame := by
    intro bs w hw
    obtain ⟨c, -, rfl⟩ := List.mem_map.mp hw
    exact ⟨c, rfl⟩
  obtain ⟨hframes, hrest⟩ := frames_prefixFree.parse_unique (hmem cs) (hmem ds) hx hy h
  refine ⟨?_, hframes, hrest⟩
  apply List.ext_getElem
  · have hlen := congrArg List.length hframes
    simpa using hlen
  · intro i hi hi'
    have hget := congrArg (fun l => l[i]?) hframes
    simp only [List.length_map] at hi hi'
    simp only [List.getElem?_map, List.getElem?_eq_getElem hi, List.getElem?_eq_getElem hi',
      Option.map_some, Option.some.injEq] at hget
    rw [List.getElem_map, List.getElem_map]
    exact normalise_eq_of_frame_eq hget

theorem frame_normalise (c : Call) : c.normalise.frame = c.frame := by
  cases c with
  | enable => rfl
  | stop => rfl
  | speed positive value =>
    show speedFrame positive (clampSpeed value) = speedFrame positive value
    rw [speedFrame, speedFrame, clampSpeed_clampSpeed]
  | movePulses positive value pulses =>
    by_cases hp : pulses = 0
    · have hnorm : (movePulses positive value pulses).normalise = .speed true 0 := if_pos hp
      have hframe : (movePulses positive value pulses).frame = speedFrame true 0 := if_pos hp
      rw [hnorm, hframe, frame]
    · have hnorm : (movePulses positive value pulses).normalise =
          .movePulses positive (clampSpeed value) pulses := if_neg hp
      have hframe : ∀ v, (movePulses positive v pulses).frame = moveFrame positive v pulses :=
        fun _ => if_neg hp
      rw [hnorm, hframe, hframe, moveFrame, moveFrame, clampSpeed_clampSpeed]

theorem frame_eq_iff {c d : Call} : c.frame = d.frame ↔ c.normalise = d.normalise := by
  refine ⟨normalise_eq_of_frame_eq, fun h => ?_⟩
  rw [← frame_normalise c, h, frame_normalise d]

end Call

/-- A receiver of the software UART knows the commands: where it gets the same from two sequences of
calls, whatever the time between them, these are the same commands. -/
theorem receiver_knows_commands {baud : UInt32} (hlo : 1 ≤ baud.toNat) (hhi : baud.toNat ≤ 500000)
    {start : ℚ} {calls calls' : List (ℚ≥0 × Call)} {cs : List Serial.Character}
    (h : Serial.Receives (writes baud (idlePin start)
      (calls.map fun x => (x.1, x.2.frame))).level (bitUs baud) start cs)
    (h' : Serial.Receives (writes baud (idlePin start)
      (calls'.map fun x => (x.1, x.2.frame))).level (bitUs baud) start cs) :
    calls.map (fun x => x.2.normalise) = calls'.map fun x => x.2.normalise := by
  have hbytes : ∀ calls : List (ℚ≥0 × Call),
      (calls.map fun x => (x.1, x.2.frame)).flatMap Prod.snd =
        ((calls.map Prod.snd).map Call.frame).flatten := by
    intro calls
    rw [List.flatMap_map, List.flatMap_def, List.map_map]
    rfl
  have hcs := (line_carries hlo hhi (idlePin_ready start) _).receives_iff.mp h
  have hcs' := (line_carries hlo hhi (idlePin_ready start) _).receives_iff.mp h'
  rw [hbytes] at hcs hcs'
  have hwire : ((calls.map Prod.snd).map Call.frame).flatten =
      ((calls'.map Prod.snd).map Call.frame).flatten := by
    have hinj : Function.Injective Serial.Character.ofByte :=
      fun b b' hb => congrArg Serial.Character.data hb
    exact List.map_injective_iff.mpr hinj (hcs.symm.trans hcs')
  have hnil := Call.frames_prefixFree.unfinished_nil ⟨.enable, rfl⟩
  have hsame := (Call.stream_unique hnil hnil (congrArg (· ++ []) hwire)).1
  rw [List.map_map, List.map_map] at hsame
  exact hsame

end Axis

/-! ## The threads that send them -/

/-- Where a thread is in a call that sends a frame. -/
inductive AxisPc where
  | idle
  /-- In the function that was called, before `hcics_axis_write`. -/
  | called (c : Axis.Call)
  /-- In `hcics_axis_write`, waiting for the mutex. -/
  | waiting (c : Axis.Call)
  /-- In `hcics_axis_write_locked`, with these bytes to go. -/
  | sending (c : Axis.Call) (rest : List UInt8)
  deriving DecidableEq, Repr

/-- `g_axis`, the threads `θ` that use it, and the bytes on the wire. `sent` are the calls in the
order in which they took the mutex, `accepted` those that a thread made and that found the axis
ready. -/
structure AxisBus (θ : Type) where
  initialized : Bool
  /-- `hcics_axis_init` has set `ready` and not returned. -/
  initializing : Bool
  ready : Bool
  owner : Option θ
  threads : θ → AxisPc
  wire : List UInt8
  sent : List (θ × Axis.Call)
  accepted : θ → List Axis.Call

namespace AxisBus

variable {θ : Type} [DecidableEq θ]

/-- What the threads do. The calls of `hcics_axis_init` are calls of its thread like others, and do
not fail once it has set `ready`. -/
inductive Input (θ : Type) where
  | init (mutexInit : RtErr)
  | initDone
  | call (t : θ) (c : Axis.Call)
  | write (t : θ)
  | take (t : θ)
  | byte (t : θ)
  | release (t : θ)
  deriving DecidableEq, Repr

def goto (s : AxisBus θ) (t : θ) (pc : AxisPc) : AxisBus θ :=
  { s with threads := Function.update s.threads t pc }

def step (s : AxisBus θ) : Input θ → Option (AxisBus θ)
  | .init mutexInit =>
    if s.initialized then some s
    else if s.initializing then none
    else if mutexInit ≠ RT_EOK then some { s with ready := false, owner := none }
    else some { s with ready := true, owner := none, initializing := true }
  | .initDone =>
    if s.initializing then some { s with initialized := true, initializing := false } else none
  | .call t c =>
    match s.threads t with
    | .idle => if c = .enable ∧ !s.ready then some s else some (s.goto t (.called c))
    | _ => none
  | .write t =>
    match s.threads t with
    | .called c =>
      if !s.ready then some (s.goto t .idle)
      else some { s.goto t (.waiting c) with
        accepted := Function.update s.accepted t (s.accepted t ++ [c]) }
    | _ => none
  | .take t =>
    match s.threads t, s.owner with
    | .waiting c, none =>
      some { s.goto t (.sending c c.frame) with owner := some t, sent := s.sent ++ [(t, c)] }
    | _, _ => none
  | .byte t =>
    match s.threads t with
    | .sending c (b :: bs) => some { s.goto t (.sending c bs) with wire := s.wire ++ [b] }
    | _ => none
  | .release t =>
    match s.threads t with
    | .sending _ [] => some { s.goto t .idle with owner := none }
    | _ => none

/-- `g_axis` as it is at boot. -/
def boot : AxisBus θ := ⟨false, false, false, none, fun _ => .idle, [], [], fun _ => []⟩

/-- The axis under every order of the threads' steps. -/
def machine (θ : Type) [DecidableEq θ] : Machine (AxisBus θ) (Input θ) where
  start s := s = boot
  step := step

/-- The bytes that the owner of the mutex still has to send. -/
def pending (s : AxisBus θ) : List UInt8 :=
  match s.owner with
  | none => []
  | some t =>
    match s.threads t with
    | .sending _ rest => rest
    | _ => []

/-- The commands whose frames are on the wire as a whole. -/
def complete (s : AxisBus θ) : List Axis.Call :=
  if s.pending = [] then s.sent.map Prod.snd else (s.sent.map Prod.snd).dropLast

/-- The calls of a thread that took the mutex. -/
def sentBy (s : AxisBus θ) (t : θ) : List Axis.Call :=
  (s.sent.filter fun x => x.1 = t).map Prod.snd

/-- The call with which a thread waits for the mutex. -/
def queued (s : AxisBus θ) (t : θ) : List Axis.Call :=
  match s.threads t with
  | .waiting c => [c]
  | _ => []

def bytesOf (calls : List (θ × Axis.Call)) : List UInt8 :=
  ((calls.map Prod.snd).map Axis.Call.frame).flatten

omit [DecidableEq θ] in
theorem bytesOf_snoc (calls : List (θ × Axis.Call)) (t : θ) (c : Axis.Call) :
    bytesOf (calls ++ [(t, c)]) = bytesOf calls ++ c.frame := by
  simp [bytesOf]

/-- The thread `t` is inside `hcics_axis_write_locked`. -/
def Sends (s : AxisBus θ) (t : θ) : Prop := ∃ c rest, s.threads t = .sending c rest

/-- Whole frames are on the wire, and the beginning of the frame of the thread that has the mutex. -/
inductive Line (s : AxisBus θ) : Prop where
  | free (owner : s.owner = none) (idle : ∀ t, ¬ s.Sends t) (wire : s.wire = bytesOf s.sent)
  | held (t : θ) (c : Axis.Call) (prev : List (θ × Axis.Call)) (sofar rest : List UInt8)
      (owner : s.owner = some t) (pc : s.threads t = .sending c rest)
      (others : ∀ u, u ≠ t → ¬ s.Sends u) (sent : s.sent = prev ++ [(t, c)])
      (frame : c.frame = sofar ++ rest) (wire : s.wire = bytesOf prev ++ sofar)

structure Orderly (s : AxisBus θ) : Prop where
  line : Line s
  quiet : s.ready = false → s.owner = none ∧ ∀ t, s.queued t = []
  started : s.ready = true → s.initialized = true ∨ s.initializing = true
  accepted : ∀ t, s.accepted t = s.sentBy t ++ s.queued t

omit [DecidableEq θ] in
theorem Sends.queued {s : AxisBus θ} {t : θ} (h : s.Sends t) : s.queued t = [] := by
  obtain ⟨c, rest, hpc⟩ := h
  simp [AxisBus.queued, hpc]

theorem sends_goto {s : AxisBus θ} {t u : θ} {pc : AxisPc} (hu : u ≠ t) :
    (s.goto t pc).Sends u ↔ s.Sends u := by
  simp [Sends, goto, Function.update_of_ne hu]

theorem queued_goto {s : AxisBus θ} {t u : θ} {pc : AxisPc} (hu : u ≠ t) :
    (s.goto t pc).queued u = s.queued u := by
  simp [AxisBus.queued, goto, Function.update_of_ne hu]

@[simp] theorem goto_self (s : AxisBus θ) (t : θ) (pc : AxisPc) : (s.goto t pc).threads t = pc := by
  simp [goto]

omit [DecidableEq θ] in
theorem not_sends {s : AxisBus θ} {t : θ} {pc : AxisPc} (ht : s.threads t = pc)
    (hpc : ∀ c rest, pc ≠ .sending c rest) : ¬ s.Sends t := by
  rintro ⟨c, rest, hc⟩
  exact hpc c rest (ht.symm.trans hc)

omit [DecidableEq θ] in
theorem Line.congr {s s' : AxisBus θ} (h : Line s) (howner : s'.owner = s.owner)
    (hthreads : s'.threads = s.threads) (hsent : s'.sent = s.sent) (hwire : s'.wire = s.wire) :
    Line s' := by
  have hsends : ∀ u, s'.Sends u ↔ s.Sends u := by
    intro u
    unfold Sends
    rw [hthreads]
  cases h with
  | free owner idle wire =>
    exact .free (howner.trans owner) (fun u => (hsends u).not.mpr (idle u)) (by rw [hwire, hsent, wire])
  | held o c prev sofar rest owner pc others sent frame wire =>
    exact .held o c prev sofar rest (howner.trans owner) (by rw [hthreads, pc])
      (fun u hu => (hsends u).not.mpr (others u hu)) (hsent.trans sent) frame (hwire.trans wire)

omit [DecidableEq θ] in
theorem Line.sending {s : AxisBus θ} (h : Line s) {t : θ} {c : Axis.Call} {rest : List UInt8}
    (hpc : s.threads t = .sending c rest) : ∃ prev sofar, s.owner = some t ∧
      (∀ u, u ≠ t → ¬ s.Sends u) ∧ s.sent = prev ++ [(t, c)] ∧ c.frame = sofar ++ rest ∧ s.wire = bytesOf prev ++ sofar := by
  cases h with
  | free owner idle wire => exact absurd ⟨c, rest, hpc⟩ (idle t)
  | held o c' prev sofar rest' owner hsend others sent frame wire =>
    obtain rfl : t = o := by
      by_contra hne
      exact others t hne ⟨c, rest, hpc⟩
    rw [hpc] at hsend
    cases hsend
    exact ⟨prev, sofar, owner, others, sent, frame, wire⟩

theorem Line.goto {s : AxisBus θ} (h : Line s) {t : θ} {pc : AxisPc} (ht : ¬ s.Sends t)
    (hpc : ∀ c rest, pc ≠ .sending c rest) : Line (s.goto t pc) := by
  have hkeep : ∀ u, ¬ s.Sends u → ¬ (s.goto t pc).Sends u := by
    intro u hu
    by_cases hut : u = t
    · rintro ⟨c, rest, hc⟩
      rw [hut, goto_self] at hc
      exact hpc c rest hc
    · rwa [sends_goto hut]
  cases h with
  | free owner idle wire => exact .free owner (fun u => hkeep u (idle u)) wire
  | held o c prev sofar rest owner hsend others sent frame wire =>
    have hot : o ≠ t := by
      rintro rfl
      exact ht ⟨c, rest, hsend⟩
    refine .held o c prev sofar rest owner ?_ (fun u hu => hkeep u (others u hu)) sent frame wire
    show Function.update s.threads t pc o = _
    rw [Function.update_of_ne hot, hsend]

theorem queued_goto_self {s : AxisBus θ} {t : θ} {pc : AxisPc} :
    (s.goto t pc).queued t = match pc with | .waiting c => [c] | _ => [] := by
  simp only [AxisBus.queued, goto_self]

theorem Sends.queued_goto {s : AxisBus θ} {t : θ} {pc : AxisPc} (h : s.Sends t)
    (hpc : ∀ c, pc ≠ .waiting c) (u : θ) : (s.goto t pc).queued u = s.queued u := by
  by_cases hut : u = t
  · rw [hut, h.queued, queued_goto_self]
    split
    · next c => exact absurd rfl (hpc c)
    · rfl
  · exact AxisBus.queued_goto hut

/-- A step of one thread that takes no mutex and gives none back, and accepts no call. -/
theorem Orderly.goto {s : AxisBus θ} (h : Orderly s) {t : θ} {pc : AxisPc} (ht : ¬ s.Sends t)
    (hpc : pc = .idle ∨ ∃ c, pc = .called c) (hqueued : s.queued t = []) :
    Orderly (s.goto t pc) := by
  have hnone : (s.goto t pc).queued t = [] := by
    rw [queued_goto_self]
    rcases hpc with rfl | ⟨c, rfl⟩ <;> rfl
  refine ⟨h.line.goto ht ?_, ?_, h.started, ?_⟩
  · rintro c rest rfl
    rcases hpc with hpc | ⟨c, hpc⟩ <;> cases hpc
  · intro hready
    refine ⟨(h.quiet hready).1, fun u => ?_⟩
    by_cases hut : u = t
    · rw [hut, hnone]
    · rw [queued_goto hut]
      exact (h.quiet hready).2 u
  · intro u
    have hsent : (s.goto t pc).sentBy u = s.sentBy u := rfl
    have hacc : (s.goto t pc).accepted u = s.accepted u := rfl
    rw [hsent, hacc, h.accepted u]
    by_cases hut : u = t
    · rw [hut, hnone, hqueued]
    · rw [queued_goto hut]

theorem Orderly.accept {s : AxisBus θ} (h : Orderly s) {t : θ} {c : Axis.Call}
    (hpc : s.threads t = .called c) (hready : s.ready = true) :
    Orderly { s.goto t (.waiting c) with
      accepted := Function.update s.accepted t (s.accepted t ++ [c]) } := by
  have ht : ¬ s.Sends t := not_sends hpc fun _ _ hc => by cases hc
  have hline : Line (s.goto t (.waiting c)) := h.line.goto ht fun _ _ hc => by cases hc
  refine ⟨hline.congr rfl rfl rfl rfl, ?_, h.started, ?_⟩
  · intro hnot
    have : s.ready = false := hnot
    rw [hready] at this
    cases this
  · intro u
    show Function.update s.accepted t (s.accepted t ++ [c]) u =
      s.sentBy u ++ (s.goto t (.waiting c)).queued u
    by_cases hut : u = t
    · have hqueued : s.queued t = [] := by simp [AxisBus.queued, hpc]
      rw [hut, Function.update_self, queued_goto_self, h.accepted t, hqueued, List.append_nil]
    · rw [Function.update_of_ne hut, queued_goto hut, h.accepted u]

theorem Orderly.take {s : AxisBus θ} (h : Orderly s) {t : θ} {c : Axis.Call}
    (hpc : s.threads t = .waiting c) (howner : s.owner = none) :
    Orderly { s.goto t (.sending c c.frame) with
      owner := some t, sent := s.sent ++ [(t, c)] } := by
  refine ⟨?_, ?_, h.started, ?_⟩
  · cases h.line with
    | free _ idle wire =>
      refine .held t c s.sent [] c.frame rfl (goto_self s t _) ?_ rfl rfl ?_
      · intro u hut
        exact (sends_goto hut).not.mpr (idle u)
      · rw [List.append_nil]
        exact wire
    | held o c' prev sofar rest owner hsend others sent frame wire =>
      rw [howner] at owner
      cases owner
  · intro hnot
    have hqueued := (h.quiet hnot).2 t
    simp [AxisBus.queued, hpc] at hqueued
  · intro u
    show s.accepted u = (((s.sent ++ [(t, c)]).filter fun x => x.1 = u).map Prod.snd) ++
      (s.goto t (.sending c c.frame)).queued u
    by_cases hut : u = t
    · have hqueued : s.queued t = [c] := by simp [AxisBus.queued, hpc]
      rw [hut, queued_goto_self, h.accepted t, hqueued, sentBy]
      simp
    · rw [queued_goto hut, h.accepted u, sentBy]
      simp [Ne.symm hut]

theorem Orderly.byte {s : AxisBus θ} (h : Orderly s) {t : θ} {c : Axis.Call} {b : UInt8}
    {bs : List UInt8} (hpc : s.threads t = .sending c (b :: bs)) :
    Orderly { s.goto t (.sending c bs) with wire := s.wire ++ [b] } := by
  have hsends : s.Sends t := ⟨c, b :: bs, hpc⟩
  have hqueued : ∀ u, (s.goto t (.sending c bs)).queued u = s.queued u :=
    hsends.queued_goto fun _ hc => by cases hc
  obtain ⟨prev, sofar, howner, hothers, hsent, hframe, hwire⟩ := h.line.sending hpc
  refine ⟨.held t c prev (sofar ++ [b]) bs howner (goto_self s t _) ?_ hsent ?_ ?_, ?_, h.started, ?_⟩
  · intro u hut
    exact (sends_goto hut).not.mpr (hothers u hut)
  · rw [hframe, List.append_assoc, List.singleton_append]
  · show s.wire ++ [b] = _
    rw [hwire, List.append_assoc]
  · intro hnot
    exact ⟨(h.quiet hnot).1, fun u => (hqueued u).trans ((h.quiet hnot).2 u)⟩
  · intro u
    show s.accepted u = s.sentBy u ++ (s.goto t (.sending c bs)).queued u
    rw [hqueued, h.accepted u]

theorem Orderly.release {s : AxisBus θ} (h : Orderly s) {t : θ} {c : Axis.Call}
    (hpc : s.threads t = .sending c []) :
    Orderly { s.goto t .idle with owner := none } := by
  have hsends : s.Sends t := ⟨c, [], hpc⟩
  have hqueued : ∀ u, (s.goto t .idle).queued u = s.queued u :=
    hsends.queued_goto fun _ hc => by cases hc
  obtain ⟨prev, sofar, -, hothers, hsent, hframe, hwire⟩ := h.line.sending hpc
  refine ⟨.free rfl ?_ ?_, ?_, h.started, ?_⟩
  · intro u
    by_cases hut : u = t
    · have hidle : (s.goto t .idle).threads u = .idle := by rw [hut, goto_self]
      exact not_sends hidle fun _ _ hc => by cases hc
    · exact (sends_goto hut).not.mpr (hothers u hut)
  · show s.wire = bytesOf s.sent
    rw [hwire, hsent, bytesOf_snoc, hframe, List.append_nil]
  · intro hnot
    exact ⟨rfl, fun u => (hqueued u).trans ((h.quiet hnot).2 u)⟩
  · intro u
    show s.accepted u = s.sentBy u ++ (s.goto t .idle).queued u
    rw [hqueued, h.accepted u]

theorem Orderly.init {s : AxisBus θ} (h : Orderly s) (hnot : s.initialized = false)
    (hnot' : s.initializing = false) {ready initializing : Bool}
    (hstarted : ready = true → initializing = true) :
    Orderly { s with ready := ready, owner := none, initializing := initializing } := by
  have hready : s.ready = false := by
    by_contra hr
    have hstart := h.started (by simpa using hr)
    rw [hnot, hnot'] at hstart
    rcases hstart with hstart | hstart <;> cases hstart
  obtain ⟨howner, hqueued⟩ := h.quiet hready
  exact ⟨h.line.congr howner.symm rfl rfl rfl, fun _ => ⟨rfl, hqueued⟩,
    fun hr => .inr (hstarted hr), h.accepted⟩

theorem orderly {s : AxisBus θ} (h : (machine θ).Reach Machine.free s) : Orderly s := by
  refine h.inv ?_ ?_
  · rintro s rfl
    refine ⟨.free rfl ?_ rfl, fun _ => ⟨rfl, fun _ => rfl⟩, ?_, fun _ => rfl⟩
    · rintro t ⟨c, rest, hc⟩
      cases hc
    · intro hr
      cases hr
  · intro s i t _ hs _ hstep
    cases i with
    | init mutexInit =>
      simp only [machine, step] at hstep
      split at hstep
      · cases hstep
        exact hs
      · next hnot =>
        split at hstep
        · cases hstep
        · next hnot' =>
          have hnot := by simpa using hnot
          have hnot' := by simpa using hnot'
          split at hstep
          · cases hstep
            exact hs.init hnot hnot' fun hr => by cases hr
          · cases hstep
            exact hs.init hnot hnot' fun _ => rfl
    | initDone =>
      simp only [machine, step] at hstep
      split at hstep
      · cases hstep
        exact ⟨hs.line.congr rfl rfl rfl rfl, hs.quiet, fun _ => .inl rfl, hs.accepted⟩
      · cases hstep
    | call t c =>
      simp only [machine, step] at hstep
      split at hstep
      · next hpc =>
        split at hstep
        · cases hstep
          exact hs
        · cases hstep
          exact hs.goto (not_sends hpc fun _ _ hc => by cases hc) (.inr ⟨c, rfl⟩)
            (by simp [AxisBus.queued, hpc])
      · cases hstep
    | write t =>
      simp only [machine, step] at hstep
      split at hstep
      · next c hpc =>
        split at hstep
        · cases hstep
          exact hs.goto (not_sends hpc fun _ _ hc => by cases hc) (.inl rfl)
            (by simp [AxisBus.queued, hpc])
        · next hready =>
          cases hstep
          exact hs.accept hpc (by simpa using hready)
      · cases hstep
    | take t =>
      simp only [machine, step] at hstep
      split at hstep
      · next c hpc howner =>
        cases hstep
        exact hs.take hpc howner
      · cases hstep
    | byte t =>
      simp only [machine, step] at hstep
      split at hstep
      · next c b bs hpc =>
        cases hstep
        exact hs.byte hpc
      · cases hstep
    | release t =>
      simp only [machine, step] at hstep
      split at hstep
      · next c hpc =>
        cases hstep
        exact hs.release hpc
      · cases hstep

omit [DecidableEq θ] in
theorem Line.wire_eq {s : AxisBus θ} (h : Line s) : ∃ x,
    Codes.Unfinished (Set.range Axis.Call.frame) x ∧
    s.wire = (s.complete.map Axis.Call.frame).flatten ++ x := by
  have hnil : Codes.Unfinished (Set.range Axis.Call.frame) [] :=
    Axis.Call.frames_prefixFree.unfinished_nil ⟨.enable, rfl⟩
  cases h with
  | free owner idle wire =>
    have hpending : s.pending = [] := by simp [pending, owner]
    refine ⟨[], hnil, ?_⟩
    rw [complete, if_pos hpending, wire, List.append_nil]
    rfl
  | held o c prev sofar rest owner hsend others sent frame wire =>
    have hpending : s.pending = rest := by simp [pending, owner, hsend]
    cases rest with
    | nil =>
      refine ⟨[], hnil, ?_⟩
      rw [complete, if_pos hpending, wire, sent, ← List.append_nil sofar, ← frame]
      exact (bytesOf_snoc prev o c).symm.trans (List.append_nil _).symm
    | cons b bs =>
      refine ⟨sofar, ⟨c.frame, ⟨c, rfl⟩, ⟨b :: bs, frame.symm⟩, ?_⟩, ?_⟩
      · intro heq
        have hlen := congrArg List.length frame
        rw [heq, List.length_append] at hlen
        simp at hlen
      · rw [complete, if_neg (by rw [hpending]; exact List.cons_ne_nil b bs), wire, sent,
          List.map_append, List.map_singleton, List.dropLast_concat]
        rfl

omit [DecidableEq θ] in
/-- The frames of all calls that took the mutex are on the wire or about to follow. -/
theorem Line.wire_pending {s : AxisBus θ} (h : Line s) : s.wire ++ s.pending = bytesOf s.sent := by
  cases h with
  | free owner idle wire =>
    have hpending : s.pending = [] := by simp [pending, owner]
    rw [hpending, wire, List.append_nil]
  | held o c prev sofar rest owner hsend others sent frame wire =>
    have hpending : s.pending = rest := by simp [pending, owner, hsend]
    rw [hpending, wire, sent, bytesOf_snoc, frame, List.append_assoc]

/-- The bytes on the wire determine the commands. The frames are a uniquely decodable code, and two
calls have one frame where they are one command. Under any order of the threads' steps the wire holds
the frames of the calls in the order in which they took the mutex, none interleaved with another, and
no accepted call is lost or sent twice; and two runs with the same bytes on the wire, however many
threads they have, have sent the same commands, in frames that end at the same places. -/
theorem axis_stream_determines_commands {θ θ' : Type} [DecidableEq θ] [DecidableEq θ'] :
    InformationTheory.UniquelyDecodable (Set.range Axis.Call.frame) ∧
    (∀ c d : Axis.Call, c.frame = d.frame ↔ c.normalise = d.normalise) ∧
    (∀ s, (machine θ).Reach Machine.free s →
      s.wire ++ s.pending = bytesOf s.sent ∧ ∀ t, s.accepted t = s.sentBy t ++ s.queued t) ∧
    ∀ s s', (machine θ).Reach Machine.free s → (machine θ').Reach Machine.free s' →
      s.wire = s'.wire →
      s.complete.map Axis.Call.normalise = s'.complete.map Axis.Call.normalise ∧
      s.complete.map Axis.Call.frame = s'.complete.map Axis.Call.frame := by
  refine ⟨Axis.Call.frames_prefixFree.uniquelyDecodable, fun _ _ => Axis.Call.frame_eq_iff,
    ?_, ?_⟩
  · intro s hs
    exact ⟨(orderly hs).line.wire_pending, (orderly hs).accepted⟩
  · intro s s' hs hs' hwire
    obtain ⟨x, hx, hsx⟩ := (orderly hs).line.wire_eq
    obtain ⟨y, hy, hsy⟩ := (orderly hs').line.wire_eq
    obtain ⟨hcommands, hframes, -⟩ := Axis.Call.stream_unique hx hy (by rw [← hsx, hwire, hsy])
    exact ⟨hcommands, hframes⟩

/-- Two threads wait for the mutex, and one after the other they send. -/
def contended : List (Input Bool) :=
  [.init RT_EOK, .call false .stop, .call true .enable, .write true, .write false, .take false] ++
    List.replicate 8 (.byte false) ++ [.release false, .take true] ++ List.replicate 4 (.byte true)

/-- One thread sends two frames. -/
def alone : List (Input Unit) :=
  [.init RT_EOK, .call () (.movePulses false 180 0), .write (), .take ()] ++ List.replicate 8 (.byte ()) ++
    [.release (), .call () .enable, .write (), .take ()] ++ List.replicate 4 (.byte ())

/-- A stop cannot be told from a move by nothing. -/
theorem axis_stream_determines_commands_stop : ∃ (s : AxisBus Bool) (s' : AxisBus Unit),
    s.complete = [.stop, .enable] ∧ s'.complete = [.movePulses false 180 0, .enable] ∧ s.wire = s'.wire ∧
    s.complete.map Axis.Call.normalise = s'.complete.map Axis.Call.normalise ∧
    s.complete.map Axis.Call.frame = s'.complete.map Axis.Call.frame := by
  have hs : (machine Bool).Reach Machine.free (((machine Bool).exec boot contended).get (by decide)) :=
    .get rfl _
  have hs' : (machine Unit).Reach Machine.free (((machine Unit).exec boot alone).get (by decide)) :=
    .get rfl _
  have hwire : (((machine Bool).exec boot contended).get (by decide)).wire =
      (((machine Unit).exec boot alone).get (by decide)).wire := by
    decide
  exact ⟨_, _, by decide, by decide, hwire, axis_stream_determines_commands.2.2.2 _ _ hs hs' hwire⟩

end AxisBus

end Hcics
