import Hcics.Axis.Frames
import Hcics.Kernel.MutexSpec

/-!
# The axis under the kernel's mutex

The axis of `Axis/Frames.lean` with `rt_mutex_take` and `rt_mutex_release` of the kernel, section by section,
in place of a mutex that is taken in one step: the threads wait in the kernel's list, and a release hands
the mutex to the first of them, which goes on when it is scheduled. The other mutexes of the program are
used in any way. `axis.owner` is history here.
-/

namespace Hcics

/-- `g_axis` with the mutexes of the kernel. -/
structure AxisLocked where
  axis : AxisBus ThreadId
  kernel : Mutexes

namespace AxisLocked

/-- `g_axis.lock`. -/
def lock : MutexId := 0

/-- What the threads do. `take` is the first section of `rt_mutex_take` in `hcics_axis_write`, `run` the rest
of it in a thread that was resumed, and `kernel` any use of another mutex. -/
inductive Input where
  | init
  | initDone
  | call (t : ThreadId) (c : Axis.Call)
  | write (t : ThreadId)
  | take (t : ThreadId)
  | run (t : ThreadId)
  | byte (t : ThreadId)
  | release (t : ThreadId)
  | kernel (i : Mutexes.Input)

/-- `hcics_axis_write_locked` begins. -/
def begins (a : AxisBus ThreadId) (t : ThreadId) (c : Axis.Call) : AxisBus ThreadId :=
  { a.goto t (.sending c c.frame) with owner := some t, sent := a.sent ++ [(t, c)] }

/-- After a section of `rt_mutex_take`; what it returns is not looked at. -/
def proceed (s : AxisLocked) (t : ThreadId) (c : Axis.Call) (kernel : Mutexes) : AxisLocked :=
  match kernel.place t with
  | .out _ => ⟨begins s.axis t c, kernel⟩
  | _ => ⟨s.axis, kernel⟩

/-- A step of the axis that does not use the mutex. -/
def onAxis (s : AxisLocked) (i : AxisBus.Input ThreadId) : Option AxisLocked :=
  (s.axis.step i).map fun axis => { s with axis := axis }

def step (s : AxisLocked) : Input → Option AxisLocked
  | .init =>
    if s.axis.initialized then some s
    else if s.axis.initializing then none
    else
      some ⟨{ s.axis with ready := true, owner := none, initializing := true },
        s.kernel.setMutex lock {}⟩
  | .initDone => s.onAxis .initDone
  | .call t c => s.onAxis (.call t c)
  | .write t => s.onAxis (.write t)
  | .take t =>
    match s.axis.threads t with
    | .waiting c => (s.kernel.step (.take t lock (-1))).map (s.proceed t c)
    | _ => none
  | .run t =>
    match s.axis.threads t with
    | .waiting c =>
      if (s.kernel.place t).on lock then (s.kernel.step (.run t)).map (s.proceed t c) else none
    | _ => none
  | .byte t => s.onAxis (.byte t)
  | .release t =>
    match s.axis.threads t with
    | .sending _ [] =>
      (s.kernel.step (.release t lock)).map fun kernel =>
        ⟨{ s.axis.goto t .idle with owner := none }, kernel⟩
    | _ => none
  | .kernel i =>
    if s.kernel.Concerns lock i then none
    else (s.kernel.step i).map fun kernel => { s with kernel := kernel }

/-- The axis under every order of the threads' sections, from boot on. -/
def machine : Machine AxisLocked Input where
  start s := s.axis = .boot ∧ Mutexes.machine.start s.kernel
  step := step

/-! ## The invariant -/

variable {s s' : AxisLocked} {t u : ThreadId} {c : Axis.Call}

/-- The thread that sends has the mutex once, and the threads in its list wait. -/
structure Inv (s : AxisLocked) : Prop where
  bus : (AxisBus.machine ThreadId).Reach Machine.free s.axis
  kernel : Mutexes.machine.Reach Machine.free s.kernel
  sends : ∀ t, s.axis.Sends t → s.kernel.held lock t = 1
  others : ∀ t, ¬ s.axis.Sends t → s.kernel.held lock t = 0
  waits : ∀ t, (s.kernel.place t).on lock = true → (∃ c, s.axis.threads t = .waiting c) ∧
    (s.kernel.place t = .waits lock false ∨ s.kernel.place t = .resumed lock RT_EOK)
  unready : s.axis.ready = false → s.kernel.mutex lock = {}

theorem Inv.mutex (h : s.Inv) (m : MutexId) : s.kernel.Inv m := Mutexes.inv_of_reach h.kernel m

theorem Inv.owner_of_sends (h : s.Inv) (ht : s.axis.Sends t) : (s.kernel.mutex lock).owner = some t := by
  by_contra hne
  have hinside := (h.mutex lock).inside t
  rw [if_neg hne, h.sends t ht] at hinside
  omega

theorem Inv.ready_of_waiting (h : s.Inv) (ht : s.axis.threads t = .waiting c) : s.axis.ready = true := by
  by_contra hnot
  have hqueued := ((AxisBus.orderly h.bus).quiet (Bool.eq_false_iff.mpr hnot)).2 t
  simp [AxisBus.queued, ht] at hqueued

theorem not_sends_of_waiting (ht : s.axis.threads t = .waiting c) : ¬ s.axis.Sends t :=
  AxisBus.not_sends ht fun _ _ heq => nomatch heq

/-- The mutex of the axis is free while the kernel's has no owner, or one that waits. -/
theorem Inv.owner_eq_none (h : s.Inv) (hnot : ∀ u, (s.kernel.mutex lock).owner = some u → ¬ s.axis.Sends u) :
    s.axis.owner = none := by
  cases (AxisBus.orderly h.bus).line with
  | free owner => exact owner
  | held u c prev sofar rest owner pc others sent frame wire =>
    have hsends : s.axis.Sends u := ⟨c, rest, pc⟩
    exact absurd hsends (hnot u (h.owner_of_sends hsends))

/-! ## The steps of the axis alone -/

theorem Inv.onAxis {i : AxisBus.Input ThreadId} {a : AxisBus ThreadId} (h : s.Inv)
    (hstep : s.axis.step i = some a) (hsends : ∀ u, a.Sends u ↔ s.axis.Sends u)
    (hwaiting : ∀ u, (∃ c, s.axis.threads u = .waiting c) → ∃ c, a.threads u = .waiting c)
    (hready : a.ready = s.axis.ready) : Inv { s with axis := a } where
  bus := h.bus.step trivial hstep
  kernel := h.kernel
  sends u hu := h.sends u ((hsends u).mp hu)
  others u hu := h.others u fun hs => hu ((hsends u).mpr hs)
  waits u hu := ⟨hwaiting u (h.waits u hu).1, (h.waits u hu).2⟩
  unready hnot := h.unready (hready.symm.trans hnot)

theorem goto_keeps {a : AxisBus ThreadId} {p : AxisPc} (ht : ¬ a.Sends t) (hwaits : ∀ c, a.threads t ≠ .waiting c)
    (hp : ∀ c rest, p ≠ .sending c rest) :
    (∀ u, (a.goto t p).Sends u ↔ a.Sends u) ∧
      ∀ u, (∃ c, a.threads u = .waiting c) → ∃ c, (a.goto t p).threads u = .waiting c := by
  refine ⟨fun u => ?_, fun u ⟨c, hc⟩ => ⟨c, ?_⟩⟩
  · by_cases hu : u = t
    · rw [hu]
      exact iff_of_false (AxisBus.not_sends (AxisBus.goto_self a t p) hp) ht
    · exact AxisBus.sends_goto hu
  · have hu : u ≠ t := by
      rintro rfl
      exact hwaits c hc
    simpa [AxisBus.goto, Function.update_of_ne hu] using hc

theorem Inv.call (h : s.Inv) {a : AxisBus ThreadId} (hstep : s.axis.step (.call t c) = some a) :
    Inv { s with axis := a } := by
  have hstep' := hstep
  simp only [AxisBus.step] at hstep'
  split at hstep'
  · rename_i hpc
    split at hstep'
    · cases hstep'
      exact h
    · obtain rfl := Option.some.inj hstep'
      obtain ⟨hsends, hwaiting⟩ := goto_keeps (a := s.axis) (p := .called c)
        (AxisBus.not_sends hpc (by simp)) (by simp [hpc]) (by simp)
      exact h.onAxis hstep hsends hwaiting rfl
  · cases hstep'

theorem Inv.write (h : s.Inv) {a : AxisBus ThreadId} (hstep : s.axis.step (.write t) = some a) :
    Inv { s with axis := a } := by
  have hstep' := hstep
  simp only [AxisBus.step] at hstep'
  split at hstep'
  · rename_i c hpc
    have hnot : ¬ s.axis.Sends t := AxisBus.not_sends hpc (by simp)
    have hwaits : ∀ c, s.axis.threads t ≠ .waiting c := by simp [hpc]
    split at hstep'
    · obtain rfl := Option.some.inj hstep'
      obtain ⟨hsends, hwaiting⟩ := goto_keeps (a := s.axis) (p := .idle) hnot hwaits (by simp)
      exact h.onAxis hstep hsends hwaiting rfl
    · obtain rfl := Option.some.inj hstep'
      obtain ⟨hsends, hwaiting⟩ := goto_keeps (a := s.axis) (p := .waiting c) hnot hwaits (by simp)
      exact h.onAxis hstep hsends hwaiting rfl
  · cases hstep'

theorem Inv.byte (h : s.Inv) {a : AxisBus ThreadId} (hstep : s.axis.step (.byte t) = some a) :
    Inv { s with axis := a } := by
  have hstep' := hstep
  simp only [AxisBus.step] at hstep'
  split at hstep'
  · rename_i c b bs hpc
    obtain rfl := Option.some.inj hstep'
    refine h.onAxis hstep (fun u => ?_) (fun u hwaits => ?_) rfl
    · by_cases hu : u = t
      · rw [hu]
        exact iff_of_true ⟨c, bs, AxisBus.goto_self ..⟩ ⟨c, b :: bs, hpc⟩
      · exact AxisBus.sends_goto hu
    · obtain ⟨c', hc'⟩ := hwaits
      have hu : u ≠ t := by
        rintro rfl
        rw [hpc] at hc'
        cases hc'
      exact ⟨c', by simpa [AxisBus.goto, Function.update_of_ne hu] using hc'⟩
  · cases hstep'

theorem Inv.initDone (h : s.Inv) {a : AxisBus ThreadId} (hstep : s.axis.step .initDone = some a) :
    Inv { s with axis := a } := by
  have hstep' := hstep
  simp only [AxisBus.step] at hstep'
  split at hstep'
  · obtain rfl := Option.some.inj hstep'
    exact h.onAxis hstep (fun _ => Iff.rfl) (fun _ hc => hc) rfl
  · cases hstep'

theorem Inv.init (h : s.Inv) (hnot : s.axis.initialized = false) (hnot' : s.axis.initializing = false) :
    Inv ⟨{ s.axis with ready := true, owner := none, initializing := true },
      s.kernel.setMutex lock {}⟩ := by
  have hready : s.axis.ready = false := by
    by_contra hr
    have hstart := (AxisBus.orderly h.bus).started (by simpa using hr)
    rw [hnot, hnot'] at hstart
    rcases hstart with hstart | hstart <;> cases hstart
  have hmutex : s.kernel.setMutex lock {} = s.kernel := by
    rw [← h.unready hready, Mutexes.setMutex, Function.update_eq_self]
  have hbus : s.axis.step (.init RT_EOK) =
      some { s.axis with ready := true, owner := none, initializing := true } := by
    simp [AxisBus.step, hnot, hnot']
  rw [hmutex]
  exact ⟨h.bus.step (i := .init RT_EOK) trivial hbus, h.kernel, h.sends, h.others, h.waits,
    fun hunready => absurd hunready.symm Bool.false_ne_true⟩

/-! ## The steps with the mutex -/

theorem Inv.begins {k : Mutexes} (h : s.Inv) (hc : s.axis.threads t = .waiting c)
    (howner : s.axis.owner = none) (hkernel : Mutexes.machine.Reach Machine.free k)
    (hheld : ∀ u, k.held lock u = if u = t then s.kernel.held lock t + 1 else s.kernel.held lock u)
    (ht : (k.place t).on lock = false) (hplace : ∀ u ≠ t, k.place u = s.kernel.place u) :
    Inv ⟨begins s.axis t c, k⟩ := by
  have hbus : s.axis.step (.take t) = some (AxisLocked.begins s.axis t c) := by
    simp only [AxisBus.step, hc, howner]
    rfl
  have hthreads (u : ThreadId) (hu : u ≠ t) : (AxisLocked.begins s.axis t c).threads u = s.axis.threads u :=
    Function.update_of_ne hu ..
  have hself : (AxisLocked.begins s.axis t c).Sends t := ⟨c, c.frame, AxisBus.goto_self ..⟩
  have hsends (u : ThreadId) (hu : u ≠ t) : (AxisLocked.begins s.axis t c).Sends u ↔ s.axis.Sends u := by
    simp only [AxisBus.Sends, hthreads u hu]
  refine ⟨h.bus.step (i := .take t) trivial hbus, hkernel, fun u hu => ?_, fun u hu => ?_, fun u hu => ?_, fun hnot => ?_⟩
  · rw [hheld]
    split
    · rw [h.others t (not_sends_of_waiting hc)]
    · rename_i hne
      exact h.sends u ((hsends u hne).mp hu)
  · have hne : u ≠ t := by
      rintro rfl
      exact hu hself
    rw [hheld, if_neg hne]
    exact h.others u fun hs => hu ((hsends u hne).mpr hs)
  · have hne : u ≠ t := by
      rintro rfl
      rw [ht] at hu
      cases hu
    rw [hplace u hne] at hu ⊢
    rw [hthreads u hne]
    exact h.waits u hu
  · have hready : s.axis.ready = false := hnot
    rw [h.ready_of_waiting hc] at hready
    cases hready

theorem Inv.suspend (h : s.Inv) (hc : s.axis.threads t = .waiting c)
    (hkernel : Mutexes.machine.Reach Machine.free ((s.kernel.inherit t lock).suspend t lock (-1 > 0))) :
    (s.proceed t c ((s.kernel.inherit t lock).suspend t lock (-1 > 0))).Inv := by
  have hself : ((s.kernel.inherit t lock).suspend t lock (-1 > 0)).place t = .waits lock false :=
    Function.update_self ..
  have hplace (u : ThreadId) (hu : u ≠ t) :
      ((s.kernel.inherit t lock).suspend t lock (-1 > 0)).place u = s.kernel.place u :=
    (Function.update_of_ne hu ..).trans (congrFun (Mutexes.inherit_place ..) u)
  have hheld : ((s.kernel.inherit t lock).suspend t lock (-1 > 0)).held = s.kernel.held :=
    Mutexes.inherit_held ..
  rw [proceed, hself]
  refine ⟨h.bus, hkernel, fun u hu => ?_, fun u hu => ?_, fun u hu => ?_, fun hnot => ?_⟩
  · rw [hheld]
    exact h.sends u hu
  · rw [hheld]
    exact h.others u hu
  · by_cases hut : u = t
    · rw [hut]
      exact ⟨⟨c, hc⟩, .inl hself⟩
    · rw [hplace u hut] at hu ⊢
      exact h.waits u hu
  · rw [h.ready_of_waiting hc] at hnot
    cases hnot

theorem Inv.take {k : Mutexes} (h : s.Inv) (hc : s.axis.threads t = .waiting c)
    (hstep : s.kernel.step (.take t lock (-1)) = some k) : (s.proceed t c k).Inv := by
  have hkernel : Mutexes.machine.Reach Machine.free k :=
    h.kernel.step (i := .take t lock (-1)) trivial hstep
  simp only [Mutexes.step] at hstep
  split at hstep
  · rename_i r hout
    obtain rfl := Option.some.inj hstep
    cases howner : (s.kernel.mutex lock).owner with
    | none =>
      have hfree := (h.mutex lock).free howner
      have hnone := h.owner_eq_none fun u hu => by rw [howner] at hu; cases hu
      rw [Mutexes.take_free hfree] at hkernel ⊢
      rw [proceed]
      simp only [Mutexes.entered, Mutexes.goto, Function.update_self]
      refine h.begins hc hnone hkernel (fun u => ?_) ?_ fun u hu => ?_
      · simp only [Function.update_self, Function.update_apply]
        rfl
      · simp [MutexPlace.on]
      · exact Function.update_of_ne hu ..
    | some owner =>
      have hne : owner ≠ t := by
        rintro rfl
        have hinside := (h.mutex lock).inside owner
        rw [if_pos howner, hout, MutexPlace.handed_out, h.others owner (not_sends_of_waiting hc)] at hinside
        exact ((h.mutex lock).owned owner howner).2 (UInt8.toNat_inj.mp hinside.symm)
      have hforever : (-1 : Int32) ≠ 0 := by decide
      rw [Mutexes.take_owned (h.mutex lock) howner hne, if_neg hforever] at hkernel ⊢
      exact h.suspend hc hkernel
  · cases hstep

theorem Inv.run {k : Mutexes} (h : s.Inv) (hc : s.axis.threads t = .waiting c)
    (hon : (s.kernel.place t).on lock = true) (hstep : s.kernel.step (.run t) = some k) :
    (s.proceed t c k).Inv := by
  have hkernel : Mutexes.machine.Reach Machine.free k := h.kernel.step (i := .run t) trivial hstep
  rcases (h.waits t hon).2 with hplace | hplace
  · simp [Mutexes.step, hplace] at hstep
  · simp only [Mutexes.step, hplace] at hstep
    obtain rfl := Option.some.inj hstep
    have howner : (s.kernel.mutex lock).owner = some t := by
      by_contra hne
      have hinside := (h.mutex lock).inside t
      rw [if_neg hne, hplace, MutexPlace.handed_self] at hinside
      omega
    have hnone := h.owner_eq_none fun u hu => by
      obtain rfl := Option.some.inj (hu.symm.trans howner)
      exact not_sends_of_waiting hc
    have hentered : s.kernel.resume t lock RT_EOK = s.kernel.entered t lock := rfl
    rw [hentered] at hkernel ⊢
    rw [proceed]
    simp only [Mutexes.entered, Mutexes.goto, Function.update_self]
    refine h.begins hc hnone hkernel (fun u => ?_) ?_ fun u hu => Function.update_of_ne hu ..
    · simp only [Function.update_self, Function.update_apply]
    · simp [MutexPlace.on]

theorem Inv.ends {k : Mutexes} (h : s.Inv) (hc : s.axis.threads t = .sending c [])
    (hkernel : Mutexes.machine.Reach Machine.free k)
    (hheld : ∀ u, k.held lock u = if u = t then s.kernel.held lock t - 1 else s.kernel.held lock u)
    (ht : (k.place t).on lock = false) (hplace : ∀ u ≠ t, k.place u = s.kernel.place u ∨
      (s.kernel.place u).on lock = true ∧ k.place u = .resumed lock RT_EOK) :
    Inv ⟨{ s.axis.goto t .idle with owner := none }, k⟩ := by
  have hbus : s.axis.step (.release t) = some { s.axis.goto t .idle with owner := none } := by
    simp only [AxisBus.step, hc]
  have hnot : ¬ AxisBus.Sends { s.axis.goto t .idle with owner := none } t :=
    AxisBus.not_sends (AxisBus.goto_self s.axis t .idle) (by simp)
  have hsends (u : ThreadId) (hu : u ≠ t) :
      AxisBus.Sends { s.axis.goto t .idle with owner := none } u ↔ s.axis.Sends u :=
    AxisBus.sends_goto (s := s.axis) hu
  refine ⟨h.bus.step (i := .release t) trivial hbus, hkernel, fun u hu => ?_, fun u hu => ?_,
    fun u hu => ?_, fun hready => ?_⟩
  · have hne : u ≠ t := by
      rintro rfl
      exact hnot hu
    rw [hheld, if_neg hne]
    exact h.sends u ((hsends u hne).mp hu)
  · rw [hheld]
    split
    · rw [h.sends t ⟨c, [], hc⟩]
    · rename_i hne
      exact h.others u fun hs => hu ((hsends u hne).mpr hs)
  · have hne : u ≠ t := by
      rintro rfl
      rw [ht] at hu
      cases hu
    have hthreads : (s.axis.goto t .idle).threads u = s.axis.threads u := Function.update_of_ne hne ..
    rcases hplace u hne with heq | ⟨hon, heq⟩
    · rw [heq] at hu ⊢
      obtain ⟨hwaits, hp⟩ := h.waits u hu
      exact ⟨hthreads ▸ hwaits, hp⟩
    · exact ⟨hthreads ▸ (h.waits u hon).1, .inr heq⟩
  · have hquiet := ((AxisBus.orderly h.bus).quiet hready).1
    have hline := AxisBus.Line.sending (AxisBus.orderly h.bus).line hc
    obtain ⟨prev, sofar, howner, -⟩ := hline
    rw [hquiet] at howner
    cases howner

theorem Inv.release {k : Mutexes} (h : s.Inv) (hc : s.axis.threads t = .sending c [])
    (hstep : s.kernel.step (.release t lock) = some k) :
    Inv ⟨{ s.axis.goto t .idle with owner := none }, k⟩ := by
  have hkernel : Mutexes.machine.Reach Machine.free k :=
    h.kernel.step (i := .release t lock) trivial hstep
  have hsends : s.axis.Sends t := ⟨c, [], hc⟩
  have howner := h.owner_of_sends hsends
  simp only [Mutexes.step] at hstep
  split at hstep
  · rename_i r hout
    obtain rfl := Option.some.inj hstep
    have hlast : (s.kernel.mutex lock).hold = 1 := by
      have hinside := (h.mutex lock).inside t
      rw [if_pos howner, h.sends t hsends, hout, MutexPlace.handed_out] at hinside
      exact UInt8.toNat_inj.mp hinside.symm
    rcases Mutexes.release_last (h.mutex lock) howner hlast with ⟨-, heq⟩ | ⟨thread, rest, hwaiting, heq⟩
    · rw [heq] at hkernel ⊢
      refine h.ends hc hkernel (fun u => ?_) ?_ fun u hu => .inl (Function.update_of_ne hu ..)
      · simp only [Mutexes.left, Mutexes.goto, Function.update_self, Function.update_apply]
        rfl
      · simp [Mutexes.left, Mutexes.goto, MutexPlace.on]
    · have hwaits := ((h.mutex lock).waiters.mem_iff thread).mp (by simp [hwaiting])
      obtain ⟨timed, hplace⟩ := MutexPlace.waits_of_waitsOn hwaits
      have hne : t ≠ thread := by
        rintro rfl
        rw [hout] at hplace
        cases hplace
      rw [heq] at hkernel ⊢
      refine h.ends hc hkernel (fun u => ?_) ?_ fun u hu => ?_
      · simp only [Mutexes.left, Mutexes.goto, Function.update_self, Function.update_apply]
        rfl
      · simp [Mutexes.left, Mutexes.goto, MutexPlace.on, hne]
      · by_cases hut : u = thread
        · refine .inr ⟨?_, ?_⟩
          · simp [hut, hplace, MutexPlace.on]
          · simp [hut, Mutexes.goto]
        · refine .inl ?_
          simp [Mutexes.left, Mutexes.goto, Mutexes.setMutex, Mutexes.setPriority, hut, hu]
  · cases hstep

theorem Inv.elsewhere {k : Mutexes} {i : Mutexes.Input} (h : s.Inv) (hi : ¬ s.kernel.Concerns lock i)
    (hstep : s.kernel.step i = some k) : Inv { s with kernel := k } := by
  have hkernel : Mutexes.machine.Reach Machine.free k := h.kernel.step (i := i) trivial hstep
  obtain ⟨hmutex, hheld, hplace⟩ := (Mutexes.stepped h.mutex hstep).apart h.mutex hi
  refine ⟨h.bus, hkernel, fun u hu => ?_, fun u hu => ?_, fun u hu => ?_, fun hnot => ?_⟩
  · rw [hheld]
    exact h.sends u hu
  · rw [hheld]
    exact h.others u hu
  · rcases hplace u with heq | ⟨-, hoff⟩
    · rw [heq] at hu ⊢
      exact h.waits u hu
    · rw [hoff] at hu
      cases hu
  · rw [hmutex]
    exact h.unready hnot

theorem inv_of_reach (h : machine.Reach Machine.free s) : s.Inv := by
  refine h.inv ?_ ?_
  · rintro s ⟨hbus, priority, hkernel⟩
    obtain ⟨axis, kernel⟩ := s
    obtain rfl := hbus
    obtain rfl := hkernel
    exact ⟨.base rfl, .base ⟨priority, rfl⟩, fun t ⟨_, _, ht⟩ => (nomatch ht), fun _ _ => rfl, nofun, fun _ => rfl⟩
  · intro s i s' _ h _ hstep
    cases i with
    | init =>
      simp only [machine, step] at hstep
      split at hstep
      · obtain rfl := Option.some.inj hstep
        exact h
      · split at hstep
        · cases hstep
        · obtain rfl := Option.some.inj hstep
          exact h.init (Bool.eq_false_iff.mpr ‹_›) (Bool.eq_false_iff.mpr ‹_›)
    | initDone =>
      obtain ⟨a, ha, rfl⟩ := Option.map_eq_some_iff.mp hstep
      exact h.initDone ha
    | call t c =>
      obtain ⟨a, ha, rfl⟩ := Option.map_eq_some_iff.mp hstep
      exact h.call ha
    | write t =>
      obtain ⟨a, ha, rfl⟩ := Option.map_eq_some_iff.mp hstep
      exact h.write ha
    | byte t =>
      obtain ⟨a, ha, rfl⟩ := Option.map_eq_some_iff.mp hstep
      exact h.byte ha
    | take t =>
      simp only [machine, step] at hstep
      split at hstep
      · obtain ⟨k, hk, rfl⟩ := Option.map_eq_some_iff.mp hstep
        exact h.take ‹_› hk
      · cases hstep
    | run t =>
      simp only [machine, step] at hstep
      split at hstep
      · split at hstep
        · obtain ⟨k, hk, rfl⟩ := Option.map_eq_some_iff.mp hstep
          exact h.run ‹_› ‹_› hk
        · cases hstep
      · cases hstep
    | release t =>
      simp only [machine, step] at hstep
      split at hstep
      · obtain ⟨k, hk, rfl⟩ := Option.map_eq_some_iff.mp hstep
        exact h.release ‹_› hk
      · cases hstep
    | kernel i =>
      simp only [machine, step] at hstep
      split at hstep
      · cases hstep
      · obtain ⟨k, hk, rfl⟩ := Option.map_eq_some_iff.mp hstep
        exact h.elsewhere ‹_› hk

/-- **The kernel's mutex keeps the frames apart.** Under every order of the sections, whatever is done with
other mutexes: the axis is in a state that it can reach with a mutex that is taken in one step, so the
bytes on the wire are the frames of the calls in the order in which they took the mutex; the thread that
sends is the owner in the kernel; and while threads are in the list of the mutex, one sends or was
handed the mutex and has not run yet. -/
theorem axis_lock_refines (h : machine.Reach Machine.free s) :
    (AxisBus.machine ThreadId).Reach Machine.free s.axis ∧
      s.axis.wire ++ s.axis.pending = AxisBus.bytesOf s.axis.sent ∧
      (∀ t, s.axis.Sends t → (s.kernel.mutex lock).owner = some t) ∧
      (∀ t ∈ (s.kernel.mutex lock).waiting, ∃ c, s.axis.threads t = .waiting c) ∧
      ((s.kernel.mutex lock).waiting ≠ [] →
        ∃ t, s.axis.Sends t ∨ s.kernel.place t = .resumed lock RT_EOK) := by
  have hinv := inv_of_reach h
  refine ⟨hinv.bus, (AxisBus.orderly hinv.bus).line.wire_pending, fun t => hinv.owner_of_sends, fun t ht => ?_,
    fun hne => ?_⟩
  · have hwaits := ((hinv.mutex lock).waiters.mem_iff t).mp ht
    obtain ⟨timed, hplace⟩ := MutexPlace.waits_of_waitsOn hwaits
    exact (hinv.waits t (by simp [hplace, MutexPlace.on])).1
  · cases howner : (s.kernel.mutex lock).owner with
    | none => exact absurd (congrArg RtMutex.waiting ((hinv.mutex lock).free howner)) hne
    | some t =>
      refine ⟨t, or_iff_not_imp_left.mpr fun hnot => ?_⟩
      have hinside := (hinv.mutex lock).inside t
      rw [if_pos howner, hinv.others t hnot] at hinside
      have hhold := ((hinv.mutex lock).owned t howner).2
      cases hplace : s.kernel.place t with
      | resumed m error =>
        rw [hplace, MutexPlace.handed] at hinside
        split at hinside
        · rename_i hsame
          rw [hsame.1, hsame.2]
        · exact absurd (UInt8.toNat_inj.mp hinside.symm) hhold
      | _ =>
        rw [hplace] at hinside
        exact absurd (UInt8.toNat_inj.mp hinside.symm) hhold

/-- Two threads stop the axis; the second one waits until the frame of the first is sent. -/
def twoStops : List Input :=
  [.init, .call 1 .stop, .write 1, .take 1, .byte 1, .call 2 .stop, .write 2, .take 2] ++
    List.replicate 7 (.byte 1) ++ [.release 1]

/-- It was handed the mutex. -/
theorem axis_lock_refines_stops : ∃ s : AxisLocked, s.kernel.place 2 = .resumed lock RT_EOK ∧
    s.axis.sent = [(1, .stop)] ∧ s.axis.wire ++ s.axis.pending = AxisBus.bytesOf s.axis.sent := by
  let s := (machine.exec ⟨.boot, Mutexes.init fun _ => 10⟩ twoStops).get (by decide +kernel)
  have hstart : machine.start ⟨.boot, Mutexes.init fun _ => 10⟩ := ⟨rfl, _, rfl⟩
  have hreach : machine.Reach Machine.free s := .get hstart _
  exact ⟨s, by decide +kernel, by decide +kernel, (axis_lock_refines hreach).2.1⟩

end AxisLocked

end Hcics
