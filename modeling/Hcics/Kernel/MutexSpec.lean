import Hcics.Kernel.Mutex

/-!
# The mutex excludes

What a thread has in a mutex, the takes it has not released and the ownership it was handed, is `hold`
for the owner and nothing for the others. So two threads are never inside at once; and since the release
hands the mutex over while a thread waits, no thread waits for a free mutex.
-/

namespace Hcics

namespace MutexPlace

variable {m m' : MutexId} {r error : RtErr} {timed : Bool}

@[simp] theorem waitsOn_out : (out r).waitsOn m = false := rfl
@[simp] theorem waitsOn_resumed : (resumed m' error).waitsOn m = false := rfl
@[simp] theorem waitsOn_waits : (waits m' timed).waitsOn m = decide (m' = m) := rfl
@[simp] theorem handed_out : (out r).handed m = 0 := rfl
@[simp] theorem handed_waits : (waits m' timed).handed m = 0 := rfl
@[simp] theorem handed_self : (resumed m RT_EOK).handed m = 1 := by simp [handed]

theorem handed_error (h : error ≠ RT_EOK) : (resumed m' error).handed m = 0 :=
  if_neg fun h' => h h'.2

theorem handed_other (h : m' ≠ m) : (resumed m' error).handed m = 0 :=
  if_neg fun h' => h h'.1

theorem waits_of_waitsOn {p : MutexPlace} (h : p.waitsOn m = true) : ∃ timed, p = waits m timed := by
  cases p with
  | waits m' timed => exact ⟨timed, by rw [of_decide_eq_true h]⟩
  | _ => cases h

end MutexPlace

namespace Mutexes

open MutexPlace

variable {s s' : Mutexes} {m m' : MutexId} {t u : ThreadId} {p : MutexPlace}

theorem inherit_place (s : Mutexes) (t : ThreadId) (m : MutexId) : (s.inherit t m).place = s.place := by
  unfold inherit
  split
  · split <;> rfl
  · rfl

theorem inherit_mutex (s : Mutexes) (t : ThreadId) (m : MutexId) : (s.inherit t m).mutex = s.mutex := by
  unfold inherit
  split
  · split <;> rfl
  · rfl

theorem inherit_held (s : Mutexes) (t : ThreadId) (m : MutexId) : (s.inherit t m).held = s.held := by
  unfold inherit
  split
  · split <;> rfl
  · rfl

theorem inherit_base (s : Mutexes) (t : ThreadId) (m : MutexId) : (s.inherit t m).base = s.base := by
  unfold inherit
  split
  · split <;> rfl
  · rfl

/-! ## The invariant of a mutex -/

structure Inv (s : Mutexes) (m : MutexId) : Prop where
  waiters : Waiters s.place (waitsOn m) (s.mutex m).waiting
  inside : ∀ t, s.held m t + (s.place t).handed m =
    if (s.mutex m).owner = some t then (s.mutex m).hold.toNat else 0
  free : (s.mutex m).owner = none → s.mutex m = {}
  owned : ∀ t, (s.mutex m).owner = some t → (s.mutex m).value = 0 ∧ (s.mutex m).hold ≠ 0

/-! ## What a step can do -/

inductive Stepped (s : Mutexes) : Input → Mutexes → Prop where
  | fail (i : Input) (t : ThreadId) (result : RtErr) {r : RtErr} (hout : s.place t = .out r) :
      Stepped s i (s.goto t (.out result))
  | again (t : ThreadId) (m : MutexId) (time : Int32) {r : RtErr} (hout : s.place t = .out r)
      (howner : (s.mutex m).owner = some t) (hmax : (s.mutex m).hold < mutexHoldMax) :
      Stepped s (.take t m time) ((s.setMutex m { s.mutex m with hold := (s.mutex m).hold + 1 }).entered t m)
  | take (t : ThreadId) (m : MutexId) (time : Int32) {r : RtErr} (hout : s.place t = .out r)
      (hfree : s.mutex m = {}) :
      Stepped s (.take t m time) ((s.setMutex m
        { value := 0, originalPriority := s.priority t, hold := 1, owner := some t }).entered t m)
  | wait (t : ThreadId) (m : MutexId) (time : Int32) (owner : ThreadId) {r : RtErr}
      (hout : s.place t = .out r) (howner : (s.mutex m).owner = some owner) (hne : owner ≠ t) :
      Stepped s (.take t m time) ((s.inherit t m).suspend t m (time > 0))
  | drop (t : ThreadId) (m : MutexId) {r : RtErr} (hout : s.place t = .out r)
      (howner : (s.mutex m).owner = some t) (hmore : (s.mutex m).hold - 1 ≠ 0) :
      Stepped s (.release t m) ((s.setMutex m { s.mutex m with hold := (s.mutex m).hold - 1 }).left t m)
  | free (t : ThreadId) (m : MutexId) {r : RtErr} (hout : s.place t = .out r)
      (howner : (s.mutex m).owner = some t) (hlast : (s.mutex m).hold = 1)
      (hnone : (s.mutex m).waiting = []) :
      Stepped s (.release t m) (((s.setPriority t (s.mutex m).originalPriority).setMutex m {}).left t m)
  | hand (t : ThreadId) (m : MutexId) (thread : ThreadId) (rest : List ThreadId)
      {r : RtErr} (hout : s.place t = .out r) (howner : (s.mutex m).owner = some t)
      (hlast : (s.mutex m).hold = 1) (hsome : (s.mutex m).waiting = thread :: rest) :
      Stepped s (.release t m) ((((s.setPriority t (s.mutex m).originalPriority).setMutex m
        { value := 0
          originalPriority := (s.setPriority t (s.mutex m).originalPriority).priority thread
          hold := 1
          owner := some thread
          waiting := rest }).left t m).goto thread (.resumed m RT_EOK))
  | timeout (t : ThreadId) (m : MutexId) (hwaits : s.place t = .waits m true) :
      Stepped s (.timeout t) (s.timeout t m)
  | timedOut (t : ThreadId) (m : MutexId) (error : RtErr) (hplace : s.place t = .resumed m error)
      (herror : error ≠ RT_EOK) : Stepped s (.run t) (s.goto t (.out error))
  | enter (t : ThreadId) (m : MutexId) (hhanded : s.place t = .resumed m RT_EOK) :
      Stepped s (.run t) (s.entered t m)
  | control (t : ThreadId) (priority : UInt8) :
      Stepped s (.control t priority)
        { s.setPriority t priority with base := Function.update s.base t priority }

variable {r : RtErr}

theorem restore_eq (s : Mutexes) (t : ThreadId) (m : MutexId) :
    s.restore t m = s.setPriority t (s.mutex m).originalPriority := by
  unfold restore
  split
  · rfl
  · rename_i heq
    rw [not_not.mp heq, setPriority, Function.update_eq_self]

@[simp] theorem setMutex_self (s : Mutexes) (m : MutexId) (x : RtMutex) : (s.setMutex m x).mutex m = x :=
  Function.update_self ..

theorem setMutex_of_ne (hne : m' ≠ m) (x : RtMutex) : (s.setMutex m x).mutex m' = s.mutex m' :=
  Function.update_of_ne hne ..

theorem take_free (hfree : s.mutex m = {}) (t : ThreadId) (time : Int32) :
    s.take t m time = (s.setMutex m
      { value := 0, originalPriority := s.priority t, hold := 1, owner := some t }).entered t m := by
  unfold take
  rw [hfree]
  rfl

theorem take_owned {owner : ThreadId} (h : s.Inv m) (howner : (s.mutex m).owner = some owner)
    (hne : owner ≠ t) (time : Int32) :
    s.take t m time = if time = 0 then s.goto t (.out (-RT_ETIMEOUT))
      else (s.inherit t m).suspend t m (time > 0) := by
  have hvalue : ¬ (s.mutex m).value > 0 := by
    rw [(h.owned owner howner).1]
    decide
  unfold take
  rw [if_neg fun heq => hne (Option.some.inj (howner.symm.trans heq)), if_neg hvalue]

theorem release_last (h : s.Inv m) (howner : (s.mutex m).owner = some t) (hlast : (s.mutex m).hold = 1) :
    ((s.mutex m).waiting = [] ∧
      s.release t m = ((s.setPriority t (s.mutex m).originalPriority).setMutex m {}).left t m) ∨
    ∃ thread rest, (s.mutex m).waiting = thread :: rest ∧
      s.release t m = (((s.setPriority t (s.mutex m).originalPriority).setMutex m
        { value := 0
          originalPriority := (s.setPriority t (s.mutex m).originalPriority).priority thread
          hold := 1
          owner := some thread
          waiting := rest }).left t m).goto thread (.resumed m RT_EOK) := by
  have hvalue := (h.owned t howner).1
  have hzero : (s.mutex m).hold - 1 = 0 := by rw [hlast]; rfl
  unfold release
  rw [if_neg (not_not.mpr howner.symm)]
  dsimp only
  rw [if_pos hzero, restore_eq, setMutex_self, handOver]
  cases hwaiting : (s.mutex m).waiting with
  | nil =>
    refine .inl ⟨rfl, ?_⟩
    simp only [setPriority, setMutex, left, goto, Function.update_self, Function.update_idem, hvalue, hlast]
    rfl
  | cons thread rest =>
    refine .inr ⟨thread, rest, rfl, ?_⟩
    simp only [setPriority, setMutex, left, goto, Function.update_self, Function.update_idem, hvalue, hlast]
    rfl

theorem stepped_take (h : s.Inv m) (hout : s.place t = .out r) (time : Int32) :
    Stepped s (.take t m time) (s.take t m time) := by
  cases howner : (s.mutex m).owner with
  | none =>
    have hfree := h.free howner
    rw [take_free hfree]
    exact .take t m time hout hfree
  | some owner =>
    by_cases hne : owner = t
    · subst hne
      unfold take
      rw [if_pos howner]
      split
      · exact .again owner m time hout howner ‹_›
      · exact .fail _ owner _ hout
    · rw [take_owned h howner hne]
      split
      · exact .fail _ t _ hout
      · exact .wait t m time owner hout howner hne

theorem stepped_release (h : s.Inv m) (hout : s.place t = .out r) :
    Stepped s (.release t m) (s.release t m) := by
  by_cases howner : (s.mutex m).owner = some t
  · by_cases hzero : (s.mutex m).hold - 1 = 0
    · have hlast : (s.mutex m).hold = 1 := by
        rw [← UInt8.sub_add_cancel (s.mutex m).hold 1, hzero]
        rfl
      rcases release_last h howner hlast with ⟨hnone, heq⟩ | ⟨thread, rest, hsome, heq⟩
      · exact heq ▸ .free t m hout howner hlast hnone
      · exact heq ▸ .hand t m thread rest hout howner hlast hsome
    · unfold release
      rw [if_neg (not_not.mpr howner.symm)]
      dsimp only
      rw [if_neg hzero]
      exact .drop t m hout howner hzero
  · unfold release
    rw [if_pos fun heq => howner heq.symm]
    exact .fail _ t _ hout

theorem stepped {i : Input} (h : ∀ m, s.Inv m) (hstep : machine.step s i = some s') :
    Stepped s i s' := by
  cases i with
  | take t m time =>
    simp only [machine, step] at hstep
    split at hstep
    · obtain rfl := Option.some.inj hstep
      exact stepped_take (h m) ‹_› time
    · cases hstep
  | release t m =>
    simp only [machine, step] at hstep
    split at hstep
    · obtain rfl := Option.some.inj hstep
      exact stepped_release (h m) ‹_›
    · cases hstep
  | timeout t =>
    simp only [machine, step] at hstep
    split at hstep
    · obtain rfl := Option.some.inj hstep
      exact .timeout t _ ‹_›
    · cases hstep
  | run t =>
    simp only [machine, step] at hstep
    split at hstep
    · rename_i m error hplace
      obtain rfl := Option.some.inj hstep
      unfold resume
      split
      · exact .timedOut t m error hplace ‹_›
      · rename_i herror
        obtain rfl : error = RT_EOK := not_not.mp herror
        exact .enter t m hplace
    · cases hstep
  | control t priority =>
    obtain rfl := Option.some.inj hstep
    exact .control t priority

/-! ## What a step keeps -/

theorem Inv.frame (h : s.Inv m) (hmutex : s'.mutex m = s.mutex m) (hheld : s'.held m = s.held m)
    (hwaits : ∀ t, (s'.place t).waitsOn m = (s.place t).waitsOn m)
    (hhanded : ∀ t, (s'.place t).handed m = (s.place t).handed m) : s'.Inv m where
  waiters := ⟨hmutex ▸ h.waiters.nodup, fun t => by rw [hmutex, hwaits, h.waiters.mem_iff]⟩
  inside t := by rw [hheld, hhanded, hmutex, h.inside]
  free := hmutex ▸ h.free
  owned := hmutex ▸ h.owned

/-- A thread moves that neither waits for `m` nor was handed it, before and after. -/
theorem Inv.goto (h : s.Inv m) (hwaits : (s.place t).waitsOn m = p.waitsOn m)
    (hhanded : (s.place t).handed m = p.handed m) : (s.goto t p).Inv m := by
  refine h.frame rfl rfl (fun u => ?_) fun u => ?_ <;> by_cases hu : u = t
  · simp [Mutexes.goto, hu, hwaits]
  · simp [Mutexes.goto, hu]
  · simp [Mutexes.goto, hu, hhanded]
  · simp [Mutexes.goto, hu]

theorem Inv.setMutex_of_ne (h : s.Inv m) (hne : m ≠ m') (x : RtMutex) : (s.setMutex m' x).Inv m :=
  h.frame (Function.update_of_ne hne ..) rfl (fun _ => rfl) fun _ => rfl

theorem Inv.setPriority (h : s.Inv m) (t : ThreadId) (priority : UInt8) : (s.setPriority t priority).Inv m :=
  ⟨h.waiters, h.inside, h.free, h.owned⟩

theorem Inv.inherit (h : s.Inv m) (t : ThreadId) (m' : MutexId) : (s.inherit t m').Inv m := by
  unfold Mutexes.inherit
  split
  · split
    · exact h.setPriority ..
    · exact h
  · exact h

theorem Inv.entered_of_ne (h : s.Inv m) (hne : m ≠ m') (hwaits : (s.place t).waitsOn m = false)
    (hhanded : (s.place t).handed m = 0) : (s.entered t m').Inv m :=
  Inv.goto (h.frame rfl (Function.update_of_ne hne ..) (fun _ => rfl) fun _ => rfl) hwaits hhanded

theorem Inv.left_of_ne (h : s.Inv m) (hne : m ≠ m') (hwaits : (s.place t).waitsOn m = false)
    (hhanded : (s.place t).handed m = 0) : (s.left t m').Inv m :=
  Inv.goto (h.frame rfl (Function.update_of_ne hne ..) (fun _ => rfl) fun _ => rfl) hwaits hhanded

theorem Inv.held_eq (h : s.Inv m) (hout : s.place t = .out r) :
    s.held m t = if (s.mutex m).owner = some t then (s.mutex m).hold.toNat else 0 := by
  rw [← h.inside t, hout, handed_out, Nat.add_zero]

theorem Inv.own {x : RtMutex} {k : ℕ} (h : s.Inv m) (hout : s.place t = .out r)
    (hwaiting : x.waiting = (s.mutex m).waiting) (hbefore : ∀ u ≠ t, (s.mutex m).owner ≠ some u)
    (hafter : ∀ u ≠ t, x.owner ≠ some u) (hk : k = if x.owner = some t then x.hold.toNat else 0)
    (hfree : x.owner = none → x = {}) (howned : x.owner = some t → x.value = 0 ∧ x.hold ≠ 0) :
    Inv { s with
      mutex := Function.update s.mutex m x
      held := Function.update s.held m (Function.update (s.held m) t k)
      place := Function.update s.place t (.out RT_EOK) } m where
  waiters := by
    simp only [Function.update_self, hwaiting]
    exact h.waiters.keep (by rw [hout]; rfl)
  inside u := by
    simp only [Function.update_self]
    by_cases hu : u = t
    · subst hu
      simp only [Function.update_self, handed_out, Nat.add_zero, hk]
    · simp only [Function.update_of_ne hu, h.inside, hbefore u hu, hafter u hu, if_false]
  free := by
    simpa only [Function.update_self] using hfree
  owned u hu := by
    simp only [Function.update_self] at hu ⊢
    obtain rfl : u = t := by_contra fun hne => hafter u hne hu
    exact howned hu

theorem Inv.again (h : s.Inv m) (hout : s.place t = .out r) (howner : (s.mutex m).owner = some t)
    (hmax : (s.mutex m).hold < mutexHoldMax) :
    ((s.setMutex m { s.mutex m with hold := (s.mutex m).hold + 1 }).entered t m).Inv m := by
  have hheld := h.held_eq hout
  have hlt := UInt8.lt_iff_toNat_lt.mp hmax
  have hcount : ((s.mutex m).hold + 1).toNat = (s.mutex m).hold.toNat + 1 := by
    rw [UInt8.toNat_add]
    exact Nat.mod_eq_of_lt (Nat.succ_lt_succ hlt)
  rw [if_pos howner] at hheld
  refine h.own hout rfl (fun u hu heq => ?_) (fun u hu heq => ?_) ?_ (fun hnone => ?_) fun _ => ⟨?_, ?_⟩
  · exact hu (Option.some.inj (heq.symm.trans howner))
  · exact hu (Option.some.inj (heq.symm.trans howner))
  · rw [if_pos howner, hcount]
    exact congrArg (· + 1) hheld
  · cases howner.symm.trans hnone
  · exact (h.owned t howner).1
  · intro hzero
    have := congrArg UInt8.toNat hzero
    rw [hcount] at this
    exact Nat.succ_ne_zero _ this

theorem Inv.take (h : s.Inv m) (hout : s.place t = .out r) (hfree : s.mutex m = {}) (priority : UInt8) :
    ((s.setMutex m { value := 0, originalPriority := priority, hold := 1, owner := some t }).entered t m).Inv
      m := by
  have hheld : s.held m t = 0 := by
    rw [h.held_eq hout, hfree]
    rfl
  refine h.own hout ?_ (fun u _ heq => ?_) (fun u hu heq => ?_) ?_ nofun fun _ => ⟨rfl, ?_⟩
  · rw [hfree]
  · rw [hfree] at heq
    cases heq
  · exact hu (Option.some.inj heq).symm
  · rw [if_pos rfl]
    exact congrArg (· + 1) hheld
  · exact (by decide : (1 : UInt8) ≠ 0)

theorem hold_sub {hold : UInt8} (h : hold ≠ 0) : (hold - 1).toNat = hold.toNat - 1 := by
  have hpos : 0 < hold.toNat := Nat.pos_of_ne_zero fun hzero => h (UInt8.toNat_inj.mp hzero)
  exact UInt8.toNat_sub_of_le _ _ (UInt8.le_iff_toNat_le.mpr hpos)

theorem Inv.drop (h : s.Inv m) (hout : s.place t = .out r) (howner : (s.mutex m).owner = some t)
    (hmore : (s.mutex m).hold - 1 ≠ 0) :
    ((s.setMutex m { s.mutex m with hold := (s.mutex m).hold - 1 }).left t m).Inv m := by
  have hheld := h.held_eq hout
  rw [if_pos howner] at hheld
  refine h.own hout rfl (fun u hu heq => ?_) (fun u hu heq => ?_) ?_ (fun hnone => ?_) fun _ => ⟨?_, hmore⟩
  · exact hu (Option.some.inj (heq.symm.trans howner))
  · exact hu (Option.some.inj (heq.symm.trans howner))
  · rw [if_pos howner, hold_sub (h.owned t howner).2]
    exact congrArg (· - 1) hheld
  · cases howner.symm.trans hnone
  · exact (h.owned t howner).1

theorem Inv.held_last (h : s.Inv m) (hout : s.place t = .out r) (howner : (s.mutex m).owner = some t)
    (hlast : (s.mutex m).hold = 1) : s.held m t = 1 := by
  rw [h.held_eq hout, if_pos howner, hlast]
  rfl

theorem Inv.release (h : s.Inv m) (hout : s.place t = .out r) (howner : (s.mutex m).owner = some t)
    (hlast : (s.mutex m).hold = 1) (hnone : (s.mutex m).waiting = []) (priority : UInt8) :
    (((s.setPriority t priority).setMutex m {}).left t m).Inv m := by
  have hheld := h.held_last hout howner hlast
  refine Inv.own (h.setPriority t priority) hout hnone.symm (fun u hu heq => ?_) nofun ?_ (fun _ => rfl) nofun
  · exact hu (Option.some.inj (heq.symm.trans howner))
  · exact congrArg (· - 1) hheld

theorem Inv.hand {thread : ThreadId} {rest : List ThreadId} (h : s.Inv m) (hout : s.place t = .out r)
    (howner : (s.mutex m).owner = some t) (hlast : (s.mutex m).hold = 1)
    (hsome : (s.mutex m).waiting = thread :: rest) (priority : UInt8) (original : UInt8) :
    ((((s.setPriority t priority).setMutex m
      { value := 0, originalPriority := original, hold := 1, owner := some thread, waiting := rest }).left t
        m).goto thread (.resumed m RT_EOK)).Inv m := by
  have hwaits : (s.place thread).waitsOn m = true := (h.waiters.mem_iff thread).mp (by simp [hsome])
  have hne : thread ≠ t := by
    rintro rfl
    rw [hout] at hwaits
    cases hwaits
  have hzero : s.held m thread = 0 := by
    have hinside := h.inside thread
    rw [if_neg fun heq => hne (Option.some.inj (heq.symm.trans howner))] at hinside
    exact (Nat.add_eq_zero_iff.mp hinside).1
  have hheld := h.held_last hout howner hlast
  refine ⟨?_, fun u => ?_, fun hnone => ?_, fun u _ => ?_⟩
  · have hwaiters := h.waiters
    rw [hsome] at hwaiters
    simp only [left, Mutexes.goto, setMutex, Mutexes.setPriority, Function.update_self]
    rw [Function.update_comm hne.symm]
    exact Waiters.keep (hwaiters.tail rfl) (by rw [Function.update_of_ne hne.symm, hout]; rfl)
  · simp only [left, Mutexes.goto, setMutex, Mutexes.setPriority, Function.update_self]
    by_cases hu : u = thread
    · rw [hu, Function.update_self, Function.update_of_ne hne, hzero, handed_self, if_pos rfl]
      rfl
    · rw [Function.update_of_ne hu, if_neg fun heq => hu (Option.some.inj heq).symm]
      by_cases hut : u = t
      · rw [hut, Function.update_self, Function.update_self, hheld, handed_out]
      · rw [Function.update_of_ne hut, Function.update_of_ne hut, h.inside,
          if_neg fun heq => hut (Option.some.inj (heq.symm.trans howner))]
  · simp [left, Mutexes.goto, setMutex] at hnone
  · simp [left, Mutexes.goto, setMutex]

theorem Inv.suspend {owner : ThreadId} (h : s.Inv m) (hout : s.place t = .out r)
    (howner : (s.mutex m).owner = some owner) (timed : Bool) : (s.suspend t m timed).Inv m where
  waiters := by
    simp only [Mutexes.suspend, Mutexes.goto, setMutex, Function.update_self]
    exact h.waiters.suspend .prio s.priority (by rw [hout]; rfl) (by simp)
  inside u := by
    simp only [Mutexes.suspend, Mutexes.goto, setMutex, Function.update_self]
    rw [← h.inside u]
    by_cases hu : u = t
    · rw [hu, Function.update_self, hout]
      rfl
    · rw [Function.update_of_ne hu]
  free hnone := by
    simp [Mutexes.suspend, Mutexes.goto, setMutex, howner] at hnone
  owned u hu := by
    simp only [Mutexes.suspend, Mutexes.goto, setMutex, Function.update_self] at hu ⊢
    exact h.owned u hu

theorem Inv.timeout (h : s.Inv m) (hplace : s.place t = .waits m true) : (s.timeout t m).Inv m where
  waiters := by
    simp only [Mutexes.timeout, Mutexes.goto, setMutex, Function.update_self]
    exact h.waiters.erase rfl
  inside u := by
    simp only [Mutexes.timeout, Mutexes.goto, setMutex, Function.update_self]
    rw [← h.inside u]
    by_cases hu : u = t
    · rw [hu, Function.update_self, hplace, handed_error (by decide)]
      rfl
    · rw [Function.update_of_ne hu]
  free hnone := by
    simp only [Mutexes.timeout, Mutexes.goto, setMutex, Function.update_self] at hnone ⊢
    rw [h.free hnone]
    rfl
  owned u hu := by
    simp only [Mutexes.timeout, Mutexes.goto, setMutex, Function.update_self] at hu ⊢
    exact h.owned u hu

theorem Inv.enter (h : s.Inv m) (hplace : s.place t = .resumed m RT_EOK) : (s.entered t m).Inv m where
  waiters := h.waiters.keep (by rw [hplace]; rfl)
  inside u := by
    refine Eq.trans ?_ (h.inside u)
    simp only [entered, Mutexes.goto, Function.update_self]
    by_cases hu : u = t
    · rw [hu, Function.update_self, Function.update_self, hplace, handed_self, handed_out]
    · rw [Function.update_of_ne hu, Function.update_of_ne hu]
  free := h.free
  owned := h.owned

/-! ## The steps -/

theorem Stepped.inv {i : Input} (hs : Stepped s i s') (h : ∀ m, s.Inv m) (m : MutexId) : s'.Inv m := by
  cases hs with
  | fail i t result hout => exact (h m).goto (by rw [hout]; rfl) (by rw [hout]; rfl)
  | again t n time hout howner hmax =>
    by_cases hn : m = n
    · subst hn
      exact (h m).again hout howner hmax
    · exact ((h m).setMutex_of_ne hn _).entered_of_ne hn (congrArg (waitsOn m) hout)
        (congrArg (handed m) hout)
  | take t n time hout hfree =>
    by_cases hn : m = n
    · subst hn
      exact (h m).take hout hfree _
    · exact ((h m).setMutex_of_ne hn _).entered_of_ne hn (congrArg (waitsOn m) hout)
        (congrArg (handed m) hout)
  | wait t n time owner hout howner hne =>
    have hinherit := (h m).inherit t n
    have hout' : (s.inherit t n).place t = .out _ := (inherit_place s t n).symm ▸ hout
    by_cases hn : m = n
    · subst hn
      exact hinherit.suspend hout' (by rw [inherit_mutex]; exact howner) _
    · refine Inv.goto (hinherit.setMutex_of_ne hn _) ?_ ?_
      · rw [setMutex, hout', waitsOn_out, waitsOn_waits, decide_eq_false (Ne.symm hn)]
      · rw [setMutex, hout', handed_out, handed_waits]
  | drop t n hout howner hmore =>
    by_cases hn : m = n
    · subst hn
      exact (h m).drop hout howner hmore
    · exact ((h m).setMutex_of_ne hn _).left_of_ne hn (congrArg (waitsOn m) hout)
        (congrArg (handed m) hout)
  | free t n hout howner hlast hnone =>
    by_cases hn : m = n
    · subst hn
      exact (h m).release hout howner hlast hnone _
    · exact (((h m).setPriority t _).setMutex_of_ne hn _).left_of_ne hn (congrArg (waitsOn m) hout)
        (congrArg (handed m) hout)
  | hand t n thread rest hout howner hlast hsome =>
    by_cases hn : m = n
    · subst hn
      exact (h m).hand hout howner hlast hsome _ _
    · have hleft := (((h m).setPriority t (s.mutex n).originalPriority).setMutex_of_ne hn
        { value := 0
          originalPriority := (s.setPriority t (s.mutex n).originalPriority).priority thread
          hold := 1
          owner := some thread
          waiting := rest }).left_of_ne hn (congrArg (waitsOn m) hout) (congrArg (handed m) hout)
      have hwaits : (s.place thread).waitsOn n = true := ((h n).waiters.mem_iff thread).mp (by simp [hsome])
      obtain ⟨timed, hplace⟩ := waits_of_waitsOn hwaits
      have hne : thread ≠ t := by
        rintro rfl
        rw [hout] at hplace
        cases hplace
      refine hleft.goto ?_ ?_
      · simp [left, Mutexes.goto, setMutex, Mutexes.setPriority, hne, hplace, Ne.symm hn]
      · simp [left, Mutexes.goto, setMutex, Mutexes.setPriority, hne, hplace, handed_other (Ne.symm hn)]
  | timeout t n hplace =>
    by_cases hn : m = n
    · subst hn
      exact (h m).timeout hplace
    · refine Inv.goto ((h m).setMutex_of_ne hn _) ?_ ?_
      · rw [setMutex, hplace, waitsOn_waits, waitsOn_resumed, decide_eq_false (Ne.symm hn)]
      · rw [setMutex, hplace, handed_waits, handed_other (Ne.symm hn)]
  | timedOut t n error hplace herror =>
    exact (h m).goto (by rw [hplace]; rfl) (by rw [hplace]; exact handed_error herror)
  | enter t n hplace =>
    by_cases hn : m = n
    · subst hn
      exact (h m).enter hplace
    · exact (h m).entered_of_ne hn (congrArg (waitsOn m) hplace)
        ((congrArg (handed m) hplace).trans (handed_other (Ne.symm hn)))
  | control t priority => exact ⟨(h m).waiters, (h m).inside, (h m).free, (h m).owned⟩

theorem inv_of_reach {ok : Mutexes → Input → Prop} (h : machine.Reach ok s) : ∀ m, s.Inv m := by
  refine h.inv (P := fun s => ∀ m, s.Inv m) ?_ ?_
  · rintro _ ⟨priority, rfl⟩ m
    exact ⟨⟨.nil, fun t => by simp [init]⟩, fun t => by simp [init], fun _ => rfl, nofun⟩
  · intro s i s' _ hinv _ hstep
    exact (stepped hinv hstep).inv hinv

/-! ## The other mutexes -/

/-- The step is about `m`: a call of it, or the thread is in one. -/
def Concerns (s : Mutexes) (m : MutexId) : Input → Prop
  | .take _ m' _ | .release _ m' => m' = m
  | .timeout t | .run t => (s.place t).on m = true
  | .control .. => False

instance (s : Mutexes) (m : MutexId) (i : Input) : Decidable (s.Concerns m i) := by
  cases i <;> unfold Concerns <;> infer_instance

/-- `m` and the threads in a call of it are left as they are. -/
structure Apart (m : MutexId) (s s' : Mutexes) : Prop where
  mutex : s'.mutex m = s.mutex m
  held : s'.held m = s.held m
  place : ∀ t, s'.place t = s.place t ∨ (s.place t).on m = false ∧ (s'.place t).on m = false

theorem Apart.goto (h : Apart m s s') (hbefore : (s.place t).on m = false) (hafter : p.on m = false) :
    Apart m s (s'.goto t p) where
  mutex := h.mutex
  held := h.held
  place u := by
    by_cases hu : u = t
    · refine .inr ⟨hu ▸ hbefore, ?_⟩
      simp only [hu, Mutexes.goto, Function.update_self, hafter]
    · simp only [Mutexes.goto, Function.update_of_ne hu]
      exact h.place u

theorem Stepped.apart {i : Input} (hs : Stepped s i s') (hinv : ∀ m, s.Inv m) (hi : ¬ s.Concerns m i) :
    Apart m s s' := by
  have hout {t : ThreadId} {r : RtErr} (h : s.place t = .out r) : (s.place t).on m = false := by
    rw [h]
    rfl
  -- a mutex and the takes of it change, another than `m`
  have hset {n : MutexId} (hn : n ≠ m) (x : RtMutex) (held : ThreadId → ℕ) (priority : ThreadId → UInt8) :
      Apart m s { s with
        mutex := Function.update s.mutex n x, held := Function.update s.held n held, priority := priority } :=
    ⟨Function.update_of_ne hn.symm .., Function.update_of_ne hn.symm .., fun _ => .inl rfl⟩
  cases hs with
  | fail i t result hplace => exact Apart.goto ⟨rfl, rfl, fun _ => .inl rfl⟩ (hout hplace) rfl
  | again t n time hplace howner hmax => exact (hset hi _ _ _).goto (hout hplace) rfl
  | take t n time hplace hfree => exact (hset hi _ _ _).goto (hout hplace) rfl
  | wait t n time owner hplace howner hne =>
    refine Apart.goto ⟨?_, ?_, fun u => .inl (congrFun (inherit_place s t n) u)⟩ (hout hplace) ?_
    · exact (setMutex_of_ne (Ne.symm hi) _).trans (congrFun (inherit_mutex s t n) m)
    · exact congrFun (inherit_held s t n) m
    · exact decide_eq_false hi
  | drop t n hplace howner hmore => exact (hset hi _ _ _).goto (hout hplace) rfl
  | free t n hplace howner hlast hnone => exact (hset hi _ _ _).goto (hout hplace) rfl
  | hand t n thread rest hplace howner hlast hsome =>
    have hwaits : (s.place thread).waitsOn n = true := ((hinv n).waiters.mem_iff thread).mp (by simp [hsome])
    obtain ⟨timed, hthread⟩ := waits_of_waitsOn hwaits
    refine ((hset hi _ _ _).goto (hout hplace) rfl).goto ?_ (decide_eq_false hi)
    rw [hthread]
    exact decide_eq_false hi
  | timeout t n hplace =>
    have hn : n ≠ m := by
      rintro rfl
      exact hi (by simp [Concerns, hplace, on])
    refine Apart.goto ⟨setMutex_of_ne hn.symm _, rfl, fun _ => .inl rfl⟩ ?_ (decide_eq_false hn)
    rw [hplace]
    exact decide_eq_false hn
  | timedOut t n error hplace herror =>
    exact Apart.goto ⟨rfl, rfl, fun _ => .inl rfl⟩ (Bool.eq_false_iff.mpr hi) rfl
  | enter t n hplace =>
    have hn : n ≠ m := by
      rintro rfl
      exact hi (by simp [Concerns, hplace, on])
    refine Apart.goto ⟨rfl, Function.update_of_ne hn.symm .., fun _ => .inl rfl⟩ ?_ rfl
    exact Bool.eq_false_iff.mpr hi
  | control t priority => exact ⟨rfl, rfl, fun _ => .inl rfl⟩

/-- **A mutex excludes.** For any number of threads and mutexes and every order of the sections: only the
owner of a mutex has takes that it has not released, and `hold` counts them with the ownership it may have
been handed; a mutex without an owner is as `rt_mutex_init` left it; and the list holds each thread that is
suspended on the mutex once. -/
theorem mutex_exclusion (h : machine.Reach Machine.free s) (m : MutexId) :
    (∀ t, 0 < s.held m t → (s.mutex m).owner = some t) ∧
      (∀ t, (s.mutex m).owner = some t →
        s.held m t + (s.place t).handed m = (s.mutex m).hold.toNat ∧ (s.mutex m).hold ≠ 0) ∧
      ((s.mutex m).owner = none → s.mutex m = {}) ∧
      (s.mutex m).waiting.Nodup ∧ ∀ t, t ∈ (s.mutex m).waiting ↔ (s.place t).waitsOn m = true := by
  have hinv := inv_of_reach h m
  refine ⟨fun t ht => ?_, fun t ht => ⟨?_, (hinv.owned t ht).2⟩, hinv.free, hinv.waiters.nodup,
    hinv.waiters.mem_iff⟩
  · by_contra hne
    have hinside := hinv.inside t
    rw [if_neg hne] at hinside
    omega
  · rw [hinv.inside t, if_pos ht]

/-- The second thread waits for the first one, which has taken the mutex twice. -/
def contended : List Input :=
  [.take 1 0 (-1), .take 1 0 0, .take 2 0 (-1), .release 1 0, .release 1 0, .run 2]

/-- It gets the mutex with the last release. -/
theorem mutex_exclusion_contended : ∃ s : Mutexes, s.held 0 2 = 1 ∧ s.held 0 1 = 0 ∧
    (s.mutex 0).owner = some 2 := by
  let s := (machine.exec (init fun _ => 10) contended).get (by decide)
  have hstart : machine.start (init fun _ => 10) := ⟨_, rfl⟩
  have hreach : machine.Reach Machine.free s := .get hstart _
  have hheld : s.held 0 2 = 1 := by decide
  exact ⟨s, hheld, by decide, (mutex_exclusion hreach 0).1 2 (by rw [hheld]; exact Nat.one_pos)⟩

end Mutexes

end Hcics
