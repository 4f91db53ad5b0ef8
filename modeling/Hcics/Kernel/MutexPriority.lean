import Hcics.Kernel.MutexSpec

/-!
# The owner of a mutex inherits

Where no thread takes a mutex while it owns another one, the owner of a mutex runs at least at the priority
of every thread that waits for it, a thread without a mutex at its own one, and the list of a mutex is in
the order of priority, so that a release hands it to a thread of the highest. With two mutexes at once the
release of one takes away what its owner inherits through the other, as `rt_mutex_release` goes back to
the priority from before that take.
-/

namespace Hcics

namespace Mutexes

open MutexPlace

variable {s s' : Mutexes} {m m' : MutexId} {t u : ThreadId} {r : RtErr}

/-- No thread takes a mutex while it owns another one, and priorities are not changed from outside. -/
def Solo (s : Mutexes) : Input → Prop
  | .take t m _ => ∀ m' ≠ m, (s.mutex m').owner ≠ some t
  | .control .. => False
  | _ => True

/-- Who has which priority. -/
structure Inherits (s : Mutexes) : Prop where
  alone : ∀ t m m', (s.mutex m).owner = some t → (s.mutex m').owner = some t → m = m'
  idle : ∀ t m m', (s.place t).waitsOn m = true → (s.mutex m').owner ≠ some t
  base : ∀ t, (∀ m, (s.mutex m).owner ≠ some t) → s.priority t = s.base t
  original : ∀ t m, (s.mutex m).owner = some t →
    (s.mutex m).originalPriority = s.base t ∧ s.priority t ≤ s.base t
  above : ∀ t m u, (s.mutex m).owner = some t → u ∈ (s.mutex m).waiting → s.priority t ≤ s.priority u
  sorted : ∀ m, (s.mutex m).waiting.Pairwise fun u v => s.base u ≤ s.base v

theorem Inherits.base_of_waits (h : s.Inherits) (hwaits : (s.place t).waitsOn m = true) :
    s.priority t = s.base t :=
  h.base t fun m' => h.idle t m m' hwaits

/-- Nothing changes but how often the owner has taken the mutex, and threads may stop waiting. -/
theorem Inherits.keep (h : s.Inherits) (howner : ∀ m, (s'.mutex m).owner = (s.mutex m).owner)
    (horiginal : ∀ m, (s'.mutex m).originalPriority = (s.mutex m).originalPriority)
    (hwaiting : ∀ m, (s'.mutex m).waiting.Sublist (s.mutex m).waiting)
    (hpriority : s'.priority = s.priority) (hbase : s'.base = s.base)
    (hplace : ∀ t m, (s'.place t).waitsOn m = true → (s.place t).waitsOn m = true) : s'.Inherits where
  alone t m m' := by
    rw [howner, howner]
    exact h.alone t m m'
  idle t m m' hwaits := by
    rw [howner]
    exact h.idle t m m' (hplace t m hwaits)
  base t hnone := by
    rw [hpriority, hbase]
    exact h.base t fun m => howner m ▸ hnone m
  original t m ht := by
    rw [horiginal, hpriority, hbase]
    exact h.original t m (howner m ▸ ht)
  above t m u ht hu := by
    rw [hpriority]
    exact h.above t m u (howner m ▸ ht) ((hwaiting m).subset hu)
  sorted m := by
    rw [hbase]
    exact (h.sorted m).sublist (hwaiting m)

theorem Inherits.replace {x : RtMutex} (h : s.Inherits) (hmutex : s'.mutex = Function.update s.mutex m x)
    (howner : x.owner = (s.mutex m).owner) (horiginal : x.originalPriority = (s.mutex m).originalPriority)
    (hwaiting : x.waiting.Sublist (s.mutex m).waiting) (hpriority : s'.priority = s.priority)
    (hbase : s'.base = s.base)
    (hplace : ∀ t m, (s'.place t).waitsOn m = true → (s.place t).waitsOn m = true) : s'.Inherits := by
  refine h.keep (fun m' => ?_) (fun m' => ?_) (fun m' => ?_) hpriority hbase hplace <;> rw [hmutex] <;>
    by_cases hm : m' = m
  · rw [hm, Function.update_self, howner]
  · rw [Function.update_of_ne hm]
  · rw [hm, Function.update_self, horiginal]
  · rw [Function.update_of_ne hm]
  · rw [hm, Function.update_self]
    exact hwaiting
  · simp only [Function.update_of_ne hm, List.Sublist.refl]

/-- The mutex `m` goes to `o`, and the thread that had it gets its own priority back. -/
theorem Inherits.pass {o : Option ThreadId} (h : s.Inherits) (hinv : ∀ m, s.Inv m)
    (hmutex : ∀ m' ≠ m, s'.mutex m' = s.mutex m') (howner : (s'.mutex m).owner = o)
    (hwaiting : (s'.mutex m).waiting.Sublist (s.mutex m).waiting)
    (hnew : ∀ u, o = some u → (∀ m' ≠ m, (s.mutex m').owner ≠ some u) ∧
      (s'.mutex m).originalPriority = s.base u ∧ s'.priority u = s.base u ∧
      (∀ m', (s'.place u).waitsOn m' = false) ∧ ∀ v ∈ (s'.mutex m).waiting, s.base u ≤ s.base v)
    (hpriority : ∀ u, s'.priority u = if (s.mutex m).owner = some u then s.base u else s.priority u)
    (hbase : s'.base = s.base)
    (hplace : ∀ u m', (s'.place u).waitsOn m' = true → (s.place u).waitsOn m' = true) : s'.Inherits where
  alone t m₁ m₂ h₁ h₂ := by
    by_cases hm₁ : m₁ = m <;> by_cases hm₂ : m₂ = m
    · rw [hm₁, hm₂]
    · rw [hm₁, howner] at h₁
      rw [hmutex m₂ hm₂] at h₂
      exact absurd h₂ ((hnew t h₁).1 m₂ hm₂)
    · rw [hmutex m₁ hm₁] at h₁
      rw [hm₂, howner] at h₂
      exact absurd h₁ ((hnew t h₂).1 m₁ hm₁)
    · rw [hmutex m₁ hm₁] at h₁
      rw [hmutex m₂ hm₂] at h₂
      exact h.alone t m₁ m₂ h₁ h₂
  idle t m₁ m₂ hwaits h₂ := by
    by_cases hm₂ : m₂ = m
    · rw [hm₂, howner] at h₂
      have hnot := (hnew t h₂).2.2.2.1 m₁
      rw [hwaits] at hnot
      cases hnot
    · rw [hmutex m₂ hm₂] at h₂
      exact h.idle t m₁ m₂ (hplace t m₁ hwaits) h₂
  base t hnone := by
    rw [hpriority, hbase]
    split
    · rfl
    · refine h.base t fun m' => ?_
      by_cases hm' : m' = m
      · rwa [hm']
      · rw [← hmutex m' hm']
        exact hnone m'
  original t m₁ h₁ := by
    rw [hbase]
    by_cases hm₁ : m₁ = m
    · rw [hm₁] at h₁ ⊢
      obtain ⟨-, horiginal, hnew, -⟩ := hnew t (howner.symm.trans h₁)
      exact ⟨horiginal, hnew ▸ UInt8.le_refl _⟩
    · rw [hmutex m₁ hm₁] at h₁ ⊢
      obtain ⟨horiginal, hle⟩ := h.original t m₁ h₁
      refine ⟨horiginal, ?_⟩
      rw [hpriority]
      split
      · exact UInt8.le_refl _
      · exact hle
  above t m₁ u h₁ hu := by
    have hwaits : (s.place u).waitsOn m₁ = true := by
      refine ((hinv m₁).waiters.mem_iff u).mp ?_
      by_cases hm₁ : m₁ = m
      · rw [hm₁] at hu ⊢
        exact hwaiting.subset hu
      · rwa [← hmutex m₁ hm₁]
    have hu' : s'.priority u = s.base u := by
      rw [hpriority, if_neg (h.idle u m₁ m hwaits)]
      exact h.base_of_waits hwaits
    rw [hu']
    by_cases hm₁ : m₁ = m
    · rw [hm₁] at h₁ hu
      obtain ⟨-, -, hnew, -, habove⟩ := hnew t (howner.symm.trans h₁)
      rw [hnew]
      exact habove u hu
    · rw [hmutex m₁ hm₁] at h₁ hu
      rw [hpriority, if_neg fun hm => hm₁ (h.alone t m₁ m h₁ hm), ← h.base_of_waits hwaits]
      exact h.above t m₁ u h₁ hu
  sorted m₁ := by
    rw [hbase]
    by_cases hm₁ : m₁ = m
    · rw [hm₁]
      exact (h.sorted m).sublist hwaiting
    · rw [hmutex m₁ hm₁]
      exact h.sorted m₁

theorem waitsOn_goto {p : MutexPlace} (hp : ∀ m, p.waitsOn m = false)
    (hwaits : (Function.update s.place t p u).waitsOn m = true) : (s.place u).waitsOn m = true := by
  by_cases hu : u = t
  · rw [hu, Function.update_self, hp] at hwaits
    cases hwaits
  · rwa [Function.update_of_ne hu] at hwaits

theorem Inherits.take (h : s.Inherits) (hinv : ∀ m, s.Inv m) (hfree : s.mutex m = {})
    (hsolo : ∀ m' ≠ m, (s.mutex m').owner ≠ some t) :
    ((s.setMutex m { value := 0, originalPriority := s.priority t, hold := 1, owner := some t }).entered t
      m).Inherits := by
  have hbase : s.priority t = s.base t := by
    refine h.base t fun m' ht => ?_
    by_cases hm : m' = m
    · rw [hm, hfree] at ht
      cases ht
    · exact hsolo m' hm ht
  refine h.pass (m := m) (o := some t) hinv (fun m' hm => Function.update_of_ne hm ..) ?_ ?_ ?_ (fun u => ?_)
    rfl fun u m' => waitsOn_goto fun _ => rfl
  · simp [entered, goto]
  · simp [entered, goto]
  · rintro u ⟨⟩
    exact ⟨hsolo, by simp [entered, goto, hbase], hbase, by simp [entered, goto], by simp [entered, goto]⟩
  · rw [hfree]
    rfl

theorem Inherits.release (h : s.Inherits) (hinv : ∀ m, s.Inv m) (howner : (s.mutex m).owner = some t) :
    (((s.setPriority t (s.mutex m).originalPriority).setMutex m {}).left t m).Inherits := by
  refine h.pass (m := m) (o := none) hinv (fun m' hm => Function.update_of_ne hm ..) ?_ ?_ nofun (fun u => ?_)
    rfl fun u m' => waitsOn_goto fun _ => rfl
  · simp [left, goto]
  · simp [left, goto]
  · by_cases hu : u = t
    · rw [hu, if_pos howner, ← (h.original t m howner).1]
      exact Function.update_self ..
    · rw [if_neg fun heq => hu (Option.some.inj (heq.symm.trans howner))]
      exact Function.update_of_ne hu ..

theorem Inherits.hand {thread : ThreadId} {rest : List ThreadId} (h : s.Inherits) (hinv : ∀ m, s.Inv m)
    (hout : s.place t = .out r) (howner : (s.mutex m).owner = some t)
    (hsome : (s.mutex m).waiting = thread :: rest) :
    ((((s.setPriority t (s.mutex m).originalPriority).setMutex m
      { value := 0
        originalPriority := (s.setPriority t (s.mutex m).originalPriority).priority thread
        hold := 1
        owner := some thread
        waiting := rest }).left t m).goto thread (.resumed m RT_EOK)).Inherits := by
  have hwaits : (s.place thread).waitsOn m = true := ((hinv m).waiters.mem_iff thread).mp (by simp [hsome])
  have hne : thread ≠ t := by
    rintro rfl
    rw [hout] at hwaits
    cases hwaits
  have hthread : (s.setPriority t (s.mutex m).originalPriority).priority thread = s.base thread :=
    (Function.update_of_ne hne ..).trans (h.base_of_waits hwaits)
  have hsorted := h.sorted m
  rw [hsome] at hsorted
  refine h.pass (m := m) (o := some thread) hinv (fun m' hm => Function.update_of_ne hm ..) ?_ ?_ ?_
    (fun u => ?_) rfl fun u m' hu => ?_
  · simp [left, goto]
  · simp [left, goto, hsome]
  · rintro u ⟨⟩
    refine ⟨fun m' _ => h.idle thread m m' hwaits, ?_, hthread, ?_, ?_⟩
    · simp only [left, goto, setMutex_self]
      exact hthread
    · simp [goto]
    · simp only [left, goto, setMutex_self]
      exact (List.pairwise_cons.mp hsorted).1
  · by_cases hu : u = t
    · rw [hu, if_pos howner, ← (h.original t m howner).1]
      exact Function.update_self ..
    · rw [if_neg fun heq => hu (Option.some.inj (heq.symm.trans howner))]
      exact Function.update_of_ne hu ..
  · exact waitsOn_goto (s := s) (t := t) (p := .out RT_EOK) (fun _ => rfl)
      (waitsOn_goto (s := (s.setMutex m {}).left t m) (fun _ => rfl) hu)

theorem inherit_priority {owner : ThreadId} (howner : (s.mutex m).owner = some owner) (u : ThreadId) :
    (s.inherit t m).priority u =
      if u = owner ∧ s.priority t < s.priority owner then s.priority t else s.priority u := by
  unfold inherit
  rw [howner]
  dsimp only
  split
  · rename_i hlt
    by_cases hu : u = owner
    · rw [hu, if_pos ⟨rfl, hlt⟩]
      exact Function.update_self ..
    · rw [if_neg fun heq => hu heq.1]
      exact Function.update_of_ne hu ..
  · rename_i hle
    rw [if_neg fun heq => hle heq.2]

theorem Inherits.wait {owner : ThreadId} (h : s.Inherits) (hinv : ∀ m, s.Inv m) (hout : s.place t = .out r)
    (howner : (s.mutex m).owner = some owner) (hne : owner ≠ t)
    (hsolo : ∀ m' ≠ m, (s.mutex m').owner ≠ some t) (timed : Bool) :
    ((s.inherit t m).suspend t m timed).Inherits := by
  have hnone (m' : MutexId) : (s.mutex m').owner ≠ some t := by
    by_cases hm : m' = m
    · rw [hm, howner]
      exact fun heq => hne (Option.some.inj heq)
    · exact hsolo m' hm
  have hsame {u : ThreadId} (hu : ∀ m', (s.mutex m').owner ≠ some u) :
      (s.inherit t m).priority u = s.base u := by
    rw [inherit_priority howner, if_neg ?_, h.base u hu]
    rintro ⟨rfl, -⟩
    exact hu m howner
  have hle (u : ThreadId) : (s.inherit t m).priority u ≤ s.priority u := by
    rw [inherit_priority howner]
    split
    · rename_i hlt
      rw [hlt.1]
      exact UInt8.le_of_lt hlt.2
    · exact UInt8.le_refl _
  have hwaits {u : ThreadId} {m' : MutexId} (hu : (s.place u).waitsOn m' = true) :
      (s.inherit t m).priority u = s.base u :=
    hsame fun m'' => h.idle u m' m'' hu
  -- what the step leaves of the other mutexes, and makes of `m`
  have hother (m' : MutexId) (hm : m' ≠ m) : ((s.inherit t m).suspend t m timed).mutex m' = s.mutex m' :=
    (setMutex_of_ne hm _).trans (congrFun (inherit_mutex s t m) m')
  have hself : ((s.inherit t m).suspend t m timed).mutex m = { s.mutex m with
      waiting := ipcListSuspend .prio (s.inherit t m).priority (s.mutex m).waiting t } := by
    simp [suspend, goto, inherit_mutex]
  have howner' (m' : MutexId) : (((s.inherit t m).suspend t m timed).mutex m').owner = (s.mutex m').owner := by
    by_cases hm : m' = m
    · rw [hm, hself]
    · rw [hother m' hm]
  have hplace (u : ThreadId) (hu : u ≠ t) : ((s.inherit t m).suspend t m timed).place u = s.place u :=
    (Function.update_of_ne hu ..).trans (congrFun (inherit_place s t m) u)
  have hmem {u : ThreadId} {m' : MutexId} (hu : u ∈ (((s.inherit t m).suspend t m timed).mutex m').waiting) :
      u = t ∧ m' = m ∨ u ∈ (s.mutex m').waiting := by
    by_cases hm : m' = m
    · rw [hm, hself, mem_ipcListSuspend] at hu
      exact hu.imp (⟨·, hm⟩) (hm ▸ ·)
    · rw [hother m' hm] at hu
      exact .inr hu
  have hbase : ((s.inherit t m).suspend t m timed).base = s.base := inherit_base s t m
  refine ⟨fun u m₁ m₂ => ?_, fun u m₁ m₂ hu => ?_, fun u hu => ?_, fun u m₁ hu => ?_, fun u m₁ v hu hv => ?_,
    fun m₁ => ?_⟩
  · rw [howner', howner']
    exact h.alone u m₁ m₂
  · rw [howner']
    by_cases hut : u = t
    · rw [hut]
      exact hnone m₂
    · rw [hplace u hut] at hu
      exact h.idle u m₁ m₂ hu
  · rw [hbase]
    exact hsame fun m' => howner' m' ▸ hu m'
  · rw [howner'] at hu
    obtain ⟨horiginal, hlow⟩ := h.original u m₁ hu
    rw [hbase]
    refine ⟨?_, UInt8.le_trans (hle u) hlow⟩
    by_cases hm : m₁ = m
    · rw [hm, hself, ← horiginal, hm]
    · rw [hother m₁ hm, horiginal]
  · rw [howner'] at hu
    change (s.inherit t m).priority u ≤ (s.inherit t m).priority v
    rcases hmem hv with ⟨rfl, rfl⟩ | hv
    · -- the thread that is about to wait
      obtain rfl := Option.some.inj (howner.symm.trans hu)
      rw [hsame hnone, ← h.base _ hnone, inherit_priority howner]
      split
      · exact UInt8.le_refl _
      · rename_i hge
        exact UInt8.not_lt.mp fun hlt => hge ⟨rfl, hlt⟩
    · have hv' := ((hinv m₁).waiters.mem_iff v).mp hv
      rw [hwaits hv', ← h.base_of_waits hv']
      exact UInt8.le_trans (hle u) (h.above u m₁ v hu hv)
  · rw [hbase]
    by_cases hm : m₁ = m
    · have hlist (u : ThreadId) (hu : u ∈ (s.mutex m).waiting) : (s.inherit t m).priority u = s.base u :=
        hwaits (((hinv m).waiters.mem_iff u).mp hu)
      have hsorted := insertByPriority_sorted t ((h.sorted m).imp_of_mem
        (S := fun u v => (s.inherit t m).priority u ≤ (s.inherit t m).priority v)
        fun hu hv hle => by rwa [hlist _ hu, hlist _ hv])
      have hlist' (u : ThreadId) (hu : u ∈ insertByPriority (s.inherit t m).priority t (s.mutex m).waiting) :
          (s.inherit t m).priority u = s.base u := by
        rw [(insertByPriority_perm _ t _).mem_iff, List.mem_cons] at hu
        rcases hu with rfl | hu
        · exact hsame hnone
        · exact hlist u hu
      rw [hm, hself]
      refine hsorted.imp_of_mem fun {u v} hu hv hle => ?_
      rwa [hlist' u hu, hlist' v hv] at hle
    · rw [hother m₁ hm]
      exact h.sorted m₁

theorem Stepped.inherits {i : Input} (hs : Stepped s i s') (hinv : ∀ m, s.Inv m) (h : s.Inherits)
    (hsolo : s.Solo i) : s'.Inherits := by
  cases hs with
  | fail i t result hout =>
    exact h.keep (fun _ => rfl) (fun _ => rfl) (fun _ => .refl _) rfl rfl fun u m => waitsOn_goto fun _ => rfl
  | again t m time hout howner hmax =>
    exact h.replace (m := m) rfl rfl rfl (.refl _) rfl rfl fun u m => waitsOn_goto fun _ => rfl
  | take t m time hout hfree => exact h.take hinv hfree hsolo
  | wait t m time owner hout howner hne => exact h.wait hinv hout howner hne hsolo _
  | drop t m hout howner hmore =>
    exact h.replace (m := m) rfl rfl rfl (.refl _) rfl rfl fun u m => waitsOn_goto fun _ => rfl
  | free t m hout howner hlast hnone => exact h.release hinv howner
  | hand t m thread rest hout howner hlast hsome => exact h.hand hinv hout howner hsome
  | timeout t m hplace =>
    exact h.replace (m := m) rfl rfl rfl List.erase_sublist rfl rfl fun u m => waitsOn_goto fun _ => rfl
  | timedOut t m error hplace herror =>
    exact h.keep (fun _ => rfl) (fun _ => rfl) (fun _ => .refl _) rfl rfl fun u m => waitsOn_goto fun _ => rfl
  | enter t m hplace =>
    exact h.keep (fun _ => rfl) (fun _ => rfl) (fun _ => .refl _) rfl rfl fun u m => waitsOn_goto fun _ => rfl
  | control t priority => exact hsolo.elim

/-- **The owner inherits.** Under every order of the sections of threads that take one mutex at a time: the
owner of a mutex runs at least at the priority of every thread that waits for it; a thread without a
mutex runs at its own priority; and the first thread of a list, which the release makes the owner, is one of
the highest priority of those that wait. -/
theorem mutex_inheritance (h : machine.Reach Solo s) :
    (∀ m t u, (s.mutex m).owner = some t → u ∈ (s.mutex m).waiting → s.priority t ≤ s.priority u) ∧
      (∀ t, (∀ m, (s.mutex m).owner ≠ some t) → s.priority t = s.base t) ∧
      ∀ m, (s.mutex m).waiting.Pairwise fun u v => s.priority u ≤ s.priority v := by
  have hinv := inv_of_reach h
  have hinherits : s.Inherits := by
    refine h.inv (P := Inherits) ?_ fun s i s' hr hP hok hstep => ?_
    · rintro _ ⟨priority, rfl⟩
      exact ⟨fun _ _ _ h => (nomatch h), fun _ _ _ h => (nomatch h), fun _ _ => rfl, nofun, nofun, fun _ => .nil⟩
    · exact (stepped (inv_of_reach hr) hstep).inherits (inv_of_reach hr) hP hok
  refine ⟨fun m t u => hinherits.above t m u, hinherits.base, fun m => ?_⟩
  refine (hinherits.sorted m).imp_of_mem fun hu hv hle => ?_
  rwa [hinherits.base_of_waits (((hinv m).waiters.mem_iff _).mp hu),
    hinherits.base_of_waits (((hinv m).waiters.mem_iff _).mp hv)]

/-- A thread of a high priority waits for one of a low priority. -/
def boosting : List Input := [.take 1 0 (-1), .take 2 0 (-1)]

/-- The owner has it then. -/
theorem mutex_inheritance_boosting : ∃ s : Mutexes, (s.mutex 0).owner = some 1 ∧ s.base 1 = 20 ∧
    s.priority 1 ≤ s.priority 2 ∧ s.priority 2 = 10 := by
  let start := init fun t => if t = 1 then 20 else 10
  let s := (machine.exec start boosting).get (by decide)
  have hmeets : machine.Meets Solo start boosting := by
    refine ⟨fun _ _ => nofun, ?_⟩
    rintro _ ⟨⟩
    refine ⟨fun m hm => ?_, fun _ _ => trivial⟩
    have hmutex : (start.take 1 0 (-1)).mutex m = {} := Function.update_of_ne hm ..
    rw [hmutex]
    exact nofun
  have hreach : machine.Reach Solo s := ⟨start, ⟨_, rfl⟩, .of_exec boosting (Option.some_get _).symm hmeets⟩
  have howner : (s.mutex 0).owner = some 1 := by decide
  exact ⟨s, howner, by decide, (mutex_inheritance hreach).1 0 1 2 howner (by decide), by decide⟩

end Mutexes

end Hcics
