import Hcics.Basic
import Hcics.Lib.Transition

/-!
# Waiting threads

What the objects of `rt-thread/src/ipc.c` share: the list of threads suspended on an object, in the
order of `_ipc_list_suspend`. A section with the interrupts disabled is one step; a thread that is
suspended gives up the processor and goes on once it is resumed or its timer fires.
-/

namespace Hcics

abbrev ThreadId := Nat

/-- The flag of an IPC object: how its threads queue. -/
inductive IpcFlag where
  | fifo | prio
  deriving DecidableEq, Repr

/-- What a section reads besides the object: the tick and the `current_priority` of the threads. -/
structure KernelIo where
  now : Tick := 0
  priority : ThreadId → UInt8 := fun _ => 0

/-- The loop of `_ipc_list_suspend` with `RT_IPC_FLAG_PRIO`: the thread goes before the first one of
a lower priority. -/
def insertByPriority (priority : ThreadId → UInt8) (thread : ThreadId) : List ThreadId → List ThreadId
  | [] => [thread]
  | sthread :: rest =>
    if priority thread < priority sthread then thread :: sthread :: rest
    else sthread :: insertByPriority priority thread rest

/-- `_ipc_list_suspend`, without `rt_thread_suspend`. -/
def ipcListSuspend (flag : IpcFlag) (priority : ThreadId → UInt8) (list : List ThreadId)
    (thread : ThreadId) : List ThreadId :=
  match flag with
  | .fifo => list ++ [thread]
  | .prio => insertByPriority priority thread list

theorem insertByPriority_perm (priority : ThreadId → UInt8) (thread : ThreadId)
    (list : List ThreadId) : (insertByPriority priority thread list).Perm (thread :: list) := by
  induction list with
  | nil => exact .refl _
  | cons sthread rest ih =>
    simp only [insertByPriority]
    split
    · exact .refl _
    · exact (ih.cons _).trans (.swap ..)

theorem insertByPriority_sorted {priority : ThreadId → UInt8} (thread : ThreadId) {list : List ThreadId}
    (h : list.Pairwise fun u v => priority u ≤ priority v) :
    (insertByPriority priority thread list).Pairwise fun u v => priority u ≤ priority v := by
  induction list with
  | nil => exact List.pairwise_singleton _ _
  | cons sthread rest ih =>
    obtain ⟨hfirst, hrest⟩ := List.pairwise_cons.mp h
    simp only [insertByPriority]
    split
    · rename_i hlt
      refine List.pairwise_cons.mpr ⟨fun u hu => ?_, h⟩
      rcases List.mem_cons.mp hu with rfl | hu
      · exact UInt8.le_of_lt hlt
      · exact UInt8.le_trans (UInt8.le_of_lt hlt) (hfirst u hu)
    · rename_i hle
      refine List.pairwise_cons.mpr ⟨fun u hu => ?_, ih hrest⟩
      rw [(insertByPriority_perm priority thread rest).mem_iff] at hu
      rcases List.mem_cons.mp hu with rfl | hu
      · exact UInt8.not_lt.mp hle
      · exact hfirst u hu

theorem ipcListSuspend_perm (flag : IpcFlag) (priority : ThreadId → UInt8) (list : List ThreadId)
    (thread : ThreadId) : (ipcListSuspend flag priority list thread).Perm (thread :: list) := by
  cases flag with
  | fifo => exact List.perm_append_singleton thread list
  | prio => exact insertByPriority_perm priority thread list

theorem mem_ipcListSuspend {flag : IpcFlag} {priority : ThreadId → UInt8} {list : List ThreadId}
    {thread other : ThreadId} :
    other ∈ ipcListSuspend flag priority list thread ↔ other = thread ∨ other ∈ list := by
  rw [(ipcListSuspend_perm flag priority list thread).mem_iff, List.mem_cons]

theorem nodup_ipcListSuspend {flag : IpcFlag} {priority : ThreadId → UInt8} {list : List ThreadId}
    {thread : ThreadId} (hlist : list.Nodup) (hthread : thread ∉ list) :
    (ipcListSuspend flag priority list thread).Nodup := by
  rw [(ipcListSuspend_perm flag priority list thread).nodup_iff]
  exact List.nodup_cons.mpr ⟨hthread, hlist⟩

/-! ## Suspended threads -/

/-- `list` holds the threads at the places that wait. -/
structure Waiters {π : Type} (place : ThreadId → π) (waits : π → Bool) (list : List ThreadId) : Prop where
  nodup : list.Nodup
  mem_iff : ∀ t, t ∈ list ↔ waits (place t) = true

section Waiters

variable {π : Type} {place : ThreadId → π} {waits : π → Bool} {list rest : List ThreadId} {p : π}
  {t : ThreadId}

theorem Waiters.keep (h : Waiters place waits list) (hp : waits p = waits (place t)) :
    Waiters (Function.update place t p) waits list where
  nodup := h.nodup
  mem_iff u := by
    by_cases hu : u = t
    · rw [hu, Function.update_self, hp, h.mem_iff]
    · rw [Function.update_of_ne hu, h.mem_iff]

theorem Waiters.suspend (h : Waiters place waits list) (flag : IpcFlag)
    (priority : ThreadId → UInt8) (ht : waits (place t) = false) (hp : waits p = true) :
    Waiters (Function.update place t p) waits (ipcListSuspend flag priority list t) where
  nodup := nodup_ipcListSuspend h.nodup fun hmem => by simp [(h.mem_iff t).mp hmem] at ht
  mem_iff u := by
    rw [mem_ipcListSuspend]
    by_cases hu : u = t
    · simp only [hu, true_or, Function.update_self, hp]
    · simp only [hu, false_or, Function.update_of_ne hu, h.mem_iff]

theorem Waiters.erase (h : Waiters place waits list) (hp : waits p = false) :
    Waiters (Function.update place t p) waits (list.erase t) where
  nodup := h.nodup.erase t
  mem_iff u := by
    rw [List.Nodup.mem_erase_iff h.nodup]
    by_cases hu : u = t
    · simp [hu, hp]
    · simp [hu, h.mem_iff]

theorem Waiters.tail (h : Waiters place waits (t :: rest)) (hp : waits p = false) :
    Waiters (Function.update place t p) waits rest := by
  have := h.erase (t := t) hp
  rwa [List.erase_cons_head] at this

end Waiters

/-! ## Counting threads -/

def AtLeast (P : ThreadId → Prop) (n : Nat) : Prop :=
  ∃ threads : List ThreadId, threads.Nodup ∧ threads.length = n ∧ ∀ t ∈ threads, P t

namespace AtLeast

variable {P P' : ThreadId → Prop} {n : Nat} {t : ThreadId}

theorem zero : AtLeast P 0 := ⟨[], .nil, rfl, fun _ h => nomatch h⟩

theorem mono (h : AtLeast P n) (hP : ∀ u, P u → P' u) : AtLeast P' n := by
  obtain ⟨threads, hnodup, hlength, hmem⟩ := h
  exact ⟨threads, hnodup, hlength, fun u hu => hP u (hmem u hu)⟩

theorem succ (h : AtLeast P n) (hP : ∀ u, P u → P' u) (ht : P' t) (hnot : ¬ P t) :
    AtLeast P' (n + 1) := by
  obtain ⟨threads, hnodup, hlength, hmem⟩ := h
  refine ⟨t :: threads, List.nodup_cons.mpr ⟨fun hmem' => hnot (hmem t hmem'), hnodup⟩,
    congrArg (· + 1) hlength, fun u hu => ?_⟩
  rcases List.mem_cons.mp hu with rfl | hu
  · exact ht
  · exact hP u (hmem u hu)

theorem pred (h : AtLeast P n) (hP : ∀ u, u ≠ t → P u → P' u) : AtLeast P' (n - 1) := by
  obtain ⟨threads, hnodup, hlength, hmem⟩ := h
  by_cases ht : t ∈ threads
  · refine ⟨threads.erase t, hnodup.erase t, ?_, fun u hu => ?_⟩
    · rw [List.length_erase_of_mem ht, hlength]
    · have hu' := (List.Nodup.mem_erase_iff hnodup).mp hu
      exact hP u hu'.1 (hmem u hu'.2)
  · refine ⟨threads.take (n - 1), hnodup.sublist (List.take_sublist ..), ?_, fun u hu => ?_⟩
    · rw [List.length_take, hlength]
      exact Nat.min_eq_left (Nat.sub_le n 1)
    · have hu' := List.mem_of_mem_take hu
      exact hP u (fun heq => ht (heq ▸ hu')) (hmem u hu')

end AtLeast

end Hcics
