import Hcics.Kernel.MessageQueue
import Mathlib.Data.List.Range
import Mathlib.Data.List.Forall2

/-!
# The blocks of a message queue

Every block of the pool is free, queued or in the hands of one thread. `Shape` says which, in the
order of the two linked lists; each operation of the pool moves one block.
-/

namespace Hcics

namespace MsgPool

variable {q : MsgPool} {free queue held : List Nat} {msg : Nat}

/-- The free blocks, the queued ones and the others. -/
structure Shape (q : MsgPool) (free queue held : List Nat) : Prop where
  freeList : Linked q.next q.free free
  msgList : Linked q.next q.head queue
  tail : q.tail = queue.getLast?
  blocks : (free ++ queue ++ held).Perm (List.range q.maxMsgs.toNat)

namespace Shape

theorem nodup (h : q.Shape free queue held) : (free ++ queue ++ held).Nodup :=
  h.blocks.nodup_iff.mpr List.nodup_range

theorem congr_held {held' : List Nat} (h : q.Shape free queue held) (hp : held.Perm held') :
    q.Shape free queue held' :=
  { h with blocks := ((hp.symm.append_left _).trans h.blocks) }

theorem length_eq (h : q.Shape free queue held) :
    free.length + queue.length + held.length = q.maxMsgs.toNat := by
  have := h.blocks.length_eq
  simpa [Nat.add_assoc] using this

theorem not_mem_free (h : q.Shape free queue (msg :: held)) : msg ∉ free := by
  have := h.nodup
  intro hmem
  exact List.disjoint_of_nodup_append this (List.mem_append_left _ hmem) (List.mem_cons_self ..)

theorem not_mem_queue (h : q.Shape free queue (msg :: held)) : msg ∉ queue := by
  have := h.nodup
  intro hmem
  exact List.disjoint_of_nodup_append this (List.mem_append_right _ hmem) (List.mem_cons_self ..)

theorem not_mem_held (h : q.Shape free queue (msg :: held)) : msg ∉ held :=
  (List.nodup_cons.mp (List.nodup_append.mp h.nodup).2.1).1

theorem takeFree (h : q.Shape (msg :: free) queue held) :
    (q.takeFree msg).Shape free queue (msg :: held) where
  freeList := h.freeList.of_cons.2
  msgList := h.msgList
  tail := h.tail
  blocks := by
    refine List.perm_middle.trans (List.Perm.trans ?_ h.blocks)
    simp

theorem clearNext (h : q.Shape free queue (msg :: held)) :
    (q.clearNext msg).Shape free queue (msg :: held) where
  freeList := h.freeList.update h.not_mem_free none
  msgList := h.msgList.update h.not_mem_queue none
  tail := h.tail
  blocks := h.blocks

theorem copyIn (h : q.Shape free queue held) (buffer : List UInt8) :
    (q.copyIn msg buffer).Shape free queue held :=
  ⟨h.freeList, h.msgList, h.tail, h.blocks⟩

theorem link (h : q.Shape free queue (msg :: held)) (hnext : q.next msg = none) :
    (q.link msg).Shape free (queue ++ [msg]) held := by
  have hblocks : (free ++ (queue ++ [msg]) ++ held).Perm (List.range q.maxMsgs.toNat) := by
    simpa using h.blocks
  rcases List.eq_nil_or_concat queue with rfl | ⟨front, last, rfl⟩
  · have htail : q.tail = none := h.tail
    have hhead : q.head = none := h.msgList.eq_none
    have hlinked : Linked q.next (some msg) [msg] := .cons (hnext ▸ .nil)
    refine ⟨?_, ?_, ?_, hblocks⟩
    · simpa only [MsgPool.link, htail] using h.freeList
    · simpa only [MsgPool.link, htail, hhead, List.nil_append] using hlinked
    · rfl
  · rw [List.concat_eq_append] at *
    have htail : q.tail = some last := by simpa using h.tail
    have hhead : q.head = (front ++ [last]).head? := h.msgList.head_eq
    have hfree : last ∉ free := by
      intro hmem
      exact List.disjoint_of_nodup_append (List.nodup_append.mp h.nodup).1 hmem (by simp)
    have hnodup : (front ++ [last]).Nodup :=
      (List.nodup_append.mp (List.nodup_append.mp h.nodup).1).2.1
    refine ⟨?_, ?_, ?_, hblocks⟩
    · simpa only [MsgPool.link, htail] using h.freeList.update hfree (some msg)
    · have hlinked := h.msgList.append hnodup h.not_mem_queue hnext
      rw [hhead] at hlinked
      simp only [MsgPool.link, htail, hhead]
      cases front with
      | nil => exact hlinked
      | cons first front => exact hlinked
    · simp [MsgPool.link]

theorem linkFirst (h : q.Shape free queue (msg :: held)) :
    (q.linkFirst msg).Shape free (msg :: queue) held where
  freeList := h.freeList.update h.not_mem_free q.head
  msgList := h.msgList.push h.not_mem_queue
  tail := by
    have htail := h.tail
    cases queue with
    | nil => simp [MsgPool.linkFirst, htail]
    | cons first rest =>
      rw [List.getLast?_cons_cons, ← htail]
      rw [List.getLast?_eq_some_getLast (List.cons_ne_nil first rest)] at htail
      simp [MsgPool.linkFirst, htail]
  blocks := by
    refine List.Perm.trans ?_ h.blocks
    simpa using (@List.perm_middle _ msg queue held).symm.append_left free

theorem unlink (h : q.Shape free (msg :: queue) held) :
    (q.unlink msg).Shape free queue (msg :: held) where
  freeList := h.freeList
  msgList := h.msgList.of_cons.2
  tail := by
    have htail := h.tail
    have hmsg : msg ∉ queue :=
      (List.nodup_cons.mp (List.nodup_append.mp (List.nodup_append.mp h.nodup).1).2.1).1
    cases queue with
    | nil => simp [MsgPool.unlink, htail]
    | cons first rest =>
      rw [List.getLast?_cons_cons] at htail
      have hne : q.tail ≠ some msg := by
        rw [htail]
        intro heq
        exact hmsg (List.mem_of_getLast? heq)
      rw [← htail]
      exact if_neg hne
  blocks := by
    refine List.Perm.trans ?_ h.blocks
    simpa using (@List.perm_middle _ msg queue held).append_left free

theorem countDown (h : q.Shape free queue held) : q.countDown.Shape free queue held :=
  ⟨h.freeList, h.msgList, h.tail, h.blocks⟩

theorem countUp (h : q.Shape free queue held) (entry : UInt16) :
    ({ q with entry := entry } : MsgPool).Shape free queue held :=
  ⟨h.freeList, h.msgList, h.tail, h.blocks⟩

theorem giveBack (h : q.Shape free queue (msg :: held)) :
    (q.giveBack msg).Shape (msg :: free) queue held where
  freeList := h.freeList.push h.not_mem_free
  msgList := h.msgList.update h.not_mem_queue q.free
  tail := h.tail
  blocks := by
    refine List.Perm.trans ?_ h.blocks
    simpa using (@List.perm_middle _ msg (free ++ queue) held).symm

theorem drain {n : Nat} (h : q.Shape free queue held) (hn : queue.length ≤ n) :
    (q.drain n).Shape (queue.reverse ++ free) [] held := by
  induction n generalizing q free queue with
  | zero =>
    obtain rfl : queue = [] := List.length_eq_zero_iff.mp (Nat.le_zero.mp hn)
    exact h
  | succ n ih =>
    cases queue with
    | nil =>
      have hhead : q.head = none := h.msgList.eq_none
      simpa only [MsgPool.drain, hhead, List.reverse_nil, List.nil_append] using h
    | cons first rest =>
      have hhead : q.head = some first := h.msgList.head_eq
      have hrest := ih (h.unlink.giveBack) (Nat.le_of_succ_le_succ hn)
      simpa only [MsgPool.drain, hhead, List.reverse_cons, List.append_assoc,
        List.singleton_append] using hrest

end Shape

/-! ## What the operations leave alone -/

theorem drain_frame (n : Nat) (q : MsgPool) :
    (q.drain n).payload = q.payload ∧ (q.drain n).msgSize = q.msgSize ∧
      (q.drain n).maxMsgs = q.maxMsgs := by
  induction n generalizing q with
  | zero => exact ⟨rfl, rfl, rfl⟩
  | succ n ih =>
    cases hhead : q.head with
    | none => simp only [drain, hhead, and_self]
    | some msg =>
      simp only [drain, hhead]
      exact ih _

theorem drain_next {n : Nat} (h : q.Shape free queue held) (hmsg : msg ∉ queue) :
    (q.drain n).next msg = q.next msg := by
  induction n generalizing q free queue with
  | zero => rfl
  | succ n ih =>
    cases queue with
    | nil =>
      have hhead : q.head = none := h.msgList.eq_none
      simp only [drain, hhead]
    | cons first rest =>
      have hhead : q.head = some first := h.msgList.head_eq
      have hne : msg ≠ first := fun heq => hmsg (heq ▸ List.mem_cons_self ..)
      simp only [drain, hhead]
      rw [ih h.unlink.giveBack fun hmem => hmsg (List.mem_cons_of_mem _ hmem)]
      exact Function.update_of_ne hne _ _

theorem countDown_entry (h : q.entry ≠ 0) : q.countDown.entry.toNat = q.entry.toNat - 1 := by
  have hne : q.entry.toNat ≠ 0 := fun heq => h (UInt16.toNat_inj.mp heq)
  have hpos : q.entry > 0 := UInt16.lt_iff_toNat_lt.mpr (Nat.pos_of_ne_zero hne)
  have hone : (1 : UInt16) ≤ q.entry := UInt16.le_iff_toNat_le.mpr (Nat.one_le_iff_ne_zero.mpr hne)
  rw [countDown, if_pos hpos, UInt16.toNat_sub_of_le _ _ hone]
  rfl

theorem freeBlocks_linked (next : Nat → Option Nat) (n : Nat) :
    Linked (freeBlocks next n).1 (freeBlocks next n).2 (List.range n).reverse := by
  induction n with
  | zero => exact .nil
  | succ n ih =>
    rw [List.range_succ, List.reverse_append, List.reverse_singleton, List.singleton_append]
    exact ih.push (by simp)

theorem create_shape (next : Nat → Option Nat) (payload : Nat → List UInt8)
    (msgSize maxMsgs : UInt16) :
    (create next payload msgSize maxMsgs).Shape (List.range maxMsgs.toNat).reverse [] [] where
  freeList := freeBlocks_linked next _
  msgList := .nil
  tail := rfl
  blocks := by
    rw [List.append_nil, List.append_nil]
    exact List.reverse_perm _

end MsgPool

end Hcics
