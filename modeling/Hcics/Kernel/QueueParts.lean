import Hcics.Kernel.QueueSpec

/-!
# The blocks and the messages

`Parts` is the invariant of the queue's data: every block is free, queued or in the hands of exactly
one thread, the queued blocks hold the messages that `QueueEvent.after` says, and a thread in the
middle of a call finds its block as it left it. Here is what each section does to it.
-/

namespace Hcics

namespace MessageQueue

variable {q q' : MessageQueue} {t : ThreadId} {free queue held : List Nat} {msg : Nat}

/-- The blocks in the hands of the threads, each in those of one thread. -/
structure Hands (place : ThreadId → Place) (held : List Nat) : Prop where
  mem_iff : ∀ msg, msg ∈ held ↔ ∃ t, (place t).block = some msg
  apart : ∀ t u msg, (place t).block = some msg → (place u).block = some msg → t = u

namespace Hands

variable {place place' : ThreadId → Place} {p : Place}

theorem congr (h : Hands place held) (hblock : ∀ t, (place' t).block = (place t).block) :
    Hands place' held where
  mem_iff msg := by simp only [hblock, h.mem_iff]
  apart t u msg := by simpa only [hblock] using h.apart t u msg

theorem mem (h : Hands place held) (ht : (place t).block = some msg) : msg ∈ held :=
  (h.mem_iff msg).mpr ⟨t, ht⟩

theorem take (h : Hands place held) (ht : (place t).block = none) (hp : p.block = some msg)
    (hmsg : msg ∉ held) : Hands (Function.update place t p) (msg :: held) where
  mem_iff other := by
    rw [List.mem_cons, h.mem_iff]
    constructor
    · rintro (rfl | ⟨u, hu⟩)
      · exact ⟨t, by rw [Function.update_self, hp]⟩
      · have hne : u ≠ t := by
          rintro rfl
          simp [ht] at hu
        exact ⟨u, by rw [Function.update_of_ne hne, hu]⟩
    · rintro ⟨u, hu⟩
      by_cases hut : u = t
      · subst hut
        rw [Function.update_self, hp] at hu
        exact .inl (Option.some.inj hu).symm
      · rw [Function.update_of_ne hut] at hu
        exact .inr ⟨u, hu⟩
  apart u v other hu hv := by
    have fresh (w : ThreadId) (hw : w ≠ t) (hblock : (place w).block = some other) :
        other ≠ msg := fun heq => hmsg (heq ▸ h.mem hblock)
    by_cases hut : u = t <;> by_cases hvt : v = t
    · rw [hut, hvt]
    · rw [hut, Function.update_self, hp] at hu
      rw [Function.update_of_ne hvt] at hv
      exact (fresh v hvt hv (Option.some.inj hu).symm).elim
    · rw [hvt, Function.update_self, hp] at hv
      rw [Function.update_of_ne hut] at hu
      exact (fresh u hut hu (Option.some.inj hv).symm).elim
    · rw [Function.update_of_ne hut] at hu
      rw [Function.update_of_ne hvt] at hv
      exact h.apart u v other hu hv

theorem leave (h : Hands place (msg :: held)) (hmsg : msg ∉ held)
    (ht : (place t).block = some msg) (hp : p.block = none) :
    Hands (Function.update place t p) held where
  mem_iff other := by
    have hiff := h.mem_iff other
    rw [List.mem_cons] at hiff
    constructor
    · intro hmem
      obtain ⟨u, hu⟩ := hiff.mp (.inr hmem)
      have hne : u ≠ t := by
        rintro rfl
        exact hmsg (Option.some.inj (ht.symm.trans hu) ▸ hmem)
      exact ⟨u, by rw [Function.update_of_ne hne, hu]⟩
    · rintro ⟨u, hu⟩
      have hut : u ≠ t := by
        rintro rfl
        rw [Function.update_self, hp] at hu
        cases hu
      rw [Function.update_of_ne hut] at hu
      rcases hiff.mpr ⟨u, hu⟩ with rfl | hmem
      · exact (hut (h.apart u t _ hu ht)).elim
      · exact hmem
  apart u v other hu hv := by
    have moved (w : ThreadId) (hw : (Function.update place t p w).block = some other) :
        w ≠ t := by
      rintro rfl
      rw [Function.update_self, hp] at hw
      cases hw
    rw [Function.update_of_ne (moved u hu)] at hu
    rw [Function.update_of_ne (moved v hv)] at hv
    exact h.apart u v other hu hv

theorem atLeast (h : Hands place held) (hnodup : held.Nodup) :
    AtLeast (fun t => (place t).block.isSome = true) held.length := by
  have hall : ∀ msg ∈ held, ∃ t, (place t).block = some msg := fun msg hmem =>
    (h.mem_iff msg).mp hmem
  suffices hthreads : ∃ threads : List ThreadId, threads.Nodup ∧ threads.length = held.length ∧
      ∀ t ∈ threads, ∃ msg ∈ held, (place t).block = some msg by
    obtain ⟨threads, hthreads, hlength, hmem⟩ := hthreads
    refine ⟨threads, hthreads, hlength, fun t ht => ?_⟩
    obtain ⟨msg, -, hblock⟩ := hmem t ht
    rw [hblock]
    rfl
  clear h
  induction held with
  | nil => exact ⟨[], .nil, rfl, fun _ ht => nomatch ht⟩
  | cons msg held ih =>
    obtain ⟨hmsg, hnodup⟩ := List.nodup_cons.mp hnodup
    obtain ⟨threads, hthreads, hlength, hmem⟩ := ih hnodup fun b hb =>
      hall b (List.mem_cons_of_mem _ hb)
    obtain ⟨t, ht⟩ := hall msg (List.mem_cons_self ..)
    refine ⟨t :: threads, List.nodup_cons.mpr ⟨fun hmem' => ?_, hthreads⟩,
      congrArg (· + 1) hlength, fun u hu => ?_⟩
    · obtain ⟨b, hb, hblock⟩ := hmem t hmem'
      exact hmsg (Option.some.inj (ht.symm.trans hblock) ▸ hb)
    · rcases List.mem_cons.mp hu with rfl | hu
      · exact ⟨msg, List.mem_cons_self .., ht⟩
      · obtain ⟨b, hb, hblock⟩ := hmem u hu
        exact ⟨b, List.mem_cons_of_mem _ hb, hblock⟩

end Hands

/-- What holds between two sections, for the free blocks, the queued ones and those in hands. -/
structure Parts (q : MessageQueue) (free queue held : List Nat) : Prop where
  shape : q.pool.Shape free queue held
  entry : q.pool.entry.toNat = queue.length
  hands : Hands q.place held
  content : List.Forall₂ (fun m msg => m <+: q.pool.payload msg) (QueueEvent.after q.events) queue
  taken : List.Forall₂ (· <+: ·) (QueueEvent.popped q.events) q.taken
  relies : ∀ t, (q.place t).Relies q.pool
  received : ∀ r ∈ q.received,
    r.2.2 = r.2.1.take (if r.1 > q.pool.msgSize.toNat then q.pool.msgSize.toNat else r.1)

namespace Parts

theorem keep (h : Parts q free queue held) (hpool : q'.pool = q.pool)
    (hevents : q'.events = q.events) (htaken : q'.taken = q.taken)
    (hreceived : q'.received = q.received)
    (hblock : ∀ t, (q'.place t).block = (q.place t).block)
    (hrelies : ∀ t, (q'.place t).Relies q.pool) : Parts q' free queue held where
  shape := hpool ▸ h.shape
  entry := hpool ▸ h.entry
  hands := h.hands.congr hblock
  content := by rw [hevents, hpool]; exact h.content
  taken := by rw [hevents, htaken]; exact h.taken
  relies := hpool ▸ hrelies
  received := by rw [hreceived, hpool]; exact h.received

theorem goto (h : Parts q free queue held) {p : Place} (hblock : p.block = (q.place t).block)
    (hrelies : p.Relies q.pool) : Parts (q.goto t p) free queue held := by
  refine h.keep rfl rfl rfl rfl (fun u => ?_) (fun u => ?_) <;> by_cases hu : u = t
  · rw [hu, goto_place_self, hblock]
  · rw [goto_place_of_ne hu]
  · rw [hu, goto_place_self]
    exact hrelies
  · rw [goto_place_of_ne hu]
    exact h.relies u

theorem wake (h : Parts q free queue held) (error : RtErr) :
    Parts (q.goto t ((q.place t).wake error)) free queue held :=
  h.goto (Place.block_wake error _) (Place.relies_wake.mpr (h.relies t))

theorem senders (h : Parts q free queue held) (list : List ThreadId) :
    Parts { q with senders := list } free queue held :=
  h.keep rfl rfl rfl rfl (fun _ => rfl) h.relies

theorem receivers (h : Parts q free queue held) (list : List ThreadId) :
    Parts { q with receivers := list } free queue held :=
  h.keep rfl rfl rfl rfl (fun _ => rfl) h.relies

theorem resumeReceiver (h : Parts q free queue held) : Parts q.resumeReceiver free queue held := by
  unfold MessageQueue.resumeReceiver
  split
  · exact h
  · next t rest _ => exact (h.receivers rest).wake RT_EOK

theorem resumeSender (h : Parts q free queue held) : Parts q.resumeSender free queue held := by
  unfold MessageQueue.resumeSender
  split
  · exact h
  · next t rest _ => exact (h.senders rest).wake RT_EOK

theorem resumeAll (h : Parts q free queue held) : Parts q.resumeAll free queue held := by
  refine h.keep rfl rfl rfl rfl (fun t => ?_) (fun t => ?_) <;> simp only [MessageQueue.resumeAll]
  · split
    · exact Place.block_wake _ _
    · rfl
  · split
    · exact Place.relies_wake.mpr (h.relies t)
    · exact h.relies t

theorem front (h : Parts q free queue held) (ht : (q.place t).block = some msg) :
    Parts q free queue (msg :: held.erase msg) := by
  have hperm := List.perm_cons_erase (h.hands.mem ht)
  refine { h with shape := h.shape.congr_held hperm, hands := ?_ }
  refine ⟨fun other => ?_, h.hands.apart⟩
  rw [← hperm.mem_iff]
  exact h.hands.mem_iff other

/-- The other threads do not notice what is done to a thread's block and to the blocks that are not
in hands. -/
theorem relies_others (h : Parts q free queue (msg :: held)) (pool : MsgPool) (p : Place)
    (ht : (q.place t).block = some msg) (hp : p.Relies pool)
    (hsize : pool.msgSize = q.pool.msgSize)
    (hsame : ∀ b ∈ held, pool.payload b = q.pool.payload b ∧ pool.next b = q.pool.next b)
    (u : ThreadId) : ((q.goto t p).place u).Relies pool := by
  by_cases hu : u = t
  · rw [hu, goto_place_self]
    exact hp
  · rw [goto_place_of_ne hu]
    refine (h.relies u).frame hsize fun b hb => hsame b ?_
    rcases List.mem_cons.mp (h.hands.mem hb) with rfl | hmem
    · exact (hu (h.hands.apart u t _ hb ht)).elim
    · exact hmem

theorem takeFree (h : Parts q free queue held) {p : Place} (hfree : q.pool.free = some msg)
    (ht : (q.place t).block = none) (hp : p.block = some msg) (hrelies : p.Relies (q.pool.takeFree msg)) :
    Parts ({ q with pool := q.pool.takeFree msg }.goto t p) free.tail queue (msg :: held) := by
  obtain ⟨rest, rfl⟩ : ∃ rest, free = msg :: rest := by
    have := h.shape.freeList
    rw [hfree] at this
    obtain ⟨rest, rfl, -⟩ := this.eq_cons
    exact ⟨rest, rfl⟩
  have hshape := h.shape.takeFree
  refine ⟨hshape, h.entry, h.hands.take ht hp hshape.not_mem_held, h.content, h.taken, ?_,
    h.received⟩
  intro u
  by_cases hu : u = t
  · rw [hu, goto_place_self]
    exact hrelies
  · rw [goto_place_of_ne hu]
    exact (h.relies u).frame rfl fun _ _ => ⟨rfl, rfl⟩

theorem copyIn (h : Parts q free queue (msg :: held)) {urgent : Bool} {buffer : List UInt8}
    (hplace : q.place t = .sendCopy urgent buffer msg) :
    Parts (q.copySection t urgent buffer msg) free queue (msg :: held) := by
  have ht : (q.place t).block = some msg := by rw [hplace]; rfl
  have hne : ∀ b ∈ held, b ≠ msg := fun b hb heq => h.shape.not_mem_held (heq ▸ hb)
  have hpool : (if urgent = true then q.pool else q.pool.clearNext msg).Shape free queue
      (msg :: held) := by
    split
    · exact h.shape
    · exact h.shape.clearNext
  have hnext : ∀ b ∈ held,
      (if urgent = true then q.pool else q.pool.clearNext msg).next b = q.pool.next b := by
    intro b hb
    split
    · rfl
    · exact Function.update_of_ne (hne b hb) _ _
  have hpayload : (if urgent = true then q.pool else q.pool.clearNext msg).payload =
      q.pool.payload := by
    split <;> rfl
  have hsize : (if urgent = true then q.pool else q.pool.clearNext msg).msgSize =
      q.pool.msgSize := by
    split <;> rfl
  refine ⟨hpool.copyIn buffer, ?_, h.hands.congr fun u => ?_, ?_, h.taken, ?_, ?_⟩
  · have hentry := h.entry
    simp only [copySection, MessageQueue.goto, MsgPool.copyIn]
    split <;> exact hentry
  · rw [copySection]
    by_cases hu : u = t
    · rw [hu, goto_place_self, ht]
      rfl
    · rw [goto_place_of_ne hu]
  · have hcontent := List.forall₂_iff_zip.mp h.content
    refine List.forall₂_iff_zip.mpr ⟨hcontent.1, fun {m b} hmem => ?_⟩
    have hb : b ≠ msg := by
      rintro rfl
      exact h.shape.not_mem_queue (List.of_mem_zip hmem).2
    simp only [copySection, MessageQueue.goto, MsgPool.copyIn, Function.update_of_ne hb, hpayload]
    exact hcontent.2 hmem
  · refine h.relies_others (q.copySection t urgent buffer msg).pool (.sendLink urgent buffer msg) ht
      ⟨?_, ?_⟩ hsize fun b hb => ⟨?_, hnext b hb⟩
    · simp only [copySection, MessageQueue.goto, MsgPool.copyIn, Function.update_self]
      exact List.prefix_append _ _
    · intro hurgent
      simp only [copySection, MessageQueue.goto, hurgent, MsgPool.copyIn, Bool.false_eq_true,
        if_false, MsgPool.clearNext, Function.update_self]
    · simp only [copySection, MessageQueue.goto, MsgPool.copyIn, Function.update_of_ne (hne b hb),
        hpayload]
  · intro r hr
    have := h.received r hr
    simp only [copySection, MessageQueue.goto, MsgPool.copyIn, hsize]
    exact this

/-- The block in a thread's hands is neither free nor queued, so the counter does not overflow. -/
theorem entry_lt (h : Parts q free queue (msg :: held)) : q.pool.entry.toNat < 65535 := by
  have hlength := h.shape.length_eq
  have hmax : q.pool.maxMsgs.toNat < 65536 := q.pool.maxMsgs.toNat_lt
  rw [List.length_cons] at hlength
  have := h.entry
  omega

theorem drop (h : Parts q free queue (msg :: held)) (ht : (q.place t).block = some msg)
    (pool : MsgPool) (events : List (QueueEvent (List UInt8))) {free' queue' : List Nat}
    (shape : pool.Shape free' queue' held) (entry : pool.entry.toNat = queue'.length)
    (content : List.Forall₂ (fun m msg => m <+: pool.payload msg) (QueueEvent.after events) queue')
    (taken : List.Forall₂ (· <+: ·) (QueueEvent.popped events) q.taken)
    (hsize : pool.msgSize = q.pool.msgSize)
    (hsame : ∀ b ∈ held, pool.payload b = q.pool.payload b ∧ pool.next b = q.pool.next b) :
    Parts ({ q with pool := pool, events := events }.goto t (.out RT_EOK)) free' queue' held where
  shape := shape
  entry := entry
  hands := h.hands.leave h.shape.not_mem_held ht rfl
  content := content
  taken := taken
  relies := h.relies_others pool (.out RT_EOK) ht trivial hsize hsame
  received r hr := by
    simp only [MessageQueue.goto, hsize]
    exact h.received r hr

theorem link (h : Parts q free queue (msg :: held)) {urgent : Bool} {buffer : List UInt8}
    (hplace : q.place t = .sendLink urgent buffer msg) :
    ∃ queue', Parts (q.linkSection t urgent buffer msg) free queue' held := by
  have ht : (q.place t).block = some msg := by rw [hplace]; rfl
  have hrelies := h.relies t
  rw [hplace] at hrelies
  obtain ⟨hbuffer, hnext⟩ := hrelies
  have hlt := h.entry_lt
  have hcount : (q.pool.entry + 1).toNat = queue.length + 1 := by
    rw [UInt16.toNat_add, h.entry]
    have := h.entry
    simp only [UInt16.reduceToNat]
    omega
  have hguard : q.pool.entry < mqEntryMax := UInt16.lt_iff_toNat_lt.mpr hlt
  have hapart : ∀ b ∈ held, b ≠ msg := fun b hb heq => h.shape.not_mem_held (heq ▸ hb)
  cases urgent with
  | true =>
    have hentry : (q.pool.linkFirst msg).entry < mqEntryMax := hguard
    simp only [linkSection, if_true, hentry]
    refine ⟨msg :: queue, (h.drop ht _ _ (h.shape.linkFirst.countUp _) hcount ?_ ?_ rfl
      fun b hb => ⟨rfl, ?_⟩).resumeReceiver⟩
    · rw [QueueEvent.after_snoc]
      exact .cons hbuffer h.content
    · rw [QueueEvent.popped_snoc]
      simpa only [QueueEvent.out, List.append_nil] using h.taken
    · exact Function.update_of_ne (hapart b hb) _ _
  | false =>
    have hentry : (q.pool.link msg).entry < mqEntryMax := hguard
    simp only [linkSection, Bool.false_eq_true, if_false, hentry, if_true]
    refine ⟨queue ++ [msg], (h.drop ht _ _ ((h.shape.link (hnext rfl)).countUp _) ?_ ?_ ?_ rfl
      fun b hb => ⟨rfl, ?_⟩).resumeReceiver⟩
    · rw [List.length_append]
      exact hcount
    · rw [QueueEvent.after_snoc]
      exact List.rel_append h.content (.cons hbuffer .nil)
    · rw [QueueEvent.popped_snoc]
      simpa only [QueueEvent.out, List.append_nil] using h.taken
    · -- only the last block of the queue is written to
      cases htail : q.pool.tail with
      | none => simp only [MsgPool.link, htail]
      | some tail =>
        simp only [MsgPool.link, htail]
        refine Function.update_of_ne ?_ _ _
        rintro rfl
        have hmem : b ∈ queue := List.mem_of_getLast? (h.shape.tail.symm.trans htail)
        exact List.disjoint_of_nodup_append h.shape.nodup (List.mem_append_right _ hmem)
          (List.mem_cons_of_mem _ hb)

theorem recvSection_eq (h : Parts q free queue held) (io : KernelIo) (t : ThreadId) (size : Nat)
    (timeout : Int32) (hentry : q.pool.entry ≠ 0) :
    ∃ first rest, queue = first :: rest ∧
      q.recvSection io t size timeout =
        { q with
          pool := (q.pool.unlink first).countDown
          events := q.events ++ [QueueEvent.pop]
          taken := q.taken ++ [q.pool.payload first] }.goto t
            (.recvCopy size first (q.pool.payload first)) := by
  cases queue with
  | nil => exact (hentry (UInt16.toNat_inj.mp h.entry)).elim
  | cons first rest =>
    have hhead : q.pool.head = some first := h.shape.msgList.head_eq
    exact ⟨first, rest, rfl, by simp only [recvSection, hentry, if_false, hhead]⟩

theorem unlink (h : Parts q free queue held) {size : Nat} {timeout : Int32} {io : KernelIo}
    (ht : (q.place t).block = none) (hentry : q.pool.entry ≠ 0) :
    ∃ queue' held', Parts (q.recvSection io t size timeout) free queue' held' := by
  obtain ⟨first, rest, rfl, heq⟩ := h.recvSection_eq io t size timeout hentry
  have hshape := h.shape.unlink
  rw [heq]
  have hcontent := h.content
  generalize hafter : QueueEvent.after q.events = msgs at hcontent
  obtain ⟨m, ms, hm, hms, rfl⟩ := List.forall₂_cons_right_iff.mp hcontent
  refine ⟨rest, first :: held, hshape.countDown, ?_, h.hands.take ht rfl hshape.not_mem_held, ?_, ?_,
    fun u => ?_, h.received⟩
  · have hlength : q.pool.entry.toNat = rest.length + 1 := h.entry
    have hcount := MsgPool.countDown_entry (q := q.pool.unlink first) hentry
    exact hcount.trans (by rw [MsgPool.unlink, hlength]; rfl)
  · change List.Forall₂ _ (QueueEvent.after (q.events ++ [QueueEvent.pop])) rest
    rw [QueueEvent.after_snoc, hafter]
    exact hms
  · change List.Forall₂ _ (QueueEvent.popped (q.events ++ [QueueEvent.pop])) _
    rw [QueueEvent.popped_snoc, hafter]
    exact List.rel_append h.taken (.cons hm .nil)
  · by_cases hu : u = t
    · rw [hu, goto_place_self]
      rfl
    · rw [goto_place_of_ne hu]
      exact (h.relies u).frame rfl fun _ _ => ⟨rfl, rfl⟩

theorem giveBack (h : Parts q free queue (msg :: held)) {size : Nat} {taken buffer : List UInt8}
    (hplace : q.place t = .recvFree size msg taken buffer) :
    Parts (q.freeSection t size msg taken buffer) (msg :: free) queue held := by
  have ht : (q.place t).block = some msg := by rw [hplace]; rfl
  have hrelies := h.relies t
  rw [hplace] at hrelies
  have hapart : ∀ b ∈ held, b ≠ msg := fun b hb heq => h.shape.not_mem_held (heq ▸ hb)
  have hreceived : Parts { q with received := q.received ++ [(size, taken, buffer)] } free queue
      (msg :: held) := by
    refine { h with received := fun r hr => ?_ }
    rcases List.mem_append.mp hr with hr | hr
    · exact h.received r hr
    · rw [List.mem_singleton.mp hr]
      exact hrelies
  exact (hreceived.drop ht _ _ h.shape.giveBack h.entry h.content h.taken rfl fun b hb =>
    ⟨rfl, Function.update_of_ne (hapart b hb) _ _⟩).resumeSender

theorem reset (h : Parts q free queue held) {result : RtErr} (hplace : q.place t = .out result) :
    Parts (q.resetSection t) (queue.reverse ++ free) [] held := by
  have hall := h.resumeAll
  have hlength := h.shape.length_eq
  have hshape := h.shape.drain (n := q.pool.maxMsgs.toNat) (by omega)
  obtain ⟨hpayload, hsize, -⟩ := MsgPool.drain_frame q.pool.maxMsgs.toNat q.pool
  have hblock : (q.resumeAll.place t).block = none := by
    have hwake : q.resumeAll.place t = .out result := by
      simp only [MessageQueue.resumeAll, hplace, Place.wake, ite_self]
    rw [hwake]
    rfl
  refine ⟨hshape.countUp 0, rfl, hall.hands.congr fun u => ?_, ?_, ?_, fun u => ?_, ?_⟩
  · by_cases hu : u = t
    · rw [hu, resetSection, goto_place_self, hblock]
      rfl
    · rw [resetSection, goto_place_of_ne hu]
  · change List.Forall₂ _ (QueueEvent.after (q.events ++ [QueueEvent.clear])) []
    rw [QueueEvent.after_snoc]
    exact .nil
  · change List.Forall₂ _ (QueueEvent.popped (q.events ++ [QueueEvent.clear])) _
    rw [QueueEvent.popped_snoc]
    exact (List.append_nil _).symm ▸ h.taken
  · by_cases hu : u = t
    · rw [hu, resetSection, goto_place_self]
      trivial
    · rw [resetSection, goto_place_of_ne hu]
      refine (hall.relies u).frame hsize fun b hb => ⟨congrFun hpayload b, ?_⟩
      refine MsgPool.drain_next h.shape fun hmem => ?_
      exact List.disjoint_of_nodup_append h.shape.nodup (List.mem_append_right _ hmem)
        (hall.hands.mem hb)
  · have hsame : (q.resetSection t).pool.msgSize = q.pool.msgSize := hsize
    rw [hsame]
    exact h.received

end Parts

theorem create_parts (next : Nat → Option Nat) (payload : Nat → List UInt8)
    (msgSize maxMsgs : UInt16) (flag : IpcFlag) :
    Parts (create (MsgPool.create next payload msgSize maxMsgs) flag)
      (List.range maxMsgs.toNat).reverse [] [] where
  shape := MsgPool.create_shape next payload msgSize maxMsgs
  entry := rfl
  hands := ⟨fun _ => by simp [create, Place.block], fun _ _ _ ht => nomatch ht⟩
  content := .nil
  taken := .nil
  relies _ := trivial
  received _ hr := nomatch hr

end MessageQueue

end Hcics
