import Hcics.Lib.RingBuffer
import Mathlib.Tactic.Common

/-!
# The receive buffer of a UART

`rt_hw_serial_isr` and `_serial_int_rx` of `components/drivers/serial/serial.c`, for a device opened
with `RT_DEVICE_FLAG_INT_RX`. The interrupt stores a character in one section with the interrupts
disabled, and a read takes one in another. The buffer is a `RingBuffer` that drops the oldest
character: `is_full` is set only where the indices are apart, so it never decides a read.
-/

namespace Hcics

/-- `struct rt_serial_rx_fifo`, with `config.bufsz`. -/
structure RxFifo where
  buffer : Nat → UInt8
  putIndex : UInt16
  getIndex : UInt16
  isFull : Bool
  bufsz : UInt16

namespace RxFifo

def opened (bufsz : UInt16) : RxFifo := ⟨fun _ => 0, 0, 0, false, bufsz⟩

/-- An index after the next cell. -/
def advance (f : RxFifo) (index : UInt16) : UInt16 := if index + 1 ≥ f.bufsz then 0 else index + 1

/-- A character in the loop of `rt_hw_serial_isr`. -/
def isr (f : RxFifo) (ch : UInt8) : RxFifo :=
  let put := f.advance f.putIndex
  let f := { f with buffer := Function.update f.buffer f.putIndex.toNat ch, putIndex := put }
  if put = f.getIndex then { f with getIndex := f.advance f.getIndex, isFull := true } else f

/-- The character would make the oldest one drop out. -/
def dropsOldest (f : RxFifo) : Bool := decide (f.advance f.putIndex = f.getIndex)

/-- A pass of the loop of `_serial_int_rx`: the character, where there is one. -/
def intRx (f : RxFifo) : Option (UInt8 × RxFifo) :=
  if f.getIndex = f.putIndex ∧ f.isFull = false then none
  else
    some (f.buffer f.getIndex.toNat, { f with getIndex := f.advance f.getIndex, isFull := false })

/-- The buffer as a ring. -/
def ring (f : RxFifo) : RingBuffer UInt8 :=
  ⟨f.buffer, f.putIndex.toNat, f.getIndex.toNat, f.bufsz.toNat⟩

/-- The characters not yet read, oldest first. -/
structure Holds (f : RxFifo) (unread : List UInt8) : Prop where
  ring : f.ring.Holds unread
  full : f.isFull = true → f.getIndex ≠ f.putIndex

variable {f : RxFifo} {unread : List UInt8}

theorem toNat_advance {index : UInt16} (h : index.toNat < f.bufsz.toNat) :
    (f.advance index).toNat = RingBuffer.next f.bufsz.toNat index.toNat := by
  have hsize := f.bufsz.toNat_lt
  have hsucc : (index + 1).toNat = index.toNat + 1 := by
    rw [UInt16.toNat_add, UInt16.toNat_one]
    omega
  unfold advance RingBuffer.next
  simp only [ge_iff_le, UInt16.le_iff_toNat_le, hsucc]
  split
  · rfl
  · exact hsucc

theorem opened_holds {bufsz : UInt16} (h : 0 < bufsz.toNat) : (opened bufsz).Holds [] where
  ring := ⟨h, h, (Nat.mod_eq_of_lt h).symm, fun _ hi => nomatch hi⟩
  full h := nomatch h

/-- The next write would meet the oldest character where only the cell left empty is free. -/
theorem Holds.advance_eq_iff (h : f.Holds unread) :
    f.advance f.putIndex = f.getIndex ↔ unread.length + 1 = f.bufsz.toNat := by
  have hput := toNat_advance h.ring.put_lt
  rw [← UInt16.toNat_inj, hput]
  exact h.ring.next_put_eq_iff

theorem isr_ring (h : f.Holds unread) (ch : UInt8) : (f.isr ch).ring = f.ring.push ch := by
  have hput := toNat_advance h.ring.put_lt
  have hget := toNat_advance h.ring.get_lt
  have hiff : f.advance f.putIndex = f.getIndex ↔
      RingBuffer.next f.bufsz.toNat f.putIndex.toNat = f.getIndex.toNat :=
    h.advance_eq_iff.trans h.ring.next_put_eq_iff.symm
  unfold isr RingBuffer.push
  by_cases hmeet : f.advance f.putIndex = f.getIndex
  · simp only [hmeet, if_true, ring, hiff.mp hmeet]
    exact congrArg (RingBuffer.mk _ _ · _) hget
  · simp only [hmeet, if_false, ring, mt hiff.mpr hmeet]
    exact congrArg (RingBuffer.mk _ · _ _) hput

/-- **A character is stored.** Where the buffer is full the oldest one makes room. -/
theorem Holds.isr (h : f.Holds unread) (hsize : 1 < f.bufsz.toNat) (ch : UInt8) :
    (f.isr ch).Holds (RingBuffer.keep f.bufsz.toNat (unread ++ [ch])) where
  ring := by
    rw [isr_ring h]
    exact h.ring.push ch
  full hfull := by
    have hput := toNat_advance h.ring.put_lt
    unfold RxFifo.isr at hfull ⊢
    by_cases hmeet : f.advance f.putIndex = f.getIndex
    · -- the index of reads has just moved on past the one of writes
      simp only [hmeet, if_true]
      intro heq
      have hnext := toNat_advance h.ring.get_lt
      have hlt := h.ring.get_lt
      simp only [RxFifo.ring] at hlt
      rw [show f.advance f.getIndex = f.getIndex from heq, RingBuffer.next_eq hlt] at hnext
      by_cases hwrap : f.getIndex.toNat + 1 < f.bufsz.toNat
      · rw [Nat.mod_eq_of_lt hwrap] at hnext
        omega
      · have hlast : f.getIndex.toNat + 1 = f.bufsz.toNat := by omega
        rw [hlast, Nat.mod_self] at hnext
        omega
    · simp only [hmeet, if_false] at hfull ⊢
      exact fun heq => hmeet heq.symm

/-- **A read takes the oldest character.** -/
theorem Holds.intRx (h : f.Holds unread) :
    (unread = [] ∧ f.intRx = none) ∨
      ∃ ch rest f', unread = ch :: rest ∧ f.intRx = some (ch, f') ∧ f'.Holds rest ∧
        f'.bufsz = f.bufsz := by
  have hiff : f.getIndex = f.putIndex ↔ unread = [] := by
    rw [← h.ring.get_eq_put_iff, ← UInt16.toNat_inj]
    rfl
  cases unread with
  | nil =>
    refine .inl ⟨rfl, if_pos ⟨hiff.mpr rfl, ?_⟩⟩
    exact Bool.eq_false_iff.mpr fun hfull => h.full hfull (hiff.mpr rfl)
  | cons ch rest =>
    have hne : f.getIndex ≠ f.putIndex := fun heq => List.cons_ne_nil ch rest (hiff.mp heq)
    obtain ⟨r, hpop, hr, -⟩ := h.ring.pop_cons
    have hne' : f.ring.get ≠ f.ring.put := fun heq => hne (UInt16.toNat_inj.mp heq)
    rw [RingBuffer.pop, if_neg hne'] at hpop
    obtain ⟨hch, rfl⟩ := Prod.mk.inj (Option.some.inj hpop)
    refine .inr ⟨ch, rest, { f with getIndex := f.advance f.getIndex, isFull := false }, rfl, ?_,
      ⟨?_, fun hfull => (Bool.false_ne_true hfull).elim⟩, rfl⟩
    · rw [RxFifo.intRx, if_neg fun hempty => hne hempty.1]
      exact congrArg (fun c => some (c, _)) hch
    · have hnext := toNat_advance h.ring.get_lt
      simp only [RxFifo.ring] at hr hnext ⊢
      rw [hnext]
      exact hr

/-! ## What a reader gets -/

/-- A buffer of `bufsz` cells whose UART received `received`, of which `overruns` characters dropped
out, `read` were read and `unread` wait. -/
structure Carries (bufsz : UInt16) (f : RxFifo) (received read unread : List UInt8) (overruns : Nat) :
    Prop where
  holds : f.Holds unread
  bufsz : f.bufsz = bufsz
  sublist : (read ++ unread).Sublist received
  length : received.length = read.length + unread.length + overruns

variable {bufsz : UInt16} {received read : List UInt8} {overruns : Nat}

theorem Carries.opened (h : 0 < bufsz.toNat) : Carries bufsz (.opened bufsz) [] [] [] 0 :=
  ⟨opened_holds h, rfl, .slnil, rfl⟩

theorem Carries.isr (h : Carries bufsz f received read unread overruns) (hsize : 1 < bufsz.toNat)
    (ch : UInt8) :
    Carries bufsz (f.isr ch) (received ++ [ch]) read (RingBuffer.keep bufsz.toNat (unread ++ [ch]))
      (overruns + if f.dropsOldest then 1 else 0) := by
  have hholds := h.holds.isr (h.bufsz.symm ▸ hsize) ch
  have hbufsz : (f.isr ch).bufsz = bufsz := by
    rw [← h.bufsz]
    unfold RxFifo.isr
    dsimp only
    split <;> rfl
  have hdrops : f.dropsOldest = true ↔ unread.length + 1 = bufsz.toNat := by
    rw [← h.bufsz]
    exact decide_eq_true_iff.trans h.holds.advance_eq_iff
  have hlt := h.holds.ring.length_lt
  have hlength := h.length
  have hall : (read ++ (unread ++ [ch])).Sublist (received ++ [ch]) := by
    rw [← List.append_assoc]
    exact h.sublist.append_right [ch]
  simp only [ring, h.bufsz] at hlt
  rw [h.bufsz] at hholds
  refine ⟨hholds, hbufsz, ?_, ?_⟩
  · unfold RingBuffer.keep
    split
    · exact hall
    · exact ((List.tail_sublist _).append_left read).trans hall
  · by_cases hfull : unread.length + 1 = bufsz.toNat
    · simp only [RingBuffer.keep, hdrops.mpr hfull, if_true, List.length_append, List.length_singleton,
        hfull, Nat.lt_irrefl, if_false, List.length_tail]
      omega
    · have hroom : unread.length + 1 < bufsz.toNat := by omega
      simp only [RingBuffer.keep, mt hdrops.mp hfull, List.length_append, List.length_singleton, hroom,
        if_true]
      simp only [Bool.false_eq_true, if_false]
      omega

theorem Carries.intRx (h : Carries bufsz f received read unread overruns) :
    (unread = [] ∧ f.intRx = none) ∨
      ∃ ch rest f', unread = ch :: rest ∧ f.intRx = some (ch, f') ∧
        Carries bufsz f' received (read ++ [ch]) rest overruns := by
  rcases h.holds.intRx with hempty | ⟨ch, rest, f', rfl, hread, hholds, hbufsz⟩
  · exact .inl hempty
  · have hlength := h.length
    refine .inr ⟨ch, rest, f', rfl, hread, hholds, hbufsz.trans h.bufsz, ?_, ?_⟩
    · rw [List.append_assoc]
      exact h.sublist
    · rw [List.length_cons] at hlength
      rw [List.length_append, List.length_singleton]
      omega

theorem Carries.eq_received (h : Carries bufsz f received read unread 0) : read ++ unread = received :=
  h.sublist.eq_of_length (by rw [List.length_append, h.length, Nat.add_zero])

end RxFifo

end Hcics
