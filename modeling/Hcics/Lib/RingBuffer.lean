import Mathlib.Data.Nat.ModEq
import Mathlib.Tactic.Common

/-!
# Ring buffers that drop the oldest

An array of `size` cells between the indices `get` and `put`; a cell is always left empty, so that
equal indices are an empty ring. A push that would make the two equal drops the oldest element.
`Holds` gives the elements, oldest first; `push` and `pop` are the operations of a queue of at most
`size - 1` elements that keeps the newest ones (`RingBuffer.keep`).
-/

universe u

structure RingBuffer (α : Type u) where
  cells : Nat → α
  put : Nat
  get : Nat
  size : Nat

namespace RingBuffer

variable {α : Type u}

def next (size i : Nat) : Nat := if i + 1 ≥ size then 0 else i + 1

/-- An element goes to the cell at `put`. -/
def push (r : RingBuffer α) (a : α) : RingBuffer α :=
  let put := next r.size r.put
  { r with
    cells := Function.update r.cells r.put a
    put := put
    get := if put = r.get then next r.size r.get else r.get }

/-- The oldest element, and the ring without it. -/
def pop (r : RingBuffer α) : Option (α × RingBuffer α) :=
  if r.get = r.put then none else some (r.cells r.get, { r with get := next r.size r.get })

/-- The newest elements that fit. -/
def keep (size : Nat) (l : List α) : List α := if l.length < size then l else l.tail

/-- The ring holds these elements, oldest first. -/
structure Holds (r : RingBuffer α) (l : List α) : Prop where
  get_lt : r.get < r.size
  length_lt : l.length < r.size
  put_eq : r.put = (r.get + l.length) % r.size
  cell : ∀ i (h : i < l.length), r.cells ((r.get + i) % r.size) = l[i]

theorem next_eq {size i : Nat} (h : i < size) : next size i = (i + 1) % size := by
  unfold next
  split
  · have heq : i + 1 = size := by omega
    rw [heq, Nat.mod_self]
  · rw [Nat.mod_eq_of_lt (by omega)]

namespace Holds

variable {r : RingBuffer α} {l : List α}

theorem size_pos (h : r.Holds l) : 0 < r.size := Nat.lt_of_le_of_lt (Nat.zero_le _) h.get_lt

theorem put_lt (h : r.Holds l) : r.put < r.size := by
  rw [h.put_eq]
  exact Nat.mod_lt _ h.size_pos

theorem get_eq_put_iff (h : r.Holds l) : r.get = r.put ↔ l = [] := by
  have hget := h.get_lt
  have hlength := h.length_lt
  rw [h.put_eq]
  constructor
  · intro heq
    by_cases hwrap : r.get + l.length < r.size
    · rw [Nat.mod_eq_of_lt hwrap] at heq
      exact List.length_eq_zero_iff.mp (by omega)
    · rw [Nat.mod_eq_sub_mod (by omega), Nat.mod_eq_of_lt (by omega)] at heq
      omega
  · rintro rfl
    rw [List.length_nil, Nat.add_zero, Nat.mod_eq_of_lt hget]

theorem pop_cons {a : α} (h : r.Holds (a :: l)) :
    ∃ r', r.pop = some (a, r') ∧ r'.Holds l ∧ r'.size = r.size := by
  have hne : r.get ≠ r.put := fun heq => List.cons_ne_nil a l (h.get_eq_put_iff.mp heq)
  have hcell := h.cell 0 (Nat.succ_pos _)
  rw [Nat.add_zero, Nat.mod_eq_of_lt h.get_lt, List.getElem_cons_zero] at hcell
  have hnext := next_eq h.get_lt
  have hlength := h.length_lt
  rw [List.length_cons] at hlength
  refine ⟨{ r with get := next r.size r.get }, ?_, ⟨?_, ?_, ?_, ?_⟩, rfl⟩
  · rw [pop, if_neg hne, hcell]
  · simp only [hnext]
    exact Nat.mod_lt _ h.size_pos
  · exact Nat.lt_of_succ_lt hlength
  · simp only [hnext, Nat.mod_add_mod]
    rw [h.put_eq, List.length_cons]
    congr 1
    omega
  · intro i hi
    have hcell' := h.cell (i + 1) (Nat.succ_lt_succ hi)
    simp only [hnext, Nat.mod_add_mod]
    rw [List.getElem_cons_succ] at hcell'
    rw [← hcell']
    congr 2
    omega

theorem next_put_eq_iff (h : r.Holds l) : next r.size r.put = r.get ↔ l.length + 1 = r.size := by
  have hget := h.get_lt
  have hlength := h.length_lt
  rw [next_eq h.put_lt, h.put_eq, Nat.mod_add_mod, Nat.add_assoc]
  constructor
  · intro heq
    by_contra hne
    have hmodEq : r.get + (l.length + 1) ≡ r.get + 0 [MOD r.size] := by
      rw [Nat.ModEq, heq, Nat.add_zero, Nat.mod_eq_of_lt hget]
    have hzero := Nat.ModEq.eq_of_lt_of_lt (Nat.ModEq.add_left_cancel' r.get hmodEq) (by omega)
      h.size_pos
    exact Nat.succ_ne_zero _ hzero
  · intro hfull
    rw [hfull, Nat.add_mod_right, Nat.mod_eq_of_lt hget]

/-- A push adds the newest element and drops the oldest one where the ring is full. -/
theorem push (h : r.Holds l) (a : α) :
    (r.push a).Holds (keep r.size (l ++ [a])) := by
  have hget := h.get_lt
  have hlength := h.length_lt
  have hnextPut : next r.size r.put = (r.get + (l.length + 1)) % r.size := by
    rw [next_eq h.put_lt, h.put_eq, Nat.mod_add_mod, Nat.add_assoc]
  -- the cell written is none of those in use
  have hcells : ∀ i (hi : i < (l ++ [a]).length),
      (r.push a).cells ((r.get + i) % r.size) = (l ++ [a])[i] := by
    intro i hi
    rw [List.length_append, List.length_singleton] at hi
    by_cases heq : i = l.length
    · subst heq
      simp only [RingBuffer.push, ← h.put_eq, Function.update_self, List.getElem_concat_length]
    · have hi' : i < l.length := by omega
      have hne : (r.get + i) % r.size ≠ r.put := by
        rw [h.put_eq]
        intro hmod
        have hmodEq : i ≡ l.length [MOD r.size] := Nat.ModEq.add_left_cancel' r.get hmod
        exact heq (Nat.ModEq.eq_of_lt_of_lt hmodEq (by omega) hlength)
      simp only [RingBuffer.push, Function.update_of_ne hne]
      rw [h.cell i hi', List.getElem_append_left hi']
  by_cases hroom : l.length + 1 < r.size
  · have hput : next r.size r.put ≠ r.get := mt h.next_put_eq_iff.mp (by omega)
    have hkeep : keep r.size (l ++ [a]) = l ++ [a] := if_pos (by simpa using hroom)
    have hgetEq : (r.push a).get = r.get := by simp only [RingBuffer.push, hput, if_false]
    rw [hkeep]
    refine ⟨hgetEq ▸ hget, by simpa [RingBuffer.push] using hroom, ?_, fun i hi => ?_⟩
    · rw [hgetEq, List.length_append, List.length_singleton]
      exact hnextPut
    · rw [hgetEq]
      exact hcells i hi
  · have hfull : l.length + 1 = r.size := by omega
    have hput : next r.size r.put = r.get := h.next_put_eq_iff.mpr hfull
    have hkeep : keep r.size (l ++ [a]) = (l ++ [a]).tail := if_neg (by simp [hfull])
    have hgetEq : (r.push a).get = (r.get + 1) % r.size := by
      simp only [RingBuffer.push, hput, if_true, next_eq hget]
    have hlength' : (l ++ [a]).tail.length = l.length := by simp
    rw [hkeep]
    refine ⟨?_, ?_, ?_, fun i hi => ?_⟩
    · rw [hgetEq]
      exact Nat.mod_lt _ h.size_pos
    · rw [hlength']
      exact hlength
    · rw [hgetEq, hlength']
      change next r.size r.put = ((r.get + 1) % r.size + l.length) % r.size
      rw [Nat.mod_add_mod, hnextPut]
      congr 1
      omega
    · rw [hlength'] at hi
      have hcell := hcells (i + 1) (by simpa using Nat.succ_lt_succ hi)
      have hindex : ((r.push a).get + i) % r.size = (r.get + (i + 1)) % r.size := by
        rw [hgetEq, Nat.mod_add_mod]
        congr 1
        omega
      rw [List.getElem_tail]
      exact (congrArg _ hindex).trans hcell

end Holds

end RingBuffer
