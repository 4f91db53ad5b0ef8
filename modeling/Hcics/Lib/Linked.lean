import Mathlib.Data.List.Nodup
import Mathlib.Logic.Function.Basic

/-!
# Singly linked lists in a store

Nodes are linked by `next : β → Option β`; `Linked next p l` says that `l` is what following `next`
from the pointer `p` meets until it comes to `none`. The operations of a list are writes to `next`:
the node in front (`Linked.push`), the node behind the last one (`Linked.append`), and what leaves the
list alone (`Linked.update`). `collect` follows the pointers.
-/

universe u

variable {β : Type u}

/-- The nodes that following `next` from `p` meets. -/
inductive Linked (next : β → Option β) : Option β → List β → Prop where
  | nil : Linked next none []
  | cons {b : β} {l : List β} : Linked next (next b) l → Linked next (some b) (b :: l)

/-- The first `n` nodes from `p` on. -/
def collect (next : β → Option β) : Nat → Option β → List β
  | 0, _ => []
  | _ + 1, none => []
  | n + 1, some b => b :: collect next n (next b)

namespace Linked

variable {next next' : β → Option β} {p : Option β} {b : β} {l l' : List β}

theorem head_eq (h : Linked next p l) : p = l.head? := by
  cases h <;> rfl

theorem eq_nil (h : Linked next none l) : l = [] := by
  cases h
  rfl

theorem eq_none (h : Linked next p []) : p = none := by
  cases h
  rfl

theorem eq_cons (h : Linked next (some b) l) : ∃ rest, l = b :: rest ∧ Linked next (next b) rest := by
  cases h with
  | cons h => exact ⟨_, rfl, h⟩

theorem of_cons (h : Linked next p (b :: l)) : p = some b ∧ Linked next (next b) l := by
  cases h with
  | cons h => exact ⟨rfl, h⟩

theorem unique (h : Linked next p l) (h' : Linked next p l') : l = l' := by
  induction h generalizing l' with
  | nil => exact h'.eq_nil.symm
  | cons _ ih =>
    obtain ⟨rest, rfl, hrest⟩ := h'.eq_cons
    rw [ih hrest]

theorem congr (h : Linked next p l) (hb : ∀ b ∈ l, next' b = next b) : Linked next' p l := by
  induction h with
  | nil => exact .nil
  | cons _ ih =>
    refine .cons ?_
    rw [hb _ (List.mem_cons_self ..)]
    exact ih fun b hmem => hb b (List.mem_cons_of_mem _ hmem)

theorem collect_eq (h : Linked next p l) : collect next l.length p = l := by
  induction h with
  | nil => rfl
  | cons _ ih => exact congrArg (_ :: ·) ih

section Writes

variable [DecidableEq β]

theorem update (h : Linked next p l) (hb : b ∉ l) (q : Option β) :
    Linked (Function.update next b q) p l := by
  refine h.congr fun c hmem => Function.update_of_ne ?_ _ _
  rintro rfl
  exact hb hmem

theorem push (h : Linked next p l) (hb : b ∉ l) :
    Linked (Function.update next b p) (some b) (b :: l) := by
  refine .cons ?_
  rw [Function.update_self]
  exact h.update hb p

theorem append {last : β} (h : Linked next p (l ++ [last])) (hnodup : (l ++ [last]).Nodup)
    (hb : b ∉ l ++ [last]) (hnext : next b = none) :
    Linked (Function.update next last (some b)) p (l ++ [last] ++ [b]) := by
  have hlast : Function.update next last (some b) b = none := by
    rw [Function.update_of_ne, hnext]
    rintro rfl
    exact hb (by simp)
  induction l generalizing p with
  | nil =>
    obtain ⟨rfl, -⟩ := h.of_cons
    refine .cons ?_
    rw [Function.update_self]
    refine .cons ?_
    rw [hlast]
    exact .nil
  | cons c l ih =>
    obtain ⟨rfl, hrest⟩ := h.of_cons
    have hc : c ≠ last := by
      rintro rfl
      simp at hnodup
    refine .cons ?_
    rw [Function.update_of_ne hc]
    exact ih hrest (List.nodup_cons.mp hnodup).2 fun hmem => hb (List.mem_cons_of_mem _ hmem)

end Writes

end Linked
