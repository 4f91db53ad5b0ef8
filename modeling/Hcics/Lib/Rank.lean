import Mathlib.Order.Interval.Finset.Nat
import Mathlib.Tactic.Common

/-!
# The first elements of a set of numbers

`rank p a i` is how many elements a set has from `a` on and below `i`. The elements of rank below
`count` are the first `count` elements from `a` on, or all there are (`card_first`).
-/

namespace Rank

variable (p : ℕ → Bool) (a count : ℕ)

/-- How many elements there are in `[a, i)`. -/
def rank (i : ℕ) : ℕ := ((Finset.Ico a i).filter fun k => p k = true).card

/-- The element `i` is one of the first `count` from `a` on. -/
def First (i : ℕ) : Prop := p i = true ∧ a ≤ i ∧ rank p a i < count

instance (i : ℕ) : Decidable (First p a count i) :=
  inferInstanceAs (Decidable (_ ∧ _ ∧ _))

variable {p a count} {i : ℕ}

theorem rank_eq_zero (h : i ≤ a) : rank p a i = 0 := by
  simp [rank, Finset.Ico_eq_empty_of_le h]

theorem rank_succ (h : a ≤ i) : rank p a (i + 1) = rank p a i + if p i = true then 1 else 0 := by
  unfold rank
  rw [Nat.Ico_succ_right_eq_insert_Ico h, Finset.filter_insert]
  split_ifs with hp
  · rw [Finset.card_insert_of_notMem]
    simp
  · rfl

theorem rank_succ_of_lt (h : i < a) : rank p a (i + 1) = rank p a i := by
  rw [rank_eq_zero (by omega : i + 1 ≤ a), rank_eq_zero h.le]

theorem card_first (i : ℕ) :
    ((Finset.range i).filter (First p a count)).card = min count (rank p a i) := by
  induction i with
  | zero => simp [rank_eq_zero (Nat.zero_le a)]
  | succ i ih =>
    rw [Finset.range_add_one, Finset.filter_insert]
    have hnotMem : i ∉ (Finset.range i).filter (First p a count) := by simp
    by_cases ha : a ≤ i
    · by_cases hp : p i = true
      · by_cases hlt : rank p a i < count
        · rw [if_pos ⟨hp, ha, hlt⟩, Finset.card_insert_of_notMem hnotMem, ih, rank_succ ha,
            if_pos hp]
          omega
        · rw [if_neg fun hfirst => hlt hfirst.2.2, ih, rank_succ ha, if_pos hp]
          omega
      · rw [if_neg fun hfirst => hp hfirst.1, ih, rank_succ ha, if_neg hp, Nat.add_zero]
    · rw [if_neg fun hfirst => ha hfirst.2.1, ih, rank_succ_of_lt (Nat.lt_of_not_le ha)]

end Rank
