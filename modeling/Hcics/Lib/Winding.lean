import Mathlib.Data.Int.ModEq
import Mathlib.Data.List.Chain
import Mathlib.Tactic.Common

/-!
# Steps added up along a walk

A walk is the list of states a system was seen in, and `total step` adds up a signed `step` from each
state to the next. Where the step fits a potential `pos` modulo `m`, the total is the difference of
the potential at the two ends, modulo `m`; modulo 0 that is an equality. Where going back undoes a
step, the walk back undoes the walk.
-/

universe u v

namespace Winding

variable {α : Type u} {β : Type v} (step : α → α → ℤ)

/-- The steps from each state of a walk to the next, added up. -/
def total : List α → ℤ
  | [] => 0
  | [_] => 0
  | a :: b :: xs => step a b + total (b :: xs)

variable {step} {a b : α} {xs ys : List α}

@[simp] theorem total_nil : total step [] = 0 := rfl

@[simp] theorem total_singleton : total step [a] = 0 := rfl

@[simp] theorem total_cons_cons : total step (a :: b :: xs) = step a b + total step (b :: xs) := rfl

theorem total_append_cons (xs : List α) (a : α) (ys : List α) :
    total step (xs ++ a :: ys) = total step (xs ++ [a]) + total step (a :: ys) := by
  induction xs with
  | nil => simp
  | cons x xs ih =>
    cases xs with
    | nil => simp
    | cons y xs =>
      simp only [List.cons_append, total_cons_cons] at ih ⊢
      rw [ih, add_assoc]

theorem total_snoc (xs : List α) (a b : α) :
    total step (xs ++ [a] ++ [b]) = total step (xs ++ [a]) + step a b := by
  rw [List.append_assoc, List.singleton_append, total_append_cons]
  simp

theorem total_reverse (anti : ∀ a b, step b a = -step a b) (xs : List α) :
    total step xs.reverse = -total step xs := by
  induction xs with
  | nil => simp
  | cons x xs ih =>
    cases xs with
    | nil => simp
    | cons y xs =>
      rw [List.reverse_cons, List.reverse_cons, total_snoc, ← List.reverse_cons, ih,
        total_cons_cons, anti x y]
      omega

/-- A walk that reads the same in both directions ends with a total of 0. -/
theorem total_palindrome (anti : ∀ a b, step b a = -step a b) (hpal : xs.reverse = xs) :
    total step xs = 0 := by
  have hback := total_reverse anti xs
  rw [hpal] at hback
  omega

/-- A walk followed by its reverse, with or without the turning point seen twice. -/
theorem total_there_and_back (anti : ∀ a b, step b a = -step a b) (xs : List α) :
    total step (xs ++ xs.reverse) = 0 ∧ total step (xs ++ xs.reverse.tail) = 0 := by
  refine ⟨total_palindrome anti (by simp), total_palindrome anti ?_⟩
  induction xs using List.reverseRecOn with
  | nil => rfl
  | append_singleton xs x _ => simp

theorem total_map (f : β → α) (xs : List β) :
    total step (xs.map f) = total (fun a b => step (f a) (f b)) xs := by
  induction xs with
  | nil => rfl
  | cons x xs ih =>
    cases xs with
    | nil => rfl
    | cons y xs =>
      simp only [List.map_cons, total_cons_cons] at ih ⊢
      rw [ih]

/-- The potential rule: where every step fits `pos` modulo `m`, only the ends of the walk count. -/
theorem total_modEq {m : ℤ} {pos : α → ℤ} {r : α → α → Prop}
    (fits : ∀ a b, r a b → step a b ≡ pos b - pos a [ZMOD m]) (h : (a :: xs).IsChain r) :
    total step (a :: xs) ≡ pos ((a :: xs).getLast (List.cons_ne_nil a xs)) - pos a [ZMOD m] := by
  induction xs generalizing a with
  | nil => simp [Int.ModEq.refl]
  | cons b xs ih =>
    rw [List.isChain_cons_cons] at h
    have hsum := (fits a b h.1).add (ih h.2)
    rw [total_cons_cons, List.getLast_cons (List.cons_ne_nil b xs)]
    have hends : pos b - pos a + (pos ((b :: xs).getLast (List.cons_ne_nil b xs)) - pos b) =
        pos ((b :: xs).getLast (List.cons_ne_nil b xs)) - pos a := by omega
    rwa [hends] at hsum

/-- Where the step is the difference of the potential itself, so is the total. -/
theorem total_eq_sub (pos : α → ℤ) {r : α → α → Prop}
    (fits : ∀ a b, r a b → step a b = pos b - pos a) (h : (a :: xs).IsChain r) :
    total step (a :: xs) = pos ((a :: xs).getLast (List.cons_ne_nil a xs)) - pos a := by
  have hmod := total_modEq (m := 0) (fun a b hr => Int.modEq_zero_iff.mpr (fits a b hr)) h
  exact Int.modEq_zero_iff.mp hmod

end Winding
