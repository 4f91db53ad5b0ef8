import Mathlib.InformationTheory.Coding.UniquelyDecodable
import Mathlib.Data.List.Infix
import Mathlib.Tactic.Common

/-!
# Streams of codewords

In a prefix-free code no codeword begins another one, so a stream of codewords can be cut in one way
only, also where it ends inside a codeword (`PrefixFree.parse_unique`). A code is prefix-free where
its first items, as many as every codeword has, determine the length (`PrefixFree.of_head`).
-/

universe u

namespace Codes

variable {α : Type u} {S : Set (List α)}

/-- No codeword is empty, or a prefix of another one. -/
structure PrefixFree (S : Set (List α)) : Prop where
  ne_nil : [] ∉ S
  eq_of_prefix : ∀ u ∈ S, ∀ v ∈ S, u <+: v → u = v

/-- The beginning of a codeword that is not all of it. -/
def Unfinished (S : Set (List α)) (x : List α) : Prop := ∃ w ∈ S, x <+: w ∧ x ≠ w

/-- A code whose first `n` items determine the length of a codeword. -/
theorem PrefixFree.of_head {n : ℕ} (hn : 0 < n) (hlen : ∀ u ∈ S, n ≤ u.length)
    (hhead : ∀ u ∈ S, ∀ v ∈ S, u.take n = v.take n → u.length = v.length) : PrefixFree S := by
  refine ⟨?_, ?_⟩
  · intro hnil
    have := hlen [] hnil
    simp at this
    omega
  · rintro u hu v hv ⟨w, rfl⟩
    have htake : (u ++ w).take n = u.take n := by
      rw [List.take_append_of_le_length (hlen u hu)]
    exact List.IsPrefix.eq_of_length ⟨w, rfl⟩ (hhead u hu _ hv htake.symm)

theorem PrefixFree.unfinished_nil (h : PrefixFree S) {w : List α} (hw : w ∈ S) : Unfinished S [] := by
  refine ⟨w, hw, List.nil_prefix, ?_⟩
  rintro rfl
  exact h.ne_nil hw

theorem prefix_or_prefix {a b x y : List α} (h : a ++ x = b ++ y) : a <+: b ∨ b <+: a :=
  List.prefix_or_prefix_of_prefix ⟨x, rfl⟩ ⟨y, h.symm⟩

/-- The stream ends in a codeword that is not complete, where another reading has a whole one. -/
theorem PrefixFree.not_unfinished (h : PrefixFree S) {w x y : List α} (hw : w ∈ S)
    (hx : Unfinished S x) : x ≠ w ++ y := by
  rintro rfl
  obtain ⟨v, hv, hpre, hne⟩ := hx
  have hwv : w = v := h.eq_of_prefix w hw v hv ((List.prefix_append w y).trans hpre)
  subst hwv
  have hlen := hpre.length_le
  rw [List.length_append] at hlen
  have hy : y = [] := List.eq_nil_of_length_eq_zero (by omega)
  rw [hy, List.append_nil] at hne
  exact hne rfl

/-- A stream of codewords of a prefix-free code can be cut in one way only, whether it ends with a
codeword or inside one. -/
theorem PrefixFree.parse_unique (h : PrefixFree S) {L₁ L₂ : List (List α)} {x y : List α}
    (h₁ : ∀ w ∈ L₁, w ∈ S) (h₂ : ∀ w ∈ L₂, w ∈ S) (hx : Unfinished S x) (hy : Unfinished S y)
    (heq : L₁.flatten ++ x = L₂.flatten ++ y) : L₁ = L₂ ∧ x = y := by
  induction L₁ generalizing L₂ with
  | nil =>
    cases L₂ with
    | nil => exact ⟨rfl, heq⟩
    | cons v L₂ =>
      rw [List.flatten_nil, List.nil_append, List.flatten_cons, List.append_assoc] at heq
      exact absurd heq (h.not_unfinished (h₂ v List.mem_cons_self) hx)
  | cons u L₁ ih =>
    cases L₂ with
    | nil =>
      rw [List.flatten_nil, List.nil_append, List.flatten_cons, List.append_assoc] at heq
      exact absurd heq.symm (h.not_unfinished (h₁ u List.mem_cons_self) hy)
    | cons v L₂ =>
      rw [List.flatten_cons, List.flatten_cons, List.append_assoc, List.append_assoc] at heq
      have hu := h₁ u List.mem_cons_self
      have hv := h₂ v List.mem_cons_self
      have huv : u = v := by
        rcases prefix_or_prefix heq with hpre | hpre
        · exact h.eq_of_prefix u hu v hv hpre
        · exact (h.eq_of_prefix v hv u hu hpre).symm
      subst huv
      obtain ⟨rfl, rfl⟩ := ih (fun w hw => h₁ w (List.mem_cons_of_mem u hw))
        (fun w hw => h₂ w (List.mem_cons_of_mem u hw)) (List.append_cancel_left heq)
      exact ⟨rfl, rfl⟩

theorem PrefixFree.uniquelyDecodable (h : PrefixFree S) :
    InformationTheory.UniquelyDecodable S := by
  intro L₁ L₂ h₁ h₂ heq
  have hcut : ∀ w ∈ S, L₁ = L₂ := fun w hw =>
    (h.parse_unique h₁ h₂ (h.unfinished_nil hw) (h.unfinished_nil hw) (by rw [heq])).1
  rcases L₁ with _ | ⟨u, L₁⟩
  · rcases L₂ with _ | ⟨v, L₂⟩
    · rfl
    · exact hcut v (h₂ v List.mem_cons_self)
  · exact hcut u (h₁ u List.mem_cons_self)

end Codes
