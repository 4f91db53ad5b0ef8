import Mathlib.Data.List.Sort

/-!
# Agendas

An agenda holds what is to happen in the order in which it falls due, and of what falls due at one time
the earlier entry first. `Entry.Before` is this order. An entry that is made last belongs behind all that
are not due later.
-/

namespace Agenda

/-- An entry made at a time, to fall due some time later; `number` counts the entries. -/
structure Entry where
  made : Nat
  wait : Nat
  number : Nat
  deriving DecidableEq, Repr

namespace Entry

def due (e : Entry) : Nat := e.made + e.wait

/-- `e` falls due before `f`, or with it and was made earlier. -/
def Before (e f : Entry) : Prop := e.due < f.due ∨ e.due = f.due ∧ e.number < f.number

instance (e f : Entry) : Decidable (Before e f) := inferInstanceAs (Decidable (_ ∨ _))

variable {e f g : Entry}

theorem Before.due_le (h : Before e f) : e.due ≤ f.due := by
  rcases h with h | h
  · exact Nat.le_of_lt h
  · exact Nat.le_of_eq h.1

theorem Before.trans (h : Before e f) (h' : Before f g) : Before e g := by
  simp only [Before] at *
  omega

end Entry

/-! ## Insertion -/

variable {α : Type} {entry : α → Entry}

/-- The order stays where the new entry is the last one made, and goes before those that are due later. -/
theorem orderedInsert_sorted {a : α} {l : List α} (h : l.Pairwise fun b c => (entry b).Before (entry c))
    (hnew : ∀ b ∈ l, (entry b).number < (entry a).number) :
    (l.orderedInsert (fun b c => (entry b).due < (entry c).due) a).Pairwise
      fun b c => (entry b).Before (entry c) := by
  induction l with
  | nil => exact List.pairwise_singleton _ _
  | cons b l ih =>
    obtain ⟨hfirst, hrest⟩ := List.pairwise_cons.mp h
    rw [List.orderedInsert_cons]
    split
    · rename_i hlater
      have hb : (entry a).Before (entry b) := .inl hlater
      refine List.pairwise_cons.mpr ⟨fun c hc => ?_, h⟩
      rcases List.mem_cons.mp hc with rfl | hc
      · exact hb
      · exact hb.trans (hfirst c hc)
    · rename_i hnot
      have hle : (entry b).due ≤ (entry a).due := Nat.not_lt.mp hnot
      refine List.pairwise_cons.mpr ⟨fun c hc => ?_, ih hrest fun c hc => hnew c (List.mem_cons_of_mem _ hc)⟩
      rcases (List.mem_orderedInsert _).mp hc with rfl | hc
      · exact (Nat.lt_or_eq_of_le hle).imp id (⟨·, hnew b List.mem_cons_self⟩)
      · exact hfirst c hc

end Agenda
