import Mathlib.Tactic.Common

/-!
# Deterministic systems seen from outside

A `Transducer` answers every input with an output. Two states are `Alike` when they give the same
outputs on every list of inputs; a relation that one input keeps and that gives equal outputs is
enough for that (`alike_of_bisimulation`), and one list with different outputs refutes it. Where the
inputs that meet `drop` leave a state like the one before them, a run shows what it shows without
them (`shown_eq`). `Each` is what holds of every step of a run, and `Meets` what is asked of every
input; `each_iff_meets` compares the two.
-/

universe u v w

/-- A system that moves to a state and gives an output on every input. -/
structure Transducer (σ : Type u) (ι : Type v) (ω : Type w) where
  step : σ → ι → σ × ω

namespace Transducer

variable {σ : Type u} {ι : Type v} {ω : Type w} (T : Transducer σ ι ω)

def run (s : σ) : List ι → σ
  | [] => s
  | i :: is => run (T.step s i).1 is

def outputs (s : σ) : List ι → List ω
  | [] => []
  | i :: is => (T.step s i).2 :: outputs (T.step s i).1 is

/-- The two states cannot be told apart. -/
def Alike (s t : σ) : Prop := ∀ is, T.outputs s is = T.outputs t is

/-- The inputs of a run that do not meet `drop`. -/
def erase (drop : σ → ι → Bool) (s : σ) : List ι → List ι
  | [] => []
  | i :: is =>
    if drop s i then erase drop (T.step s i).1 is else i :: erase drop (T.step s i).1 is

/-- The outputs of a run on the inputs that do not meet `drop`. -/
def shown (drop : σ → ι → Bool) (s : σ) : List ι → List ω
  | [] => []
  | i :: is =>
    if drop s i then shown drop (T.step s i).1 is
    else (T.step s i).2 :: shown drop (T.step s i).1 is

/-- Every input of a run meets `ok` in the state it comes in. -/
def Meets (ok : σ → ι → Prop) (s : σ) : List ι → Prop
  | [] => True
  | i :: is => ok s i ∧ Meets ok (T.step s i).1 is

/-- Every step of a run is related by `P`: the state before it, the input and the state after it. -/
def Each (P : σ → ι → σ → Prop) (s : σ) : List ι → Prop
  | [] => True
  | i :: is => P s i (T.step s i).1 ∧ Each P (T.step s i).1 is

instance decidableEach {P : σ → ι → σ → Prop} [∀ s i t, Decidable (P s i t)] (s : σ) :
    ∀ is, Decidable (T.Each P s is)
  | [] => .isTrue trivial
  | i :: is =>
    have := decidableEach (P := P) (T.step s i).1 is
    inferInstanceAs (Decidable (_ ∧ _))

variable {T} {s t : σ}

/-- Where a step is related exactly when its input meets `ok`, every step of a run is exactly when
every input is met. -/
theorem each_iff_meets {P : σ → ι → σ → Prop} {ok : σ → ι → Prop} {Q : σ → Prop}
    (hstep : ∀ s i, Q s → Q (T.step s i).1)
    (hiff : ∀ s i, Q s → (P s i (T.step s i).1 ↔ ok s i)) (is : List ι) (h : Q s) :
    T.Each P s is ↔ T.Meets ok s is := by
  induction is generalizing s with
  | nil => exact Iff.rfl
  | cons i is ih => exact and_congr (hiff s i h) (ih (hstep s i h))

theorem run_inv {P : σ → Prop} (hstep : ∀ s i, P s → P (T.step s i).1) (is : List ι) (h : P s) :
    P (T.run s is) := by
  induction is generalizing s with
  | nil => exact h
  | cons i is ih => exact ih (hstep s i h)

theorem Alike.symm (h : T.Alike s t) : T.Alike t s := fun is => (h is).symm

theorem Alike.step (h : T.Alike s t) (i : ι) :
    (T.step s i).2 = (T.step t i).2 ∧ T.Alike (T.step s i).1 (T.step t i).1 := by
  refine ⟨(List.cons.inj (h [i])).1, ?_⟩
  intro is
  exact (List.cons.inj (h (i :: is))).2

theorem Alike.run (h : T.Alike s t) (is : List ι) : T.Alike (T.run s is) (T.run t is) := by
  induction is generalizing s t with
  | nil => exact h
  | cons i is ih => exact ih (h.step i).2

/-- The bisimulation rule. -/
theorem alike_of_bisimulation {R : σ → σ → Prop}
    (hR : ∀ s t i, R s t → (T.step s i).2 = (T.step t i).2 ∧ R (T.step s i).1 (T.step t i).1)
    (h : R s t) : T.Alike s t := by
  intro is
  induction is generalizing s t with
  | nil => rfl
  | cons i is ih =>
    obtain ⟨hout, hnext⟩ := hR s t i h
    simp only [outputs]
    rw [hout, ih hnext]

/-- **What a run shows without the inputs that change nothing.** -/
theorem shown_eq {drop : σ → ι → Bool} {ok : σ → ι → Prop} {P : σ → Prop}
    (hstep : ∀ s i, P s → P (T.step s i).1)
    (hdrop : ∀ s i, P s → ok s i → drop s i = true → T.Alike (T.step s i).1 s)
    (is : List ι) (h : P s) (hok : T.Meets ok s is) :
    T.shown drop s is = T.outputs s (T.erase drop s is) := by
  induction is generalizing s with
  | nil => rfl
  | cons i is ih =>
    obtain ⟨hi, his⟩ := hok
    have hrest := ih (hstep s i h) his
    by_cases hd : drop s i = true
    · simp only [shown, erase, if_pos hd]
      rw [hrest]
      exact hdrop s i h hi hd _
    · simp only [shown, erase, if_neg hd, outputs]
      rw [hrest]

end Transducer
