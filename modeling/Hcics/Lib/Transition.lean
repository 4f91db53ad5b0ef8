import Mathlib.Logic.Basic
import Mathlib.Data.Option.Basic

/-!
# Transition systems with inputs

A `Machine` is a set of start states and a partial step function: `step s i` is the state after the
input `i`, or `none` where `i` cannot happen in `s`. All nondeterminism sits in the inputs, so a run
is evaluated by `exec` on a list of inputs.

`Run ok` and `Reach ok` are the runs every step of which meets the condition `ok` on the state
before the step and its input; `free` is no condition. `Reach.inv` is the invariant rule,
`Run.inv` the same rule from a given state, `Reach.mono` forgets a condition. `Simulation` matches
every step of a machine by a run of another one, none or many steps long.
-/

universe u v u' v'

/-- A transition system with inputs `ι` over the states `σ`. -/
structure Machine (σ : Type u) (ι : Type v) where
  /-- The states a run starts in. -/
  start : σ → Prop
  /-- The state after an input; `none` where the input cannot happen. -/
  step : σ → ι → Option σ

namespace Machine

variable {σ : Type u} {ι : Type v} (M : Machine σ ι)

/-- No condition on the steps of a run. -/
def free (_ : σ) (_ : ι) : Prop := True

/-- `t` is reached from `s` by steps that all meet `ok`. -/
inductive Run (ok : σ → ι → Prop) (s : σ) : σ → Prop where
  | refl : Run ok s s
  | step {t t' : σ} (i : ι) : Run ok s t → ok t i → M.step t i = some t' → Run ok s t'

/-- `s` is reached from a start state by steps that all meet `ok`. -/
def Reach (ok : σ → ι → Prop) (s : σ) : Prop := ∃ s₀, M.start s₀ ∧ M.Run ok s₀ s

/-- The state after a list of inputs. -/
def exec (s : σ) : List ι → Option σ
  | [] => some s
  | i :: is => (M.step s i).bind fun t => exec t is

/-- Every step of the run of `is` from `s` meets `ok`. -/
def Meets (ok : σ → ι → Prop) (s : σ) : List ι → Prop
  | [] => True
  | i :: is => ok s i ∧ ∀ t ∈ M.step s i, Meets ok t is

instance decidableMeets (ok : σ → ι → Prop) [∀ s i, Decidable (ok s i)] :
    ∀ (is : List ι) (s : σ), Decidable (M.Meets ok s is)
  | [], _ => .isTrue trivial
  | i :: is, s =>
    have : ∀ t, Decidable (M.Meets ok t is) := decidableMeets ok is
    inferInstanceAs (Decidable (ok s i ∧ ∀ t ∈ M.step s i, M.Meets ok t is))

variable {M} {ok ok' : σ → ι → Prop} {s t u : σ}

theorem Run.trans (h : M.Run ok s t) (h' : M.Run ok t u) : M.Run ok s u := by
  induction h' with
  | refl => exact h
  | step i _ hok hstep ih => exact .step i ih hok hstep

theorem Run.single {i : ι} (hok : ok s i) (hstep : M.step s i = some t) : M.Run ok s t :=
  .step i .refl hok hstep

theorem Run.head {i : ι} (hok : ok s i) (hstep : M.step s i = some t) (h : M.Run ok t u) :
    M.Run ok s u :=
  (Run.single hok hstep).trans h

theorem Run.mono (hsub : ∀ s i, ok s i → ok' s i) (h : M.Run ok s t) : M.Run ok' s t := by
  induction h with
  | refl => exact .refl
  | step i _ hok hstep ih => exact .step i ih (hsub _ _ hok) hstep

/-- A property kept by every step from a state holds in every state reached from it. -/
theorem Run.inv {P : σ → Prop} (h : M.Run ok s t) (h0 : P s)
    (hstep : ∀ t i t', M.Run ok s t → P t → ok t i → M.step t i = some t' → P t') : P t := by
  induction h with
  | refl => exact h0
  | step i hrun hok hs ih => exact hstep _ _ _ hrun ih hok hs

theorem Reach.base (h : M.start s) : M.Reach ok s := ⟨s, h, .refl⟩

theorem Reach.step {i : ι} (h : M.Reach ok s) (hok : ok s i) (hstep : M.step s i = some t) :
    M.Reach ok t := by
  obtain ⟨s₀, h0, hrun⟩ := h
  exact ⟨s₀, h0, .step i hrun hok hstep⟩

theorem Reach.run (h : M.Reach ok s) (hrun : M.Run ok s t) : M.Reach ok t := by
  obtain ⟨s₀, h0, h⟩ := h
  exact ⟨s₀, h0, h.trans hrun⟩

theorem Reach.mono (hsub : ∀ s i, ok s i → ok' s i) (h : M.Reach ok s) : M.Reach ok' s := by
  obtain ⟨s₀, h0, hrun⟩ := h
  exact ⟨s₀, h0, hrun.mono hsub⟩

/-- The invariant rule: a property of the start states that every step from a reachable state
keeps holds in every reachable state. -/
theorem Reach.inv {P : σ → Prop} (h : M.Reach ok s) (h0 : ∀ s, M.start s → P s)
    (hstep : ∀ s i t, M.Reach ok s → P s → ok s i → M.step s i = some t → P t) : P s := by
  obtain ⟨s₀, hs, hrun⟩ := h
  exact hrun.inv (h0 s₀ hs) fun t i t' hr hP hok hst => hstep t i t' ⟨s₀, hs, hr⟩ hP hok hst

theorem Run.of_exec (is : List ι) (h : M.exec s is = some t) (hok : M.Meets ok s is) :
    M.Run ok s t := by
  induction is generalizing s with
  | nil =>
    obtain rfl : s = t := by simpa [exec] using h
    exact .refl
  | cons i is ih =>
    obtain ⟨r, hr, hrest⟩ := Option.bind_eq_some_iff.mp h
    exact .head hok.1 hr (ih hrest (hok.2 r hr))

theorem meets_free (is : List ι) : M.Meets Machine.free s is := by
  induction is generalizing s with
  | nil => trivial
  | cons i is ih => exact ⟨trivial, fun _ _ => ih⟩

theorem Reach.of_exec {is : List ι} (h0 : M.start s) (h : M.exec s is = some t) :
    M.Reach Machine.free t :=
  ⟨s, h0, .of_exec is h (meets_free is)⟩

theorem Reach.get {is : List ι} (h0 : M.start s) (h : (M.exec s is).isSome = true) :
    M.Reach Machine.free ((M.exec s is).get h) :=
  .of_exec h0 (Option.some_get h).symm

/-! ## Simulations -/

variable {τ : Type u'} {κ : Type v'}

/-- Related by `R`, the machine `N` follows every run of `M` whose steps meet `ok` by steps that meet
`okN`. -/
structure Simulation (M : Machine σ ι) (N : Machine τ κ) (ok : σ → ι → Prop) (okN : τ → κ → Prop)
    (R : σ → τ → Prop) : Prop where
  start : ∀ s, M.start s → ∃ t, N.start t ∧ R s t
  step : ∀ s i s' t, M.Reach ok s → R s t → ok s i → M.step s i = some s' →
    ∃ t', N.Run okN t t' ∧ R s' t'

theorem Simulation.reach {N : Machine τ κ} {okN : τ → κ → Prop} {R : σ → τ → Prop}
    (h : Simulation M N ok okN R) (hs : M.Reach ok s) : ∃ t, N.Reach okN t ∧ R s t := by
  refine hs.inv (P := fun s => ∃ t, N.Reach okN t ∧ R s t) ?_ ?_
  · intro s h0
    obtain ⟨t, ht, hR⟩ := h.start s h0
    exact ⟨t, .base ht, hR⟩
  · rintro s i s' hr ⟨t, ht, hR⟩ hok hstep
    obtain ⟨t', hrun, hR'⟩ := h.step s i s' t hr hR hok hstep
    exact ⟨t', ht.run hrun, hR'⟩

end Machine
