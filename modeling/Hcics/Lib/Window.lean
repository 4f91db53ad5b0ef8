import Hcics.Lib.Transition

/-!
# Windows on a transition system

A `Window` shows a part of a machine `M` as a machine `N` of its own: an input that is not seen leaves
the part alone, and one that is seen is a step of `N` on it. So whatever else `M` does, the part runs
as `N` does on the inputs seen (`exec_view`, `reach_view`), and two runs of `M` with the same inputs
seen show the same (`two_runs`).
-/

universe u v w x

namespace Machine

variable {σ : Type u} {ι : Type v} {ν : Type w} {κ : Type x} {M : Machine σ ι} {N : Machine ν κ}

/-- A part of `M` that is the machine `N`. -/
structure Window (M : Machine σ ι) (N : Machine ν κ) where
  /-- The part shown. -/
  view : σ → ν
  /-- What is seen of an input; `none` where it is hidden. -/
  sees : ι → Option κ
  start : ∀ {s : σ}, M.start s → N.start (view s)
  hidden : ∀ {s t : σ} {i : ι}, M.Reach Machine.free s → sees i = none → M.step s i = some t →
    view t = view s
  seen : ∀ {s : σ} {i : ι} {k : κ}, M.Reach Machine.free s → sees i = some k →
    (M.step s i).map view = N.step (view s) k

namespace Window

variable (W : Window M N) {s s' t t' : σ}

theorem exec_view {is : List ι} (hs : M.Reach Machine.free s) (h : M.exec s is = some t) :
    N.exec (W.view s) (is.filterMap W.sees) = some (W.view t) := by
  induction is generalizing s with
  | nil =>
    obtain rfl : s = t := Option.some.inj h
    rfl
  | cons i is ih =>
    obtain ⟨r, hr, hrest⟩ := Option.bind_eq_some_iff.mp h
    have hexec := ih (hs.step trivial hr) hrest
    cases hi : W.sees i with
    | none =>
      rw [List.filterMap_cons_none hi, ← W.hidden hs hi hr]
      exact hexec
    | some k =>
      have hstep := W.seen hs hi
      rw [hr, Option.map_some] at hstep
      rw [List.filterMap_cons_some hi]
      exact Option.bind_eq_some_iff.mpr ⟨W.view r, hstep.symm, hexec⟩

theorem reach_view (hs : M.Reach Machine.free s) : N.Reach Machine.free (W.view s) := by
  refine hs.inv (P := fun s => N.Reach Machine.free (W.view s)) (fun s h0 => .base (W.start h0)) ?_
  intro s i t hreach hview _ hstep
  cases hi : W.sees i with
  | none =>
    rw [W.hidden hreach hi hstep]
    exact hview
  | some k =>
    have hk := W.seen hreach hi
    rw [hstep, Option.map_some] at hk
    exact hview.step trivial hk.symm

/-- **Two runs that look alike show the same**, whatever the hidden inputs of the one and of the
other. -/
theorem two_runs {is is' : List ι} (hs : M.Reach Machine.free s) (hs' : M.Reach Machine.free s')
    (hview : W.view s = W.view s') (hsees : is.filterMap W.sees = is'.filterMap W.sees)
    (h : M.exec s is = some t) (h' : M.exec s' is' = some t') : W.view t = W.view t' := by
  have hexec := W.exec_view hs h
  rw [hview, hsees, W.exec_view hs' h'] at hexec
  exact (Option.some.inj hexec).symm

end Window

end Machine
