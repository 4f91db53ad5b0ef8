import Mathlib.Data.Option.Basic
import Mathlib.Tactic.Common
import Mathlib.Tactic.Ring

/-!
# A watchdog that boosts before it gives up

A watchdog is told at arbitrary times whether the plant it watches is stuck. Stuck for `trigger` time
units it starts a boost of `hold` units, after `boosts` boosts it gives up at the next trigger, and in
any case when one stall has lasted `fail` units. Giving up is the result `none` of a step.

`fault_window` is soundness: it gives up only at the end of a stretch of stuck readings of a known
length. `Pressed.fires` is completeness: stuck readings at bounded gaps bring it to give up by a known
time. The measure is `deadline`, the latest time the watchdog can still survive to.
-/

namespace Watchdog

/-- What the watchdog is told at one time: nothing, that the plant moves, or that it is stuck. -/
inductive Reading where
  | absent | moving | stuck
  deriving DecidableEq, Repr

structure Limits where
  trigger : Nat
  hold : Nat
  fail : Nat
  boosts : Nat

/-- When the stall was first seen, when the boost in force ends, and the boosts of this stall. -/
structure State where
  start : Option Nat := none
  boost : Option Nat := none
  count : Nat := 0
  deriving DecidableEq, Repr

/-- The boost ends when its time has come; the stall is then timed anew. -/
def expire (s : State) (now : Nat) : State :=
  match s.boost with
  | none => s
  | some b => if now < b then s else { s with start := none, boost := none }

/-- A reading; `none` where the watchdog gives up. -/
def step (L : Limits) (s : State) (now : Nat) : Reading → Option State
  | .absent => some {}
  | .moving => some (expire { s with start := none, count := 0 } now)
  | .stuck =>
    match s.start with
    | none => some (expire { s with start := some now } now)
    | some t =>
      if t + L.fail ≤ now then none
      else if s.boost = none ∧ t + L.trigger ≤ now then
        if L.boosts ≤ s.count then none
        else some { s with boost := some (now + L.hold), count := s.count + 1 }
      else some (expire s now)

/-- The state after a list of timed readings. -/
def exec (L : Limits) (s : State) : List (Nat × Reading) → Option State
  | [] => some s
  | o :: os => (step L s o.1 o.2).bind fun t => exec L t os

/-- The time from one boost to the next, when the readings come at once. -/
def Limits.period (L : Limits) : Nat := L.trigger + L.hold

variable {L : Limits} {s s' : State} {now : Nat}

/-! ## What a stuck reading does -/

/-- The cases of a stuck reading that the watchdog survives: the stall begins, goes on, starts a
boost, or outlives one. -/
inductive StuckCase (L : Limits) (s : State) (now : Nat) : State → Prop where
  | first (start : s.start = none) (boost : ∀ b, s.boost = some b → now < b) :
      StuckCase L s now { s with start := some now }
  | wait (t : Nat) (start : s.start = some t)
      (boost : (∃ b, s.boost = some b ∧ now < b) ∨ s.boost = none ∧ now < t + L.trigger) :
      StuckCase L s now s
  | boost (t : Nat) (start : s.start = some t) (idle : s.boost = none)
      (trigger : t + L.trigger ≤ now) (count : s.count < L.boosts) :
      StuckCase L s now { s with boost := some (now + L.hold), count := s.count + 1 }
  | expired (b : Nat) (boost : s.boost = some b) (ended : b ≤ now) :
      StuckCase L s now { s with start := none, boost := none }

theorem step_stuck_cases (h : step L s now .stuck = some s') : StuckCase L s now s' := by
  obtain ⟨start, boost, count⟩ := s
  cases start with
  | none =>
    cases boost with
    | none =>
      cases h
      apply StuckCase.first rfl
      intro b hb
      cases hb
    | some b =>
      simp only [step, expire, Option.some.injEq] at h
      by_cases hb : now < b
      · rw [if_pos hb] at h
        subst h
        apply StuckCase.first rfl
        intro b' hb'
        cases hb'
        exact hb
      · rw [if_neg hb] at h
        subst h
        exact .expired b rfl (by omega)
  | some t =>
    simp only [step] at h
    split_ifs at h with h1 h2 h3
    · obtain ⟨rfl, htrigger⟩ := h2
      cases h
      exact .boost t rfl rfl htrigger (by simpa using h3)
    · cases boost with
      | none =>
        cases h
        apply StuckCase.wait t rfl
        right
        refine ⟨rfl, ?_⟩
        by_contra hlt
        exact h2 ⟨rfl, by omega⟩
      | some b =>
        simp only [expire, Option.some.injEq] at h
        by_cases hb : now < b
        · rw [if_pos hb] at h
          subst h
          exact .wait t rfl (.inl ⟨b, rfl, hb⟩)
        · rw [if_neg hb] at h
          subst h
          exact .expired b rfl (by omega)

/-- The watchdog gives up in a stall that has lasted too long or has used up its boosts. -/
theorem step_eq_none {r : Reading} (h : step L s now r = none) :
    r = .stuck ∧ ∃ t, s.start = some t ∧
      (t + L.fail ≤ now ∨ s.boost = none ∧ t + L.trigger ≤ now ∧ L.boosts ≤ s.count) := by
  cases r with
  | absent => cases h
  | moving => cases h
  | stuck =>
    refine ⟨rfl, ?_⟩
    cases hstart : s.start with
    | none =>
      simp only [step, hstart] at h
      cases h
    | some t =>
      simp only [step, hstart] at h
      split_ifs at h with h1 h2 h3
      · exact ⟨t, rfl, .inl h1⟩
      · exact ⟨t, rfl, .inr ⟨h2.1, h2.2, h3⟩⟩

/-! ## Soundness -/

structure Resting (s : State) : Prop where
  start : s.start = none
  count : s.count = 0

/-- Every reading since the time `w` was stuck, the last one at `last`: each boost counted took its
period after `w`. A boost that an earlier stall left behind is not counted. -/
structure StuckSince (L : Limits) (w last : Nat) (s : State) : Prop where
  le_last : w ≤ last
  start : ∀ t, s.start = some t → w ≤ t ∧ t ≤ last
  boosted : ∀ b, s.boost = some b → s.count = 0 ∨ w + s.count * L.period ≤ b
  armed : s.boost = none → ∀ t, s.start = some t → w + s.count * L.period ≤ t
  idle : s.boost = none → s.start = none → w + s.count * L.period ≤ last

theorem expire_resting (hs : Resting s) (now : Nat) : Resting (expire s now) := by
  unfold expire
  cases s.boost with
  | none => exact hs
  | some b =>
    simp only
    split
    · exact hs
    · exact ⟨rfl, hs.count⟩

theorem step_resting {r : Reading} (hr : r ≠ .stuck) (h : step L s now r = some s') :
    Resting s' := by
  cases r with
  | absent =>
    cases h
    exact ⟨rfl, rfl⟩
  | moving =>
    cases h
    exact expire_resting ⟨rfl, rfl⟩ now
  | stuck => exact absurd rfl hr

theorem Resting.stuckSince (hs : Resting s) (h : step L s now .stuck = some s') :
    StuckSince L now now s' := by
  obtain ⟨hstart, hcount⟩ := hs
  rcases step_stuck_cases h with ⟨-, hb⟩ | ⟨t, ht, -⟩ | ⟨t, ht, -⟩ | ⟨b, hb, hle⟩
  · refine ⟨le_refl now, ?_, ?_, ?_, ?_⟩
    · intro t ht
      cases ht
      exact ⟨le_refl now, le_refl now⟩
    · intro b _
      exact .inl hcount
    · intro _ t ht
      cases ht
      simp [hcount]
    · intro _ hnone
      cases hnone
  · rw [hstart] at ht
    cases ht
  · rw [hstart] at ht
    cases ht
  · refine ⟨le_refl now, ?_, ?_, ?_, ?_⟩
    · intro t ht
      cases ht
    · intro b hb
      cases hb
    · intro _ t ht
      cases ht
    · intro _ _
      simp [hcount]

theorem StuckSince.step {w last : Nat} (hs : StuckSince L w last s) (hlast : last ≤ now)
    (h : step L s now .stuck = some s') : StuckSince L w now s' := by
  obtain ⟨hw, hstart, hboosted, harmed, hidle⟩ := hs
  rcases step_stuck_cases h with ⟨hnone, hb⟩ | ⟨t, ht, hb⟩ | ⟨t, ht, hnone, hle, hc⟩ | ⟨b, hb, hle⟩
  · refine ⟨by omega, ?_, hboosted, ?_, ?_⟩
    · intro t ht
      cases ht
      omega
    · intro hbn t ht
      cases ht
      have := hidle hbn hnone
      simp only
      omega
    · intro _ hn
      cases hn
  · refine ⟨by omega, ?_, hboosted, harmed, ?_⟩
    · intro u hu
      have := hstart u hu
      omega
    · intro _ hn
      rw [ht] at hn
      cases hn
  · have harm := harmed hnone t ht
    refine ⟨by omega, ?_, ?_, ?_, ?_⟩
    · intro u hu
      have := hstart u hu
      omega
    · intro b hb
      cases hb
      right
      have hperiod : (s.count + 1) * L.period = s.count * L.period + L.trigger + L.hold := by
        rw [Nat.add_mul, Limits.period]
        omega
      simp only
      omega
    · intro hn
      cases hn
    · intro hn
      cases hn
  · refine ⟨by omega, ?_, ?_, ?_, ?_⟩
    · intro u hu
      cases hu
    · intro b' hb'
      cases hb'
    · intro _ u hu
      cases hu
    · intro _ _
      simp only
      rcases hboosted b hb with hc | hc
      · rw [hc]
        omega
      · omega

/-- How long a stall lasts at least before the watchdog gives up. -/
def Limits.patience (L : Limits) : Nat := min L.fail (L.boosts * L.period + L.trigger)

theorem StuckSince.give_up {w last : Nat} {r : Reading} (hs : StuckSince L w last s)
    (h : Watchdog.step L s now r = none) : w + L.patience ≤ now := by
  obtain ⟨-, t, ht, hfail | ⟨hnone, hle, hc⟩⟩ := step_eq_none h
  · have := hs.start t ht
    unfold Limits.patience
    omega
  · have harm := hs.armed hnone t ht
    have hmul : L.boosts * L.period ≤ s.count * L.period := Nat.mul_le_mul_right _ hc
    unfold Limits.patience
    omega

/-- A state and the readings that led to it: it rests, or the last readings were stuck since some
time. -/
inductive Traced (L : Limits) (obs : List (Nat × Reading)) (last : Nat) (s : State) : Prop where
  | resting (rest : Resting s)
  | stuck (pre win : List (Nat × Reading)) (w : Nat × Reading) (eq : obs = pre ++ w :: win)
      (all : ∀ o ∈ w :: win, o.2 = .stuck) (since : StuckSince L w.1 last s)

theorem Traced.step {obs : List (Nat × Reading)} {last : Nat} {r : Reading}
    (hs : Traced L obs last s) (hlast : last ≤ now) (h : step L s now r = some s') :
    Traced L (obs ++ [(now, r)]) now s' := by
  by_cases hr : r = .stuck
  · subst hr
    rcases hs with hrest | ⟨pre, win, w, rfl, hall, hsince⟩
    · refine .stuck obs [] (now, .stuck) rfl ?_ (hrest.stuckSince h)
      simp
    · refine .stuck pre (win ++ [(now, .stuck)]) w (by simp) ?_ (hsince.step hlast h)
      intro o ho
      rw [← List.cons_append, List.mem_append, List.mem_singleton] at ho
      rcases ho with ho | rfl
      · exact hall o ho
      · rfl
  · exact .resting (step_resting hr h)

/-- The readings come at times that never go back. -/
def Ordered (last : Nat) : List (Nat × Reading) → Prop
  | [] => True
  | o :: os => last ≤ o.1 ∧ Ordered o.1 os

theorem Traced.exec {past obs : List (Nat × Reading)} {last : Nat} {o : Nat × Reading}
    (hs : Traced L past last s) (horder : Ordered last (obs ++ [o]))
    (h : exec L s obs = some s') : ∃ last', last' ≤ o.1 ∧ Traced L (past ++ obs) last' s' := by
  induction obs generalizing past last s with
  | nil =>
    cases h
    exact ⟨last, horder.1, by simpa using hs⟩
  | cons x xs ih =>
    obtain ⟨t, ht, hrest⟩ := Option.bind_eq_some_iff.mp h
    obtain ⟨last', hle, htraced⟩ := ih (hs.step horder.1 ht) horder.2 hrest
    refine ⟨last', hle, ?_⟩
    rwa [List.append_assoc] at htraced

/-- **Soundness.** Started at rest, the watchdog gives up only at the end of a stretch of stuck
readings that is as long as its patience. -/
theorem fault_window {obs : List (Nat × Reading)} {o : Nat × Reading} (hs : Resting s)
    (horder : Ordered 0 (obs ++ [o])) (h : exec L s obs = some s')
    (hfault : Watchdog.step L s' o.1 o.2 = none) :
    ∃ pre win w, obs ++ [o] = pre ++ w :: win ∧ (∀ x ∈ w :: win, x.2 = .stuck) ∧
      w.1 + L.patience ≤ o.1 := by
  have hstuck : o.2 = .stuck := (step_eq_none hfault).1
  obtain ⟨last, hle, hrest | ⟨pre, win, w, heq, hall, hsince⟩⟩ :=
    Traced.exec (.resting hs) horder h
  · obtain ⟨-, t, ht, -⟩ := step_eq_none hfault
    rw [hrest.start] at ht
    cases ht
  · rw [List.nil_append] at heq
    refine ⟨pre, win ++ [o], w, by rw [heq]; simp, ?_, hsince.give_up hfault⟩
    intro x hx
    rw [← List.cons_append, List.mem_append, List.mem_singleton] at hx
    rcases hx with hx | rfl
    · exact hall x hx
    · exact hstuck

/-! ## Completeness -/

/-- What is true of a state after a reading at `last` that the watchdog survived: the boost in force
ends later, and without one a stall is younger than the trigger. -/
structure Settled (L : Limits) (last : Nat) (s : State) : Prop where
  boost : ∀ b, s.boost = some b → last < b
  young : s.boost = none → ∀ t, s.start = some t → last < t + L.trigger

/-- One boost and what comes before it, when stuck readings come at gaps of at most `g`. -/
def Limits.round (L : Limits) (g : Nat) : Nat := L.trigger + L.hold + 3 * g

/-- The latest time a watchdog that is in the state `s` after a reading at `last` survives to, when
only stuck readings follow, at gaps of at most `g`. -/
def deadline (L : Limits) (g last : Nat) (s : State) : Nat :=
  (match s.boost, s.start with
    | some b, _ => b + 3 * g + L.trigger
    | none, some t => t + L.trigger + g
    | none, none => last + 2 * g + L.trigger) + (L.boosts - s.count) * L.round g

theorem step_settled (hhold : 0 < L.hold) (htrigger : 0 < L.trigger)
    (h : step L s now .stuck = some s') : Settled L now s' := by
  rcases step_stuck_cases h with ⟨hnone, hb⟩ | ⟨t, ht, hb⟩ | ⟨t, ht, hnone, hle, hc⟩ | ⟨b, hb, hle⟩
  · refine ⟨hb, ?_⟩
    intro _ t ht
    cases ht
    omega
  · rcases hb with ⟨b, hb, hlt⟩ | ⟨hb, hlt⟩
    · refine ⟨?_, ?_⟩
      · intro b' hb'
        rw [hb, Option.some.injEq] at hb'
        omega
      · intro hn
        rw [hb] at hn
        cases hn
    · refine ⟨?_, ?_⟩
      · intro b' hb'
        rw [hb] at hb'
        cases hb'
      · intro _ u hu
        rw [ht, Option.some.injEq] at hu
        omega
  · refine ⟨?_, ?_⟩
    · intro b hb
      cases hb
      omega
    · intro hn
      cases hn
  · refine ⟨?_, ?_⟩
    · intro b' hb'
      cases hb'
    · intro _ u hu
      cases hu

theorem Settled.lt_deadline {last g : Nat} (htrigger : 0 < L.trigger) (hs : Settled L last s) :
    last < deadline L g last s := by
  obtain ⟨hboost, hyoung⟩ := hs
  unfold deadline
  cases hb : s.boost with
  | some b =>
    have := hboost b hb
    simp only
    omega
  | none =>
    cases ht : s.start with
    | some t =>
      have := hyoung hb t ht
      simp only
      omega
    | none =>
      simp only
      omega

/-- **The deadline never moves back.** -/
theorem deadline_step {last g : Nat} (hs : Settled L last s) (hgap : now ≤ last + g)
    (h : step L s now .stuck = some s') : deadline L g now s' ≤ deadline L g last s := by
  obtain ⟨hboost, hyoung⟩ := hs
  rcases step_stuck_cases h with ⟨hnone, hb⟩ | ⟨t, ht, hb⟩ | ⟨t, ht, hnone, hle, hc⟩ | ⟨b, hb, hle⟩
  · cases hbo : s.boost with
    | some b => simp only [deadline, hbo, hnone, le_refl]
    | none =>
      simp only [deadline, hbo, hnone]
      omega
  · rcases hb with ⟨b, hb, -⟩ | ⟨hb, -⟩
    · simp only [deadline, hb, le_refl]
    · simp only [deadline, hb, ht, le_refl]
  · have hlast := hyoung hnone t ht
    have hcount : L.boosts - s.count = L.boosts - (s.count + 1) + 1 := by omega
    simp only [deadline, hnone, ht, hcount, Nat.add_mul, Limits.round]
    omega
  · have hlast := hboost b hb
    simp only [deadline, hb]
    omega

/-- A bound on a state that knows nothing of the future: its boost ends within the hold time, its
stall began before. -/
structure Past (L : Limits) (last : Nat) (s : State) : Prop where
  boost : ∀ b, s.boost = some b → b ≤ last + L.hold
  start : ∀ t, s.start = some t → t ≤ last

theorem Past.mono {last last' : Nat} (h : Past L last s) (hle : last ≤ last') : Past L last' s := by
  refine ⟨?_, ?_⟩
  · intro b hb
    have := h.boost b hb
    omega
  · intro t ht
    have := h.start t ht
    omega

theorem expire_past (hs : Past L now s) : Past L now (expire s now) := by
  unfold expire
  cases hb : s.boost with
  | none => exact hs
  | some b =>
    simp only
    split
    · exact hs
    · refine ⟨?_, ?_⟩
      · intro b hb
        cases hb
      · intro t ht
        cases ht

theorem step_past {last : Nat} {r : Reading} (hs : Past L last s) (hlast : last ≤ now)
    (h : step L s now r = some s') : Past L now s' := by
  have hs := hs.mono hlast
  cases r with
  | absent =>
    cases h
    refine ⟨?_, ?_⟩
    · intro b hb
      cases hb
    · intro t ht
      cases ht
  | moving =>
    cases h
    apply expire_past
    refine ⟨hs.boost, ?_⟩
    intro t ht
    cases ht
  | stuck =>
    rcases step_stuck_cases h with ⟨-, -⟩ | ⟨t, ht, -⟩ | ⟨t, ht, -⟩ | ⟨b, hb, -⟩
    · refine ⟨hs.boost, ?_⟩
      intro t ht
      cases ht
      exact le_refl now
    · exact hs
    · refine ⟨?_, hs.start⟩
      intro b hb
      cases hb
      exact le_refl _
    · refine ⟨?_, ?_⟩
      · intro b hb
        cases hb
      · intro t ht
        cases ht

/-- The first stuck reading of a stretch, whatever came before it, sets the deadline. -/
theorem deadline_first {last g : Nat} (hs : Past L last s) (hlast : last ≤ now)
    (h : step L s now .stuck = some s') :
    deadline L g now s' ≤ now + (L.boosts + 1) * L.round g := by
  obtain ⟨hboost, hstart⟩ := step_past hs hlast h
  have hmul : (L.boosts - s'.count) * L.round g ≤ L.boosts * L.round g :=
    Nat.mul_le_mul_right _ (by omega)
  have hround : L.round g = L.trigger + L.hold + 3 * g := rfl
  have hsplit : (L.boosts + 1) * L.round g = L.boosts * L.round g + L.round g := by ring
  unfold deadline
  cases hb : s'.boost with
  | some b =>
    have := hboost b hb
    simp only
    omega
  | none =>
    cases ht : s'.start with
    | some t =>
      have := hstart t ht
      simp only
      omega
    | none =>
      simp only
      omega

/-- As long as the watchdog survives, its readings are stuck and come at gaps of at most `g`. -/
def Pressed (L : Limits) (g last : Nat) (s : State) : List (Nat × Reading) → Prop
  | [] => True
  | o :: os => o.2 = .stuck ∧ last ≤ o.1 ∧ o.1 ≤ last + g ∧
      ∀ s', step L s o.1 o.2 = some s' → Pressed L g o.1 s' os

/-- The watchdog gives up at a reading of the list that comes before `bound`. -/
def Fires (L : Limits) (bound : Nat) (s : State) (obs : List (Nat × Reading)) : Prop :=
  ∃ before o after t, obs = before ++ o :: after ∧ exec L s before = some t ∧
    step L t o.1 o.2 = none ∧ o.1 < bound

theorem Fires.cons {bound : Nat} {o : Nat × Reading} {os : List (Nat × Reading)}
    (hstep : step L s o.1 o.2 = some s') (h : Fires L bound s' os) : Fires L bound s (o :: os) := by
  obtain ⟨before, x, after, t, rfl, hexec, hfault, hlt⟩ := h
  refine ⟨o :: before, x, after, t, rfl, ?_, hfault, hlt⟩
  rw [exec, hstep, Option.bind_some]
  exact hexec

theorem Pressed.fires {last g bound : Nat} {obs : List (Nat × Reading)} (hhold : 0 < L.hold)
    (htrigger : 0 < L.trigger) (h : Pressed L g last s obs) (hs : Settled L last s)
    (hbound : deadline L g last s ≤ bound) (hlong : ∃ o ∈ obs, bound ≤ o.1) :
    Fires L (bound + g) s obs := by
  induction obs generalizing last s with
  | nil =>
    obtain ⟨o, ho, -⟩ := hlong
    cases ho
  | cons o os ih =>
    obtain ⟨hstuck, hle, hgap, hrest⟩ := h
    have hlast := hs.lt_deadline (g := g) htrigger
    cases hstep : step L s o.1 o.2 with
    | none => exact ⟨[], o, os, s, rfl, rfl, hstep, by omega⟩
    | some t =>
      have hstep' := hstep
      rw [hstuck] at hstep'
      have ht : Settled L o.1 t := step_settled hhold htrigger hstep'
      have hdead : deadline L g o.1 t ≤ bound := (deadline_step hs hgap hstep').trans hbound
      have hnow : o.1 < bound := (ht.lt_deadline htrigger).trans_le hdead
      apply Fires.cons hstep
      apply ih (hrest t hstep) ht hdead
      obtain ⟨x, hx, hle⟩ := hlong
      rcases List.mem_cons.mp hx with rfl | hx
      · omega
      · exact ⟨x, hx, hle⟩

/-- **Completeness.** A stretch of stuck readings at gaps of at most `g` makes the watchdog give up
within `boosts + 1` rounds and one gap, whatever state the stretch found it in. -/
theorem pressed_fires {last g : Nat} {o : Nat × Reading} {os : List (Nat × Reading)}
    (hhold : 0 < L.hold) (htrigger : 0 < L.trigger) (hs : Past L last s) (hlast : last ≤ o.1)
    (hstuck : o.2 = .stuck)
    (hrest : ∀ s', step L s o.1 o.2 = some s' → Pressed L g o.1 s' os)
    (hlong : ∃ x ∈ o :: os, o.1 + (L.boosts + 1) * L.round g ≤ x.1) :
    Fires L (o.1 + (L.boosts + 1) * L.round g + g) s (o :: os) := by
  have hpos : 0 < (L.boosts + 1) * L.round g := by
    apply Nat.mul_pos (by omega)
    unfold Limits.round
    omega
  cases hstep : step L s o.1 o.2 with
  | none => exact ⟨[], o, os, s, rfl, rfl, hstep, by omega⟩
  | some t =>
    have hstep' := hstep
    rw [hstuck] at hstep'
    have ht : Settled L o.1 t := step_settled hhold htrigger hstep'
    apply Fires.cons hstep
    apply (hrest t hstep).fires hhold htrigger ht (deadline_first hs hlast hstep')
    obtain ⟨x, hx, hle⟩ := hlong
    rcases List.mem_cons.mp hx with rfl | hx
    · omega
    · exact ⟨x, hx, hle⟩

/-! ## Boosts of one stall -/

/-- In a stuck reading the count of boosts goes up by the boosts started, and stays within the
limit. -/
theorem step_count (hs : s.count ≤ L.boosts) (h : step L s now .stuck = some s') :
    s'.count = s.count + (if s.boost = none ∧ s'.boost ≠ none then 1 else 0) ∧
      s'.count ≤ L.boosts := by
  rcases step_stuck_cases h with ⟨-, -⟩ | ⟨t, -, -⟩ | ⟨t, ht, hnone, hle, hc⟩ | ⟨b, hb, hle⟩
  · refine ⟨?_, hs⟩
    cases s.boost <;> simp
  · refine ⟨?_, hs⟩
    cases s.boost <;> simp
  · refine ⟨?_, hc⟩
    simp [hnone]
  · refine ⟨?_, hs⟩
    simp

theorem step_count_le {r : Reading} (hs : s.count ≤ L.boosts) (h : step L s now r = some s') :
    s'.count ≤ L.boosts := by
  by_cases hr : r = .stuck
  · subst hr
    exact (step_count hs h).2
  · rw [(step_resting hr h).count]
    omega

end Watchdog
