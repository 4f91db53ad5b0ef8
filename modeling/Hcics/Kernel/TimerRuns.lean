import Hcics.Kernel.TimerSpec
import Mathlib.Data.Finset.Card

/-!
# The interrupt of the tick ends

Where the timeout functions leave the timers alone, every turn of the loop of `rt_timer_check` takes one
timer off those that are due, as a periodic timer is started for later. A periodic timer of no ticks is
due again at once, and the loop never ends.
-/

namespace Hcics

namespace Timers

open Agenda

variable {s s' s'' : Timers} {t u : TimerId} {e : Entry}

def dueSet (s : Timers) : Finset TimerId := s.list.toFinset.filter fun t => (s.entry t).due ≤ s.now

theorem Inv.mem_dueSet (h : s.Inv) : t ∈ s.dueSet ↔ ∃ e, s.armed t = some e ∧ e.due ≤ s.now := by
  rw [dueSet, Finset.mem_filter, List.mem_toFinset]
  constructor
  · rintro ⟨ht, hdue⟩
    exact ⟨_, h.armed_entry ht, hdue⟩
  · rintro ⟨e, he, hdue⟩
    exact ⟨h.mem he, (entry_of_armed he).symm ▸ hdue⟩

/-- What the interrupt of a tick leaves: what was due has fired, a periodic timer was started again, and
the other timers are as they were. -/
structure Handled (s s' : Timers) : Prop where
  idle : s'.phase = .idle
  now : s'.now = s.now
  kept : ∀ f ∈ s.fired, f ∈ s'.fired
  fired : ∀ t e, s.armed t = some e → e.due ≤ s.now → ∃ n, ⟨t, e, s.now, n⟩ ∈ s'.fired
  again : ∀ t e, s.armed t = some e → e.due ≤ s.now → (s'.armed t).map (fun e => (e.made, e.wait)) =
    if (s.timer t).periodic then some (s.now, (s.timer t).initTick.toNat) else none
  rest : ∀ t, (∀ e, s.armed t = some e → s.now < e.due) →
    s'.armed t = s.armed t ∧ s'.timer t = s.timer t

/-- No timer that is due is periodic without a time. -/
def Ends (s : Timers) : Prop :=
  ∀ t e, s.armed t = some e → e.due ≤ s.now → (s.timer t).periodic = true → (s.timer t).initTick ≠ 0

/-! ## One turn -/

theorem start_other (hu : u ≠ t) : (s.start t).armed u = s.armed u ∧ (s.start t).timer u = s.timer u := by
  rw [start_eq]
  exact ⟨(Function.update_of_ne hu ..).trans (Function.update_of_ne hu ..), disarm_timer hu⟩

theorem start_self : (s.start t).armed t = some ⟨s.now, (s.timer t).initTick.toNat, s.starts⟩ ∧
    (s.start t).timer t =
      { s.timer t with timeoutTick := s.tick + (s.timer t).initTick, activated := true } := by
  rw [start_eq]
  refine ⟨(Function.update_self ..).trans ?_, disarm_self⟩
  rw [disarm_self]
  rfl

theorem fire_other (hu : u ≠ t) : (s.fire t).armed u = s.armed u ∧ (s.fire t).timer u = s.timer u :=
  ⟨Function.update_of_ne hu .., setTimer_of_ne hu⟩

theorem fire_self : (s.fire t).timer t = s.fireTimer t := setTimer_self

/-- A turn of the loop, of the timer `t` that the start `e` armed. -/
structure Turned (s : Timers) (t : TimerId) (e : Entry) (s' : Timers) : Prop where
  loop : s'.phase = .loop
  now : s'.now = s.now
  fired : s'.fired = s.fired ++ [⟨t, e, s.now, s.starts⟩]
  armed : s'.armed t =
    if (s.timer t).periodic then some ⟨s.now, (s.timer t).initTick.toNat, s.starts⟩ else none
  other : ∀ u, u ≠ t → s'.armed u = s.armed u ∧ s'.timer u = s.timer u

theorem Inv.turned (h : s.Inv) (he : s.armed t = some e) : Turned s t e ((s.fire t).finish t true) := by
  have hactive : (s.timer t).activated = true := h.activated t (h.mem he)
  have hfired : (s.fire t).fired = s.fired ++ [⟨t, e, s.now, s.starts⟩] := by rw [fire_eq he]
  have hcond : (true && ((s.fire t).timer t).periodic && ((s.fire t).timer t).activated) =
      (s.timer t).periodic := by
    rw [fire_self]
    simp only [fireTimer, hactive, Bool.true_and]
    cases (s.timer t).periodic <;> rfl
  rw [finish_eq, hcond]
  split
  · rename_i hperiodic
    refine ⟨rfl, rfl, hfired, ?_, fun u hu => ?_⟩
    · refine start_self.1.trans ?_
      rw [if_pos hperiodic]
      simp only [fire_self, fireTimer]
      rfl
    · exact ⟨(start_other hu).1.trans (fire_other hu).1, (start_other hu).2.trans (fire_other hu).2⟩
  · rename_i hperiodic
    refine ⟨rfl, rfl, hfired, ?_, fun u hu => fire_other hu⟩
    rw [if_neg hperiodic]
    exact Function.update_self ..

theorem Turned.later (h : Turned s t e s') (hends : s.Ends) (he : s.armed t = some e) (hdue : e.due ≤ s.now)
    {k : Entry} (hk : s'.armed t = some k) : s'.now < k.due := by
  rw [h.armed] at hk
  obtain ⟨hperiodic, hk⟩ := Option.ite_none_right_eq_some.mp hk
  obtain rfl := Option.some_inj.mp hk
  have hpos : (s.timer t).initTick.toNat ≠ 0 := fun hzero =>
    hends t e he hdue hperiodic (UInt32.toNat_inj.mp hzero)
  rw [h.now, Entry.due]
  exact Nat.lt_add_of_pos_right (Nat.pos_of_ne_zero hpos)

theorem Turned.ends (h : Turned s t e s') (hends : s.Ends) (he : s.armed t = some e) (hdue : e.due ≤ s.now) :
    s'.Ends := by
  intro u k hk hkdue hperiodic
  by_cases hu : u = t
  · subst hu
    exact absurd hkdue (Nat.not_le.mpr (h.later hends he hdue hk))
  · rw [(h.other u hu).1] at hk
    rw [h.now] at hkdue
    rw [(h.other u hu).2] at hperiodic ⊢
    exact hends u k hk hkdue hperiodic

theorem Turned.dueSet_lt (h : Turned s t e s') (hinv : s.Inv) (hinv' : s'.Inv) (hends : s.Ends)
    (he : s.armed t = some e) (hdue : e.due ≤ s.now) : s'.dueSet.card < s.dueSet.card := by
  refine Finset.card_lt_card ((Finset.ssubset_iff_of_subset fun u hu => ?_).mpr ⟨t, ?_, ?_⟩)
  · obtain ⟨k, hk, hkdue⟩ := hinv'.mem_dueSet.mp hu
    have hne : u ≠ t := by
      rintro rfl
      exact absurd hkdue (Nat.not_le.mpr (h.later hends he hdue hk))
    rw [(h.other u hne).1] at hk
    exact hinv.mem_dueSet.mpr ⟨k, hk, h.now ▸ hkdue⟩
  · exact hinv.mem_dueSet.mpr ⟨e, he, hdue⟩
  · intro ht
    obtain ⟨k, hk, hkdue⟩ := hinv'.mem_dueSet.mp ht
    exact absurd hkdue (Nat.not_le.mpr (h.later hends he hdue hk))

theorem Turned.handled (h : Turned s t e s') (hends : s.Ends) (he : s.armed t = some e) (hdue : e.due ≤ s.now)
    (hrest : Handled s' s'') : Handled s s'' where
  idle := hrest.idle
  now := hrest.now.trans h.now
  kept f hf := hrest.kept f (h.fired ▸ List.mem_append_left _ hf)
  fired u k hk hkdue := by
    by_cases hu : u = t
    · subst hu
      obtain rfl := Option.some_inj.mp (he.symm.trans hk)
      exact ⟨_, hrest.kept _ (h.fired ▸ List.mem_append_right _ List.mem_cons_self)⟩
    · rw [← h.now]
      exact hrest.fired u k ((h.other u hu).1.trans hk) (h.now.symm ▸ hkdue)
  again u k hk hkdue := by
    by_cases hu : u = t
    · subst hu
      rw [(hrest.rest u fun k hk => h.later hends he hdue hk).1, h.armed]
      split <;> rfl
    · rw [hrest.again u k ((h.other u hu).1.trans hk) (h.now.symm ▸ hkdue), (h.other u hu).2, h.now]
  rest u hu := by
    have hne : u ≠ t := by
      rintro rfl
      exact absurd hdue (Nat.not_le.mpr (hu e he))
    obtain ⟨harmed, htimer⟩ := hrest.rest u fun k hk => by
      rw [h.now]
      exact hu k ((h.other u hne).1.symm.trans hk)
    exact ⟨harmed.trans (h.other u hne).1, htimer.trans (h.other u hne).2⟩

/-! ## The loop -/

theorem step_check (hphase : s.phase = .due ∨ s.phase = .loop) : step s .check = some s.check := by
  rcases hphase with h | h <;> simp only [step, h]

/-- By induction on the number of timers that are due. -/
theorem handled (h : s.Inv) (hhist : s.History) (hphase : s.phase = .due ∨ s.phase = .loop)
    (hends : s.Ends) : ∃ is s', (∀ i ∈ is, i = .check ∨ i = .finish) ∧ machine.exec s is = some s' ∧
      Handled s s' := by
  induction hn : s.dueSet.card using Nat.strong_induction_on generalizing s with
  | _ n ih =>
    have hidle : s.phase ≠ .idle := by rcases hphase with h | h <;> rw [h] <;> exact TimerPhase.noConfusion
    have hcheck := step_check hphase
    rcases h.check_cases with ⟨heq, hlater⟩ | ⟨t, rest, e, -, he, hdue, hfirst, heq⟩
    · rw [heq] at hcheck
      refine ⟨[.check], { s with phase := .idle }, fun i hi => .inl (List.mem_singleton.mp hi), ?_, ?_⟩
      · exact Option.bind_eq_some_iff.mpr ⟨_, hcheck, rfl⟩
      · exact ⟨rfl, rfl, fun f hf => hf, fun t e he hdue => absurd hdue (Nat.not_le.mpr (hlater t e he)),
          fun t e he hdue => absurd hdue (Nat.not_le.mpr (hlater t e he)), fun _ _ => ⟨rfl, rfl⟩⟩
    · rw [heq] at hcheck
      have hfinish : step (s.fire t) .finish = some ((s.fire t).finish t true) := rfl
      have hturn := h.turned he
      obtain ⟨hinv, hhist'⟩ := step_inv h hhist hcheck
      obtain ⟨hinv', hhist'⟩ := step_inv hinv hhist' hfinish
      have hlt := hturn.dueSet_lt h hinv' hends he hdue
      obtain ⟨is, s'', his, hexec, hrest⟩ :=
        ih _ (hn ▸ hlt) hinv' hhist' (.inr hturn.loop) (hturn.ends hends he hdue) rfl
      refine ⟨.check :: .finish :: is, s'', ?_, ?_, hturn.handled hends he hdue hrest⟩
      · rintro i (_ | ⟨_, _ | ⟨_, hi⟩⟩)
        · exact .inl rfl
        · exact .inr rfl
        · exact his i hi
      · exact Option.bind_eq_some_iff.mpr ⟨_, hcheck, Option.bind_eq_some_iff.mpr ⟨_, hfinish, hexec⟩⟩

/-! ## A periodic timer of no ticks -/

/-- `t` is periodic without a time, and due or about to be started again. -/
def Stuck (s : Timers) (t : TimerId) : Prop :=
  (s.timer t).periodic = true ∧ (s.timer t).initTick = 0 ∧
    (s.phase = .callback t true ∧ (s.timer t).activated = true ∨
      s.phase ≠ .idle ∧ (∀ listed, s.phase ≠ .callback t listed) ∧ ∃ e, s.armed t = some e ∧ e.due ≤ s.now)

theorem Stuck.not_idle (h : s.Stuck t) : s.phase ≠ .idle := by
  rcases h.2.2 with ⟨hphase, -⟩ | ⟨hphase, -⟩
  · rw [hphase]
    exact TimerPhase.noConfusion
  · exact hphase

theorem Stuck.check (h : s.Stuck t) (hinv : s.Inv) (hphase : s.phase = .due ∨ s.phase = .loop) :
    s.check.Stuck t := by
  obtain ⟨hperiodic, hzero, hstate⟩ := h
  obtain ⟨hcallback, -⟩ | ⟨-, -, e, he, hdue⟩ := hstate
  · rw [hcallback] at hphase
    rcases hphase with hphase | hphase <;> cases hphase
  rcases hinv.check_cases with ⟨-, hlater⟩ | ⟨u, rest, k, -, -, -, -, heq⟩
  · exact absurd hdue (Nat.not_le.mpr (hlater t e he))
  rw [heq]
  by_cases hu : t = u
  · subst hu
    have hactive : (s.fireTimer t).activated = true := by
      simp only [fireTimer, hperiodic, if_true, hinv.activated t (hinv.mem he)]
    rw [Stuck, fire_self]
    exact ⟨hperiodic, hzero, .inl ⟨rfl, hactive⟩⟩
  · rw [Stuck, (fire_other hu).1, (fire_other hu).2]
    refine ⟨hperiodic, hzero, .inr ⟨TimerPhase.noConfusion, fun listed hcallback => ?_, e, he, hdue⟩⟩
    cases hcallback
    exact hu rfl

theorem Stuck.finish (h : s.Stuck t) {listed : Bool} (hphase : s.phase = .callback u listed) :
    (s.finish u listed).Stuck t := by
  obtain ⟨hperiodic, hzero, hstate⟩ := h
  rw [finish_eq]
  obtain ⟨hcallback, hactive⟩ | ⟨-, hnot, e, he, hdue⟩ := hstate
  · cases hphase.symm.trans hcallback
    rw [hperiodic, hactive, Bool.true_and, Bool.true_and, if_pos rfl, Stuck, start_self.1, start_self.2]
    refine ⟨hperiodic, hzero, .inr ⟨TimerPhase.noConfusion, fun _ => TimerPhase.noConfusion, _, rfl, ?_⟩⟩
    simp only [Entry.due, hzero]
    exact Nat.le_refl _
  · have hu : t ≠ u := by
      rintro rfl
      exact hnot listed hphase
    have hloop : Stuck { s with phase := .loop } t :=
      ⟨hperiodic, hzero, .inr ⟨TimerPhase.noConfusion, fun _ => TimerPhase.noConfusion, e, he, hdue⟩⟩
    split
    · rw [Stuck, (start_other hu).1, (start_other hu).2]
      exact hloop
    · exact hloop

theorem Stuck.step {i : Input} (h : s.Stuck t) (hinv : s.Inv) (hi : i = .check ∨ i = .finish)
    (hs : step s i = some s') : s'.Stuck t := by
  rcases hi with rfl | rfl
  · simp only [Timers.step] at hs
    split at hs
    case h_3 => cases hs
    all_goals
      obtain rfl := Option.some_inj.mp hs
      exact h.check hinv (by simp [*])
  · simp only [Timers.step] at hs
    split at hs
    case h_2 => cases hs
    case h_1 u listed hcallback =>
      obtain rfl := Option.some_inj.mp hs
      exact h.finish hcallback

theorem Stuck.exec {is : List Input} (h : s.Stuck t) (hinv : s.Inv) (hhist : s.History)
    (his : ∀ i ∈ is, i = .check ∨ i = .finish) (hs : machine.exec s is = some s') : s'.Stuck t := by
  induction is generalizing s with
  | nil =>
    obtain rfl := Option.some_inj.mp hs
    exact h
  | cons i is ih =>
    obtain ⟨r, hr, hrest⟩ := Option.bind_eq_some_iff.mp hs
    obtain ⟨hinv', hhist'⟩ := step_inv hinv hhist hr
    exact ih (h.step hinv (his i List.mem_cons_self) hr) hinv' hhist'
      (fun j hj => his j (List.mem_cons_of_mem _ hj)) hrest

/-- In the interrupt of a tick, where the timeout functions leave the timers alone: if no timer that is
due is periodic without a time, the loop ends, and every timer that was due fired in it, with its start,
the periodic ones wait for their next time, and the others are as they were. If one is, the loop never
ends. -/
theorem tick_interrupt_ends (h : machine.Reach Machine.free s) (hphase : s.phase = .due) :
    (s.Ends → ∃ is s', (∀ i ∈ is, i = .check ∨ i = .finish) ∧ machine.exec s is = some s' ∧ Handled s s') ∧
      (¬ s.Ends → ∀ is s', (∀ i ∈ is, i = .check ∨ i = .finish) → machine.exec s is = some s' →
        s'.phase ≠ .idle) := by
  obtain ⟨hinv, hhist⟩ := reach_inv h
  refine ⟨handled hinv hhist (.inl hphase), fun hnot is s' his hs => ?_⟩
  simp only [Ends, not_forall, not_not] at hnot
  obtain ⟨t, e, he, hdue, hperiodic, hzero⟩ := hnot
  have hstuck : s.Stuck t := by
    refine ⟨hperiodic, hzero, .inr ?_⟩
    rw [hphase]
    exact ⟨TimerPhase.noConfusion, fun _ => TimerPhase.noConfusion, e, he, hdue⟩
  exact (hstuck.exec hinv hhist his hs).not_idle

/-- A periodic timer in the interrupt of its first tick. -/
def firstTick (initTick : Tick) : Timers :=
  let s := (init (fun _ => initTick) fun _ => true).start 1
  { s with tick := s.tick + 1, now := s.now + 1, phase := .due }

theorem firstTick_reach {initTick : Tick} (h : initTick < halfTickMax) :
    machine.Reach Machine.free (firstTick initTick) := by
  have hstart : machine.start (init (fun _ => initTick) fun _ => true) := ⟨_, _, fun _ => h, rfl⟩
  have hexec : machine.exec (init (fun _ => initTick) fun _ => true) [.start 1, .tick] =
    some (firstTick initTick) := rfl
  exact .of_exec hstart hexec

/-- The interrupt ends where it has a time, and not where it has none. -/
theorem tick_interrupt_ends_periodic :
    (∃ is s', machine.exec (firstTick 1) is = some s' ∧ s'.phase = .idle ∧
      ∃ n, ⟨1, ⟨0, 1, 0⟩, 1, n⟩ ∈ s'.fired) ∧
    ∀ is s', (∀ i ∈ is, i = .check ∨ i = .finish) → machine.exec (firstTick 0) is = some s' →
      s'.phase ≠ .idle := by
  have hone := firstTick_reach (by decide : (1 : Tick) < halfTickMax)
  have hends : (firstTick 1).Ends := by
    intro t e he _ _
    have ht : t ∈ [1] := (reach_inv hone).1.mem he
    obtain rfl := List.mem_singleton.mp ht
    decide
  obtain ⟨is, s', -, hexec, hhandled⟩ := (tick_interrupt_ends hone rfl).1 hends
  refine ⟨⟨is, s', hexec, hhandled.idle, hhandled.fired 1 ⟨0, 1, 0⟩ (by decide) (by decide)⟩, ?_⟩
  refine (tick_interrupt_ends (firstTick_reach (by decide)) rfl).2 fun hends => ?_
  exact hends 1 ⟨0, 0, 0⟩ (by decide) (by decide) (by decide) (by decide)

end Timers

end Hcics
