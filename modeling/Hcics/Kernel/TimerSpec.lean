import Hcics.Kernel.Timer
import Hcics.Lib.Clock

/-!
# Timers fire on time

The list of timers is an agenda: the differences of the words that `rt_timer_start` and `rt_timer_check`
compare have the sign of the differences of the times, as no deadline is half the range of the tick away.
A timer of no ticks waits for the next tick if it is started between two.
-/

namespace Hcics

namespace Timers

open Agenda

variable {s s' : Timers} {t u : TimerId} {e : Entry} {x : RtTimer}

def entry (s : Timers) (t : TimerId) : Entry := (s.armed t).getD ⟨0, 0, 0⟩

/-- How close a deadline can be: it is ahead between two ticks, and not behind in the interrupt of one;
a start of no ticks may be. -/
def Ahead (s : Timers) (e : Entry) : Prop :=
  if s.phase = .idle then s.now < e.due ∨ e.wait = 0 ∧ s.now = e.due
  else s.now ≤ e.due ∨ e.wait = 0 ∧ s.now = e.due + 1

/-- The list holds the timers that were started and have neither fired nor been stopped, in order. -/
structure Inv (s : Timers) : Prop where
  tick : s.tick = UInt32.ofNat s.now
  initTick : ∀ t, (s.timer t).initTick < halfTickMax
  nodup : s.list.Nodup
  mem_iff : ∀ t, t ∈ s.list ↔ (s.armed t).isSome = true
  activated : ∀ t ∈ s.list, (s.timer t).activated = true
  timeout : ∀ t e, s.armed t = some e → (s.timer t).timeoutTick = UInt32.ofNat e.due
  made : ∀ t e, s.armed t = some e → e.made ≤ s.now ∧ e.wait < 2147483647 ∧ e.number < s.starts
  unique : ∀ t u e e', s.armed t = some e → s.armed u = some e' → e.number = e'.number → t = u
  ahead : ∀ t e, s.armed t = some e → s.Ahead e
  sorted : s.list.Pairwise fun t u => (s.entry t).Before (s.entry u)

structure History (s : Timers) : Prop where
  time : ∀ f ∈ s.fired, f.time = f.start.due ∨ f.start.wait = 0 ∧ f.time = f.start.due + 1
  starts : ∀ f ∈ s.fired, f.start.number < f.starts ∧ f.starts ≤ s.starts
  before : ∀ f ∈ s.fired, ∀ t e, s.armed t = some e → e.number < f.starts → f.start.Before e
  order : s.fired.Pairwise fun f g => g.start.number < f.starts → f.start.Before g.start
  once : s.fired.Pairwise fun f g => f.start.number ≠ g.start.number
  waiting : ∀ f ∈ s.fired, ∀ t e, s.armed t = some e → f.start.number ≠ e.number

theorem entry_of_armed (h : s.armed t = some e) : s.entry t = e := by
  rw [entry, h, Option.getD_some]

theorem Inv.mem (h : s.Inv) (he : s.armed t = some e) : t ∈ s.list :=
  (h.mem_iff t).mpr (he ▸ rfl)

theorem Inv.armed_entry (h : s.Inv) (ht : t ∈ s.list) : s.armed t = some (s.entry t) := by
  obtain ⟨e, he⟩ := Option.isSome_iff_exists.mp ((h.mem_iff t).mp ht)
  rw [he, entry_of_armed he]

theorem Ahead.le (h : s.Ahead e) : s.now ≤ e.due + 1 := by
  unfold Ahead at h
  split at h <;> omega

theorem Inv.due_lt (h : s.Inv) (he : s.armed t = some e) : e.due < s.now + 2147483647 := by
  obtain ⟨hmade, hwait, -⟩ := h.made t e he
  rw [Entry.due]
  omega

theorem Inv.due_iff (h : s.Inv) (he : s.armed t = some e) :
    s.tick - (s.timer t).timeoutTick < halfTickMax ↔ e.due ≤ s.now := by
  have hle := (h.ahead t e he).le
  have hlt := h.due_lt he
  rw [h.tick, h.timeout t e he]
  exact Clock.sub_lt_half_iff (by omega) (by omega)

/-! ## A timer leaves the list -/

/-- `_timer_remove`, with the timer as it is then. -/
def disarm (s : Timers) (t : TimerId) (x : RtTimer) : Timers :=
  { (s.remove t).setTimer t x with armed := Function.update s.armed t none }

theorem remove_idle : (s.remove t).phase = .idle ↔ s.phase = .idle := by
  unfold remove
  cases s.phase <;> simp

theorem disarm_self : (s.disarm t x).timer t = x := setTimer_self

theorem disarm_timer (hu : u ≠ t) : (s.disarm t x).timer u = s.timer u := setTimer_of_ne hu

theorem armed_disarm : (s.disarm t x).armed u = some e ↔ u ≠ t ∧ s.armed u = some e := by
  by_cases hu : u = t <;> simp [disarm, hu]

theorem entry_disarm (hu : u ≠ t) : (s.disarm t x).entry u = s.entry u := by
  simp only [entry, disarm, Function.update_of_ne hu]

theorem mem_disarm (h : s.Inv) : u ∈ (s.disarm t x).list ↔ u ≠ t ∧ u ∈ s.list :=
  List.Nodup.mem_erase_iff h.nodup

theorem Inv.disarm (h : s.Inv) (t : TimerId) (hx : x.initTick < halfTickMax) : (s.disarm t x).Inv where
  tick := h.tick
  initTick u := by
    by_cases hu : u = t
    · rw [hu, disarm_self]
      exact hx
    · rw [disarm_timer hu]
      exact h.initTick u
  nodup := h.nodup.erase t
  mem_iff u := by
    rw [mem_disarm h, h.mem_iff, Option.isSome_iff_exists, Option.isSome_iff_exists]
    simp only [armed_disarm, exists_and_left]
  activated u hu := by
    obtain ⟨hne, hmem⟩ := (mem_disarm h).mp hu
    rw [disarm_timer hne]
    exact h.activated u hmem
  timeout u e he := by
    obtain ⟨hne, he⟩ := armed_disarm.mp he
    rw [disarm_timer hne]
    exact h.timeout u e he
  made u e he := h.made u e (armed_disarm.mp he).2
  unique u v e e' he he' := h.unique u v e e' (armed_disarm.mp he).2 (armed_disarm.mp he').2
  ahead u e he := by
    have hahead := h.ahead u e (armed_disarm.mp he).2
    have hphase : (s.disarm t x).phase = .idle ↔ s.phase = .idle := remove_idle
    simp only [Ahead, hphase]
    exact hahead
  sorted := by
    refine (h.sorted.sublist List.erase_sublist).imp_of_mem fun {u v} hu hv hbefore => ?_
    rwa [entry_disarm ((mem_disarm h).mp hu).1, entry_disarm ((mem_disarm h).mp hv).1]

theorem History.disarm (h : s.History) (t : TimerId) (x : RtTimer) : (s.disarm t x).History where
  time := h.time
  starts := h.starts
  before f hf u e he := h.before f hf u e (armed_disarm.mp he).2
  order := h.order
  once := h.once
  waiting f hf u e he := h.waiting f hf u e (armed_disarm.mp he).2

/-! ## A timer enters it -/

/-- The rest of `rt_timer_start`. -/
def arm (s : Timers) (t : TimerId) : Timers :=
  { s with
    list := insertTimer (fun u => (s.timer u).timeoutTick) t s.list
    armed := Function.update s.armed t (some ⟨s.now, (s.timer t).initTick.toNat, s.starts⟩)
    starts := s.starts + 1 }

theorem start_eq : s.start t = (s.disarm t
    { s.timer t with timeoutTick := s.tick + (s.timer t).initTick, activated := true }).arm t := by
  simp only [start, arm, disarm, setTimer, remove, Function.update_self, Function.update_idem, mk.injEq,
    and_true, true_and]
  congr 1
  funext u
  by_cases hu : u = t <;> simp [hu]

theorem armed_arm : (s.arm t).armed u = some e ↔
    u = t ∧ e = ⟨s.now, (s.timer t).initTick.toNat, s.starts⟩ ∨ u ≠ t ∧ s.armed u = some e := by
  by_cases hu : u = t <;> simp [arm, hu, eq_comm]

theorem entry_arm_self : (s.arm t).entry t = ⟨s.now, (s.timer t).initTick.toNat, s.starts⟩ :=
  entry_of_armed (armed_arm.mpr (.inl ⟨rfl, rfl⟩))

theorem entry_arm (hu : u ≠ t) : (s.arm t).entry u = s.entry u := by
  simp only [entry, arm, Function.update_of_ne hu]

theorem insertTimer_eq {w : TimerId → Tick} {d : TimerId → Nat} {l : List TimerId}
    (hw : w t = UInt32.ofNat (d t))
    (hl : ∀ u ∈ l, w u = UInt32.ofNat (d u) ∧ d t ≤ d u + 2 ^ 31 ∧ d u < d t + 2147483647) :
    insertTimer w t l = l.orderedInsert (fun u v => d u < d v) t := by
  induction l with
  | nil => rfl
  | cons u l ih =>
    obtain ⟨hu, hlow, hhigh⟩ := hl u List.mem_cons_self
    have hzero : w u - w t = 0 ↔ d u = d t := by
      rw [hu, hw]
      exact Clock.sub_eq_zero_iff (by omega) (by omega)
    have hhalf : w u - w t < halfTickMax ↔ d t ≤ d u := by
      rw [hu, hw]
      exact Clock.sub_lt_half_iff (by omega) (by omega)
    rw [insertTimer, List.orderedInsert_cons, ih fun v hv => hl v (List.mem_cons_of_mem _ hv)]
    simp only [hzero, hhalf]
    rcases Nat.lt_trichotomy (d t) (d u) with hlt | heq | hgt
    · rw [if_neg (by omega), if_pos (by omega), if_pos hlt]
    · rw [if_pos heq.symm, if_neg (by omega)]
    · rw [if_neg (by omega), if_neg (by omega), if_neg (by omega)]

theorem Inv.arm_list (h : s.Inv) (hfree : s.armed t = none)
    (htimeout : (s.timer t).timeoutTick = s.tick + (s.timer t).initTick) :
    (s.arm t).list = s.list.orderedInsert
      (fun u v => ((s.arm t).entry u).due < ((s.arm t).entry v).due) t := by
  refine insertTimer_eq (d := fun u => ((s.arm t).entry u).due) ?_ fun u hu => ?_
  · rw [entry_arm_self, htimeout, h.tick, Clock.ofNat_add_duration]
    rfl
  · have he := h.armed_entry hu
    have hne : u ≠ t := by
      rintro rfl
      rw [hfree] at he
      cases he
    have hle := (h.ahead u _ he).le
    have hlt := h.due_lt he
    have hinit := UInt32.lt_iff_toNat_lt.mp (h.initTick t)
    rw [show halfTickMax.toNat = 2147483647 from rfl] at hinit
    simp only [entry_arm hne, entry_arm_self, Entry.due] at hle hlt ⊢
    exact ⟨h.timeout u _ he, by omega, by omega⟩

theorem Inv.arm (h : s.Inv) (hfree : s.armed t = none) (hactive : (s.timer t).activated = true)
    (htimeout : (s.timer t).timeoutTick = s.tick + (s.timer t).initTick) : (s.arm t).Inv := by
  have hnot : t ∉ s.list := by
    rw [h.mem_iff, hfree]
    exact Bool.false_ne_true
  have hlist := h.arm_list hfree htimeout
  have hmem : ∀ u, u ∈ (s.arm t).list ↔ u = t ∨ u ∈ s.list := fun u => by
    rw [hlist, List.mem_orderedInsert]
  have hinit := UInt32.lt_iff_toNat_lt.mp (h.initTick t)
  rw [show halfTickMax.toNat = 2147483647 from rfl] at hinit
  refine ⟨h.tick, h.initTick, ?nodup, fun u => ?mem, fun u hu => ?activated, fun u e he => ?timeout,
    fun u e he => ?made, fun u v e e' he he' hn => ?unique, fun u e he => ?ahead, ?sorted⟩
  case nodup =>
    rw [hlist]
    exact (List.perm_orderedInsert _ t s.list).nodup_iff.mpr (List.nodup_cons.mpr ⟨hnot, h.nodup⟩)
  case mem =>
    rw [hmem, h.mem_iff, Option.isSome_iff_exists, Option.isSome_iff_exists]
    simp only [armed_arm]
    by_cases hu : u = t <;> simp [hu]
  case activated =>
    rcases (hmem u).mp hu with rfl | hu
    · exact hactive
    · exact h.activated u hu
  case timeout =>
    rcases armed_arm.mp he with ⟨rfl, rfl⟩ | ⟨-, he⟩
    · exact htimeout.trans (h.tick ▸ Clock.ofNat_add_duration ..)
    · exact h.timeout u e he
  case made =>
    rcases armed_arm.mp he with ⟨rfl, rfl⟩ | ⟨-, he⟩
    · exact ⟨Nat.le_refl _, hinit, Nat.lt_succ_self _⟩
    · exact (h.made u e he).imp_right (.imp_right Nat.lt_succ_of_lt)
  case unique =>
    rcases armed_arm.mp he with ⟨rfl, rfl⟩ | ⟨-, hu⟩ <;> rcases armed_arm.mp he' with ⟨rfl, rfl⟩ | ⟨-, hv⟩
    · rfl
    · exact absurd hn (h.made v e' hv).2.2.ne'
    · exact absurd hn (h.made u e hu).2.2.ne
    · exact h.unique u v e e' hu hv hn
  case ahead =>
    rcases armed_arm.mp he with ⟨rfl, rfl⟩ | ⟨-, he⟩
    · unfold Ahead
      simp only [Entry.due, show (s.arm u).now = s.now from rfl]
      split <;> omega
    · exact h.ahead u e he
  case sorted =>
    rw [hlist]
    refine orderedInsert_sorted (h.sorted.imp_of_mem fun {u v} hu hv hbefore => ?_) fun u hu => ?_
    · rwa [entry_arm (ne_of_mem_of_not_mem hu hnot), entry_arm (ne_of_mem_of_not_mem hv hnot)]
    · rw [entry_arm (ne_of_mem_of_not_mem hu hnot), entry_arm_self]
      exact (h.made u _ (h.armed_entry hu)).2.2

theorem History.arm (h : s.History) (t : TimerId) : (s.arm t).History where
  time := h.time
  starts f hf := (h.starts f hf).imp_right Nat.le_succ_of_le
  before f hf u e he hlt := by
    rcases armed_arm.mp he with ⟨rfl, rfl⟩ | ⟨-, he⟩
    · exact absurd (h.starts f hf).2 (Nat.not_le.mpr hlt)
    · exact h.before f hf u e he hlt
  order := h.order
  once := h.once
  waiting f hf u e he := by
    rcases armed_arm.mp he with ⟨rfl, rfl⟩ | ⟨-, he⟩
    · exact ((h.starts f hf).1.trans_le (h.starts f hf).2).ne
    · exact h.waiting f hf u e he

/-! ## The steps -/

theorem Inv.moves (h : s.Inv) {phase : TimerPhase} {fired : List Firing}
    (hahead : ∀ t e, s.armed t = some e → Ahead { s with phase := phase, fired := fired } e) :
    Inv { s with phase := phase, fired := fired } :=
  ⟨h.tick, h.initTick, h.nodup, h.mem_iff, h.activated, h.timeout, h.made, h.unique, hahead, h.sorted⟩

theorem Inv.moves_of_iff (h : s.Inv) {phase : TimerPhase} {fired : List Firing}
    (hphase : phase = .idle ↔ s.phase = .idle) : Inv { s with phase := phase, fired := fired } :=
  h.moves fun t e he => by
    have hahead := h.ahead t e he
    simp only [Ahead, hphase] at hahead ⊢
    exact hahead

theorem History.moves (h : s.History) {phase : TimerPhase} : History { s with phase := phase } :=
  ⟨h.time, h.starts, h.before, h.order, h.once, h.waiting⟩

theorem Inv.setTimer (h : s.Inv) (hx : x.initTick < halfTickMax)
    (htimeout : x.timeoutTick = (s.timer t).timeoutTick) (hactive : x.activated = (s.timer t).activated) :
    (s.setTimer t x).Inv := by
  have htimer : ∀ u, ((s.setTimer t x).timer u).initTick < halfTickMax ∧
      ((s.setTimer t x).timer u).timeoutTick = (s.timer u).timeoutTick ∧
      ((s.setTimer t x).timer u).activated = (s.timer u).activated := by
    intro u
    by_cases hu : u = t
    · subst hu
      rw [setTimer_self]
      exact ⟨hx, htimeout, hactive⟩
    · rw [setTimer_of_ne hu]
      exact ⟨h.initTick u, rfl, rfl⟩
  exact ⟨h.tick, fun u => (htimer u).1, h.nodup, h.mem_iff,
    fun u hu => (htimer u).2.2.trans (h.activated u hu),
    fun u e he => (htimer u).2.1.trans (h.timeout u e he), h.made, h.unique, h.ahead, h.sorted⟩

theorem History.setTimer (h : s.History) : (s.setTimer t x).History :=
  ⟨h.time, h.starts, h.before, h.order, h.once, h.waiting⟩

theorem Inv.start (h : s.Inv) (t : TimerId) : (s.start t).Inv := by
  rw [start_eq]
  refine Inv.arm (h.disarm t ?_) (Function.update_self ..) ?_ ?_
  · exact h.initTick t
  · rw [disarm_self]
  · rw [disarm_self]
    rfl

theorem History.start (h : s.History) (t : TimerId) : (s.start t).History := by
  rw [start_eq]
  exact (h.disarm ..).arm t

theorem Inv.stop (h : s.Inv) (t : TimerId) : (s.stop t).Inv := by
  unfold Timers.stop
  split
  · exact h.disarm t (h.initTick t)
  · exact h

theorem History.stop (h : s.History) (t : TimerId) : (s.stop t).History := by
  unfold Timers.stop
  split
  · exact h.disarm ..
  · exact h

def fireTimer (s : Timers) (t : TimerId) : RtTimer :=
  { s.timer t with activated := if (s.timer t).periodic then (s.timer t).activated else false }

theorem fire_eq (he : s.armed t = some e) : s.fire t =
    { s.disarm t (s.fireTimer t) with
      phase := .callback t true
      fired := s.fired ++ [⟨t, e, s.now, s.starts⟩] } := by
  simp only [fire, he, disarm, fireTimer, setTimer, remove]

theorem Inv.fire (h : s.Inv) (he : s.armed t = some e) (hphase : s.phase ≠ .idle) : (s.fire t).Inv := by
  rw [fire_eq he]
  refine (h.disarm t (x := s.fireTimer t) (h.initTick t)).moves_of_iff ?_
  exact iff_of_false TimerPhase.noConfusion (remove_idle.not.mpr hphase)

theorem History.fire (h : s.History) (hinv : s.Inv) (he : s.armed t = some e) (hphase : s.phase ≠ .idle)
    (hfirst : ∀ u f, u ≠ t → s.armed u = some f → e.Before f) (hdue : e.due ≤ s.now) :
    (s.fire t).History := by
  have hnumber := (hinv.made t e he).2.2
  have hahead := hinv.ahead t e he
  rw [Ahead, if_neg hphase] at hahead
  rw [fire_eq he]
  refine ⟨fun f hf => ?time, fun f hf => ?starts, fun f hf u k hk => ?before, ?order, ?once,
    fun f hf u k hk => ?waiting⟩
  case time =>
    rcases List.mem_append.mp hf with hf | hf
    · exact h.time f hf
    · obtain rfl := List.mem_singleton.mp hf
      exact hahead.imp (Nat.le_antisymm · hdue) id
  case starts =>
    rcases List.mem_append.mp hf with hf | hf
    · exact h.starts f hf
    · obtain rfl := List.mem_singleton.mp hf
      exact ⟨hnumber, Nat.le_refl _⟩
  case before =>
    obtain ⟨hu, hk⟩ := (armed_disarm (x := s.fireTimer t)).mp hk
    rcases List.mem_append.mp hf with hf | hf
    · exact h.before f hf u k hk
    · obtain rfl := List.mem_singleton.mp hf
      exact fun _ => hfirst u k hu hk
  case order =>
    refine List.pairwise_append.mpr ⟨h.order, List.pairwise_singleton _ _, fun f hf g hg => ?_⟩
    obtain rfl := List.mem_singleton.mp hg
    exact h.before f hf t e he
  case once =>
    refine List.pairwise_append.mpr ⟨h.once, List.pairwise_singleton _ _, fun f hf g hg => ?_⟩
    obtain rfl := List.mem_singleton.mp hg
    exact h.waiting f hf t e he
  case waiting =>
    obtain ⟨hu, hk⟩ := (armed_disarm (x := s.fireTimer t)).mp hk
    rcases List.mem_append.mp hf with hf | hf
    · exact h.waiting f hf u k hk
    · obtain rfl := List.mem_singleton.mp hf
      exact fun heq => hu (hinv.unique t u e k he hk heq).symm

theorem Inv.check_cases (h : s.Inv) :
    (s.check = { s with phase := .idle } ∧ ∀ t e, s.armed t = some e → s.now < e.due) ∨
      ∃ t rest e, s.list = t :: rest ∧ s.armed t = some e ∧ e.due ≤ s.now ∧
        (∀ u f, u ≠ t → s.armed u = some f → e.Before f) ∧ s.check = s.fire t := by
  unfold check
  cases hl : s.list with
  | nil =>
    refine .inl ⟨rfl, fun t e he => ?_⟩
    have ht := h.mem he
    rw [hl] at ht
    cases ht
  | cons t rest =>
    have he := h.armed_entry (hl ▸ List.mem_cons_self)
    have hfirst : ∀ u f, u ≠ t → s.armed u = some f → (s.entry t).Before f := by
      intro u f hu hf
      have hmem := h.mem hf
      rw [hl] at hmem
      rw [← entry_of_armed hf]
      have hsorted := h.sorted
      rw [hl] at hsorted
      exact (List.pairwise_cons.mp hsorted).1 u ((List.mem_cons.mp hmem).resolve_left hu)
    simp only [h.due_iff he]
    split
    · rename_i hdue
      exact .inr ⟨t, rest, _, rfl, he, hdue, hfirst, rfl⟩
    · rename_i hnot
      refine .inl ⟨rfl, fun u f hf => ?_⟩
      by_cases hu : u = t
      · subst hu
        rw [← entry_of_armed hf]
        exact Nat.not_le.mp hnot
      · exact (Nat.not_le.mp hnot).trans_le (hfirst u f hu hf).due_le

theorem Inv.check (h : s.Inv) (hhist : s.History) (hphase : s.phase ≠ .idle) :
    s.check.Inv ∧ s.check.History := by
  rcases h.check_cases with ⟨heq, hlater⟩ | ⟨t, rest, e, -, he, hdue, hfirst, heq⟩
  · rw [heq]
    refine ⟨h.moves fun t e he => ?_, hhist.moves⟩
    rw [Ahead, if_pos rfl]
    exact .inl (hlater t e he)
  · rw [heq]
    exact ⟨h.fire he hphase, hhist.fire h he hphase hfirst hdue⟩

theorem disarm_setTimer {y : RtTimer} : (s.setTimer t y).disarm t x = s.disarm t x := by
  simp only [Timers.disarm, Timers.setTimer, remove, Function.update_idem]

theorem start_setTimer : (s.setTimer t { s.timer t with activated := false }).start t = s.start t := by
  rw [start_eq, start_eq, disarm_setTimer, setTimer_self]
  rfl

theorem finish_eq {listed : Bool} : s.finish t listed =
    if listed && (s.timer t).periodic && (s.timer t).activated then { s with phase := .loop }.start t
    else { s with phase := .loop } := by
  simp only [Timers.finish]
  split
  · exact start_setTimer
  · rfl

theorem Inv.finish (h : s.Inv) (hhist : s.History) {listed : Bool} (hphase : s.phase ≠ .idle) :
    (s.finish t listed).Inv ∧ (s.finish t listed).History := by
  have hloop : Inv { s with phase := .loop } :=
    h.moves_of_iff (iff_of_false TimerPhase.noConfusion hphase)
  rw [finish_eq]
  split
  · exact ⟨hloop.start t, hhist.moves.start t⟩
  · exact ⟨hloop, hhist.moves⟩

theorem Inv.tick_step (h : s.Inv) (hphase : s.phase = .idle) :
    Inv { s with tick := s.tick + 1, now := s.now + 1, phase := .due } where
  tick := by
    rw [h.tick]
    exact (UInt32.ofNat_add ..).symm
  initTick := h.initTick
  nodup := h.nodup
  mem_iff := h.mem_iff
  activated := h.activated
  timeout := h.timeout
  made t e he := (h.made t e he).imp_left Nat.le_succ_of_le
  unique := h.unique
  ahead t e he := by
    have hahead := h.ahead t e he
    rw [Ahead, if_pos hphase] at hahead
    rw [Ahead, if_neg TimerPhase.noConfusion]
    exact hahead.imp id (.imp_right (congrArg (· + 1)))
  sorted := h.sorted

theorem step_inv {i : Input} (h : s.Inv) (hhist : s.History) (hs : step s i = some s') :
    s'.Inv ∧ s'.History := by
  cases i with
  | tick =>
    simp only [step] at hs
    split at hs
    · obtain rfl := Option.some_inj.mp hs
      exact ⟨h.tick_step ‹_›, ⟨hhist.time, hhist.starts, hhist.before, hhist.order, hhist.once,
        hhist.waiting⟩⟩
    · cases hs
  | check =>
    simp only [step] at hs
    split at hs
    · obtain rfl := Option.some_inj.mp hs
      exact h.check hhist (by simp [*])
    · obtain rfl := Option.some_inj.mp hs
      exact h.check hhist (by simp [*])
    · cases hs
  | finish =>
    simp only [step] at hs
    split at hs
    · obtain rfl := Option.some_inj.mp hs
      exact h.finish hhist (by simp [*])
    · cases hs
  | start t =>
    obtain ⟨-, hs⟩ := Option.ite_none_right_eq_some.mp hs
    obtain rfl := Option.some_inj.mp hs
    exact ⟨h.start t, hhist.start t⟩
  | stop t =>
    obtain ⟨-, hs⟩ := Option.ite_none_right_eq_some.mp hs
    obtain rfl := Option.some_inj.mp hs
    exact ⟨h.stop t, hhist.stop t⟩
  | setTime t time =>
    obtain ⟨htime, hs⟩ := Option.ite_none_right_eq_some.mp hs
    obtain rfl := Option.some_inj.mp hs
    refine ⟨h.setTimer ?_ rfl rfl, hhist.setTimer⟩
    exact of_decide_eq_true (Bool.and_eq_true_iff.mp htime).2
  | setPeriodic t periodic =>
    obtain ⟨-, hs⟩ := Option.ite_none_right_eq_some.mp hs
    obtain rfl := Option.some_inj.mp hs
    exact ⟨h.setTimer (h.initTick t) rfl rfl, hhist.setTimer⟩

theorem reach_inv (h : machine.Reach Machine.free s) : s.Inv ∧ s.History := by
  refine h.inv ?_ fun s i t _ hinv _ hstep => step_inv hinv.1 hinv.2 hstep
  rintro s ⟨initTick, periodic, hinit, rfl⟩
  refine ⟨⟨rfl, hinit, List.nodup_nil, fun t => ?_, ?_, ?_, ?_, ?_, ?_, .nil⟩, ⟨?_, ?_, ?_, .nil, .nil, ?_⟩⟩
  all_goals simp [init]

/-- A timer of two ticks, a periodic one of one tick and one of no ticks, over two ticks. -/
def crossed : List Input :=
  [.start 0, .start 1, .start 2, .tick, .check, .finish, .check, .finish, .check,
    .tick, .check, .finish, .check, .finish, .check]

end Timers

end Hcics
