import Mathlib.Tactic.Common

/-!
# Programs that poll

A polling loop reads one input a round, and then returns or goes round again: its `body` gives the
state after the round and, where the loop returns, the result. `run` is the loop on a list of inputs;
where the list ends first, the loop has not returned. `Goes` are the rounds that go on, with the
inputs they read, `run_eq_some` and `run_eq_none` say what a run is in terms of them, and `Goes.inv`
is the invariant rule.

A `Streak` is what a loop counts or times that waits for the same answer several rounds in a row: the
last inputs read, all of which meet a condition.

`Proc` are programs made of such loops. `Proc.Spec P p I Q` is their Hoare triple: from `P`, the
program `p` ends in `Q`, and is in `I` where it waits for an input that is not there. For each way to
build a program there is a rule, and a lemma `_eq_some` that says when it returns.
-/

universe u v w x

namespace Polling

variable {σ : Type u} {ι : Type v} {ρ : Type w} (body : σ → ι → σ × Option ρ)

/-- What the loop returned, the state it left and the inputs it has not read. -/
def run (s : σ) : List ι → Option ρ × σ × List ι
  | [] => (none, s, [])
  | i :: is =>
    match body s i with
    | (t, some r) => (some r, t, is)
    | (t, none) => run t is

/-- The loop goes on through the rounds that read `is`, and from `s` to `t`. -/
inductive Goes (s : σ) : List ι → σ → Prop where
  | refl : Goes s [] s
  | round {is : List ι} {t u : σ} (i : ι) : Goes s is t → body t i = (u, none) → Goes s (is ++ [i]) u

variable {body} {s t u : σ} {is js : List ι} {i : ι} {r : ρ}

theorem Goes.trans (h : Goes body s is t) (h' : Goes body t js u) : Goes body s (is ++ js) u := by
  induction h' with
  | refl => simpa using h
  | round i _ hb ih => simpa using Goes.round i ih hb

theorem Goes.head (hb : body s i = (t, none)) (h : Goes body t is u) : Goes body s (i :: is) u :=
  (Goes.round i .refl hb).trans h

/-- The invariant rule, with the inputs read so far. -/
theorem Goes.inv {P : List ι → σ → Prop} (h : Goes body s is t) (h0 : P [] s)
    (hround : ∀ is t i u, Goes body s is t → P is t → body t i = (u, none) → P (is ++ [i]) u) :
    P is t := by
  induction h with
  | refl => exact h0
  | round i hgo hb ih => exact hround _ _ i _ hgo ih hb

/-- The rounds of a loop that leaves its state alone while it goes on. -/
theorem goes_still (h : ∀ i t, body s i = (t, none) → t = s) :
    Goes body s is t ↔ t = s ∧ ∀ i ∈ is, body s i = (s, none) := by
  constructor
  · intro hgo
    induction hgo with
    | refl => exact ⟨rfl, fun i hi => absurd hi List.not_mem_nil⟩
    | round i _ hb ih =>
      obtain ⟨rfl, hall⟩ := ih
      obtain rfl := h i _ hb
      refine ⟨rfl, fun j hj => ?_⟩
      rcases List.mem_append.mp hj with hj | hj
      · exact hall j hj
      · obtain rfl := List.mem_singleton.mp hj
        exact hb
  · rintro ⟨rfl, hall⟩
    induction is with
    | nil => exact .refl
    | cons i is ih =>
      exact .head (hall i List.mem_cons_self) (ih fun j hj => hall j (List.mem_cons_of_mem i hj))

theorem Goes.run_append (h : Goes body s is t) (js : List ι) :
    run body s (is ++ js) = run body t js := by
  induction h generalizing js with
  | refl => rfl
  | round i _ hb ih => rw [List.append_assoc, ih, List.singleton_append, run, hb]

/-- The rounds of a loop that returns: some that go on, and the one that returns. -/
theorem run_eq_some : run body s is = (some r, u, js) ↔
    ∃ pre i t, is = pre ++ i :: js ∧ Goes body s pre t ∧ body t i = (u, some r) := by
  constructor
  · induction is generalizing s with
    | nil => simp [run]
    | cons i is ih =>
      intro h
      rw [run] at h
      rcases hb : body s i with ⟨t, _ | r'⟩
      · rw [hb] at h
        obtain ⟨pre, j, v, rfl, hgo, hret⟩ := ih h
        exact ⟨i :: pre, j, v, rfl, .head hb hgo, hret⟩
      · rw [hb] at h
        simp only [Prod.mk.injEq, Option.some.injEq] at h
        obtain ⟨rfl, rfl, rfl⟩ := h
        exact ⟨[], i, s, rfl, .refl, hb⟩
  · rintro ⟨pre, i, t, rfl, hgo, hret⟩
    rw [hgo.run_append, run, hret]

theorem run_eq_none : run body s is = (none, u, js) ↔ js = [] ∧ Goes body s is u := by
  constructor
  · induction is generalizing s with
    | nil =>
      intro h
      simp only [run, Prod.mk.injEq, true_and] at h
      obtain ⟨rfl, rfl⟩ := h
      exact ⟨rfl, .refl⟩
    | cons i is ih =>
      intro h
      rw [run] at h
      rcases hb : body s i with ⟨t, _ | r'⟩
      · rw [hb] at h
        obtain ⟨hjs, hgo⟩ := ih h
        exact ⟨hjs, .head hb hgo⟩
      · rw [hb] at h
        simp at h
  · rintro ⟨rfl, hgo⟩
    have hrun := hgo.run_append []
    rwa [List.append_nil] at hrun

/-- A loop next to a state that it leaves alone. -/
def beside {τ : Type x} (body : τ → ι → τ × Option ρ) (s : σ × τ) (i : ι) : (σ × τ) × Option ρ :=
  ((s.1, (body s.2 i).1), (body s.2 i).2)

theorem run_beside {τ : Type x} (body : τ → ι → τ × Option ρ) (s : σ) (l : τ) (is : List ι) :
    run (beside body) (s, l) is =
      ((run body l is).1, (s, (run body l is).2.1), (run body l is).2.2) := by
  induction is generalizing l with
  | nil => rfl
  | cons i is ih =>
    simp only [run, beside]
    rcases body l i with ⟨l', _ | r⟩
    · exact ih l'
    · rfl

/-- `ys` ends the list `xs`, and meets `P` throughout. -/
structure Streak {α : Type u} (P : α → Prop) (xs ys : List α) : Prop where
  suffix : ys <:+ xs
  all : ∀ y ∈ ys, P y

section Streak

variable {α : Type u} {P Q : α → Prop} {xs ys zs : List α} {x : α}

theorem Streak.nil (P : α → Prop) (xs : List α) : Streak P xs [] :=
  ⟨List.nil_suffix, fun _ h => absurd h List.not_mem_nil⟩

theorem Streak.snoc (h : Streak P xs ys) (hx : P x) : Streak P (xs ++ [x]) (ys ++ [x]) := by
  refine ⟨?_, ?_⟩
  · obtain ⟨pre, rfl⟩ := h.suffix
    exact ⟨pre, by rw [List.append_assoc]⟩
  · intro y hy
    rcases List.mem_append.mp hy with hy | hy
    · exact h.all y hy
    · obtain rfl := List.mem_singleton.mp hy
      exact hx

end Streak

end Polling

/-- A program on states `σ` that reads inputs `ι`: its result, where it has one, the state and the
inputs it has not read. -/
def Proc (σ : Type u) (ι : Type v) (α : Type w) := σ → List ι → Option α × σ × List ι

namespace Proc

variable {σ : Type u} {ι : Type v} {τ : Type x} {α β : Type w}

/-- A program that does nothing. -/
protected def pure (a : α) : Proc σ ι α := fun s is => (some a, s, is)

/-- One program after another. -/
protected def bind (p : Proc σ ι α) (f : α → Proc σ ι β) : Proc σ ι β := fun s is =>
  match p s is with
  | (some a, t, js) => f a t js
  | (none, t, js) => (none, t, js)

instance : Monad (Proc σ ι) where
  pure := Proc.pure
  bind := Proc.bind

/-- Something read off the state. -/
def gets (f : σ → α) : Proc σ ι α := fun s is => (some (f s), s, is)

def modify (f : σ → σ) : Proc σ ι PUnit := fun s is => (some ⟨⟩, f s, is)

/-- A change of the state that reads an input. -/
def act (f : σ → ι → σ × α) : Proc σ ι α
  | s, [] => (none, s, [])
  | s, i :: is => (some (f s i).2, (f s i).1, is)

/-- A polling loop with the local variables `τ`. -/
def poll (body : σ × τ → ι → (σ × τ) × Option α) (init : τ) : Proc σ ι α := fun s is =>
  match Polling.run body (s, init) is with
  | (result, (t, _), js) => (result, t, js)

theorem poll_beside (body : τ → ι → τ × Option α) (init : τ) (s : σ) (is : List ι) :
    poll (Polling.beside body) init s is =
      ((Polling.run body init is).1, s, (Polling.run body init is).2.2) := by
  unfold poll
  rw [Polling.run_beside]

theorem bind_apply (p : Proc σ ι α) (f : α → Proc σ ι β) (s : σ) (is : List ι) :
    (p >>= f) s is = match p s is with
      | (some a, t, js) => f a t js
      | (none, t, js) => (none, t, js) := rfl

protected theorem bind_assoc {γ : Type w} (p : Proc σ ι α) (f : α → Proc σ ι β) (g : β → Proc σ ι γ) :
    p >>= f >>= g = p >>= fun a => f a >>= g := by
  funext s is
  simp only [bind_apply]
  rcases p s is with ⟨_ | a, t, js⟩
  · rfl
  · rfl

protected theorem pure_bind (a : α) (f : α → Proc σ ι β) : (Pure.pure a : Proc σ ι α) >>= f = f a := rfl

theorem ite_bind {c : Prop} [Decidable c] (p q : Proc σ ι α) (f : α → Proc σ ι β) :
    (if c then p else q) >>= f = if c then p >>= f else q >>= f := by
  split
  · rfl
  · rfl

theorem poll_bind_cons {body : σ × τ → ι → (σ × τ) × Option α} {init : τ} {f : α → Proc σ ι β}
    {s : σ} {i : ι} {is : List ι} :
    (poll body init >>= f) s (i :: is) = match body (s, init) i with
      | (t, none) => (poll body t.2 >>= f) t.1 is
      | (t, some a) => f a t.1 is := by
  simp only [bind_apply, poll, Polling.run]
  rcases body (s, init) i with ⟨⟨t, l⟩, _ | a⟩
  · rfl
  · rfl

/-- A program on a part of the state. -/
def within (get : τ → σ) (set : τ → σ → τ) (p : Proc σ ι α) : Proc τ ι α := fun t is =>
  match p (get t) is with
  | (result, s, js) => (result, set t s, js)

section Returns

variable {s t : σ} {is js : List ι} {a b : α}

theorem pure_eq_some :
    (Pure.pure a : Proc σ ι α) s is = (some b, t, js) ↔ a = b ∧ s = t ∧ is = js := by
  show (some a, s, is) = (some b, t, js) ↔ _
  rw [Prod.mk.injEq, Prod.mk.injEq, Option.some.injEq]

theorem bind_eq_some {p : Proc σ ι α} {f : α → Proc σ ι β} {b : β} :
    (p >>= f) s is = (some b, t, js) ↔
      ∃ a u ks, p s is = (some a, u, ks) ∧ f a u ks = (some b, t, js) := by
  have hbind : (p >>= f) s is = match p s is with
      | (some a, t, js) => f a t js
      | (none, t, js) => (none, t, js) := rfl
  rw [hbind]
  rcases hp : p s is with ⟨_ | a, u, ks⟩
  · simp
  · constructor
    · intro h
      exact ⟨a, u, ks, rfl, h⟩
    · rintro ⟨a', u', ks', heq, h⟩
      cases heq
      exact h

/-- Where the result is not the one for a failure, the first part did not fail. -/
theorem bind_ite_eq_some {p : Proc σ ι α} {c : α → Prop} [∀ a, Decidable (c a)] {e b : β}
    {f : α → Proc σ ι β} (he : e ≠ b) :
    (p >>= fun a => if c a then Pure.pure e else f a) s is = (some b, t, js) ↔
      ∃ a u ks, p s is = (some a, u, ks) ∧ ¬ c a ∧ f a u ks = (some b, t, js) := by
  rw [bind_eq_some]
  refine exists₃_congr fun a u ks => and_congr_right fun _ => ?_
  by_cases hc : c a
  · rw [if_pos hc]
    exact iff_of_false (fun h => he (pure_eq_some.mp h).1) fun h => h.1 hc
  · rw [if_neg hc, and_iff_right hc]

theorem gets_eq_some {f : σ → α} :
    (gets f : Proc σ ι α) s is = (some a, t, js) ↔ f s = a ∧ s = t ∧ is = js := by
  rw [gets, Prod.mk.injEq, Prod.mk.injEq, Option.some.injEq]

theorem modify_eq_some {f : σ → σ} {a : PUnit} :
    (modify f : Proc σ ι PUnit) s is = (some a, t, js) ↔ f s = t ∧ is = js := by
  rw [modify, Prod.mk.injEq, Prod.mk.injEq]
  simp

theorem act_eq_some {f : σ → ι → σ × α} :
    act f s is = (some a, t, js) ↔ ∃ i, is = i :: js ∧ f s i = (t, a) := by
  cases is with
  | nil => simp [act]
  | cons i is =>
    rw [act, Prod.mk.injEq, Prod.mk.injEq, Option.some.injEq]
    constructor
    · rintro ⟨rfl, rfl, rfl⟩
      exact ⟨i, rfl, rfl⟩
    · rintro ⟨i', hcons, hf⟩
      cases hcons
      rw [hf]
      exact ⟨rfl, rfl, rfl⟩

/-- A loop that returns: rounds that go on, and the one that returns. -/
theorem poll_eq_some {body : σ × τ → ι → (σ × τ) × Option α} {init : τ} :
    poll body init s is = (some a, t, js) ↔ ∃ pre i u l, is = pre ++ i :: js ∧
      Polling.Goes body (s, init) pre u ∧ body u i = ((t, l), some a) := by
  have hpoll : poll body init s is = (some a, t, js) ↔
      ∃ l, Polling.run body (s, init) is = (some a, (t, l), js) := by
    unfold poll
    rcases Polling.run body (s, init) is with ⟨r, ⟨u, l⟩, ks⟩
    simp
  rw [hpoll]
  simp only [Polling.run_eq_some]
  constructor
  · rintro ⟨l, pre, i, u, his, hgo, hret⟩
    exact ⟨pre, i, u, l, his, hgo, hret⟩
  · rintro ⟨pre, i, u, l, his, hgo, hret⟩
    exact ⟨l, pre, i, u, his, hgo, hret⟩

theorem within_eq_some {get : τ → σ} {set : τ → σ → τ} {p : Proc σ ι α} {s t : τ} :
    within get set p s is = (some a, t, js) ↔
      ∃ u, p (get s) is = (some a, u, js) ∧ set s u = t := by
  unfold within
  rcases p (get s) is with ⟨r, u, ks⟩
  simp only [Prod.mk.injEq]
  constructor
  · rintro ⟨rfl, rfl, rfl⟩
    exact ⟨u, ⟨rfl, rfl, rfl⟩, rfl⟩
  · rintro ⟨u', ⟨rfl, rfl, rfl⟩, rfl⟩
    exact ⟨rfl, rfl, rfl⟩

end Returns

/-- From `P` the program ends in `Q`, and where it waits for an input it is in `I`. -/
def Spec (P : σ → Prop) (p : Proc σ ι α) (I : σ → Prop) (Q : α → σ → Prop) : Prop :=
  ∀ s is, P s → (∀ a t js, p s is = (some a, t, js) → Q a t) ∧
    ∀ t js, p s is = (none, t, js) → I t

variable {P P' I : σ → Prop} {p : Proc σ ι α} {Q Q' : α → σ → Prop}

theorem Spec.mono {I' : σ → Prop} (h : Spec P p I Q) (hP : ∀ s, P' s → P s)
    (hI : ∀ s, I s → I' s) (hQ : ∀ a s, Q a s → Q' a s) : Spec P' p I' Q' := by
  intro s is hs
  obtain ⟨hret, hwait⟩ := h s is (hP s hs)
  exact ⟨fun a t js he => hQ a t (hret a t js he), fun t js he => hI t (hwait t js he)⟩

/-- Two triples of one program are one. -/
theorem Spec.and {I' : σ → Prop} (h : Spec P p I Q) (h' : Spec P' p I' Q') :
    Spec (fun s => P s ∧ P' s) p (fun s => I s ∧ I' s) (fun a s => Q a s ∧ Q' a s) := by
  intro s is hs
  obtain ⟨hret, hwait⟩ := h s is hs.1
  obtain ⟨hret', hwait'⟩ := h' s is hs.2
  exact ⟨fun a t js he => ⟨hret a t js he, hret' a t js he⟩,
    fun t js he => ⟨hwait t js he, hwait' t js he⟩⟩

theorem Spec.and_result {R : α → Prop} (h : Spec P p I Q)
    (h' : Spec (fun _ => True) p (fun _ => True) (fun a _ => R a)) :
    Spec P p I (fun a s => Q a s ∧ R a) := by
  intro s is hs
  obtain ⟨hret, hwait⟩ := h s is hs
  exact ⟨fun a t js he => ⟨hret a t js he, (h' s is trivial).1 a t js he⟩, hwait⟩

/-- What a state satisfies beside a fact is what it satisfies under the fact. -/
theorem Spec.of_and {φ : Prop} (h : φ → Spec P p I Q) : Spec (fun s => φ ∧ P s) p I Q :=
  fun s is hs => h hs.1 s is hs.2

theorem Spec.of_exists {γ : Type x} {R : γ → σ → Prop} (h : ∀ c, Spec (R c) p I Q) :
    Spec (fun s => ∃ c, R c s) p I Q := by
  rintro s is ⟨c, hs⟩
  exact h c s is hs

theorem Spec.pure {a : α} (h : ∀ s, P s → Q a s) : Spec P (Pure.pure a : Proc σ ι α) I Q := by
  intro s is hs
  refine ⟨?_, ?_⟩
  · intro a' t js he
    cases he
    exact h s hs
  · intro t js he
    cases he

/-- The rule of composition: the second program starts where the first one ends. -/
theorem Spec.bind {f : α → Proc σ ι β} {R : β → σ → Prop} (hp : Spec P p I Q)
    (hf : ∀ a, Spec (Q a) (f a) I R) : Spec P (p >>= f) I R := by
  intro s is hs
  obtain ⟨hret, hwait⟩ := hp s is hs
  have hbind : (p >>= f) s is = match p s is with
      | (some a, t, js) => f a t js
      | (none, t, js) => (none, t, js) := rfl
  rw [hbind]
  rcases hps : p s is with ⟨_ | a, t, js⟩
  · refine ⟨?_, ?_⟩
    · intro b u ks he
      cases he
    · intro u ks he
      cases he
      exact hwait t js hps
  · exact hf a t js (hret a t js hps)

theorem Spec.ite {c : Prop} [Decidable c] {q : Proc σ ι α} (hp : c → Spec P p I Q)
    (hq : ¬ c → Spec P q I Q) : Spec P (if c then p else q) I Q := by
  split
  · next h => exact hp h
  · next h => exact hq h

theorem Spec.gets {f : σ → α} (h : ∀ s, P s → Q (f s) s) :
    Spec P (gets f : Proc σ ι α) I Q := by
  intro s is hs
  refine ⟨?_, ?_⟩
  · intro a t js he
    cases he
    exact h s hs
  · intro t js he
    cases he

theorem Spec.modify {f : σ → σ} {Q : PUnit → σ → Prop} (h : ∀ s, P s → Q ⟨⟩ (f s)) :
    Spec P (modify f : Proc σ ι PUnit) I Q := by
  intro s is hs
  refine ⟨?_, ?_⟩
  · intro a t js he
    cases he
    exact h s hs
  · intro t js he
    cases he

theorem Spec.act {f : σ → ι → σ × α} (hI : ∀ s, P s → I s)
    (h : ∀ s i, P s → Q (f s i).2 (f s i).1) : Spec P (act f) I Q := by
  intro s is hs
  cases is with
  | nil =>
    refine ⟨?_, ?_⟩
    · intro a t js he
      cases he
    · intro t js he
      cases he
      exact hI s hs
  | cons i is =>
    refine ⟨?_, ?_⟩
    · intro a t js he
      cases he
      exact h s i hs
    · intro t js he
      cases he

/-- The rule of loops: the invariant `J` holds before every round. -/
theorem Spec.poll {body : σ × τ → ι → (σ × τ) × Option α} {init : τ} (J : σ × τ → Prop)
    (h0 : ∀ s, P s → J (s, init)) (hI : ∀ x, J x → I x.1)
    (hgo : ∀ x i y, J x → body x i = (y, none) → J y)
    (hret : ∀ x i y a, J x → body x i = (y, some a) → Q a y.1) : Spec P (poll body init) I Q := by
  intro s is hs
  unfold Proc.poll
  rcases hrun : Polling.run body (s, init) is with ⟨_ | a, ⟨t, l⟩, js⟩
  · obtain ⟨-, hgoes⟩ := Polling.run_eq_none.mp hrun
    have hJ := hgoes.inv (P := fun _ => J) (h0 s hs) fun _ x i y _ hx hb => hgo x i y hx hb
    refine ⟨?_, ?_⟩
    · intro a u ks he
      cases he
    · intro u ks he
      cases he
      exact hI _ hJ
  · obtain ⟨pre, i, x, -, hgoes, hb⟩ := Polling.run_eq_some.mp hrun
    have hJ := hgoes.inv (P := fun _ => J) (h0 s hs) fun _ x i y _ hx hb => hgo x i y hx hb
    refine ⟨?_, ?_⟩
    · intro a' u ks he
      cases he
      exact hret x i (t, l) a hJ hb
    · intro u ks he
      cases he

theorem Spec.poll_keeps {body : σ × τ → ι → (σ × τ) × Option α} {init : τ} (hI : ∀ s, P s → I s)
    (h : ∀ x i, P x.1 → P (body x i).1.1) : Spec P (Proc.poll body init) I fun _ => P := by
  apply Spec.poll (fun x => P x.1) (fun _ hs => hs) (fun x hx => hI x.1 hx)
  · intro x i y hx hb
    have hnext := h x i hx
    rwa [hb] at hnext
  · intro x i y a hx hb
    have hnext := h x i hx
    rwa [hb] at hnext

end Proc
