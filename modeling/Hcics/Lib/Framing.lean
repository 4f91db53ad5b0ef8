import Mathlib.Data.List.Rotate
import Mathlib.Tactic.Common

/-!
# Frames of a fixed length in a stream

A frame begins with a header item and has a fixed length, which is all that delimits it: an item of a
frame may look like a header, and a frame that is rejected later still takes its whole length from
the stream. `Format.frames` cuts a stream as a whole, `Format.push` takes it item by item and keeps
the frame that is not complete; `feed_eq_frames` says that these agree. `feed_repeat` is what a
framer makes of one frame sent again and again.
-/

universe u

namespace Framing

/-- What a frame is: its header, and its length with the header. -/
structure Format (β : Type u) where
  head : β → Bool
  len : Nat
  one_lt : 1 < len

namespace Format

variable {β : Type u} (F : Format β)

/-- The frames of a stream: skip to the first header, take a frame from it, go on after the frame. -/
def frames (s : List β) : List (List β) :=
  let rest := s.dropWhile fun b => !F.head b
  if rest.length < F.len then [] else rest.take F.len :: frames (rest.drop F.len)
termination_by s.length
decreasing_by
  have hlen := (List.dropWhile_sublist (fun b => !F.head b) (l := s)).length_le
  have := F.one_lt
  simp only [rest, List.length_drop] at *
  omega

/-- One item: the frame begun, `[]` between frames, and the frame the item completes. -/
def push : List β → β → List β × Option (List β)
  | [], b => (if F.head b then [b] else [], none)
  | p :: ps, b =>
    if (p :: ps).length + 1 < F.len then (p :: ps ++ [b], none) else ([], some (p :: ps ++ [b]))

/-- Item by item, collecting the frames. -/
def feed (pending : List β) : List β → List β × List (List β)
  | [] => (pending, [])
  | b :: s =>
    let r := F.push pending b
    let t := feed r.1 s
    (t.1, r.2.toList ++ t.2)

/-- What a framer can hold: a frame begun by a header and not complete, or nothing. -/
def Pending (p : List β) : Prop := p.length < F.len ∧ ∀ b ∈ p.head?, F.head b = true

def Whole (f : List β) : Prop := f.length = F.len ∧ ∀ b ∈ f.head?, F.head b = true

/-! ## Cutting a stream as a whole -/

variable {F}

theorem frames_of_short {s : List β} (h : s.length < F.len) : F.frames s = [] := by
  have hlen := (List.dropWhile_sublist (fun b => !F.head b) (l := s)).length_le
  rw [frames, if_pos (by omega)]

theorem frames_skip {gap s : List β} (h : ∀ b ∈ gap, F.head b = false) :
    F.frames (gap ++ s) = F.frames s := by
  have hdrop : (gap ++ s).dropWhile (fun b => !F.head b) = s.dropWhile (fun b => !F.head b) :=
    List.dropWhile_append_of_pos fun b hb => by simp [h b hb]
  rw [frames, hdrop, ← frames]

theorem Whole.ne_nil {f : List β} (h : F.Whole f) : f ≠ [] := by
  rintro rfl
  have hlen := h.1
  have := F.one_lt
  simp only [List.length_nil] at hlen
  omega

theorem frames_whole {f s : List β} (h : F.Whole f) : F.frames (f ++ s) = f :: F.frames s := by
  obtain ⟨b, bs, rfl⟩ := List.exists_cons_of_ne_nil h.ne_nil
  have hb : F.head b = true := h.2 b rfl
  have hdrop : (b :: bs ++ s).dropWhile (fun b => !F.head b) = b :: bs ++ s := by
    simp [hb]
  rw [frames]
  simp only [hdrop]
  rw [if_neg (by simp only [List.length_append]; have := h.1; omega),
    List.take_left' h.1, List.drop_left' h.1]

theorem frames_replicate {f : List β} (h : F.Whole f) (k : Nat) (s : List β) :
    F.frames ((List.replicate k f).flatten ++ s) = List.replicate k f ++ F.frames s := by
  induction k with
  | zero => rfl
  | succ k ih =>
    rw [List.replicate_succ, List.flatten_cons, List.append_assoc, frames_whole h, ih,
      List.cons_append]

/-- Frames after gaps without a header are found in order, none lost or added. -/
theorem frames_gaps {l : List (List β × List β)}
    (hgap : ∀ gf ∈ l, ∀ b ∈ gf.1, F.head b = false) (hframe : ∀ gf ∈ l, F.Whole gf.2) :
    F.frames (l.flatMap fun gf => gf.1 ++ gf.2) = l.map Prod.snd := by
  induction l with
  | nil => exact frames_of_short (by have := F.one_lt; simp only [List.flatMap_nil, List.length_nil]; omega)
  | cons gf l ih =>
    rw [List.flatMap_cons, List.append_assoc, frames_skip (hgap gf List.mem_cons_self),
      frames_whole (hframe gf List.mem_cons_self), List.map_cons,
      ih (fun g hg => hgap g (List.mem_cons_of_mem _ hg))
        (fun g hg => hframe g (List.mem_cons_of_mem _ hg))]

/-! ## Item by item -/

theorem pending_nil : F.Pending [] := ⟨by have := F.one_lt; simp only [List.length_nil]; omega, nofun⟩

theorem push_pending {p : List β} (h : F.Pending p) (b : β) : F.Pending (F.push p b).1 := by
  have hlen := F.one_lt
  cases p with
  | nil =>
    by_cases hb : F.head b = true
    · simp only [push, if_pos hb]
      refine ⟨hlen, ?_⟩
      rintro _ ⟨⟩
      exact hb
    · simp only [push, if_neg hb]
      exact pending_nil
  | cons q p =>
    by_cases hmore : (q :: p).length + 1 < F.len
    · simp only [push, if_pos hmore]
      exact ⟨by simpa using hmore, h.2⟩
    · simp only [push, if_neg hmore]
      exact pending_nil

theorem push_whole {p f : List β} (h : F.Pending p) {b : β} (hf : f ∈ (F.push p b).2) :
    F.Whole f := by
  cases p with
  | nil => exact absurd hf (by simp [push])
  | cons q p =>
    by_cases hmore : (q :: p).length + 1 < F.len
    · rw [push, if_pos hmore] at hf
      exact absurd hf (by simp)
    · rw [push, if_neg hmore] at hf
      obtain rfl := Option.mem_some_iff.mp hf
      refine ⟨?_, h.2⟩
      have := h.1
      simp only [List.length_append, List.length_cons, List.length_nil] at *
      omega

theorem feed_whole {p f : List β} (h : F.Pending p) {s : List β} (hf : f ∈ (F.feed p s).2) :
    F.Whole f := by
  induction s generalizing p with
  | nil => exact absurd hf List.not_mem_nil
  | cons b s ih =>
    rcases List.mem_append.mp hf with hfirst | hrest
    · exact push_whole h (Option.mem_toList.mp hfirst)
    · exact ih (push_pending h b) hrest

/-- The frames a framer finds are those of what it holds followed by the stream. -/
theorem feed_frames {p : List β} (h : F.Pending p) (s : List β) :
    (F.feed p s).2 = F.frames (p ++ s) := by
  induction s generalizing p with
  | nil => rw [List.append_nil, frames_of_short h.1, feed]
  | cons b s ih =>
    have hnext := ih (push_pending h b)
    simp only [feed, hnext]
    cases p with
    | nil =>
      by_cases hb : F.head b = true
      · simp only [push, if_pos hb, Option.toList_none, List.nil_append, List.singleton_append]
      · have hskip : F.frames ([b] ++ s) = F.frames s := frames_skip fun c hc => by
          rw [List.mem_singleton.mp hc]
          simpa using hb
        simp only [push, if_neg hb, Option.toList_none, List.nil_append]
        exact hskip.symm
    | cons q p =>
      have happ : q :: p ++ b :: s = (q :: p ++ [b]) ++ s := by simp
      rw [happ]
      by_cases hmore : (q :: p).length + 1 < F.len
      · simp only [push, if_pos hmore, Option.toList_none, List.nil_append]
      · have hwhole : F.Whole (q :: p ++ [b]) := push_whole h (b := b) (by rw [push, if_neg hmore]; rfl)
        simp only [push, if_neg hmore, Option.toList_some, List.nil_append, List.singleton_append]
        exact (frames_whole hwhole).symm

/-- **A framer that starts empty finds the frames of the stream.** -/
theorem feed_eq_frames (s : List β) : (F.feed [] s).2 = F.frames s := feed_frames pending_nil s

/-! ## Items that carry more than the format reads -/

/-- The same format for items that are seen through `g`. -/
def comap {γ : Type u} (F : Format β) (g : γ → β) : Format γ where
  head c := F.head (g c)
  len := F.len
  one_lt := F.one_lt

theorem push_comap {γ : Type u} (g : γ → β) (p : List γ) (c : γ) :
    F.push (p.map g) (g c) =
      (((F.comap g).push p c).1.map g, ((F.comap g).push p c).2.map (List.map g)) := by
  cases p with
  | nil => by_cases hc : F.head (g c) = true <;> simp [push, comap, hc]
  | cons q p =>
    by_cases hmore : p.length + 1 + 1 < F.len <;> simp [push, comap, hmore]

/-- A framer that sees the items through `g` finds the images of the frames. -/
theorem feed_comap {γ : Type u} (g : γ → β) (p s : List γ) :
    F.feed (p.map g) (s.map g) =
      (((F.comap g).feed p s).1.map g, ((F.comap g).feed p s).2.map (List.map g)) := by
  induction s generalizing p with
  | nil => rfl
  | cons c s ih =>
    simp only [List.map_cons, feed, push_comap, ih, List.map_append, Option.toList_map]

/-! ## One frame again and again -/

/-- How far into `f` the framer is when it next takes a header: `f` first completes what is pending,
then items are skipped; the length of `f` where no header is left in it. -/
def catchUp (F : Format β) (p f : List β) : Nat :=
  F.len - p.length + (f.drop (F.len - p.length)).findIdx F.head

theorem flatten_rotate (g t : List β) (k : Nat) :
    g ++ (List.replicate k (t ++ g)).flatten = (List.replicate k (g ++ t)).flatten ++ g := by
  induction k with
  | zero => simp
  | succ k ih =>
    simp only [List.replicate_succ, List.flatten_cons, List.append_assoc] at ih ⊢
    rw [ih]

theorem catchUp_le {p f : List β} (hf : F.Whole f) : F.catchUp p f ≤ f.length := by
  have h : (f.drop (F.len - p.length)).findIdx F.head ≤ (f.drop (F.len - p.length)).length :=
    List.findIdx_le_length
  have := hf.1
  simp only [List.length_drop] at h
  simp only [catchUp]
  omega

/-- With no header left in the frame the framer takes the next one whole. -/
theorem rotate_catchUp {p f : List β} (hf : F.Whole f)
    (h : ∀ b ∈ f.drop (F.len - p.length), F.head b = false) :
    f.rotate (F.catchUp p f) = f := by
  have hnone : (f.drop (F.len - p.length)).findIdx F.head = (f.drop (F.len - p.length)).length :=
    List.findIdx_eq_length.mpr h
  have hall : F.catchUp p f = f.length := by
    have := hf.1
    rw [catchUp, hnone, List.length_drop]
    omega
  rw [hall, List.rotate_length]

/-- From where it catches up, a framer takes a rotation of the frame. -/
theorem whole_rotate {p f : List β} (hf : F.Whole f) : F.Whole (f.rotate (F.catchUp p f)) := by
  refine ⟨by rw [List.length_rotate, hf.1], ?_⟩
  rw [List.rotate_eq_drop_append_take (catchUp_le hf)]
  by_cases hend : f.drop (F.catchUp p f) = []
  · have hle := List.drop_eq_nil_iff.mp hend
    rw [hend, List.nil_append, List.take_of_length_le hle]
    exact hf.2
  · intro b hb
    rw [List.head?_append_of_ne_nil _ hend, catchUp, ← List.drop_drop, List.head?_drop] at hb
    obtain ⟨hlt, rfl⟩ := List.getElem?_eq_some_iff.mp hb
    exact List.findIdx_getElem

/-- **What a framer makes of a frame sent again and again**: what it held is completed by the start
of the frame, and from then on it takes the same rotation of the frame every time. -/
theorem feed_repeat {p f : List β} (hp : F.Pending p) (hf : F.Whole f) (k : Nat) :
    (F.feed p (List.replicate (k + 1) f).flatten).2 =
      (p ++ f.take (F.len - p.length)) :: List.replicate k (f.rotate (F.catchUp p f)) := by
  have hfirst : F.Whole (p ++ f.take (F.len - p.length)) := by
    refine ⟨?_, ?_⟩
    · have h1 := hp.1
      have h2 := hf.1
      simp only [List.length_append, List.length_take]
      omega
    · cases p with
      | nil =>
        have hall : f.take (F.len - 0) = f := List.take_of_length_le (by have := hf.1; omega)
        rw [List.nil_append, List.length_nil, hall]
        exact hf.2
      | cons b p => exact hp.2
  have hskip : ∀ b ∈ (f.drop (F.len - p.length)).take
      ((f.drop (F.len - p.length)).findIdx F.head), F.head b = false := by
    intro b hb
    obtain ⟨i, hi, rfl⟩ := List.mem_iff_getElem.mp hb
    rw [List.getElem_take]
    have hlt : i < (f.drop (F.len - p.length)).findIdx F.head := by
      simp only [List.length_take] at hi
      omega
    simpa using List.not_of_lt_findIdx hlt
  have hlast : F.frames (f.drop (F.catchUp p f)) = [] := by
    refine frames_of_short ?_
    have h1 := hp.1
    have h2 := hf.1
    simp only [List.length_drop, catchUp]
    omega
  have hrot : f.rotate (F.catchUp p f) = f.drop (F.catchUp p f) ++ f.take (F.catchUp p f) :=
    List.rotate_eq_drop_append_take (catchUp_le hf)
  have hwhole := hrot ▸ whole_rotate (p := p) hf
  have hsplit : f.drop (F.len - p.length) =
      (f.drop (F.len - p.length)).take ((f.drop (F.len - p.length)).findIdx F.head) ++
        f.drop (F.catchUp p f) := by
    rw [catchUp, ← List.drop_drop, List.take_append_drop]
  calc (F.feed p (List.replicate (k + 1) f).flatten).2
    _ = F.frames (p ++ (f ++ (List.replicate k f).flatten)) := by
      rw [feed_frames hp, List.replicate_succ, List.flatten_cons]
    _ = F.frames ((p ++ f.take (F.len - p.length)) ++
          (f.drop (F.len - p.length) ++ (List.replicate k f).flatten)) := by
      rw [List.append_assoc, ← List.append_assoc (f.take _), List.take_append_drop]
    _ = (p ++ f.take (F.len - p.length)) ::
          F.frames (f.drop (F.catchUp p f) ++ (List.replicate k f).flatten) := by
      rw [frames_whole hfirst, hsplit, List.append_assoc, frames_skip hskip]
    _ = (p ++ f.take (F.len - p.length)) :: List.replicate k (f.rotate (F.catchUp p f)) := by
      have hf' := flatten_rotate (f.drop (F.catchUp p f)) (f.take (F.catchUp p f)) k
      rw [List.take_append_drop] at hf'
      rw [hf', frames_replicate hwhole, hlast, List.append_nil, hrot]

end Format

end Framing
