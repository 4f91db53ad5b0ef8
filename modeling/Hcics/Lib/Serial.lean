import Mathlib.Algebra.Order.Field.Basic
import Mathlib.Tactic.Common
import Mathlib.Tactic.Linarith

/-!
# Asynchronous serial lines

A line has a level at every time. `Receives` is a receiver of eight data bits without parity: it
waits for a falling edge, samples the line in the middle of each of the ten bits that follow, and is
ready for the next edge from the middle of the stop bit on. `Carries` says of a line that it holds
these bytes, one after the other with any gaps; `Carries.receives_iff` is that a receiver then gets
these bytes and nothing else, with every start and stop bit in order.

A `Wave` is a line as its driver writes it: the clock, and the writes with their times. What is
written later does not change the line before (`Wave.Extends.level`).
-/

universe u

namespace Serial

/-! ## The receiver -/

/-- What a receiver gets from one falling edge: the start bit, the byte and the stop bit. -/
structure Character where
  start : Bool
  data : UInt8
  stop : Bool
  deriving DecidableEq, Repr

/-- The byte with these bits, from the lowest on. -/
def byteOf (bit : ℕ → Bool) : UInt8 :=
  ⟨BitVec.ofBoolListLE [bit 0, bit 1, bit 2, bit 3, bit 4, bit 5, bit 6, bit 7]⟩

theorem byteOf_congr {f g : ℕ → Bool} (h : ∀ i < 8, f i = g i) : byteOf f = byteOf g := by
  unfold byteOf
  rw [h 0 (by omega), h 1 (by omega), h 2 (by omega), h 3 (by omega), h 4 (by omega),
    h 5 (by omega), h 6 (by omega), h 7 (by omega)]

theorem byteOf_getLsbD (b : UInt8) : byteOf (fun i => b.toBitVec.getLsbD i) = b := by
  apply UInt8.eq_of_toBitVec_eq
  apply BitVec.eq_of_getLsbD_eq
  intro i hi
  have hcases : i = 0 ∨ i = 1 ∨ i = 2 ∨ i = 3 ∨ i = 4 ∨ i = 5 ∨ i = 6 ∨ i = 7 := by omega
  rcases hcases with rfl | rfl | rfl | rfl | rfl | rfl | rfl | rfl <;>
    exact BitVec.getLsbD_ofBoolListLE

namespace Character

/-- A byte with its start bit low and its stop bit high. -/
def ofByte (b : UInt8) : Character := ⟨false, b, true⟩

def bit (b : UInt8) (k : ℕ) : Bool :=
  if k = 0 then false else if k ≤ 8 then b.toBitVec.getLsbD (k - 1) else true

end Character

section Receiver

variable {K : Type u} [LinearOrder K]

/-- The line falls at `e`: it is low there, and was high just before. -/
def FallsAt (line : K → Bool) (e : K) : Prop :=
  line e = false ∧ ∃ s < e, ∀ t, s ≤ t → t < e → line t = true

theorem not_fallsAt {line : K → Bool} {t : K} (h : line t = true) : ¬ FallsAt line t := by
  intro hfall
  rw [hfall.1] at h
  cases h

variable [Field K]

/-- What a receiver synchronised at `e` gets, with bits of the length `T`. -/
def sampled (line : K → Bool) (T e : K) : Character where
  start := line (e + (0 + 1 / 2) * T)
  data := byteOf fun i => line (e + ((i + 1 : ℕ) + 1 / 2) * T)
  stop := line (e + (9 + 1 / 2) * T)

/-- What a receiver gets that is ready at `t`. -/
inductive Receives (line : K → Bool) (T : K) : K → List Character → Prop where
  | silent {t : K} : (∀ e, t ≤ e → ¬ FallsAt line e) → Receives line T t []
  | char {t : K} {cs : List Character} (e : K) : t ≤ e → FallsAt line e →
      (∀ e', t ≤ e' → e' < e → ¬ FallsAt line e') → Receives line T (e + (9 + 1 / 2) * T) cs →
      Receives line T t (sampled line T e :: cs)

/-- The line holds the byte `b` from `s` on, and is high again until `t`. -/
structure Holds (line : K → Bool) (T s : K) (b : UInt8) : Prop where
  falls : FallsAt line s
  bits : ∀ k : ℕ, k < 10 → line (s + (k + 1 / 2) * T) = Character.bit b k

/-- From `t` on the line holds these bytes, and is high where a receiver may look for the next
start. -/
inductive Carries (line : K → Bool) (T : K) : K → List UInt8 → Prop where
  | silent {t : K} : (∀ u, t ≤ u → line u = true) → Carries line T t []
  | byte {t s : K} {b : UInt8} {bs : List UInt8} : t ≤ s → (∀ u, t ≤ u → u < s → line u = true) →
      Holds line T s b → Carries line T (s + (9 + 1 / 2) * T) bs → Carries line T t (b :: bs)

variable {line : K → Bool} {T t s : K} {b : UInt8} {bs : List UInt8} {cs : List Character}

theorem Holds.sampled_eq (h : Holds line T s b) : sampled line T s = Character.ofByte b := by
  have hstart := h.bits 0 (by omega)
  have hstop := h.bits 9 (by omega)
  have hdata : byteOf (fun i => line (s + ((i + 1 : ℕ) + 1 / 2) * T)) = b := by
    refine (byteOf_congr fun i hi => ?_).trans (byteOf_getLsbD b)
    rw [h.bits (i + 1) (by omega), Character.bit, if_neg (by omega), if_pos (by omega),
      Nat.add_sub_cancel]
  simp only [Nat.cast_zero, Nat.cast_ofNat] at hstart hstop
  rw [sampled, hdata, hstart, hstop]
  rfl

theorem Carries.receives_iff (h : Carries line T t bs) :
    Receives line T t cs ↔ cs = bs.map Character.ofByte := by
  induction h generalizing cs with
  | @silent t hhigh =>
    constructor
    · intro hr
      cases hr with
      | silent => rfl
      | char e hte hfall => exact absurd hfall (not_fallsAt (hhigh e hte))
    · rintro rfl
      exact .silent fun e hte => not_fallsAt (hhigh e hte)
  | @byte t s b bs hts hhigh hholds _ ih =>
    constructor
    · intro hr
      cases hr with
      | silent hnone => exact absurd hholds.falls (hnone s hts)
      | char e hte hfall hfirst hrest =>
        -- the receiver takes the first edge, and the line is high before `s`
        have hse : s = e := by
          rcases lt_trichotomy s e with hlt | heq | hlt
          · exact absurd hholds.falls (hfirst s hts hlt)
          · exact heq
          · exact absurd hfall (not_fallsAt (hhigh e hte hlt))
        subst hse
        rw [hholds.sampled_eq, ih.mp hrest, List.map_cons]
    · rintro rfl
      rw [List.map_cons, ← hholds.sampled_eq]
      exact .char s hts hholds.falls (fun e hte hes => not_fallsAt (hhigh e hte hes)) (ih.mpr rfl)

end Receiver

/-! ## A line as its driver writes it -/

/-- The clock of a driver, and what it has written to the line, newest first. -/
structure Wave (K : Type u) where
  now : K
  writes : List (K × Bool)
  deriving DecidableEq, Repr

namespace Wave

variable {K : Type u}

/-- The line is set to a level; this takes no time. -/
def write (w : Wave K) (level : Bool) : Wave K := { w with writes := (w.now, level) :: w.writes }

def delay [Add K] (w : Wave K) (d : K) : Wave K := { w with now := w.now + d }

section Order

variable [LinearOrder K]

/-- The level of the line: the last write up to a time, and high before the first. -/
def level (w : Wave K) (t : K) : Bool :=
  match w.writes.find? fun x => decide (x.1 ≤ t) with
  | some x => x.2
  | none => true

/-- `w'` is `w` with more writes, none of them earlier than the clock of `w`. -/
structure Extends (w w' : Wave K) : Prop where
  now : w.now ≤ w'.now
  writes : ∃ more, w'.writes = more ++ w.writes ∧ ∀ x ∈ more, w.now ≤ x.1

variable {w w' w'' : Wave K} {bit : Bool}

theorem Extends.refl (w : Wave K) : w.Extends w :=
  ⟨le_rfl, [], rfl, fun _ h => absurd h List.not_mem_nil⟩

theorem Extends.trans (h : w.Extends w') (h' : w'.Extends w'') : w.Extends w'' := by
  obtain ⟨hnow, more, hmore, hlate⟩ := h
  obtain ⟨hnow', more', hmore', hlate'⟩ := h'
  refine ⟨hnow.trans hnow', more' ++ more, by rw [hmore', hmore, List.append_assoc], ?_⟩
  intro x hx
  rcases List.mem_append.mp hx with hx | hx
  · exact hnow.trans (hlate' x hx)
  · exact hlate x hx

theorem Extends.write (w : Wave K) (level : Bool) : w.Extends (w.write level) := by
  refine ⟨le_rfl, [(w.now, level)], rfl, ?_⟩
  intro x hx
  rw [List.mem_singleton.mp hx]

theorem Extends.level (h : w.Extends w') {t : K} (ht : t < w.now) : w'.level t = w.level t := by
  obtain ⟨-, more, hmore, hlate⟩ := h
  have hnone : more.find? (fun x => decide (x.1 ≤ t)) = none := by
    rw [List.find?_eq_none]
    intro x hx
    simpa using lt_of_lt_of_le ht (hlate x hx)
  unfold Wave.level
  rw [hmore, List.find?_append, hnone, Option.none_or]

/-- After a write the line is at its level, until the clock of the next write. -/
theorem level_write {t : K} (ht : w.now ≤ t) : (w.write bit).level t = bit := by
  simp [Wave.level, Wave.write, ht]

/-- A write that lasts for a while, as it is seen at any later time. -/
theorem Extends.level_held [Add K] {d t : K} (h : ((w.write bit).delay d).Extends w')
    (hlo : w.now ≤ t) (hhi : t < w.now + d) : w'.level t = bit := by
  rw [h.level hhi]
  exact level_write hlo

end Order

theorem Extends.delay [Field K] [LinearOrder K] [IsStrictOrderedRing K] (w : Wave K) {d : K}
    (hd : 0 ≤ d) : w.Extends (w.delay d) :=
  ⟨le_add_of_nonneg_right hd, [], rfl, fun _ h => absurd h List.not_mem_nil⟩

end Wave

end Serial
