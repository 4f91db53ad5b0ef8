import Mathlib.Algebra.Group.Nat.Defs
import Mathlib.Tactic.Common

/-!
# A delay by the system timer

`rt_hw_us_delay` of `drv_common.c`, which the software UART of the axis waits with. `SysTick->VAL` counts
cycles down from `SysTick->LOAD` to 0 and begins again, so its period is one cycle longer than `LOAD`; the
loop takes it for `LOAD`. A reading is made at a cycle of an absolute time.
-/

namespace Hcics

namespace SysTick

/-- The `SysTick->LOAD` that `SysTick_Config` leaves, or none where `ticks` are too many. -/
def config (ticks : UInt32) : Option UInt32 := if ticks - 1 > 0xFFFFFF then none else some (ticks - 1)

/-- `SysTick->VAL` at a cycle. -/
def val (reload : UInt32) (cycle : Nat) : UInt32 := reload - UInt32.ofNat (cycle % (reload.toNat + 1))

def delta (reload start now : UInt32) : UInt32 :=
  if start > now then start - now else reload + start - now

/-- The loop of `rt_hw_us_delay`: the cycle of its last reading, of those it could make. -/
def delayLoop (reload start limit : UInt32) : List Nat → Option Nat
  | [] => none
  | cycle :: rest =>
    if delta reload start (val reload cycle) < limit then delayLoop reload start limit rest else some cycle

/-- `rt_hw_us_delay`, with `SystemCoreClock`, reading at `first` and then at `cycles`. -/
def usDelay (reload systemCoreClock us : UInt32) (first : Nat) (cycles : List Nat) : Option Nat :=
  let usTick := systemCoreClock / 1000000
  delayLoop reload (val reload first) (usTick * us) cycles

variable {reload limit ticks clock us : UInt32} {first cycle gap : Nat} {cycles : List Nat}

theorem config_lt (hconfig : config ticks = some reload) : reload.toNat < 2 ^ 24 := by
  unfold config at hconfig
  split at hconfig
  · cases hconfig
  next hmask =>
    cases hconfig
    rw [gt_iff_lt, UInt32.lt_iff_toNat_lt] at hmask
    have htop : (0xFFFFFF : UInt32).toNat = 2 ^ 24 - 1 := rfl
    omega

/-! ## A reading -/

theorem toNat_val (reload : UInt32) (cycle : Nat) :
    (val reload cycle).toNat = reload.toNat - cycle % (reload.toNat + 1) := by
  have hlt : cycle % (reload.toNat + 1) < reload.toNat + 1 := Nat.mod_lt _ (Nat.succ_pos _)
  have hword : reload.toNat < 2 ^ 32 := reload.toNat_lt
  have hmod : (UInt32.ofNat (cycle % (reload.toNat + 1))).toNat = cycle % (reload.toNat + 1) := by
    rw [UInt32.toNat_ofNat']
    exact Nat.mod_eq_of_lt (by omega)
  rw [val, UInt32.toNat_sub_of_le _ _ (UInt32.le_iff_toNat_le.mpr (by omega)), hmod]

theorem toNat_delta (h24 : reload.toNat < 2 ^ 24) (first cycle : Nat) :
    (delta reload (val reload first) (val reload cycle)).toNat =
      if first % (reload.toNat + 1) < cycle % (reload.toNat + 1) then
        cycle % (reload.toNat + 1) - first % (reload.toNat + 1)
      else reload.toNat + cycle % (reload.toNat + 1) - first % (reload.toNat + 1) := by
  have hfirst : first % (reload.toNat + 1) < reload.toNat + 1 := Nat.mod_lt _ (Nat.succ_pos _)
  have hcycle : cycle % (reload.toNat + 1) < reload.toNat + 1 := Nat.mod_lt _ (Nat.succ_pos _)
  have hiff : val reload first > val reload cycle ↔
      first % (reload.toNat + 1) < cycle % (reload.toNat + 1) := by
    rw [gt_iff_lt, UInt32.lt_iff_toNat_lt, toNat_val, toNat_val]
    omega
  unfold delta
  by_cases hlt : first % (reload.toNat + 1) < cycle % (reload.toNat + 1)
  · rw [if_pos (hiff.mpr hlt), if_pos hlt, UInt32.toNat_sub, toNat_val, toNat_val]
    omega
  · rw [if_neg (hiff.not.mpr hlt), if_neg hlt, UInt32.toNat_sub, UInt32.toNat_add, toNat_val, toNat_val]
    omega

/-- Within a period of the counter `delta` is the cycles since the first reading, or one less. -/
theorem delta_spec (h24 : reload.toNat < 2 ^ 24) (hlow : first < cycle) (hhigh : cycle ≤ first + reload.toNat) :
    (delta reload (val reload first) (val reload cycle)).toNat ≤ cycle - first ∧
      cycle - first ≤ (delta reload (val reload first) (val reload cycle)).toNat + 1 := by
  obtain ⟨e, rfl⟩ : ∃ e, cycle = first + e := ⟨cycle - first, by omega⟩
  have hfirst : first % (reload.toNat + 1) < reload.toNat + 1 := Nat.mod_lt _ (Nat.succ_pos _)
  have hmod : (first + e) % (reload.toNat + 1) = (first % (reload.toNat + 1) + e) % (reload.toNat + 1) := by
    rw [Nat.mod_add_mod]
  rw [toNat_delta h24]
  rcases Nat.lt_or_ge (first % (reload.toNat + 1) + e) (reload.toNat + 1) with hsame | hwrap
  · have hval := hmod.trans (Nat.mod_eq_of_lt hsame)
    rw [if_pos (by omega), hval]
    omega
  · -- the counter began again since `first`, once
    have hval := hmod.trans ((Nat.mod_eq_sub_mod hwrap).trans (Nat.mod_eq_of_lt (by omega)))
    rw [if_neg (by omega), hval]
    omega

theorem delta_le (h24 : reload.toNat < 2 ^ 24) (first cycle : Nat) :
    (delta reload (val reload first) (val reload cycle)).toNat ≤ reload.toNat := by
  have hcycle : cycle % (reload.toNat + 1) < reload.toNat + 1 := Nat.mod_lt _ (Nat.succ_pos _)
  rw [toNat_delta h24]
  split <;> omega

/-! ## A delay -/

/-- The readings come one after another, from `first` on and no more than `gap` cycles apart. -/
def Steady (gap first : Nat) (cycles : List Nat) : Prop :=
  (first :: cycles).IsChain fun last cycle => last < cycle ∧ cycle ≤ last + gap

theorem delayLoop_eq (reload start limit : UInt32) (cycles : List Nat) :
    delayLoop reload start limit cycles =
      cycles.find? fun cycle => !decide (delta reload start (val reload cycle) < limit) := by
  induction cycles with
  | nil => rfl
  | cons cycle rest ih =>
    by_cases h : delta reload start (val reload cycle) < limit <;> simp [delayLoop, h, ih]

/-- A delay longer than the counter's period does not end. -/
theorem usDelay_endless (hconfig : config ticks = some reload) (hlong : reload < clock / 1000000 * us)
    (first : Nat) (cycles : List Nat) : usDelay reload clock us first cycles = none := by
  rw [usDelay, delayLoop_eq, List.find?_eq_none]
  intro cycle _
  have hle := delta_le (config_lt hconfig) first cycle
  have hlt : delta reload (val reload first) (val reload cycle) < clock / 1000000 * us := by
    rw [UInt32.lt_iff_toNat_lt] at hlong ⊢
    omega
  simpa using hlt

theorem delayLoop_lasts (h24 : reload.toNat < 2 ^ 24) (hfit : limit.toNat + gap ≤ reload.toNat) {last : Nat}
    (hlast : last ≤ first + limit.toNat) (hle : first ≤ last) (hsteady : Steady gap last cycles)
    (hend : ∃ cycle ∈ cycles, first + limit.toNat < cycle) :
    ∃ cycle, delayLoop reload (val reload first) limit cycles = some cycle ∧
      first + limit.toNat ≤ cycle ∧ cycle ≤ first + limit.toNat + gap := by
  induction cycles generalizing last with
  | nil =>
    obtain ⟨cycle, hmem, -⟩ := hend
    cases hmem
  | cons cycle rest ih =>
    obtain ⟨⟨hlow, hhigh⟩, hrest⟩ := List.isChain_cons_cons.mp hsteady
    have hlater : first < cycle := by omega
    obtain ⟨hge, hnear⟩ := delta_spec h24 hlater (by omega)
    by_cases hdelta : delta reload (val reload first) (val reload cycle) < limit
    · rw [delayLoop, if_pos hdelta]
      rw [UInt32.lt_iff_toNat_lt] at hdelta
      refine ih (by omega) (by omega) hrest ?_
      obtain ⟨far, hmem, hfar⟩ := hend
      rcases List.mem_cons.mp hmem with rfl | hmem
      · omega
      · exact ⟨far, hmem, hfar⟩
    · rw [delayLoop, if_neg hdelta]
      rw [UInt32.lt_iff_toNat_lt] at hdelta
      exact ⟨cycle, rfl, by omega, by omega⟩

/-- The counter's period, 1 ms, has room for less than half of it and readings half of it apart. -/
theorem fits_of_lt_half (hconfig : config (clock / 1000) = some reload) (hclock : 1000000 ≤ clock.toNat)
    (hus : us.toNat < 500) (hgap : gap ≤ 500 * (clock.toNat / 1000000)) :
    (clock / 1000000 * us).toNat = clock.toNat / 1000000 * us.toNat ∧
      (clock / 1000000 * us).toNat + gap ≤ reload.toNat := by
  have hword : clock.toNat < 2 ^ 32 := clock.toNat_lt
  have hcycles : clock.toNat / 1000000 * us.toNat ≤ clock.toNat / 1000000 * 499 :=
    Nat.mul_le_mul_left _ (by omega)
  have hmul : (clock / 1000000 * us).toNat = clock.toNat / 1000000 * us.toNat := by
    rw [UInt32.toNat_mul, UInt32.toNat_div]
    exact Nat.mod_eq_of_lt (by change clock.toNat / 1000000 * us.toNat < 2 ^ 32; omega)
  have hreload : reload.toNat = clock.toNat / 1000 - 1 := by
    unfold config at hconfig
    split at hconfig
    · cases hconfig
    · cases hconfig
      rw [UInt32.toNat_sub_of_le _ _ (UInt32.le_iff_toNat_le.mpr ?_), UInt32.toNat_div]
      · rfl
      · rw [UInt32.toNat_div]
        change 1 ≤ clock.toNat / 1000
        omega
  exact ⟨hmul, by omega⟩

/-- A delay that the counter's period has room for lasts as long as it says, and to the next reading. -/
theorem us_delay_lasts (hconfig : config ticks = some reload)
    (hfit : (clock / 1000000 * us).toNat + gap ≤ reload.toNat) (hsteady : Steady gap first cycles)
    (hend : ∃ cycle ∈ cycles, first + (clock / 1000000 * us).toNat < cycle) :
    ∃ cycle, usDelay reload clock us first cycles = some cycle ∧
      first + (clock / 1000000 * us).toNat ≤ cycle ∧ cycle ≤ first + (clock / 1000000 * us).toNat + gap :=
  delayLoop_lasts (config_lt hconfig) hfit (Nat.le_add_right _ _) (Nat.le_refl _) hsteady hend

/-- A bit at 115200 baud, in which the counter begins again. -/
theorem us_delay_lasts_bit : ∃ cycle,
    usDelay 479999 480000000 9 478000 [479500, 481000, 482300, 483000] = some cycle ∧
      478000 + (480000000 / 1000000 * 9 : UInt32).toNat ≤ cycle ∧
      cycle ≤ 478000 + (480000000 / 1000000 * 9 : UInt32).toNat + 1500 :=
  us_delay_lasts (show config 480000 = some 479999 from rfl) (by decide)
    (by unfold Steady; decide) ⟨483000, by decide, by decide⟩

end SysTick

end Hcics
