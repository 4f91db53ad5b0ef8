import Hcics.Cleaner.Servo
import Mathlib.Data.List.Chain

/-!
# Extending the brush

`hcics_cleaner_extend_z` lowers Z by steps toward the wash pulse. Every round that poses has the
guard's permission, and poses once; a round that goes on has not reached the wash pulse, so it went
the full step, which bounds their number by the distance. `Extended` is what the rounds so far did,
newest first.
-/

namespace Hcics.Gimbal

open Cleaner Polling

/-- A round whose guard lets the brush extend: no forced stop, at most 300 ms old, valid, and above
50 mm. -/
def Permits (l : Look) : Prop :=
  l.guard.forceStop = false ∧ (l.guard.tick ≠ 0 ∧ l.tick - l.guard.tick ≤ guardStaleMs) ∧
    l.guard.tofValid = true ∧ tofDangerMm < l.guard.tofMm

/-- A round at whose end the brush is in contact: a fresh guard says so, or measures 69 mm or less. -/
def Touches (l : Look) : Prop :=
  (l.surface.tick ≠ 0 ∧ l.laterTick - l.surface.tick ≤ guardStaleMs) ∧
    (l.surface.contact = true ∨ l.surface.tofValid = true ∧ l.surface.tofMm ≤ tofWashEnterMm)

theorem permits_iff (l : Look) : l.guard.forcesRetract l.tick false = false ↔ Permits l := by
  unfold CleanerGuard.forcesRetract guardIsFresh Permits
  constructor
  · intro h
    split_ifs at h with hstop hstale hvalid hhard
    simp only [Bool.not_false, Bool.true_and, decide_eq_false_iff_not, UInt16.not_le] at h
    simp only [Bool.not_eq_true, Bool.not_eq_false', Bool.and_eq_true, decide_eq_true_eq]
      at hstop hstale hvalid
    exact ⟨hstop, hstale, hvalid, h⟩
  · rintro ⟨hstop, ⟨hseen, hfresh⟩, hvalid, hfar⟩
    have hhard : ¬ l.guard.tofMm ≤ washHardDangerMm := by
      rw [UInt16.not_le]
      exact UInt16.lt_trans (by decide) hfar
    simp [hstop, hseen, hfresh, hvalid, hhard, UInt16.not_le.mpr hfar]

theorem touches_of_surfaceReached {l : Look} (h : l.surface.surfaceReached l.laterTick = true) :
    Touches l := by
  unfold CleanerGuard.surfaceReached guardIsFresh at h
  simpa [Touches] using h

/-! ## One round -/

/-- The poses that the way from the retracted to the wash pulse takes. -/
def extendPoses (config : SaneConfig) : Nat :=
  max 1 ((config.zRetractNs.toNat - config.zWashNs.toNat + 11999) / 12000)

/-- A step down: between the wash pulse and the one before, and at most 12000 ns. -/
def Lowers (config : SaneConfig) (zNs before : UInt32) : Prop :=
  config.zWashNs ≤ zNs ∧ zNs ≤ before ∧ before.toNat ≤ zNs.toNat + 12000

/-- A step toward the wash pulse is a step down, a full one where it does not arrive. -/
theorem lowers_moveToward {config : SaneConfig} {zNs : UInt32} (h : config.zWashNs ≤ zNs) :
    Lowers config (moveToward zNs config.zWashNs zStepNs) zNs ∧
      (moveToward zNs config.zWashNs zStepNs ≠ config.zWashNs →
        (moveToward zNs config.zWashNs zStepNs).toNat + 12000 = zNs.toNat) := by
  have hle := UInt32.le_iff_toNat_le.mp h
  have hstep : zStepNs.toNat = 12000 := rfl
  have hmove := toNat_moveToward zNs config.zWashNs zStepNs
    fun hup => absurd hup (UInt32.not_lt.mpr h)
  rw [hstep] at hmove
  unfold Approach.toward at hmove
  generalize moveToward zNs config.zWashNs zStepNs = next at hmove ⊢
  refine ⟨⟨?_, ?_, ?_⟩, ?_⟩
  · rw [UInt32.le_iff_toNat_le]
    omega
  · rw [UInt32.le_iff_toNat_le]
    omega
  · omega
  · rw [ne_eq, ← UInt32.toNat_inj]
    omega

theorem extendRound_cases (startMs : UInt32) (g : Gimbal) (yNs zNs : UInt32) (l : Look) :
    (∃ result, result ≠ RT_EOK ∧ extendRound startMs (g, yNs, zNs) l = ((g, yNs, zNs), some result)) ∨
    (Permits l ∧ ∃ y result, extendRound startMs (g, yNs, zNs) l =
        (((g.applyPose l.pwm y (moveToward zNs g.config.zWashNs zStepNs)).1, y,
          moveToward zNs g.config.zWashNs zStepNs), result) ∧
      (result = some RT_EOK → Touches l) ∧
      (result = none → moveToward zNs g.config.zWashNs zStepNs ≠ g.config.zWashNs)) := by
  unfold extendRound
  dsimp only
  by_cases hstop : l.stop = true
  · rw [if_pos hstop]
    exact .inl ⟨_, by decide, rfl⟩
  rw [if_neg hstop]
  by_cases hguard : l.guard.forcesRetract l.tick false = true
  · rw [if_pos hguard]
    exact .inl ⟨_, by decide, rfl⟩
  rw [if_neg hguard]
  refine .inr ⟨(permits_iff l).mp (Bool.eq_false_iff.mpr hguard), ?_⟩
  generalize (if targetIsStain l.camera l.tick then yFromTarget g.config l.camera else yNs) = y
  obtain ⟨k, hpose, hconfig⟩ : ∃ k, g.applyPose l.pwm y
      (moveToward zNs g.config.zWashNs zStepNs) = (k, l.pwm.result) ∧ k.config = g.config :=
    ⟨_, rfl, rfl⟩
  refine ⟨y, ?_⟩
  simp only [hpose, hconfig]
  by_cases hpwm : l.pwm.result ≠ RT_EOK
  · exact ⟨_, by rw [if_pos hpwm], fun h => absurd (Option.some.inj h) hpwm, by simp⟩
  rw [if_neg hpwm]
  by_cases hsurface : l.surface.surfaceReached l.laterTick = true
  · exact ⟨_, by rw [if_pos hsurface], fun _ => touches_of_surfaceReached hsurface, by simp⟩
  rw [if_neg hsurface]
  by_cases hwash : moveToward zNs g.config.zWashNs zStepNs = g.config.zWashNs
  · exact ⟨_, by rw [if_pos hwash], by simp, by simp⟩
  rw [if_neg hwash]
  by_cases htime : tickToMs l.laterTick - startMs ≥ zExtendTimeoutMs
  · exact ⟨_, by rw [if_pos htime], by simp, by simp⟩
  · exact ⟨_, by rw [if_neg htime], by simp, fun _ => hwash⟩

/-! ## The rounds so far -/

/-- From `g` the rounds have posed as in `posed`, and are at `k` with Z at `zNs`. -/
structure Extended (g : Gimbal) (posed : List (Look × PoseCall)) (k : Gimbal) (zNs : UInt32) :
    Prop where
  config : k.config = g.config
  poses : k.poses = posed.map Prod.snd ++ g.poses
  low : g.config.zWashNs ≤ zNs
  high : zNs ≤ g.config.zRetractNs
  head : (posed.map (·.2.zNs) ++ [g.config.zRetractNs]).head? = some zNs
  chain : List.IsChain (Lowers g.config) (posed.map (·.2.zNs) ++ [g.config.zRetractNs])
  permitted : ∀ p ∈ posed, Permits p.1 ∧ p.2.calls = p.1.pwm

variable {g k : Gimbal} {posed : List (Look × PoseCall)} {zNs : UInt32}

theorem Extended.start (g : Gimbal) : Extended g [] g g.config.zRetractNs where
  config := rfl
  poses := rfl
  low := g.config.zWash_mem.2
  high := UInt32.le_refl _
  head := rfl
  chain := .singleton _
  permitted := by simp

theorem Extended.pose (h : Extended g posed k zNs) {l : Look} (hl : Permits l) (yNs : UInt32) :
    ∃ pose, Extended g ((l, pose) :: posed)
      (k.applyPose l.pwm yNs (moveToward zNs g.config.zWashNs zStepNs)).1
      (moveToward zNs g.config.zWashNs zStepNs) := by
  obtain ⟨hlowers, -⟩ := lowers_moveToward h.low
  generalize moveToward zNs g.config.zWashNs zStepNs = next at hlowers ⊢
  have hnext : clampU32 next g.config.zExtendNs g.config.zRetractNs = next :=
    clampU32_of_mem ⟨UInt32.le_trans g.config.zWash_mem.1 hlowers.1,
      UInt32.le_trans hlowers.2.1 h.high⟩
  refine ⟨⟨clampU32 yNs g.config.yMinNs g.config.yMaxNs, next, l.pwm⟩, ?_⟩
  constructor
  · exact h.config
  · simp only [applyPose, h.config, hnext, h.poses, List.map_cons, List.cons_append]
  · exact hlowers.1
  · exact UInt32.le_trans hlowers.2.1 h.high
  · rfl
  · rw [List.map_cons, List.cons_append]
    apply List.isChain_cons.mpr
    refine ⟨?_, h.chain⟩
    intro before hbefore
    rw [h.head] at hbefore
    obtain rfl := Option.some.inj hbefore
    exact hlowers
  · intro p hp
    rcases List.mem_cons.mp hp with rfl | hp
    · exact ⟨hl, rfl⟩
    · exact h.permitted p hp

theorem goes_extended {startMs yNs y : UInt32} {looks : List Look}
    (h : Goes (extendRound startMs) (g, yNs, g.config.zRetractNs) looks (k, y, zNs)) :
    ∃ posed, Extended g posed k zNs ∧ (posed.map Prod.fst).reverse = looks ∧
      zNs.toNat + posed.length * 12000 = g.config.zRetractNs.toNat ∧
      (posed ≠ [] → zNs ≠ g.config.zWashNs) := by
  generalize ht : (k, y, zNs) = t at h
  induction h generalizing k y zNs with
  | refl =>
    cases ht
    exact ⟨[], .start g, rfl, by simp, by simp⟩
  | @round looks t u l _ hround ih =>
    subst ht
    obtain ⟨k', y', z'⟩ := t
    obtain ⟨posed, hext, hread, hcount, -⟩ := ih rfl
    rcases extendRound_cases startMs k' y' z' l with ⟨_, _, he⟩ | ⟨hl, y'', result, he, -, hwash⟩
    · rw [hround] at he
      cases he
    · rw [hround, hext.config] at he
      obtain ⟨hstate, hresult⟩ := Prod.mk.inj he
      cases hstate
      obtain ⟨pose, hnext⟩ := hext.pose hl y
      have hne := hwash hresult.symm
      rw [hext.config] at hne
      have hfull := (lowers_moveToward hext.low).2 hne
      refine ⟨(l, pose) :: posed, hnext, ?_, ?_, fun _ => hne⟩
      · rw [List.map_cons, List.reverse_cons, hread]
      · rw [List.length_cons]
        omega

theorem length_lt_extendPoses (h : Extended g posed k zNs)
    (hcount : zNs.toNat + posed.length * 12000 = g.config.zRetractNs.toNat)
    (hne : posed ≠ [] → zNs ≠ g.config.zWashNs) : posed.length < extendPoses g.config := by
  unfold extendPoses
  have hlow := UInt32.le_iff_toNat_le.mp h.low
  cases posed with
  | nil =>
    rw [List.length_nil]
    omega
  | cons p posed =>
    have hne := hne (List.cons_ne_nil _ _)
    rw [ne_eq, ← UInt32.toNat_inj] at hne
    omega

/-- **The brush extends only with the guard's permission and stops on contact.** Whatever the rounds
of `hcics_cleaner_extend_z` read, each of them poses at most once and in order; every Z pulse lies
between the wash pulse and the one before, at most 12000 ns below it, and is applied in a round whose
guard permits it; success means contact at the end of the last round; and there are no more poses, and
no more rounds before it returns, than the way takes. -/
theorem extend_guarded (g : Gimbal) (yNs : UInt32) (entry : Look) (looks : List Look) :
    ∃ (read : List Look) (posed : List (Look × PoseCall)),
      looks = read ++ (extendZ yNs g (entry :: looks)).2.2 ∧
      (posed.map Prod.fst).reverse <+: read ∧
      (extendZ yNs g (entry :: looks)).2.1.poses = posed.map Prod.snd ++ g.poses ∧
      List.IsChain (Lowers g.config) (posed.map (·.2.zNs) ++ [g.config.zRetractNs]) ∧
      (∀ p ∈ posed, Permits p.1 ∧ p.2.calls = p.1.pwm) ∧
      ((extendZ yNs g (entry :: looks)).1 = some RT_EOK → ∃ l ∈ read.getLast?, Touches l) ∧
      posed.length ≤ extendPoses g.config ∧
      (extendPoses g.config ≤ looks.length → (extendZ yNs g (entry :: looks)).1.isSome = true) := by
  have hrun : extendZ yNs g (entry :: looks) =
      Proc.poll (extendRound (tickToMs entry.tick)) (yNs, g.config.zRetractNs) g looks := rfl
  rw [hrun]
  unfold Proc.poll
  rcases hlooks : run (extendRound (tickToMs entry.tick)) (g, yNs, g.config.zRetractNs) looks with
    ⟨_ | result, ⟨k, y, z⟩, left⟩
  · obtain ⟨rfl, hgoes⟩ := run_eq_none.mp hlooks
    obtain ⟨posed, hext, hread, hcount, hne⟩ := goes_extended hgoes
    have hlt := length_lt_extendPoses hext hcount hne
    refine ⟨looks, posed, (List.append_nil _).symm, hread ▸ List.prefix_rfl, hext.poses, hext.chain,
      hext.permitted, by simp, hlt.le, ?_⟩
    intro henough
    have hlen := congrArg List.length hread
    rw [List.length_reverse, List.length_map] at hlen
    omega
  · obtain ⟨pre, l, ⟨k', y', z'⟩, rfl, hgoes, hround⟩ := run_eq_some.mp hlooks
    obtain ⟨posed, hext, hread, hcount, hne⟩ := goes_extended hgoes
    have hlt := length_lt_extendPoses hext hcount hne
    have hconfig : k'.config = g.config := hext.config
    rcases extendRound_cases (tickToMs entry.tick) k' y' z' l with
      ⟨result', hfailed, he⟩ | ⟨hl, y'', result', he, htouch, -⟩
    · rw [hround] at he
      cases he
      refine ⟨pre ++ [l], posed, by simp, ?_, hext.poses, hext.chain, hext.permitted, ?_, hlt.le,
        fun _ => rfl⟩
      · rw [hread]
        exact List.prefix_append pre [l]
      · intro hok
        exact absurd (Option.some.inj hok) hfailed
    · rw [hround, hconfig] at he
      obtain ⟨hstate, rfl⟩ := Prod.mk.inj he
      cases hstate
      obtain ⟨pose, hnext⟩ := hext.pose hl y
      refine ⟨pre ++ [l], (l, pose) :: posed, by simp, ?_, hnext.poses, hnext.chain,
        hnext.permitted, ?_, hlt, fun _ => rfl⟩
      · have hposed : (((l, pose) :: posed).map Prod.fst).reverse = pre ++ [l] := by
          simp only [List.map_cons, List.reverse_cons, hread]
        exact hposed ▸ List.prefix_rfl
      · intro hok
        exact ⟨l, List.getLast?_concat, htouch hok⟩

/-- A round at whose end the brush is in contact. -/
def contactLook : Look :=
  { Look.calm 1000 with
    guard := ⟨70, true, false, false, 990⟩
    surface := ⟨60, true, true, false, 990⟩ }

/-- With the default limits, 92 poses are enough, and contact in the first ends the extension. -/
theorem extend_guarded_contact :
    let g := booted CleanerConfig.default.sanitize
    extendPoses g.config = 92 ∧ ∃ read, [contactLook] = read ++ [] ∧ ∃ l ∈ read.getLast?, Touches l := by
  obtain ⟨read, posed, hread, -, -, -, -, hok, -⟩ :=
    extend_guarded (booted CleanerConfig.default.sanitize) 1550000 contactLook [contactLook]
  exact ⟨by decide, read, hread, hok rfl⟩

end Hcics.Gimbal
