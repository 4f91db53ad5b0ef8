import Hcics.Cleaner.Procedures
import Mathlib.Algebra.Group.Nat.Defs
import Mathlib.Data.List.Dedup

/-!
# Aiming

`hcics_cleaner_aim` counts polls. No part of it, nor of the axis, knows one frame from the next, so a
frame that stays stored is used at every poll while it is fresh: it corrects the axis each time, and
three polls of it lock. What holds of polls instead is exact: the axis moves once at every poll that
`Corrects`, and the aim locks on three polls in a row that each `Locks`.
-/

namespace Hcics.Gimbal

open Cleaner Polling

/-- The offset of a target from the centre of the picture. -/
def errX (target : CleanerTarget) : Int := (target.x.toNat : Int) - cameraCenterX

/-- A poll that finds a fresh stain and follows it in Y. -/
def Follows (l : Look) : Prop :=
  l.stop = false ∧ targetIsStain l.camera l.tick = true ∧ l.pwm.result = RT_EOK

instance (l : Look) : Decidable (Follows l) := inferInstanceAs (Decidable (_ ∧ _))

/-- A poll that follows a stain out of the deadband of the axis. -/
def Corrects (l : Look) : Prop := Follows l ∧ Axis.centerDeadbandPx < (errX l.camera).natAbs

instance (l : Look) : Decidable (Corrects l) := inferInstanceAs (Decidable (_ ∧ _))

/-- A poll that follows a stain within the tolerances, and the axis answers. -/
def Locks (l : Look) : Prop := Follows l ∧ l.axis = RT_EOK ∧ targetLocked l.camera = true

def isMove : AxisCommand → Bool
  | .stop => false
  | .move _ pulses => decide (pulses ≠ 0)

def moves (g : Gimbal) : Nat := g.commands.countP isMove

theorem pulses_ne_zero {n : Nat} (h0 : 0 < n) (hn : n < 2 ^ 17) :
    UInt32.ofNat n * Axis.pulsesPerPixel ≠ 0 := by
  intro he
  have he : (UInt32.ofNat n * 6).toNat = 0 := congrArg UInt32.toNat he
  rw [UInt32.toNat_mul, UInt32.toNat_ofNat'] at he
  simp only [UInt32.reduceToNat] at he
  omega

theorem isMove_centerFromError (target : CleanerTarget) :
    isMove (Axis.centerFromError (errX target)) =
      decide (Axis.centerDeadbandPx < (errX target).natAbs) := by
  have hx := target.x.toNat_lt
  have hsmall : (errX target).natAbs < 2 ^ 17 := by
    have hcenter : cameraCenterX = 320 := rfl
    unfold errX
    omega
  generalize errX target = e at hsmall ⊢
  unfold Axis.centerFromError
  by_cases hdead : e.natAbs ≤ Axis.centerDeadbandPx
  · rw [if_pos hdead, decide_eq_false (Nat.not_lt.mpr hdead)]
    rfl
  · rw [if_neg hdead, decide_eq_true (Nat.not_le.mp hdead)]
    have hpulses := pulses_ne_zero (Nat.zero_lt_of_lt (Nat.not_le.mp hdead)) hsmall
    dsimp only
    generalize UInt32.ofNat e.natAbs * Axis.pulsesPerPixel = pulses at hpulses ⊢
    have hlimit : (if pulses > Axis.centerMaxPulses then Axis.centerMaxPulses else pulses) ≠ 0 := by
      split
      · decide
      · exact hpulses
    rw [Axis.movePulses, if_neg hlimit]
    exact decide_eq_true hlimit

/-- What a round does: it neither follows nor locks, or it fails in the pose, or it follows the stain,
and then counts it, forgets the count, locks or fails in the axis. -/
inductive AimCase (s : Gimbal × UInt8) (l : Look) :
    (Gimbal × UInt8) × Option (Except RtErr CleanerTarget) → Prop where
  /-- Stopped, or the pose failed. -/
  | failed (g : Gimbal) (stable : UInt8) (result : RtErr) (error : result ≠ RT_EOK)
      (unfollowed : ¬ Follows l) (commands : g.commands = s.1.commands) :
      AimCase s l ((g, stable), some (.error result))
  /-- No stain is seen. -/
  | unseen (result : Option RtErr) (error : result ≠ some RT_EOK) (unfollowed : ¬ Follows l) :
      AimCase s l ((s.1, 0), result.map .error)
  /-- The stain is followed, and the axis fails. -/
  | broken (g : Gimbal) (error : l.axis ≠ RT_EOK) (follows : Follows l)
      (commands : g.commands = Axis.centerFromError (errX l.camera) :: s.1.commands) :
      AimCase s l ((g, s.2), some (.error l.axis))
  /-- The stain is followed, and out of the tolerances. -/
  | away (g : Gimbal) (result : Option RtErr) (error : result ≠ some RT_EOK) (follows : Follows l)
      (commands : g.commands = Axis.centerFromError (errX l.camera) :: s.1.commands) :
      AimCase s l ((g, 0), result.map .error)
  /-- The stain is followed within the tolerances, and counted. -/
  | counted (g : Gimbal) (result : Option RtErr) (error : result ≠ some RT_EOK) (locks : Locks l)
      (few : ¬ s.2 + 1 ≥ 3)
      (commands : g.commands = Axis.centerFromError (errX l.camera) :: s.1.commands) :
      AimCase s l ((g, s.2 + 1), result.map .error)
  /-- The third time in a row. -/
  | locked (g : Gimbal) (locks : Locks l) (three : s.2 + 1 ≥ 3)
      (commands : g.commands = Axis.centerFromError (errX l.camera) :: s.1.commands) :
      AimCase s l ((g, s.2 + 1), some (.ok l.camera))

theorem applyPose_eq (g : Gimbal) (calls : PwmCalls) (yNs zNs : UInt32) :
    ∃ k, g.applyPose calls yNs zNs = (k, calls.result) ∧ k.commands = g.commands :=
  ⟨_, rfl, rfl⟩

theorem aimWait_eq (start : Tick) (l : Look) :
    aimWait start l = (if l.laterTick - start ≥ aimTimeoutMs then some (-RT_ETIMEOUT) else none).map
      Except.error := by
  unfold aimWait
  split <;> rfl

theorem aimRound_case (start : Tick) (s : Gimbal × UInt8) (l : Look) :
    AimCase s l (aimRound start s l) := by
  obtain ⟨g, stable⟩ := s
  unfold aimRound
  dsimp only
  rw [aimWait_eq]
  have herror : (if l.laterTick - start ≥ aimTimeoutMs then some (-RT_ETIMEOUT) else none) ≠
      some RT_EOK := by
    split <;> simp
  generalize (if l.laterTick - start ≥ aimTimeoutMs then some (-RT_ETIMEOUT) else none) = timeout
    at herror ⊢
  by_cases hstop : l.stop = true
  · rw [if_pos hstop]
    exact .failed g stable _ (by decide) (fun h => Bool.noConfusion (h.1.symm.trans hstop)) rfl
  · rw [if_neg hstop]
    have hstop : l.stop = false := by simpa using hstop
    cases hstain : targetIsStain l.camera l.tick with
    | false =>
      simp only [Bool.not_false, if_true]
      exact .unseen timeout herror (fun h => Bool.noConfusion (hstain.symm.trans h.2.1))
    | true =>
      obtain ⟨k, hpose, hcommands⟩ :=
        applyPose_eq g l.pwm (yFromTarget g.config l.camera) g.config.zRetractNs
      simp only [hpose, Bool.not_true, Bool.false_eq_true, if_false]
      by_cases hres : l.pwm.result = RT_EOK
      · have hfollows : Follows l := ⟨hstop, hstain, hres⟩
        have htold : (k.axis (Axis.centerFromError (errX l.camera))).commands =
            Axis.centerFromError (errX l.camera) :: g.commands := by
          rw [← hcommands]
          rfl
        simp only [hres, ne_eq, not_true_eq_false, if_false]
        by_cases haxis : l.axis = RT_EOK
        · simp only [haxis, not_true_eq_false, if_false]
          cases hlocked : targetLocked l.camera with
          | false => exact .away _ timeout herror hfollows htold
          | true =>
            simp only [Bool.not_true, Bool.false_eq_true, if_false]
            have hlocks : Locks l := ⟨hfollows, haxis, hlocked⟩
            by_cases hthree : stable + 1 ≥ 3
            · rw [if_pos hthree]
              exact .locked _ hlocks hthree htold
            · rw [if_neg hthree]
              exact .counted _ timeout herror hlocks hthree htold
        · simp only [haxis, not_false_eq_true, if_true]
          exact .broken _ haxis hfollows htold
      · simp only [hres, ne_eq, not_false_eq_true, if_true]
        exact .failed k stable _ hres (fun h => hres h.2.2) hcommands

/-! ## Moves -/

theorem moves_of_commands {g k : Gimbal} (h : k.commands = g.commands) : k.moves = g.moves := by
  rw [moves, moves, h]

theorem moves_of_follows {g k : Gimbal} {l : Look} (hl : Follows l)
    (h : k.commands = Axis.centerFromError (errX l.camera) :: g.commands) :
    k.moves = g.moves + if Corrects l then 1 else 0 := by
  rw [moves, moves, h, List.countP_cons, isMove_centerFromError]
  simp only [Corrects, hl, true_and, decide_eq_true_eq]

theorem aimRound_moves (start : Tick) (s : Gimbal × UInt8) (l : Look) :
    (aimRound start s l).1.1.moves = s.1.moves + if Corrects l then 1 else 0 := by
  have hcase := aimRound_case start s l
  generalize aimRound start s l = r at hcase ⊢
  cases hcase with
  | failed g stable result _ hnot hcommands =>
    rw [if_neg fun h : Corrects l => hnot h.1]
    exact moves_of_commands hcommands
  | unseen result _ hnot =>
    rw [if_neg fun h : Corrects l => hnot h.1]
    rfl
  | broken g _ hl hcommands => exact moves_of_follows hl hcommands
  | away g result _ hl hcommands => exact moves_of_follows hl hcommands
  | counted g result _ hl _ hcommands => exact moves_of_follows hl.1 hcommands
  | locked g hl _ hcommands => exact moves_of_follows hl.1 hcommands

theorem goes_moves {start : Tick} {s t : Gimbal × UInt8} {polls : List Look}
    (h : Goes (aimRound start) s polls t) :
    t.1.moves = s.1.moves + polls.countP (fun l => decide (Corrects l)) := by
  induction h with
  | refl => simp
  | @round read t u l _ hround ih =>
    have hmoves := aimRound_moves start t l
    rw [hround] at hmoves
    rw [hmoves, ih, List.countP_append, List.countP_singleton, Nat.add_assoc]
    simp only [decide_eq_true_eq]

/-! ## The lock -/

/-- The count is that of the last polls, which all lock. -/
def Counted (polls : List Look) (stable : UInt8) : Prop :=
  stable.toNat < 3 ∧ ∃ last, Streak Locks polls last ∧ last.length = stable.toNat

theorem Counted.zero (polls : List Look) : Counted polls 0 :=
  ⟨by decide, [], Streak.nil Locks polls, rfl⟩

theorem Counted.snoc {polls : List Look} {stable : UInt8} {l : Look} (h : Counted polls stable)
    (hl : Locks l) : ∃ before, Streak Locks (polls ++ [l]) (before ++ [l]) ∧
      before.length = stable.toNat ∧ (stable + 1).toNat = before.length + 1 := by
  obtain ⟨hlt, before, hstreak, hlen⟩ := h
  refine ⟨before, hstreak.snoc hl, hlen, ?_⟩
  rw [UInt8.toNat_add, UInt8.toNat_one, hlen]
  omega

theorem goes_counted {start : Tick} {g : Gimbal} {s : Gimbal × UInt8} {polls : List Look}
    (h : Goes (aimRound start) (g, 0) polls s) : Counted polls s.2 := by
  apply h.inv (P := fun polls s => Counted polls s.2)
  · exact .zero []
  · intro polls s l t _ hcounted hround
    have hcase := aimRound_case start s l
    rw [hround] at hcase
    generalize hr : (t, (none : Option (Except RtErr CleanerTarget))) = r at hcase
    cases hcase with
    | failed | broken | locked => cases hr
    | unseen | away =>
      obtain rfl := (Prod.mk.inj hr).1
      exact .zero _
    | counted g' result _ hl hfew =>
      obtain rfl := (Prod.mk.inj hr).1
      obtain ⟨before, hstreak, -, hsucc⟩ := hcounted.snoc hl
      refine ⟨UInt8.lt_iff_toNat_lt.mp (UInt8.not_le.mp hfew), before ++ [l], hstreak, ?_⟩
      rw [List.length_append, List.length_singleton, ← hsucc]

/-! ## Aiming by polls -/

/-- **What aiming does with its polls.** Whatever the polls, up to any point the axis was told to move
once for every poll that found a fresh stain out of its deadband and followed it, and for no other;
and where `hcics_cleaner_aim` returns `RT_EOK`, the last three polls each found a fresh stain within
the tolerances, the last of them the target it returns. -/
theorem aim_by_polls (g : Gimbal) (entry : Look) (polls : List Look) :
    ∃ read, polls = read ++ (aim g (entry :: polls)).2.2 ∧
      (aim g (entry :: polls)).2.1.moves = g.moves + read.countP (fun l => decide (Corrects l)) ∧
      ∀ target, (aim g (entry :: polls)).1 = some (.ok target) →
        ∃ first second third, Streak Locks read [first, second, third] ∧ third.camera = target := by
  have hrun : aim g (entry :: polls) = Proc.poll (aimRound entry.tick) 0 g polls := rfl
  rw [hrun]
  unfold Proc.poll
  rcases hpolls : run (aimRound entry.tick) (g, 0) polls with ⟨_ | result, ⟨g', stable⟩, left⟩
  · obtain ⟨rfl, hgoes⟩ := run_eq_none.mp hpolls
    refine ⟨polls, (List.append_nil polls).symm, goes_moves hgoes, ?_⟩
    intro target htarget
    cases htarget
  · obtain ⟨pre, l, s, rfl, hgoes, hround⟩ := run_eq_some.mp hpolls
    refine ⟨pre ++ [l], by simp, ?_, ?_⟩
    · have hmoves := aimRound_moves entry.tick s l
      rw [hround] at hmoves
      rw [hmoves, goes_moves hgoes, List.countP_append, List.countP_singleton, Nat.add_assoc]
      simp only [decide_eq_true_eq]
    · intro target htarget
      have hcase := aimRound_case entry.tick s l
      obtain rfl : result = .ok target := Option.some.inj htarget
      rw [hround] at hcase
      generalize hr : ((g', stable), some (Except.ok (ε := RtErr) target)) = r at hcase
      cases hcase with
      | failed | broken => cases hr
      | unseen result | away _ result | counted _ result => cases result <;> cases hr
      | locked k hlocks hthree =>
        obtain ⟨before, hstreak, hlen, hsucc⟩ := (goes_counted hgoes).snoc hlocks
        have htwo : before.length = 2 := by
          have := UInt8.le_iff_toNat_le.mp hthree
          have := (goes_counted hgoes).1
          have h3 : (3 : UInt8).toNat = 3 := rfl
          omega
        obtain ⟨first, second, rfl⟩ := List.length_eq_two.mp htwo
        cases hr
        exact ⟨first, second, l, hstreak, rfl⟩

/-- A poll, at some time, of the frame of tick 980 with a stain 80 px to the right of the centre. -/
def pollAt (now : Nat) : Look :=
  { Look.calm now with camera := ⟨HCICS_CAM_MODE_CLEAN, 400, 350, 100, 0, true, 980⟩ }

/-- Three polls of one frame. -/
def samePolls : List Look := [pollAt 1000, pollAt 1080, pollAt 1160]

/-- Three polls of one frame move the axis three times. -/
theorem aim_same_frame :
    ¬ ∀ (g g' : Gimbal) (entry : Look) (polls : List Look)
        (result : Option (Except RtErr CleanerTarget)),
      aim g (entry :: polls) = (result, g', []) →
        g'.moves ≤ g.moves + (polls.map (·.camera)).dedup.length ∧
        ∀ target, result = some (.ok target) → ∃ last, Streak Locks polls last ∧ last.length = 3 ∧
          (last.map (·.camera)).Nodup := by
  intro h
  obtain ⟨hmoves, -⟩ := h (booted CleanerConfig.default.sanitize) _ (pollAt 1000) samePolls _ rfl
  revert hmoves
  decide

/-- They lock, too. -/
theorem aim_by_polls_same : ∃ read first second third,
    samePolls = read ++ [] ∧ Streak Locks read [first, second, third] ∧
      third.camera = (pollAt 1160).camera := by
  obtain ⟨read, hread, -, hlocks⟩ :=
    aim_by_polls (booted CleanerConfig.default.sanitize) (pollAt 1000) samePolls
  obtain ⟨first, second, third, hstreak, hcamera⟩ := hlocks (pollAt 1160).camera rfl
  exact ⟨read, first, second, third, hread, hstreak, hcamera⟩

end Hcics.Gimbal
