import Hcics.Cleaner.Procedures

/-!
# What the procedures keep

The procedures work through four calls, `setState`, `relay`, `axis` and `applyPose`: what these keep,
each procedure keeps, and it holds where the procedure waits as well. A mission keeps it too, if what it
notes of itself does. `retract_spec` and `spec_unless` are the rules for what comes to hold on the way.
-/

namespace Hcics.Gimbal

/-- A property that the calls of the procedures keep. -/
structure Closed (P : Gimbal → Prop) : Prop where
  setState : ∀ g state, P g → P (g.setState state)
  relay : ∀ g on, P g → P (g.relay on)
  axis : ∀ g command, P g → P (g.axis command)
  applyPose : ∀ g calls yNs zNs, P g → P (g.applyPose calls yNs zNs).1

/-- A program that keeps a property, also while it waits. -/
abbrev Keeps {α : Type} (P : Gimbal → Prop) (p : Proc Gimbal Look α) : Prop :=
  Proc.Spec P p P fun _ => P

variable {P : Gimbal → Prop}

namespace Closed

theorem safeOutputs (h : Closed P) {g : Gimbal} (hg : P g) (l : Look) : P (g.safeOutputs l).1 :=
  h.applyPose _ _ _ _ (h.axis _ _ (h.relay _ _ hg))

/-! ## Rounds -/

theorem aimRound (h : Closed P) (start : Tick) {s : Gimbal × UInt8} (hs : P s.1) (l : Look) :
    P (aimRound start s l).1.1 := by
  obtain ⟨g, stable⟩ := s
  have hpose := h.applyPose g l.pwm (yFromTarget g.config l.camera) g.config.zRetractNs hs
  unfold Gimbal.aimRound
  dsimp only
  split
  · exact hs
  · split
    · exact hs
    · split
      · exact hpose
      · have haxis := h.axis _ (Axis.centerFromError
          ((l.camera.x.toNat : Int) - Cleaner.cameraCenterX)) hpose
        split_ifs
        · exact haxis
        · exact haxis
        · exact haxis
        · exact haxis

theorem extendRound (h : Closed P) (startMs : UInt32) {s : Gimbal × UInt32 × UInt32} (hs : P s.1)
    (l : Look) : P (extendRound startMs s l).1.1 := by
  obtain ⟨g, yNs, zNs⟩ := s
  unfold Gimbal.extendRound
  dsimp only
  split
  · exact hs
  · split
    · exact hs
    · split_ifs
      all_goals exact h.applyPose _ _ _ _ hs

theorem scrubRound (h : Closed P) (startMs baseYNs : UInt32) {s : Gimbal × Bool × UInt32}
    (hs : P s.1) (l : Look) : P (scrubRound startMs baseYNs s l).1.1 := by
  obtain ⟨g, right, left⟩ := s
  have hpose := h.applyPose g l.pwm (sweepYNs g.config right baseYNs) g.config.zWashNs hs
  unfold Gimbal.scrubRound
  dsimp only
  split
  · split
    · exact hs
    · exact hs
  · split
    · exact hs
    · split
      · exact hs
      · split
        · exact hpose
        · have haxis := h.axis _ (Axis.sweepStep right) hpose
          split_ifs
          · exact haxis
          · exact haxis
          · exact haxis

theorem rampRound (h : Closed P) {s : Gimbal × UInt32} (hs : P s.1) (l : Look) :
    P (rampRound s l).1.1 := by
  obtain ⟨g, zNs⟩ := s
  unfold Gimbal.rampRound
  dsimp only
  split
  · exact hs
  · split
    · exact h.applyPose _ _ _ _ hs
    · exact h.applyPose _ _ _ _ hs

end Closed

/-! ## Procedures -/

theorem keeps_beside {τ α : Type} (body : τ → Look → τ × Option α) (init : τ) :
    Keeps P (.poll (Polling.beside body) init) :=
  .poll_keeps (fun _ hg => hg) fun _ _ hg => hg

theorem keeps_tickGet : Keeps P tickGet := .act (fun _ hg => hg) fun _ _ hg => hg

theorem keeps_guardForcesRetract (washing : Bool) : Keeps P (guardForcesRetract washing) :=
  .act (fun _ hg => hg) fun _ _ hg => hg

theorem keeps_pure {α : Type} (a : α) : Keeps P (pure a) := .pure fun _ hg => hg

theorem keeps_waitStain : Keeps P waitStain :=
  .bind keeps_tickGet fun _ => keeps_beside _ _

theorem keeps_delayAbortable (ms : UInt32) (checkGuard washing : Bool) :
    Keeps P (delayAbortable ms checkGuard washing) := keeps_beside _ _

theorem keeps_verifyClear : Keeps P verifyClear :=
  .bind keeps_tickGet fun _ => keeps_beside _ _

namespace Closed

theorem modify_relay (h : Closed P) (on : Bool) : Keeps P (.modify (·.relay on)) :=
  .modify fun g hg => h.relay g on hg

theorem aim (h : Closed P) : Keeps P aim :=
  .bind keeps_tickGet fun start => .poll_keeps (fun _ hg => hg) fun _ l hs => h.aimRound start hs l

theorem extendZ (h : Closed P) (yNs : UInt32) : Keeps P (extendZ yNs) := by
  apply Proc.Spec.bind keeps_tickGet
  intro start
  apply Proc.Spec.bind (Q := fun _ => P) (.gets fun _ hg => hg)
  intro zNs
  exact .poll_keeps (fun _ hg => hg) fun _ l hs => h.extendRound (tickToMs start) hs l

theorem spray (h : Closed P) : Keeps P spray := by
  apply Proc.Spec.bind (keeps_guardForcesRetract true)
  intro forced
  split
  · exact keeps_pure _
  · apply Proc.Spec.bind (h.modify_relay true)
    intro _
    apply Proc.Spec.bind (keeps_delayAbortable _ true true)
    intro completed
    apply Proc.Spec.bind (h.modify_relay false)
    intro _
    split
    · exact keeps_pure _
    · apply Proc.Spec.bind (keeps_guardForcesRetract true)
      intro forced
      exact keeps_pure _

theorem scrub (h : Closed P) (baseYNs : UInt32) : Keeps P (scrub baseYNs) := by
  apply Proc.Spec.bind keeps_tickGet
  intro start
  apply Proc.Spec.bind (h.modify_relay true)
  intro _
  exact .poll_keeps (fun _ hg => hg) fun _ l hs => h.scrubRound (tickToMs start) baseYNs hs l

theorem retract (h : Closed P) : Keeps P retract := by
  apply Proc.Spec.bind (Q := fun _ => P) (.modify fun g hg => h.setState g _ hg)
  intro _
  apply Proc.Spec.bind (h.modify_relay false)
  intro _
  apply Proc.Spec.bind (Q := fun _ => P) (.act (fun _ hg => hg) fun g l hg => h.axis g _ hg)
  intro result
  split
  · exact keeps_pure _
  · apply Proc.Spec.bind (Q := fun _ => P) (.gets fun _ hg => hg)
    intro zNs
    apply Proc.Spec.bind (.poll_keeps (fun _ hg => hg) fun _ l hs => h.rampRound hs l)
    intro result
    split
    · exact keeps_pure _
    · apply Proc.Spec.bind (keeps_delayAbortable _ false false)
      intro _
      exact keeps_pure _

end Closed

/-- The rule of `hcics_cleaner_retract`: `J` holds of the state and `z_ns` at the head of each round of
its ramp, and `R` where the ramp ends. -/
theorem retract_spec {R : Gimbal → Prop} (J : Gimbal × UInt32 → Prop)
    (h0 : ∀ g, P g → J (((g.setState .retracting).relay false).axis .stop, g.zPulseNs))
    (hgo : ∀ s l t, J s → Gimbal.rampRound s l = (t, none) → J t)
    (hret : ∀ s l t, J s → Gimbal.rampRound s l = (t, some RT_EOK) → R t.1) :
    Proc.Spec P retract (fun _ => True) fun result g => result = RT_EOK → R g := by
  apply Proc.Spec.bind (Q := fun _ g => J ((g.relay false).axis .stop, g.zPulseNs))
  · exact .modify h0
  intro _
  apply Proc.Spec.bind (Q := fun _ g => J (g.axis .stop, g.zPulseNs))
  · exact .modify fun _ h => h
  intro _
  apply Proc.Spec.bind (Q := fun _ g => J (g, g.zPulseNs))
  · apply Proc.Spec.act
    · exact fun _ _ => trivial
    · exact fun _ _ h => h
  intro result
  split
  · rename_i hfailed
    exact .pure fun _ _ hok => absurd hok hfailed
  · apply Proc.Spec.bind (Q := fun zNs g => J (g, zNs)) (.gets fun _ h => h)
    intro zNs
    apply Proc.Spec.bind (Q := fun result g => result = RT_EOK → R g)
    · apply Proc.Spec.poll J
      · exact fun _ h => h
      · exact fun _ _ => trivial
      · exact hgo
      · rintro s l t result h hround rfl
        exact hret s l t h hround
    · intro result
      split
      · rename_i hfailed
        exact .pure fun _ _ hok => absurd hok hfailed
      · rename_i hok
        apply Proc.Spec.bind (Q := fun _ => R)
        · exact (keeps_delayAbortable Cleaner.retractMs false false).mono
            (fun _ h => h (not_not.mp hok)) (fun _ _ => trivial) fun _ _ h => h
        · intro _
          exact .pure fun _ h _ => h

/-! ## Missions -/

theorem spec_unless {R I : Gimbal → Prop} {Q : RtErr → Gimbal → Prop} {p next : Proc Gimbal Look RtErr}
    (hp : Proc.Spec P p I fun _ => R) (hfailed : ∀ result g, result ≠ RT_EOK → R g → Q result g)
    (hnext : Proc.Spec R next I Q) :
    Proc.Spec P (p >>= fun result => if result ≠ RT_EOK then pure result else next) I Q := by
  apply Proc.Spec.bind hp
  intro result
  split
  · rename_i hne
    exact .pure fun g hg => hfailed result g hne hg
  · exact hnext

/-- A property that a mission keeps, with what it notes of itself. -/
structure Kept (P : Gimbal → Prop) : Prop extends Closed P where
  log : ∀ g event, P g → P (g.log event)
  cycle : ∀ (g : Gimbal) cycle, P g → P { g with cycle := cycle }

namespace Kept

theorem modify_setState (h : Kept P) (state : CleanerState) : Keeps P (.modify (·.setState state)) :=
  .modify fun g hg => h.setState g state hg

theorem modify_log (h : Kept P) (event : MissionEvent) : Keeps P (.modify (·.log event)) :=
  .modify fun g hg => h.log g event hg

theorem runLocked (h : Kept P) (target : CleanerTarget) : Keeps P (runLocked target) := by
  apply Proc.Spec.bind (Q := fun _ => P) (.gets fun _ hg => hg)
  intro baseYNs
  apply Proc.Spec.bind (h.modify_setState _)
  intro _
  apply spec_unless (h.extendZ baseYNs) fun _ _ _ hg => hg
  apply Proc.Spec.bind (h.modify_setState _)
  intro _
  apply spec_unless h.spray fun _ _ _ hg => hg
  apply Proc.Spec.bind (h.modify_setState _)
  intro _
  apply Proc.Spec.bind (h.scrub baseYNs)
  intro result
  apply Proc.Spec.bind (h.modify_relay false)
  intro _
  split
  · exact keeps_pure _
  · apply spec_unless h.retract fun _ _ _ hg => hg
    apply Proc.Spec.bind (h.modify_setState _)
    intro _
    apply Proc.Spec.bind keeps_verifyClear
    intro result
    apply Proc.Spec.bind (h.modify_log _)
    intro _
    exact keeps_pure _

theorem runOnce (h : Kept P) : Keeps P runOnce := by
  apply Proc.Spec.bind (Q := fun _ => P)
  · exact .modify fun g hg => h.log _ _ (h.setState g _ hg)
  intro _
  apply Proc.Spec.bind keeps_waitStain
  rintro (code | _)
  · exact keeps_pure _
  · apply Proc.Spec.bind h.aim
    rintro (code | target)
    · exact keeps_pure _
    · exact h.runLocked target

theorem runCycles (h : Kept P) (cycle : UInt8) (left : Nat) : Keeps P (runCycles cycle left) := by
  induction left generalizing cycle with
  | zero => exact keeps_pure _
  | succ left ih =>
    apply Proc.Spec.bind (Q := fun _ => P)
    · exact .modify fun g hg => h.cycle g _ hg
    intro _
    apply Proc.Spec.bind h.runOnce
    intro result
    apply Proc.Spec.bind (h.modify_log _)
    intro _
    split
    · exact keeps_pure _
    split
    · exact keeps_pure _
    apply Proc.Spec.bind h.retract
    intro result'
    apply Proc.Spec.bind (h.modify_log _)
    intro _
    split
    · exact keeps_pure _
    · exact ih (cycle + 1)

theorem work (h : Kept P) (maxCycles : UInt8) : Keeps P (work maxCycles) := by
  apply spec_unless (R := P)
  · apply Proc.Spec.act
    · exact fun _ hg => hg
    · exact fun _ l hg => h.toClosed.safeOutputs hg l
  · exact fun _ _ _ hg => hg
  · exact h.runCycles 0 _

end Kept

end Hcics.Gimbal
