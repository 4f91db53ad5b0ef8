import Hcics.Cleaner.Procedures

/-!
# The worker goes by the rounds

`Cleaner` has the worker cut at its delays, for the default configuration and next to the other threads;
the procedures have its loops by rounds. Here the two are the same code: where the worker stands before
a round of a loop, with the data of the module as the `look`, its step is that round, and what follows
where the loop returns. `Same` is the data that the two share.
-/

namespace Hcics.Gimbal

open Cleaner

/-- What a round reads of the module at a step of the worker. -/
def look (c : Cleaner) (io : CleanerIo) : Look where
  now := io.now.toNat
  later := io.now.toNat
  stop := c.stopRequested
  camera := c.camera
  guard := c.guard
  surface := c.guard
  axis := io.result (c.actions.length + 1)
  pwm := ⟨io.result c.actions.length, RT_EOK, RT_EOK, RT_EOK⟩

/-- The data that the procedures write, in the module. -/
structure Same (g : Gimbal) (c : Cleaner) : Prop where
  config : g.config = CleanerConfig.default.sanitize
  state : g.state = c.state
  relayOn : g.relayOn = c.relayOn
  yPulseNs : g.yPulseNs = c.yPulseNs
  zPulseNs : g.zPulseNs = c.zPulseNs

/-- What the worker reads and the calls of the hardware leave alone. -/
structure Beside (c c' : Cleaner) : Prop where
  stop : c'.stopRequested = c.stopRequested
  camera : c'.camera = c.camera
  guard : c'.guard = c.guard
  runCycle : c'.runCycle = c.runCycle
  runMax : c'.runMax = c.runMax

theorem Beside.refl (c : Cleaner) : Beside c c := ⟨rfl, rfl, rfl, rfl, rfl⟩

theorem Beside.trans {c c' c'' : Cleaner} (h : Beside c c') (h' : Beside c' c'') : Beside c c'' :=
  ⟨h'.stop.trans h.stop, h'.camera.trans h.camera, h'.guard.trans h.guard,
    h'.runCycle.trans h.runCycle, h'.runMax.trans h.runMax⟩

variable {g : Gimbal} {c : Cleaner} {io : CleanerIo}

@[simp] theorem tick_look : (look c io).tick = io.now := by simp [look, Look.tick]

@[simp] theorem laterTick_look : (look c io).laterTick = io.now := by simp [look, Look.laterTick]

@[simp] theorem result_look : (look c io).pwm.result = io.result c.actions.length := by
  by_cases h : io.result c.actions.length = RT_EOK
  · simp [look, PwmCalls.result, h]
  · simp [look, PwmCalls.result, h]

theorem forcesRetract_look (washing : Bool) :
    (look c io).guard.forcesRetract (look c io).tick washing = c.guardForcesRetract io washing := by
  rw [tick_look]
  rfl

theorem yFromTarget_default (target : CleanerTarget) :
    yFromTarget CleanerConfig.default.sanitize target = Cleaner.yFromTarget target := rfl

theorem sweepYNs_default (right : Bool) (baseYNs : UInt32) :
    sweepYNs CleanerConfig.default.sanitize right baseYNs = Cleaner.sweepYNs right baseYNs := rfl

/-! ## The calls -/

theorem Same.applyPose (h : Same g c) (io : CleanerIo) (yNs zNs : UInt32) :
    ∃ g' c', g.applyPose (look c io).pwm yNs zNs = (g', (look c io).pwm.result) ∧
      c.applyPose io yNs zNs = (c', (look c io).pwm.result) ∧ Same g' c' ∧ Beside c c' ∧
      c'.actions.length = c.actions.length + 1 := by
  obtain ⟨hconfig, hstate, hrelay, -, -⟩ := h
  refine ⟨_, _, rfl, Prod.ext rfl result_look.symm, ⟨hconfig, hstate, hrelay, ?_, ?_⟩, ⟨rfl, rfl, rfl, rfl, rfl⟩, rfl⟩
  · simp only [hconfig]
    rfl
  · simp only [hconfig]
    rfl

theorem Same.axis {c' : Cleaner} (h : Same g c') (io : CleanerIo)
    (hlen : c'.actions.length = c.actions.length + 1) (command : AxisCommand) :
    ∃ c'', c'.axis io = (c'', (look c io).axis) ∧ Same (g.axis command) c'' ∧ Beside c' c'' := by
  refine ⟨(c'.axis io).1, Prod.ext rfl ?_, { h with }, ⟨rfl, rfl, rfl, rfl, rfl⟩⟩
  show io.result c'.actions.length = io.result (c.actions.length + 1)
  rw [hlen]

/-! ## The loops -/

/-- The end of a loop: another round, or what follows its result. -/
def next {σ ρ : Type} (go : σ → Cleaner) (ret : ρ → Cleaner) : σ × Option ρ → Cleaner
  | (s, none) => go s
  | (_, some r) => ret r

theorem waitStainLoop_eq (start : Tick) :
    c.waitStainLoop io start = next (fun _ : Unit => c.goto (.waitStain start))
      (fun
        | .error result => c.cycleEnded result
        | .ok _ => c.aimLoop io io.now 0)
      ((), waitStainRound start (look c io)) := by
  have hstop : c.stopRequested = (look c io).stop := rfl
  have hcamera : c.camera = (look c io).camera := rfl
  unfold waitStainLoop waitStainRound
  rw [tick_look, laterTick_look, hstop, hcamera]
  split_ifs <;> rfl

theorem verifyWait_eq (start : Tick) (clear : ClearWindow) (ret : RtErr → Cleaner)
    (h : ret (-RT_ETIMEOUT) = c.cycleEnded (-RT_ETIMEOUT)) :
    c.verifyWait io start clear.start clear.active =
      next (fun clear => c.goto (.verify start clear.start clear.active)) ret
        (clear, verifyWait start (look c io)) := by
  unfold Cleaner.verifyWait verifyWait
  rw [tick_look]
  split
  · exact h.symm
  · rfl

theorem verifyLoop_eq (start : Tick) (clear : ClearWindow) :
    c.verifyLoop io start clear.start clear.active =
      next (fun clear => c.goto (.verify start clear.start clear.active))
        (fun result => (if result = RT_EOK then { c with verified := c.starts :: c.verified }
          else c).cycleEnded result)
        (verifyRound start clear (look c io)) := by
  have hstop : c.stopRequested = (look c io).stop := rfl
  have hcamera : c.camera = (look c io).camera := rfl
  unfold verifyLoop verifyRound
  rw [forcesRetract_look, tick_look, hstop, hcamera]
  split
  · rfl
  split
  · rfl
  split
  · exact verifyWait_eq start ⟨clear.start, false⟩ _ rfl
  split
  · exact verifyWait_eq start ⟨io.now, false⟩ _ rfl
  have hwindow : (if clear.active = true then clear else ⟨io.now, true⟩ : ClearWindow) =
      ⟨if clear.active = true then clear.start else io.now, true⟩ := by
    split
    · rename_i hactive
      rw [← hactive]
    · rfl
  simp only [hwindow]
  generalize (if clear.active = true then clear.start else io.now) = clearStart
  split
  · rfl
  · exact verifyWait_eq start ⟨clearStart, true⟩ _ rfl

theorem rampLoop_eq (h : Same g c) (after : AfterRetract) (zNs : UInt32) :
    ∃ c', Same (rampRound (g, zNs) (look c io)).1.1 c' ∧ Beside c c' ∧
      c.rampLoop io after zNs = next (fun s => c'.goto (.ramp s.2 after))
        (fun result => if result = RT_EOK then c'.settleLoop io after retractMs
          else c'.retracted io after result)
        (rampRound (g, zNs) (look c io)) := by
  unfold rampLoop rampRound
  have hzRetract : zRetractNs = g.config.zRetractNs := by rw [h.config]; rfl
  have hySafe : ySafeNs = g.config.ySafeNs := by rw [h.config]; rfl
  rw [hzRetract, hySafe]
  by_cases hz : zNs = g.config.zRetractNs
  · simp only [if_pos hz]
    exact ⟨c, h, .refl c, rfl⟩
  obtain ⟨g', c', hg, hc, hsame, hbeside, -⟩ := h.applyPose io g.config.ySafeNs
    (moveToward zNs g.config.zRetractNs (zStepNs * 2))
  simp only [if_neg hz, hg, hc]
  refine ⟨c', ?_, hbeside, ?_⟩
  · split
    · exact hsame
    · exact hsame
  · split
    · rename_i hfailed
      simp only [next, if_neg hfailed]
    · rfl

theorem extendLoop_eq (h : Same g c) (startMs baseYNs yNs zNs : UInt32) :
    ∃ c', Same (extendRound startMs (g, yNs, zNs) (look c io)).1.1 c' ∧ Beside c c' ∧
      c.extendLoop io startMs baseYNs yNs zNs =
        next (fun s => c'.goto (.extend startMs baseYNs s.2.1 s.2.2))
          (fun result => if result = RT_EOK then c'.spray io baseYNs else c'.cycleEnded result)
          (extendRound startMs (g, yNs, zNs) (look c io)) := by
  have hstop : c.stopRequested = (look c io).stop := rfl
  have hzWash : zWashNs = g.config.zWashNs := by rw [h.config]; rfl
  have hy : (if targetIsStain (look c io).camera (look c io).tick then
      yFromTarget g.config (look c io).camera else yNs) = c.followYNs io yNs := by
    rw [tick_look, h.config, yFromTarget_default]
    rfl
  unfold extendLoop extendRound
  simp only [hy]
  rw [forcesRetract_look, laterTick_look, hstop, hzWash]
  by_cases h1 : (look c io).stop = true
  · simp only [if_pos h1]
    exact ⟨c, h, .refl c, rfl⟩
  by_cases h2 : c.guardForcesRetract io false = true
  · simp only [if_neg h1, if_pos h2]
    exact ⟨c, h, .refl c, rfl⟩
  obtain ⟨g', c', hg, hc, hsame, hbeside, -⟩ := h.applyPose io (c.followYNs io yNs)
    (moveToward zNs g.config.zWashNs zStepNs)
  have hsurface : (look c io).surface.surfaceReached io.now = c'.surfaceReached io := by
    rw [surfaceReached, hbeside.guard]
    rfl
  have hconfig : g'.config = g.config := hsame.config.trans h.config.symm
  simp only [if_neg h1, if_neg h2, hg, hc, hsurface, hconfig]
  refine ⟨c', ?_, hbeside, ?_⟩
  · split_ifs
    all_goals exact hsame
  · split
    · rename_i hfailed
      simp only [next, if_neg hfailed]
    split
    · rfl
    split
    · rfl
    split
    · rfl
    · rfl

theorem aimLoop_eq (h : Same g c) (start : Tick) (stable : UInt8) :
    ∃ c', Same (aimRound start (g, stable) (look c io)).1.1 c' ∧ Beside c c' ∧
      c.aimLoop io start stable =
        next (fun s => c'.goto (.aim start s.2))
          (fun
            | .error result => c'.cycleEnded result
            | .ok target => (c'.setState .extending).extendLoop io (tickToMs io.now)
                (Cleaner.yFromTarget target) (Cleaner.yFromTarget target) zRetractNs)
          (aimRound start (g, stable) (look c io)) := by
  have hstop : c.stopRequested = (look c io).stop := rfl
  have hcamera : c.camera = (look c io).camera := rfl
  have hzRetract : zRetractNs = g.config.zRetractNs := by rw [h.config]; rfl
  have hy : Cleaner.yFromTarget (look c io).camera = yFromTarget g.config (look c io).camera := by
    rw [h.config, yFromTarget_default]
  unfold aimLoop aimRound Cleaner.aimWait aimWait
  dsimp only
  rw [tick_look, laterTick_look, hstop, hcamera, hy, hzRetract]
  by_cases h1 : (look c io).stop = true
  · simp only [if_pos h1]
    exact ⟨c, h, .refl c, rfl⟩
  by_cases h2 : (!targetIsStain (look c io).camera io.now) = true
  · simp only [if_neg h1, if_pos h2]
    refine ⟨c, h, .refl c, ?_⟩
    split <;> rfl
  obtain ⟨g', c', hg, hc, hsame, hbeside, hlen⟩ := h.applyPose io
    (yFromTarget g.config (look c io).camera) g.config.zRetractNs
  obtain ⟨c'', haxis, hsame', hbeside'⟩ := hsame.axis io hlen
    (Axis.centerFromError (((look c io).camera.x.toNat : Int) - cameraCenterX))
  simp only [if_neg h1, if_neg h2, hg, hc, haxis]
  by_cases h3 : (look c io).pwm.result ≠ RT_EOK
  · simp only [if_pos h3]
    exact ⟨c', hsame, hbeside, rfl⟩
  simp only [if_neg h3]
  refine ⟨c'', ?_, hbeside.trans hbeside', ?_⟩
  · split_ifs
    all_goals exact hsame'
  · split
    · rfl
    split
    · split <;> rfl
    split
    · rw [← hy]
      rfl
    · split <;> rfl

theorem sprayDelay_eq (left baseYNs : UInt32) :
    c.sprayDelay io left baseYNs =
      next (fun left => c.goto (.spray left baseYNs))
        (fun completed => c.sprayed io (if completed then RT_EOK else -RT_EINTR) baseYNs)
        (delayRound true true left (look c io)) := by
  have hstop : c.stopRequested = (look c io).stop := rfl
  unfold sprayDelay delayRound
  rw [forcesRetract_look, hstop]
  by_cases h1 : left = 0
  · simp only [if_pos h1]
    rfl
  by_cases h2 : (look c io).stop = true
  · simp only [if_neg h1, h2]
    rfl
  have h2 := Bool.eq_false_iff.mpr h2
  simp only [if_neg h1, h2, Bool.false_or, Bool.true_and]
  by_cases h3 : c.guardForcesRetract io true = true
  · simp only [h3]
    rfl
  · simp only [h3]
    rfl

theorem settleLoop_eq (after : AfterRetract) (left : UInt32) :
    c.settleLoop io after left =
      next (fun left => c.goto (.settle left after)) (fun _ => c.retracted io after RT_EOK)
        (delayRound false false left (look c io)) := by
  have hstop : c.stopRequested = (look c io).stop := rfl
  unfold settleLoop delayRound
  rw [hstop]
  by_cases h1 : left = 0
  · simp only [h1]
    rfl
  by_cases h2 : (look c io).stop = true
  · simp only [h1, h2]
    rfl
  · simp only [h1, h2]
    rfl

theorem scrubWait_eq (g : Gimbal) {left : UInt32} (hleft : left ≠ 0) (startMs : UInt32) (right : Bool)
    (baseYNs : UInt32) :
    c.scrubWait io left startMs right baseYNs =
      next (fun s => c.goto (.scrub s.2.2 startMs s.2.1 baseYNs)) (fun result => c.scrubbed io result)
        (scrubRound startMs baseYNs (g, right, left) (look c io)) := by
  have hstop : c.stopRequested = (look c io).stop := rfl
  unfold scrubWait scrubRound delayRound
  rw [forcesRetract_look, hstop]
  simp only [if_pos hleft, if_neg hleft]
  by_cases h1 : (look c io).stop = true
  · simp only [h1]
    rfl
  have h1 := Bool.eq_false_iff.mpr h1
  simp only [h1, Bool.false_or, Bool.true_and]
  by_cases h2 : c.guardForcesRetract io true = true
  · simp only [h2]
    rfl
  · simp only [h2]
    rfl

theorem scrubLoop_eq (h : Same g c) (startMs : UInt32) (right : Bool) (baseYNs : UInt32) :
    ∃ c', Same (scrubRound startMs baseYNs (g, right, 0) (look c io)).1.1 c' ∧ Beside c c' ∧
      c.scrubLoop io startMs right baseYNs =
        next (fun s => c'.scrubWait io s.2.2 startMs s.2.1 baseYNs) (fun result => c'.scrubbed io result)
          (scrubRound startMs baseYNs (g, right, 0) (look c io)) := by
  have hstop : c.stopRequested = (look c io).stop := rfl
  have hzWash : zWashNs = g.config.zWashNs := by rw [h.config]; rfl
  have hy : Cleaner.sweepYNs right baseYNs = sweepYNs g.config right baseYNs := by
    rw [h.config, sweepYNs_default]
  have hzero : ¬ (0 : UInt32) ≠ 0 := not_not.mpr rfl
  unfold scrubLoop scrubRound
  dsimp only
  rw [if_neg hzero, forcesRetract_look, laterTick_look, hstop, hzWash, hy]
  by_cases h1 : (look c io).stop = true
  · simp only [if_pos h1]
    exact ⟨c, h, .refl c, rfl⟩
  by_cases h2 : c.guardForcesRetract io true = true
  · simp only [if_neg h1, if_pos h2]
    exact ⟨c, h, .refl c, rfl⟩
  obtain ⟨g', c', hg, hc, hsame, hbeside, hlen⟩ := h.applyPose io
    (sweepYNs g.config right baseYNs) g.config.zWashNs
  obtain ⟨c'', haxis, hsame', hbeside'⟩ := hsame.axis io hlen (Axis.sweepStep right)
  simp only [if_neg h1, if_neg h2, hg, hc, haxis]
  by_cases h3 : (look c io).pwm.result ≠ RT_EOK
  · simp only [if_pos h3]
    exact ⟨c', hsame, hbeside, rfl⟩
  simp only [if_neg h3]
  refine ⟨c'', ?_, hbeside.trans hbeside', ?_⟩
  · split_ifs
    all_goals exact hsame'
  · split
    · rfl
    split
    · rfl
    · rfl

end Hcics.Gimbal
