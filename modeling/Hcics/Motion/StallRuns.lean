import Hcics.Motion.Stall

/-!
# Stall detection over whole runs

A driven run is a reset followed by targets and updates. `updates` lists its updates with the state
each is called in, `observe` is what the watchdog reads of one. As long as no stop is latched the
watchdog follows the run (`follow`), so a latched 0xE3 ends a window of stalled updates, and a stretch
of stalled updates at bounded gaps ends in one.
-/

namespace Hcics.Motion

/-! ## The updates of a run -/

/-- The updates of a list of calls, each with the state it is called in. -/
def updates (m : Motion) : List (Op × MotionIo) → List (Motion × MotionIo)
  | [] => []
  | (op, io) :: calls =>
    if op = .update then (m, io) :: updates (m.call io op).1 calls
    else updates (m.call io op).1 calls

def time (u : Motion × MotionIo) : Nat := u.2.now.toNat

/-- What an update tells the watchdog, and when. -/
def observe (u : Motion × MotionIo) : Nat × Watchdog.Reading := (time u, reading u.1 u.2)

def updated (u : Motion × MotionIo) : Motion := (u.1.call u.2 .update).1

def LatchesStall (u : Motion × MotionIo) : Prop :=
  u.1.emergencyStop = false ∧ (updated u).emergencyStop = true ∧ (updated u).stopReason = 0xE3

instance (u : Motion × MotionIo) : Decidable (LatchesStall u) :=
  inferInstanceAs (Decidable (_ ∧ _))

def startsBoost (u : Motion × MotionIo) : Bool :=
  u.1.boostUntilMs == 0 && (updated u).boostUntilMs != 0

/-- The update is stalled and no PWM call and no encoder fails in it. -/
def Undisturbed (u : Motion × MotionIo) : Prop :=
  Stalled u.1 u.2 ∧ u.2.pwm.Ok ∧ ¬ EncoderFault (u.1.ensureInit u.2).1 u.2

/-- The times of the updates never go back, start after `last` and leave room for a boost. -/
def Timed (last : Nat) : List (Motion × MotionIo) → Prop
  | [] => True
  | u :: us => last ≤ time u ∧ 1 ≤ time u ∧ time u ≤ 2 ^ 32 - 451 ∧ Timed (time u) us

theorem Timed.ordered {last : Nat} {us : List (Motion × MotionIo)} (h : Timed last us) :
    Watchdog.Ordered last (us.map observe) := by
  induction us generalizing last with
  | nil => trivial
  | cons u us ih => exact ⟨h.1, ih h.2.2.2⟩

theorem Timed.left {last : Nat} {us vs : List (Motion × MotionIo)} (h : Timed last (us ++ vs)) :
    Timed last us := by
  induction us generalizing last with
  | nil => trivial
  | cons u us ih => exact ⟨h.1, h.2.1, h.2.2.1, ih h.2.2.2⟩

/-! ## One call -/

theorem not_stalled_of_uninit {m : Motion} (h : m.initialized = false) (io : MotionIo) :
    ¬ Stalled m io := by
  obtain ⟨-, hhalt, -⟩ := ensureInit_fresh h io
  have hpoll : Halted ((m.ensureInit io).1.pollActualSpeed io).1 := by
    rcases pollActualSpeed_cases (m.ensureInit io).1 io with ⟨-, hk⟩ | ⟨-, hk⟩
    · exact hk.halted hhalt
    · exact hk.halted (halted_latchStopped _ _)
  have hzero : (m.polled io).commandLeft = 0 ∧ (m.polled io).commandRight = 0 := by
    unfold polled rampCommands
    simp only [hpoll.targetLeft, hpoll.targetRight, hpoll.commandLeft, hpoll.commandRight]
    exact ⟨rfl, rfl⟩
  rintro ⟨-, hcmd, -⟩
  rw [hzero.1, hzero.2] at hcmd
  exact absurd hcmd (by decide)

theorem serviceReady_stopped {m : Motion} (hs : m.emergencyStop = true) (io : MotionIo)
    (direct : Bool) :
    (m.serviceReady io direct).1.emergencyStop = true ∧
      ((m.serviceReady io direct).1.stopReason = m.stopReason ∨
        (m.serviceReady io direct).1.stopReason = 0xE1 ∨
        (m.serviceReady io direct).1.stopReason = 0xE2) := by
  have hpoll := pollActualSpeed_cases m io
  unfold serviceReady
  generalize m.pollActualSpeed io = poll at hpoll ⊢
  obtain ⟨p, r⟩ := poll
  simp only at hpoll ⊢
  rcases hpoll with ⟨rfl, hk⟩ | ⟨rfl, hk⟩
  · have hps : p.emergencyStop = true := hk.emergencyStop.trans hs
    rw [if_neg (not_not.mpr rfl), if_pos hps]
    refine ⟨output_emergencyStop _ _ _ _ hps, ?_⟩
    rcases (output_latch (p.clearCommands.stamp io.now) io.pwm io.cbResult 0 0).2 with
      ⟨-, h⟩ | ⟨-, h⟩
    · exact .inl (h.trans hk.stopReason)
    · exact .inr (.inl h)
  · rw [if_pos (by decide)]
    refine ⟨output_emergencyStop _ _ _ _ hk.emergencyStop, ?_⟩
    rcases (output_latch p io.pwm io.cbResult 0 0).2 with ⟨-, h⟩ | ⟨-, h⟩
    · exact .inr (.inr (h.trans hk.stopReason))
    · exact .inr (.inl h)

theorem Driven.call {m : Motion} (hm : Driven m) (io : MotionIo) {op : Op} (hop : Driving op) :
    Driven (m.call io op).1 := by
  obtain ⟨hdog, hmeasured⟩ := hm.ensureInit io
  refine ⟨reach_call hm.reach io op, ?_, ?_⟩
  · rcases hop with rfl | ⟨left, right, rfl⟩
    · simp only [Motion.call, update, service]
      split_ifs
      · exact hmeasured
      · exact serviceReady_measured hmeasured io false
    · exact (call_setTarget m io left right).2 hmeasured
  · intro hi
    have hm' : m.initialized = false := by
      cases hinit : m.initialized with
      | false => rfl
      | true =>
        rw [call_initialized hinit] at hi
        cases hi
    rcases ensureInit_cases m io with ⟨h, -⟩ | ⟨-, k, -, -, -, -, ⟨-, r, hr, he⟩ | ⟨hk, -, -, -, he⟩⟩
    · rw [hm'] at h
      cases h
    · rw [call_of_ensureInit_fail he hr]
      rw [he] at hdog
      exact hdog.trans (hm.dormant hm')
    · have hk' : (k.output io.initPwm io.cbResult 0 0).1.initialized = true := by simp [hk]
      rw [call_of_ensureInit_ok he hk', call_initialized hk'] at hi
      cases hi

theorem Driven.stays_stopped {m : Motion} (hm : Driven m) (io : MotionIo) {op : Op}
    (hop : Driving op) (hs : m.emergencyStop = true) : (m.call io op).1.emergencyStop = true := by
  apply (call_spec (latchInv_of_reach hm.reach) io op).2.2 hs
  rintro rfl
  rcases hop with h | ⟨left, right, h⟩ <;> cases h

/-- A module of a driven run, its bookkeeping not ahead of `last`. -/
structure Watched (last : Nat) (m : Motion) : Prop extends Driven m where
  past : Watchdog.Past stuckLimits last (watchdog m)
  count : (watchdog m).count ≤ stuckLimits.boosts

theorem Watched.clocked {last : Nat} {m : Motion} (hm : Watched last m) {now : UInt32}
    (hlast : last ≤ now.toNat) (h1 : 1 ≤ now.toNat) (h2 : now.toNat ≤ 2 ^ 32 - 451) :
    Clocked m now := by
  refine ⟨h1, h2, ?_, hm.count⟩
  by_cases h0 : m.stuckStartMs = 0
  · simp [h0]
  · have := hm.past.start _ (timeField_of_ne h0)
    omega

/-- What an update of a driven run is to the watchdog, as long as no stop is latched. -/
structure UpdateSpec (u : Motion × MotionIo) : Prop where
  /-- An update that ends without a stop is a reading. -/
  survives : (updated u).emergencyStop = false →
    Watchdog.step stuckLimits (watchdog u.1) (time u) (reading u.1 u.2) =
      some (watchdog (updated u))
  /-- One that latches 0xE3 makes the watchdog give up. -/
  gives_up : LatchesStall u →
    Watchdog.step stuckLimits (watchdog u.1) (time u) (reading u.1 u.2) = none
  /-- Undisturbed, the module latches 0xE3 where the watchdog gives up, with no boost in force. -/
  latches : Undisturbed u →
    Watchdog.step stuckLimits (watchdog u.1) (time u) (reading u.1 u.2) = none →
      LatchesStall u ∧ (updated u).boostUntilMs = 0
  /-- Undisturbed, it latches nothing else. -/
  unlatched : Undisturbed u → ∀ d,
    Watchdog.step stuckLimits (watchdog u.1) (time u) (reading u.1 u.2) = some d →
      (updated u).emergencyStop = false

theorem update_ready {m : Motion} {io : MotionIo} (hs : m.emergencyStop = false)
    (hclock : Clocked m io.now) (hi : m.initialized = true) (he : m.ensureInit io = (m, RT_EOK)) :
    UpdateSpec (m, io) := by
  have hcall : updated (m, io) = (m.serviceReady io false).1 :=
    congrArg Prod.fst (service_of_initialized hi io false)
  have hanswers := serviceReady_watchdog (m := m) io (r := reading m io) hs hclock
    (by unfold reading polled; rw [he])
  refine ⟨?_, ?_, ?_, ?_⟩
  · rw [hcall]
    exact hanswers.survives
  · rintro ⟨-, hstop, hreason⟩
    rw [hcall] at hstop hreason
    exact hanswers.gives_up hstop hreason
  · rintro ⟨-, hok, hno⟩ hstep
    simp only [he] at hno
    obtain ⟨hstop, hreason, hboost⟩ := hanswers.latches ⟨hno, hok⟩ hstep
    rw [← hcall] at hstop hreason hboost
    exact ⟨⟨hs, hstop, hreason⟩, hboost⟩
  · rintro ⟨-, hok, hno⟩ d hstep
    simp only [he] at hno
    rw [hcall]
    exact hanswers.unlatched ⟨hno, hok⟩ d hstep

/-- An update whose initialisation fails does nothing else. -/
theorem update_failed {m k : Motion} {io : MotionIo} (hd : Driven m) (hs : m.emergencyStop = false)
    (hi : m.initialized = false) (hks : k.emergencyStop = m.emergencyStop)
    (hdog : watchdog k = watchdog m) (hcall : updated (m, io) = k) : UpdateSpec (m, io) := by
  have hnot := not_stalled_of_uninit hi io
  have hstep : Watchdog.step stuckLimits (watchdog m) (time (m, io)) (reading m io) =
      some (watchdog k) := by
    rw [hdog, hd.dormant hi]
    cases hr : reading m io with
    | absent => rfl
    | moving => rfl
    | stuck => exact absurd ((hd.reading_stuck_iff io).mp hr) hnot
  refine ⟨?_, ?_, ?_, ?_⟩
  · intro _
    rw [hcall]
    exact hstep
  · rintro ⟨-, hstop, -⟩
    rw [hcall, hks, hs] at hstop
    cases hstop
  · rintro ⟨hstalled, -⟩
    exact absurd hstalled hnot
  · rintro ⟨hstalled, -⟩
    exact absurd hstalled hnot

/-- An update that initialises the module is not stalled. -/
theorem update_init {m k : Motion} {io : MotionIo} (hs : m.emergencyStop = false)
    (hclock : Clocked m io.now) (hi : m.initialized = false) (he : (m.ensureInit io).1 = k)
    (hdog : watchdog k = watchdog m)
    (hreason : k.emergencyStop = m.emergencyStop ∨ k.stopReason = 0xE1)
    (hcall : updated (m, io) = (k.serviceReady io false).1) : UpdateSpec (m, io) := by
  have hnot : ¬ Undisturbed (m, io) := fun h => not_stalled_of_uninit hi io h.1
  cases hstop : k.emergencyStop with
  | false =>
    have hanswers := serviceReady_watchdog (m := k) io (r := reading m io) hstop
      (hclock.of_watchdog hdog) (by unfold reading polled; rw [he])
    rw [hdog] at hanswers
    refine ⟨?_, ?_, fun h => absurd h hnot, fun h => absurd h hnot⟩
    · rw [hcall]
      exact hanswers.survives
    · rintro ⟨-, hstop, hr⟩
      rw [hcall] at hstop hr
      exact hanswers.gives_up hstop hr
  | true =>
    obtain ⟨h1, h2⟩ := serviceReady_stopped hstop io false
    have hE1 : k.stopReason = 0xE1 := by
      rcases hreason with h | h
      · have h' : m.emergencyStop = true := h.symm.trans hstop
        rw [hs] at h'
        cases h'
      · exact h
    refine ⟨?_, ?_, fun h => absurd h hnot, fun h => absurd h hnot⟩
    · intro hoff
      rw [hcall, h1] at hoff
      cases hoff
    · rintro ⟨-, -, hr⟩
      rw [hcall] at hr
      rw [hE1] at h2
      rcases h2 with h | h | h <;> rw [h] at hr <;> exact absurd hr (by decide)

theorem Watched.update {last : Nat} {u : Motion × MotionIo} (hm : Watched last u.1)
    (hs : u.1.emergencyStop = false) (hlast : last ≤ time u) (h1 : 1 ≤ time u)
    (h2 : time u ≤ 2 ^ 32 - 451) : UpdateSpec u := by
  obtain ⟨m, io⟩ := u
  have hclock := hm.clocked hlast h1 h2
  rcases ensureInit_cases m io with ⟨hi, he⟩ | ⟨hi, k, hks, -, -, -, ⟨-, r, hr, he⟩ | ⟨hk, -, -, -, he⟩⟩
  · exact update_ready hs hclock hi he
  · have hdog := (ensureInit_fresh hi io).1
    rw [he] at hdog
    exact update_failed hm.toDriven hs hi hks hdog (call_of_ensureInit_fail he hr .update)
  · obtain ⟨hdog, -, -, hreason⟩ := ensureInit_fresh hi io
    rw [he] at hdog hreason
    have hk' : (k.output io.initPwm io.cbResult 0 0).1.initialized = true := by simp [hk]
    refine update_init hs hclock hi (congrArg Prod.fst he) hdog hreason ?_
    rw [← service_of_initialized hk']
    exact congrArg Prod.fst (call_of_ensureInit_ok he hk' .update)

theorem Watched.survive {last : Nat} {u : Motion × MotionIo} (hm : Watched last u.1)
    (hs : u.1.emergencyStop = false) (hlast : last ≤ time u) (h1 : 1 ≤ time u)
    (h2 : time u ≤ 2 ^ 32 - 451) (hs' : (updated u).emergencyStop = false) :
    Watched (time u) (updated u) := by
  have hstep := (hm.update hs hlast h1 h2).survives hs'
  refine ⟨hm.toDriven.call u.2 (.inl rfl), ?_, ?_⟩
  · exact Watchdog.step_past hm.past hlast hstep
  · exact Watchdog.step_count_le hm.count hstep

/-! ## Runs -/

theorem next_update {m : Motion} {calls : List (Op × MotionIo)} {u : Motion × MotionIo}
    {us : List (Motion × MotionIo)} (hm : Driven m) (hdrive : ∀ c ∈ calls, Driving c.1)
    (h : updates m calls = u :: us) :
    Driven u.1 ∧ watchdog u.1 = watchdog m ∧
      (m.emergencyStop = true → u.1.emergencyStop = true) ∧
      (m.initialized = true → u.1.emergencyStop = m.emergencyStop) ∧
      ∃ calls', (∀ c ∈ calls', Driving c.1) ∧ updates (updated u) calls' = us := by
  induction calls generalizing m with
  | nil => cases h
  | cons c calls ih =>
    obtain ⟨op, io⟩ := c
    have hop : Driving op := hdrive (op, io) (by simp)
    have hrest : ∀ c ∈ calls, Driving c.1 := fun c hc => hdrive c (by simp [hc])
    by_cases hupdate : op = .update
    · subst hupdate
      simp only [updates, if_true, List.cons.injEq] at h
      obtain ⟨rfl, rfl⟩ := h
      exact ⟨hm, rfl, id, fun _ => rfl, calls, hrest, rfl⟩
    · simp only [updates, if_neg hupdate] at h
      obtain ⟨h1, h2, h3, h4, h5⟩ := ih (hm.call io hop) hrest h
      rcases hop with rfl | ⟨left, right, rfl⟩
      · exact absurd rfl hupdate
      · have hdog := (call_setTarget m io left right).1
        refine ⟨h1, ?_, ?_, ?_, h5⟩
        · rw [h2, hdog, (hm.ensureInit io).1]
        · intro hs
          exact h3 (hm.stays_stopped io (.inr ⟨left, right, rfl⟩) hs)
        · intro hi
          rw [h4 (call_initialized hi io _)]
          simp only [Motion.call, setTarget, ensureInit_of_initialized hi]
          split_ifs <;> rfl

theorem stopped_updates {m : Motion} {calls : List (Op × MotionIo)}
    {us : List (Motion × MotionIo)} (hm : Driven m) (hdrive : ∀ c ∈ calls, Driving c.1)
    (hs : m.emergencyStop = true) (h : updates m calls = us) :
    ∀ u ∈ us, Driven u.1 ∧ u.1.emergencyStop = true := by
  induction us generalizing m calls with
  | nil => simp
  | cons x us ih =>
    obtain ⟨h1, -, h3, -, calls', hdrive', hrest⟩ := next_update hm hdrive h
    have hx : x.1.emergencyStop = true := h3 hs
    intro u hu
    rcases List.mem_cons.mp hu with rfl | hu
    · exact ⟨h1, hx⟩
    · exact ih (h1.call x.2 (.inl rfl)) hdrive' (h1.stays_stopped x.2 (.inl rfl) hx) hrest u hu

/-- **The watchdog follows the run** up to any update that is called with no stop latched. -/
theorem follow {last : Nat} {m : Motion} {calls : List (Op × MotionIo)}
    {us vs : List (Motion × MotionIo)} {u : Motion × MotionIo} (hm : Watched last m)
    (hdrive : ∀ c ∈ calls, Driving c.1) (htimed : Timed last (us ++ u :: vs))
    (h : updates m calls = us ++ u :: vs) (hu : u.1.emergencyStop = false) :
    Watchdog.exec stuckLimits (watchdog m) (us.map observe) = some (watchdog u.1) ∧
      (∀ x ∈ us ++ [u], Driven x.1) ∧
      (∃ last', last' ≤ time u ∧ Watched last' u.1) ∧
      ∃ calls', (∀ c ∈ calls', Driving c.1) ∧ updates (updated u) calls' = vs := by
  induction us generalizing last m calls with
  | nil =>
    obtain ⟨h1, h2, -, -, h5⟩ := next_update hm.toDriven hdrive h
    refine ⟨congrArg some h2.symm, ?_, ⟨last, htimed.1, h1, ?_, ?_⟩, h5⟩
    · intro x hx
      rw [List.nil_append, List.mem_singleton] at hx
      rw [hx]
      exact h1
    · rw [h2]
      exact hm.past
    · rw [h2]
      exact hm.count
  | cons x us ih =>
    obtain ⟨h1, h2, -, -, calls', hdrive', hrest⟩ := next_update hm.toDriven hdrive h
    obtain ⟨ht1, ht2, ht3, ht4⟩ := htimed
    have hx : Watched last x.1 := by
      refine ⟨h1, ?_, ?_⟩
      · rw [h2]
        exact hm.past
      · rw [h2]
        exact hm.count
    have hx' : (updated x).emergencyStop = false := by
      by_contra hstop
      have := (stopped_updates (h1.call x.2 (.inl rfl)) hdrive'
        (by simpa [updated] using hstop) hrest u (by simp)).2
      rw [hu] at this
      cases this
    have hxs : x.1.emergencyStop = false := by
      by_contra hstop
      have := h1.stays_stopped x.2 (.inl rfl) (by simpa using hstop)
      rw [show (x.1.call x.2 .update).1 = updated x from rfl, hx'] at this
      cases this
    obtain ⟨hexec, hdriven, hlast⟩ := ih (hx.survive hxs ht1 ht2 ht3 hx') hdrive' ht4 hrest
    refine ⟨?_, ?_, hlast⟩
    · rw [List.map_cons, Watchdog.exec, ← h2]
      have hstep := (hx.update hxs ht1 ht2 ht3).survives hx'
      rw [show Watchdog.step stuckLimits (watchdog x.1) (observe x).1 (observe x).2 =
        some (watchdog (updated x)) from hstep, Option.bind_some]
      exact hexec
    · intro y hy
      rw [List.cons_append, List.mem_cons] at hy
      rcases hy with rfl | hy
      · exact h1
      · exact hdriven y hy

/-- Consecutive updates are at most `g` milliseconds apart, the first one at most `g` after `last`. -/
def Spaced (g last : Nat) : List (Motion × MotionIo) → Prop
  | [] => True
  | u :: us => time u ≤ last + g ∧ Spaced g (time u) us

/-- A stretch of stalled updates: as long as no stop is latched each is undisturbed. -/
def Stretch (us : List (Motion × MotionIo)) : Prop :=
  ∀ u ∈ us, u.1.emergencyStop = false → Undisturbed u

theorem Stretch.tail {u : Motion × MotionIo} {us : List (Motion × MotionIo)}
    (h : Stretch (u :: us)) : Stretch us :=
  fun x hx => h x (by simp [hx])

/-- What the first update of a stretch does, and the rest of the stretch after it. -/
theorem Watched.next {last : Nat} {m : Motion} {calls : List (Op × MotionIo)}
    {u : Motion × MotionIo} {us : List (Motion × MotionIo)} (hm : Watched last m)
    (hi : m.initialized = true) (hs : m.emergencyStop = false)
    (hdrive : ∀ c ∈ calls, Driving c.1) (h : updates m calls = u :: us) :
    Watched last u.1 ∧ u.1.emergencyStop = false ∧ watchdog u.1 = watchdog m ∧
      ∃ calls', (∀ c ∈ calls', Driving c.1) ∧ updates (updated u) calls' = us := by
  obtain ⟨h1, h2, -, h4, h5⟩ := next_update hm.toDriven hdrive h
  refine ⟨⟨h1, ?_, ?_⟩, (h4 hi).trans hs, h2, h5⟩
  · rw [h2]
    exact hm.past
  · rw [h2]
    exact hm.count

theorem Undisturbed.initialized {u : Motion × MotionIo} (h : Undisturbed u) :
    u.1.initialized = true := by
  by_contra hi
  exact not_stalled_of_uninit (by simpa using hi) u.2 h.1

theorem Stretch.pressed {g last : Nat} {m : Motion} {calls : List (Op × MotionIo)}
    {win vs : List (Motion × MotionIo)} (hm : Watched last m) (hi : m.initialized = true)
    (hs : m.emergencyStop = false) (hdrive : ∀ c ∈ calls, Driving c.1)
    (h : updates m calls = win ++ vs) (htimed : Timed last win) (hspaced : Spaced g last win)
    (hstretch : Stretch win) :
    Watchdog.Pressed stuckLimits g last (watchdog m) (win.map observe) := by
  induction win generalizing last m calls with
  | nil => trivial
  | cons u win ih =>
    obtain ⟨hw, hsu, hdog, calls', hdrive', hrest⟩ := hm.next hi hs hdrive h
    obtain ⟨ht1, ht2, ht3, ht4⟩ := htimed
    have hquiet := hstretch u (by simp) hsu
    refine ⟨(hw.reading_stuck_iff u.2).mpr hquiet.1, ht1, hspaced.1, ?_⟩
    intro d hstep
    rw [← hdog] at hstep
    have hspec := hw.update hsu ht1 ht2 ht3
    have hs' := hspec.unlatched hquiet d hstep
    have hd : some d = some (watchdog (updated u)) := hstep.symm.trans (hspec.survives hs')
    cases hd
    exact ih (hw.survive hsu ht1 ht2 ht3 hs') (call_initialized hquiet.initialized u.2 .update) hs'
      hdrive' hrest ht4 hspaced.2 hstretch.tail

theorem Stretch.latches {last bound : Nat} {m : Motion} {calls : List (Op × MotionIo)}
    {win vs : List (Motion × MotionIo)} (hm : Watched last m) (hi : m.initialized = true)
    (hs : m.emergencyStop = false) (hdrive : ∀ c ∈ calls, Driving c.1)
    (h : updates m calls = win ++ vs) (htimed : Timed last win) (hstretch : Stretch win)
    (hfires : Watchdog.Fires stuckLimits bound (watchdog m) (win.map observe)) :
    ∃ u ∈ win, LatchesStall u ∧ time u < bound := by
  induction win generalizing last m calls with
  | nil =>
    obtain ⟨before, o, after, t, heq, -⟩ := hfires
    simp at heq
  | cons u win ih =>
    obtain ⟨hw, hsu, hdog, calls', hdrive', hrest⟩ := hm.next hi hs hdrive h
    obtain ⟨ht1, ht2, ht3, ht4⟩ := htimed
    have hquiet := hstretch u (by simp) hsu
    have hspec := hw.update hsu ht1 ht2 ht3
    obtain ⟨before, o, after, t, heq, hexec, hfault, hlt⟩ := hfires
    rw [← hdog] at hexec
    cases before with
    | nil =>
      cases hexec
      rw [List.map_cons, List.nil_append, List.cons.injEq] at heq
      obtain ⟨rfl, -⟩ := heq
      exact ⟨u, by simp, (hspec.latches hquiet hfault).1, hlt⟩
    | cons o' before =>
      rw [List.map_cons, List.cons_append, List.cons.injEq] at heq
      obtain ⟨rfl, heq⟩ := heq
      obtain ⟨d, hstep, hexec'⟩ := Option.bind_eq_some_iff.mp hexec
      have hs' := hspec.unlatched hquiet d hstep
      have hd : some d = some (watchdog (updated u)) := hstep.symm.trans (hspec.survives hs')
      cases hd
      obtain ⟨x, hx, hlatch, hbound⟩ := ih (hw.survive hsu ht1 ht2 ht3 hs')
        (call_initialized hquiet.initialized u.2 .update) hs' hdrive' hrest ht4 hstretch.tail
        ⟨before, o, after, t, heq, hexec', hfault, hlt⟩
      exact ⟨x, by simp [hx], hlatch, hbound⟩

theorem startsBoost_stopped {u : Motion × MotionIo} (hm : Driven u.1)
    (hs : u.1.emergencyStop = true) : startsBoost u = false := by
  obtain ⟨m, io⟩ := u
  have hi : m.initialized = true := (latchInv_of_reach hm.reach).stopped hs
  have hcall : updated (m, io) = (m.serviceReady io false).1 :=
    congrArg Prod.fst (service_of_initialized hi io false)
  unfold startsBoost
  rw [Bool.and_eq_false_iff]
  by_cases hb : m.boostUntilMs = 0
  · right
    have hnone : (watchdog (m.serviceReady io false).1).boost = none := by
      have hpoll := pollActualSpeed_cases m io
      have hdog := pollActualSpeed_watchdog m io
      unfold serviceReady
      generalize m.pollActualSpeed io = poll at hpoll hdog ⊢
      obtain ⟨p, r⟩ := poll
      simp only at hpoll hdog ⊢
      rcases hpoll with ⟨rfl, hk⟩ | ⟨rfl, hk⟩
      · rw [if_neg (not_not.mpr rfl), if_pos (hk.emergencyStop.trans hs), output_watchdog]
        rfl
      · rw [if_pos (by decide), output_watchdog, hdog]
        simp only [watchdog, hb, timeField_zero]
    rw [hcall]
    have hzero : (m.serviceReady io false).1.boostUntilMs = 0 := timeField_eq_none.mp hnone
    rw [hzero]
    rfl
  · left
    simpa using hb

theorem Stretch.boosts {last : Nat} {m : Motion} {calls : List (Op × MotionIo)}
    {win vs : List (Motion × MotionIo)} (hm : Watched last m) (hi : m.initialized = true)
    (hs : m.emergencyStop = false) (hdrive : ∀ c ∈ calls, Driving c.1)
    (h : updates m calls = win ++ vs) (htimed : Timed last win) (hstretch : Stretch win) :
    (watchdog m).count + win.countP startsBoost ≤ stuckLimits.boosts := by
  induction win generalizing last m calls with
  | nil => exact hm.count
  | cons u win ih =>
    obtain ⟨hw, hsu, hdog, calls', hdrive', hrest⟩ := hm.next hi hs hdrive h
    obtain ⟨ht1, ht2, ht3, ht4⟩ := htimed
    have hquiet := hstretch u (by simp) hsu
    have hspec := hw.update hsu ht1 ht2 ht3
    have hstuck := (hw.reading_stuck_iff u.2).mpr hquiet.1
    cases hstep : Watchdog.step stuckLimits (watchdog u.1) (time u) (reading u.1 u.2) with
    | some d =>
      have hs' := hspec.unlatched hquiet d hstep
      have hd := hspec.survives hs'
      rw [hstep, Option.some.injEq] at hd
      have hih := ih (hw.survive hsu ht1 ht2 ht3 hs')
        (call_initialized hquiet.initialized u.2 .update) hs' hdrive' hrest ht4 hstretch.tail
      rw [hstuck] at hstep
      obtain ⟨hcount, -⟩ := Watchdog.step_count hw.count hstep
      have hstart : startsBoost u = true ↔ (watchdog u.1).boost = none ∧ d.boost ≠ none := by
        rw [hd]
        simp only [startsBoost, watchdog, Bool.and_eq_true, beq_iff_eq, bne_iff_ne, ne_eq,
          timeField_eq_none]
      rw [← hd] at hih
      rw [List.countP_cons, ← hdog]
      by_cases hb : startsBoost u = true
      · rw [if_pos hb]
        rw [if_pos (hstart.mp hb)] at hcount
        omega
      · rw [if_neg hb]
        rw [if_neg (fun hc => hb (hstart.mpr hc))] at hcount
        omega
    | none =>
      -- 0xE3 is latched here, and no later update starts a boost
      obtain ⟨⟨-, hstop, -⟩, hboost⟩ := hspec.latches hquiet hstep
      have hlater := stopped_updates (hw.toDriven.call u.2 (.inl rfl)) hdrive' hstop hrest
      have hnone : ∀ x ∈ u :: win, ¬ startsBoost x = true := by
        intro x hx
        rcases List.mem_cons.mp hx with rfl | hx
        · simp [startsBoost, hboost]
        · obtain ⟨hdriven, hstopped⟩ := hlater x (List.mem_append_left vs hx)
          simp [startsBoost_stopped hdriven hstopped]
      rw [List.countP_eq_zero.mpr hnone]
      exact hm.count

/-! ## Soundness and completeness -/

theorem dormant_of_reach {m : Motion} (h : machine.Reach Machine.free m)
    (hi : m.initialized = false) : watchdog m = {} := by
  refine h.inv (P := fun m => m.initialized = false → watchdog m = {}) ?_ ?_ hi
  · rintro _ ⟨pins, rfl⟩ _
    rfl
  · intro s i t _ hs _ hstep hi
    obtain rfl : (s.call i.2 i.1).1 = t := by simpa [machine] using hstep
    rcases ensureInit_cases s i.2 with ⟨h, -⟩ | ⟨h, k, -, -, -, -, ⟨-, r, hr, he⟩ | ⟨hk, -, -, -, he⟩⟩
    · rw [call_initialized h] at hi
      cases hi
    · have hdog := (ensureInit_fresh h i.2).1
      rw [he] at hdog
      rw [call_of_ensureInit_fail he hr]
      exact hdog.trans (hs h)
    · have hk' : (k.output i.2.initPwm i.2.cbResult 0 0).1.initialized = true := by simp [hk]
      rw [call_of_ensureInit_ok he hk', call_initialized hk'] at hi
      cases hi

theorem reset_watched {m : Motion} (h : machine.Reach Machine.free m) (io : MotionIo) :
    Watched 0 (m.reset io) ∧ watchdog (m.reset io) = {} := by
  have hreach : machine.Reach Machine.free (m.reset io) := reach_call h io .reset
  have hmain : watchdog (m.reset io) = {} ∧ Measured (m.reset io) := by
    unfold reset
    by_cases hr : (m.ensureInit io).2 = RT_EOK
    · simp only [hr, ne_eq, not_true_eq_false, if_false]
      refine ⟨by rw [output_watchdog]; rfl, ?_⟩
      refine output_measured ?_ io.pwm io.cbResult 0 0
      exact ⟨plausible_zero, plausible_zero⟩
    · have hi : m.initialized = false := by
        by_contra hi
        exact hr (by simp [ensureInit_of_initialized (by simpa using hi) io])
      obtain ⟨h1, -, h3, -⟩ := ensureInit_fresh hi io
      simp only [ne_eq, hr, not_false_eq_true, if_true]
      exact ⟨h1.trans (dormant_of_reach h hi), h3⟩
  obtain ⟨hdog, hmeasured⟩ := hmain
  refine ⟨⟨⟨hreach, hmeasured, fun _ => hdog⟩, ?_, ?_⟩, hdog⟩
  · rw [hdog]
    constructor <;> intro _ hnone <;> cases hnone
  · rw [hdog]
    exact Nat.zero_le _

/-- A run that begins with a reset, no stop being latched, and goes on with targets and with updates
at times that never go back, the first after 0 and all so that a boost ends before the wrap. -/
structure DrivenRun (m₀ : Motion) (io₀ : MotionIo) (calls : List (Op × MotionIo)) : Prop where
  reach : machine.Reach Machine.free m₀
  free : (m₀.reset io₀).emergencyStop = false
  driving : ∀ c ∈ calls, Driving c.1
  ordered : (updates (m₀.reset io₀) calls).Pairwise fun a b => time a ≤ time b
  times : ∀ u ∈ updates (m₀.reset io₀) calls, 1 ≤ time u ∧ time u ≤ 2 ^ 32 - 451

theorem timed_of_pairwise {last : Nat} {us : List (Motion × MotionIo)}
    (hordered : us.Pairwise fun a b => time a ≤ time b)
    (htimes : ∀ u ∈ us, 1 ≤ time u ∧ time u ≤ 2 ^ 32 - 451) (hlast : ∀ u ∈ us, last ≤ time u) :
    Timed last us := by
  induction us generalizing last with
  | nil => trivial
  | cons u us ih =>
    obtain ⟨hu, hus⟩ := List.pairwise_cons.mp hordered
    obtain ⟨h1, h2⟩ := htimes u (by simp)
    exact ⟨hlast u (by simp), h1, h2, ih hus (fun x hx => htimes x (by simp [hx])) hu⟩

theorem Timed.right {last : Nat} {us vs : List (Motion × MotionIo)} {u : Motion × MotionIo}
    (h : Timed last (us ++ u :: vs)) : 1 ≤ time u ∧ time u ≤ 2 ^ 32 - 451 ∧ Timed (time u) vs := by
  induction us generalizing last with
  | nil => exact h.2
  | cons x us ih => exact ih h.2.2.2

theorem spaced_of_isChain {g : Nat} {u : Motion × MotionIo} {us : List (Motion × MotionIo)}
    (h : (u :: us).IsChain fun a b => time b ≤ time a + g) : Spaced g (time u) us := by
  induction us generalizing u with
  | nil => trivial
  | cons x us ih =>
    obtain ⟨h1, h2⟩ := List.isChain_cons_cons.mp h
    exact ⟨h1, ih h2⟩

theorem Stretch.deadline {g last : Nat} {f : Motion × MotionIo} {calls : List (Op × MotionIo)}
    {win vs : List (Motion × MotionIo)} (hw : Watched last f.1) (hs : f.1.emergencyStop = false)
    (hdrive : ∀ c ∈ calls, Driving c.1) (h : updates (updated f) calls = win ++ vs)
    (htimed : Timed last (f :: win)) (hspaced : Spaced g (time f) win)
    (hstretch : Stretch (f :: win))
    (hlong : ∃ x ∈ f :: win, time f + (2010 + 10 * g) ≤ time x) :
    ∃ x ∈ f :: win, LatchesStall x ∧ time x ≤ time f + (2010 + 10 * g) := by
  obtain ⟨ht1, ht2, ht3, ht4⟩ := htimed
  have hquiet := hstretch f (by simp) hs
  have hspec := hw.update hs ht1 ht2 ht3
  have hround : (stuckLimits.boosts + 1) * stuckLimits.round g = 2010 + 9 * g := by
    simp only [stuckLimits_boosts, Watchdog.Limits.round, stuckLimits_trigger, stuckLimits_hold]
    omega
  have hfires : Watchdog.Fires stuckLimits
      (time f + (stuckLimits.boosts + 1) * stuckLimits.round g + g) (watchdog f.1)
      (observe f :: win.map observe) := by
    apply Watchdog.pressed_fires (by decide) (by decide) hw.past ht1
      ((hw.reading_stuck_iff f.2).mpr hquiet.1)
    · intro d hstep
      have hs' := hspec.unlatched hquiet d hstep
      have hd : some d = some (watchdog (updated f)) := hstep.symm.trans (hspec.survives hs')
      cases hd
      exact Stretch.pressed (hw.survive hs ht1 ht2 ht3 hs')
        (call_initialized hquiet.initialized f.2 .update) hs' hdrive h ht4 hspaced hstretch.tail
    · obtain ⟨x, hx, hle⟩ := hlong
      refine ⟨observe x, List.mem_map_of_mem (f := observe) hx, ?_⟩
      rw [hround]
      simp only [observe]
      omega
  have hupdates : updates f.1 ((.update, f.2) :: calls) = f :: win ++ vs := by
    simp only [updates, if_true]
    exact congrArg (f :: ·) h
  have hdrive' : ∀ c ∈ (Op.update, f.2) :: calls, Driving c.1 := by
    intro c hc
    rcases List.mem_cons.mp hc with rfl | hc
    · exact .inl rfl
    · exact hdrive c hc
  obtain ⟨x, hx, hlatch, hlt⟩ := Stretch.latches hw hquiet.initialized hs hdrive' hupdates
    ⟨ht1, ht2, ht3, ht4⟩ hstretch hfires
  refine ⟨x, hx, hlatch, ?_⟩
  rw [hround] at hlt
  omega

/-- **Stall detection is sound and complete.** In every run that begins with a reset and goes on with
any targets and with updates at times that never go back, whatever the encoders read: an update that
latches 0xE3 ends a window of at least 1560 ms in which every update was stalled; and a stretch of
updates at most `g` ms apart, stalled and without a PWM or encoder fault as long as no stop is latched,
starts at most two boosts and, if it lasts `2010 + 10 * g` ms, latches 0xE3 within that time. -/
theorem stall_detection {m₀ : Motion} {io₀ : MotionIo} {calls : List (Op × MotionIo)}
    (h : DrivenRun m₀ io₀ calls) :
    (∀ us u vs, updates (m₀.reset io₀) calls = us ++ u :: vs → LatchesStall u →
      ∃ pre w win, us ++ [u] = pre ++ w :: win ∧ (∀ x ∈ w :: win, Stalled x.1 x.2) ∧
        time w + 1560 ≤ time u) ∧
    (∀ g us f win vs, updates (m₀.reset io₀) calls = us ++ f :: (win ++ vs) →
      f.1.emergencyStop = false → Stretch (f :: win) →
      (f :: win).IsChain (fun a b => time b ≤ time a + g) →
      (f :: win).countP startsBoost ≤ 2 ∧
        ((∃ x ∈ f :: win, time f + (2010 + 10 * g) ≤ time x) →
          ∃ x ∈ f :: win, LatchesStall x ∧ time x ≤ time f + (2010 + 10 * g))) := by
  obtain ⟨hwatched, hdog⟩ := reset_watched h.reach io₀
  have htimed : Timed 0 (updates (m₀.reset io₀) calls) :=
    timed_of_pairwise h.ordered h.times fun _ _ => Nat.zero_le _
  constructor
  · intro us u vs heq hlatch
    rw [heq] at htimed
    obtain ⟨hexec, hdriven, ⟨last, hlast, hu⟩, -⟩ :=
      follow hwatched h.driving htimed heq hlatch.1
    obtain ⟨h1, h2, -⟩ := htimed.right
    have hfault := (hu.update hlatch.1 hlast h1 h2).gives_up hlatch
    have hordered : Watchdog.Ordered 0 (us.map observe ++ [observe u]) := by
      have hleft : Timed 0 (us ++ [u]) := by
        rw [show us ++ u :: vs = (us ++ [u]) ++ vs by simp] at htimed
        exact htimed.left
      have := hleft.ordered
      rwa [List.map_append] at this
    rw [hdog] at hexec
    obtain ⟨pre, win, w, hwin, hall, hlong⟩ :=
      Watchdog.fault_window ⟨rfl, rfl⟩ hordered hexec hfault
    have hmap : (us ++ [u]).map observe = pre ++ w :: win := by
      rw [List.map_append]
      exact hwin
    obtain ⟨pre', rest, hsplit, -, hrest⟩ := List.map_eq_append_iff.mp hmap
    obtain ⟨w', win', rfl, rfl, rfl⟩ := List.map_eq_cons_iff.mp hrest
    refine ⟨pre', w', win', hsplit, ?_, hlong⟩
    intro x hx
    have hmem : x ∈ us ++ [u] := by
      rw [hsplit]
      exact List.mem_append_right pre' hx
    exact ((hdriven x hmem).reading_stuck_iff x.2).mp
      (hall (observe x) (List.mem_map_of_mem (f := observe) hx))
  · intro g us f win vs heq hs hstretch hgaps
    rw [heq] at htimed
    obtain ⟨-, -, ⟨last, hlast, hf⟩, calls', hdrive', hrest⟩ :=
      follow hwatched h.driving htimed heq hs
    obtain ⟨h1, h2, h3⟩ := htimed.right
    have htimed' : Timed last (f :: win) := ⟨hlast, h1, h2, h3.left⟩
    have hquiet := hstretch f (by simp) hs
    constructor
    · have hupdates : updates f.1 ((.update, f.2) :: calls') = f :: win ++ vs := by
        simp only [updates, if_true]
        exact congrArg (f :: ·) hrest
      have hdrive'' : ∀ c ∈ (Op.update, f.2) :: calls', Driving c.1 := by
        intro c hc
        rcases List.mem_cons.mp hc with rfl | hc
        · exact .inl rfl
        · exact hdrive' c hc
      have := Stretch.boosts hf hquiet.initialized hs hdrive'' hupdates htimed' hstretch
      rw [stuckLimits_boosts] at this
      omega
    · intro hlong
      exact Stretch.deadline hf hs hdrive' hrest htimed' (spaced_of_isChain hgaps) hstretch hlong

instance (m : Motion) (io : MotionIo) : Decidable (EncoderFault m io) :=
  inferInstanceAs (Decidable (_ ∧ _))

instance (u : Motion × MotionIo) : Decidable (Undisturbed u) :=
  inferInstanceAs (Decidable (_ ∧ _))

instance (us : List (Motion × MotionIo)) : Decidable (Stretch us) :=
  inferInstanceAs (Decidable (∀ u ∈ us, u.1.emergencyStop = false → Undisturbed u))

/-- Both wheels are asked for 100 and blocked; an update every 200 ms. -/
def blockedCalls : List (Op × MotionIo) :=
  (.setTarget 100 100, {}) :: (List.range 25).map fun i =>
    (.update, { now := UInt32.ofNat (1 + 200 * i), leftCount := some 0, rightCount := some 0 })

theorem blockedCalls_driven : DrivenRun (boot safePins) {} blockedCalls := by
  refine ⟨.base ⟨_, rfl⟩, by decide, ?_, by decide +kernel, by decide +kernel⟩
  intro c hc
  rcases List.mem_cons.mp hc with rfl | hc
  · exact .inr ⟨100, 100, rfl⟩
  · obtain ⟨i, -, rfl⟩ := List.mem_map.mp hc
    exact .inl rfl

/-- From its third update on, at 401 ms, the run is stalled; 0xE3 is latched within 4010 ms. -/
theorem stall_detection_blocked :
    ∃ x ∈ (updates ((boot safePins).reset {}) blockedCalls).drop 2,
      LatchesStall x ∧ time x ≤ 401 + (2010 + 10 * 200) := by
  have htime : ((updates ((boot safePins).reset {}) blockedCalls).drop 2).head?.map time =
      some 401 := by decide +kernel
  have hfree : (((updates ((boot safePins).reset {}) blockedCalls).drop 2).head?.map
      fun u => u.1.emergencyStop) = some false := by decide +kernel
  have hstretch : Stretch ((updates ((boot safePins).reset {}) blockedCalls).drop 2) := by
    decide +kernel
  have hgaps : ((updates ((boot safePins).reset {}) blockedCalls).drop 2).IsChain
      fun a b => time b ≤ time a + 200 := by decide +kernel
  have hlong : ∃ x ∈ (updates ((boot safePins).reset {}) blockedCalls).drop 2,
      401 + (2010 + 10 * 200) ≤ time x := by decide +kernel
  have hsplit := List.take_append_drop 2 (updates ((boot safePins).reset {}) blockedCalls)
  cases hdrop : (updates ((boot safePins).reset {}) blockedCalls).drop 2 with
  | nil =>
    rw [hdrop] at htime
    cases htime
  | cons f win =>
    rw [hdrop] at htime hfree hstretch hgaps hlong hsplit
    have hf : time f = 401 := Option.some.inj htime
    rw [← hf] at hlong ⊢
    exact ((stall_detection blockedCalls_driven).2 200 _ f win []
      (by rw [List.append_nil]; exact hsplit.symm) (Option.some.inj hfree) hstretch hgaps).2 hlong

end Hcics.Motion
