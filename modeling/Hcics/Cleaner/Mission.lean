import Hcics.Cleaner.Aim
import Hcics.Cleaner.Phases
import Hcics.Cleaner.Servo

/-!
# Missions

`Course` is what a mission does, cycle by cycle, with the place it is in. Every procedure but
`hcics_cleaner_run_mission` and `hcics_cleaner_run_once` leaves it alone; what is needed of them is
that a failure is no success, and that a retract that succeeds leaves the relay off and Z retracted,
whatever phase failed before it.
-/

namespace Hcics.Gimbal

open Cleaner Polling

/-! ## What the procedures return -/

/-- A result that is an error has a code that is one. -/
def FailsAsError {α : Type} (result : Except RtErr α) : Prop :=
  ∀ code, result = .error code → code ≠ RT_EOK

theorem waitStain_result : Proc.Spec (fun _ => True) waitStain (fun _ => True)
    fun result _ => FailsAsError result := by
  apply Proc.Spec.bind (Q := fun _ _ => True) (.act (fun _ h => h) fun _ _ h => h)
  intro start
  apply Proc.Spec.poll (fun _ => True)
  · exact fun _ h => h
  · exact fun _ _ => trivial
  · exact fun _ _ _ _ _ => trivial
  · rintro s l t result - hround code rfl
    have hround := congrArg Prod.snd hround
    simp only [beside, waitStainRound] at hround
    split_ifs at hround <;> cases hround <;> decide

theorem aimRound_result {start : Tick} {s t : Gimbal × UInt8} {l : Look}
    {result : Except RtErr CleanerTarget} (h : aimRound start s l = (t, some result)) :
    FailsAsError result := by
  rintro code rfl
  have hcase := aimRound_case start s l
  rw [h] at hcase
  generalize hr : (t, some (Except.error (α := CleanerTarget) code)) = r at hcase
  cases hcase with
  | failed _ _ _ herror | broken _ herror =>
    cases hr
    exact herror
  | unseen result herror | away _ result herror | counted _ result herror =>
    cases result with
    | none => cases hr
    | some code' =>
      cases hr
      exact fun h => herror (congrArg some h)
  | locked => cases hr

theorem aim_result : Proc.Spec (fun _ => True) aim (fun _ => True)
    fun result _ => FailsAsError result := by
  apply Proc.Spec.bind (Q := fun _ _ => True) (.act (fun _ h => h) fun _ _ h => h)
  intro start
  apply Proc.Spec.poll (fun _ => True)
  · exact fun _ h => h
  · exact fun _ _ => trivial
  · exact fun _ _ _ _ _ => trivial
  · intro s l t result _ hround
    exact aimRound_result hround

/-- The relay is off and Z retracted, as recorded. -/
def Retracted (g : Gimbal) : Prop := g.relayOn = false ∧ g.zPulseNs = g.config.zRetractNs

/-- While a retract ramps, the relay is off, and the record is the pulse the ramp is at. -/
def Ramping (s : Gimbal × UInt32) : Prop :=
  s.1.relayOn = false ∧ (s.1.zPulseNs = s.2 ∨
    s.1.zPulseNs = clampU32 s.2 s.1.config.zExtendNs s.1.config.zRetractNs)

theorem clamp_retract (config : SaneConfig) :
    clampU32 config.zRetractNs config.zExtendNs config.zRetractNs = config.zRetractNs :=
  clampU32_of_mem ⟨UInt32.le_trans config.zWash_mem.1 config.zWash_mem.2, UInt32.le_refl _⟩

theorem ramping_rampRound {s t : Gimbal × UInt32} {l : Look} {result : Option RtErr}
    (h : Ramping s) (hround : rampRound s l = (t, result)) :
    Ramping t ∧ (result = some RT_EOK → Retracted t.1) := by
  obtain ⟨g, zNs⟩ := s
  by_cases hz : zNs = g.config.zRetractNs
  · rw [rampRound_done hz, Prod.mk.injEq] at hround
    obtain ⟨rfl, -⟩ := hround
    refine ⟨h, fun _ => ⟨h.1, ?_⟩⟩
    rcases h.2 with hpulse | hpulse
    · exact hpulse.trans hz
    · rw [hpulse]
      subst hz
      exact clamp_retract g.config
  · rw [rampRound_step hz, Prod.mk.injEq] at hround
    obtain ⟨rfl, hresult⟩ := hround
    refine ⟨⟨h.1, .inr rfl⟩, ?_⟩
    rintro rfl
    split at hresult
    · rename_i hfailed
      exact absurd (Option.some.inj hresult) hfailed
    · simp at hresult

/-- **A retract that succeeds has retracted**, whatever was on before it. -/
theorem retract_retracted : Proc.Spec (fun _ => True) retract (fun _ => True)
    fun result g => result = RT_EOK → Retracted g := by
  apply retract_spec Ramping
  · exact fun _ _ => ⟨rfl, .inl rfl⟩
  · exact fun s l t h hround => (ramping_rampRound h hround).1
  · exact fun s l t h hround => (ramping_rampRound h hround).2 rfl

/-! ## The course of a mission -/

inductive Phase where
  /-- Before a cycle. -/
  | ready
  /-- In a cycle, from its AIMING on. -/
  | cycle
  /-- `hcics_cleaner_verify_clear` has ended the cycle with this. -/
  | verified (result : RtErr)
  /-- `hcics_cleaner_run_once` has returned this. -/
  | ran (result : RtErr)
  /-- The retract after it has returned this. -/
  | retracted (result : RtErr)

/-- The histories of a mission that has entered its `n`th cycle, with Z at `zNs` at every entry. -/
inductive Course (zNs : UInt32) : Phase → Nat → List MissionEvent → Prop where
  | start : Course zNs .ready 0 []
  | enter {n : Nat} {events : List MissionEvent} (h : Course zNs .ready n events) :
      Course zNs .cycle (n + 1) (.aiming false zNs :: events)
  | verify {n : Nat} {events : List MissionEvent} (result : RtErr) (h : Course zNs .cycle n events) :
      Course zNs (.verified result) n (.verified result :: events)
  /-- A phase before the verification fails. -/
  | fail {n : Nat} {events : List MissionEvent} {result : RtErr} (failed : result ≠ RT_EOK)
      (h : Course zNs .cycle n events) : Course zNs (.ran result) n (.ran result :: events)
  | run {n : Nat} {events : List MissionEvent} {result : RtErr}
      (h : Course zNs (.verified result) n events) :
      Course zNs (.ran result) n (.ran result :: events)
  | retract {n : Nat} {events : List MissionEvent} {result : RtErr} (result' : RtErr)
      (failed : result ≠ RT_EOK) (uninterrupted : result ≠ -RT_EINTR)
      (h : Course zNs (.ran result) n events) :
      Course zNs (.retracted result') n (.retracted result' :: events)
  | again {n : Nat} {events : List MissionEvent} (h : Course zNs (.retracted RT_EOK) n events) :
      Course zNs .ready n events

def isEntry : MissionEvent → Bool
  | .aiming _ _ => true
  | _ => false

def cycles (events : List MissionEvent) : Nat := events.countP isEntry

/-- What happened since the last entry into AIMING. -/
def lastCycle (events : List MissionEvent) : List MissionEvent :=
  events.takeWhile fun event => !isEntry event

/-- The verification of the last cycle found the surface clear. -/
def VerifiedClear (events : List MissionEvent) : Prop := .verified RT_EOK ∈ lastCycle events

/-- A cycle may begin: it is the first one, or the one before it failed, was not interrupted, and the
retract after it has succeeded. -/
def MayBegin (events : List MissionEvent) : Prop :=
  events = [] ∨ ∃ result older, events = .retracted RT_EOK :: .ran result :: older ∧
    result ≠ RT_EOK ∧ result ≠ -RT_EINTR

namespace Course

variable {zNs : UInt32} {phase : Phase} {n : Nat} {events : List MissionEvent}

theorem cycles_eq (h : Course zNs phase n events) : cycles events = n := by
  induction h with
  | start => rfl
  | enter _ ih =>
    rw [cycles, List.countP_cons_of_pos (by rfl)]
    exact congrArg (· + 1) ih
  | verify _ _ ih | fail _ _ ih | run _ ih | retract _ _ _ _ ih =>
    rw [cycles, List.countP_cons_of_neg (by simp [isEntry])]
    exact ih
  | again _ ih => exact ih

theorem verifiedClear_iff (h : Course zNs phase n events) :
    VerifiedClear events ↔ phase = .verified RT_EOK ∨ phase = .ran RT_EOK := by
  have hcons : ∀ (event : MissionEvent) (events : List MissionEvent), isEntry event = false →
      (VerifiedClear (event :: events) ↔ event = .verified RT_EOK ∨ VerifiedClear events) := by
    intro event events hevent
    simp only [VerifiedClear, lastCycle, List.takeWhile_cons, hevent, Bool.not_false, if_true,
      List.mem_cons, eq_comm]
  induction h with
  | start => simp [VerifiedClear, lastCycle]
  | enter => simp [VerifiedClear, lastCycle, isEntry]
  | verify _ _ ih =>
    apply (hcons _ _ rfl).trans
    simp [ih]
  | fail failed _ ih =>
    apply (hcons _ _ rfl).trans
    simp [ih, failed]
  | run _ ih =>
    apply (hcons _ _ rfl).trans
    simp [ih]
  | retract _ failed _ _ ih =>
    apply (hcons _ _ rfl).trans
    simp [ih, failed]
  | again _ ih => simpa using ih

theorem interrupted_mem (h : Course zNs phase n events) (hmem : .ran (-RT_EINTR) ∈ events) :
    phase = .ran (-RT_EINTR) := by
  induction h with
  | start => simp at hmem
  | enter _ ih | verify _ _ ih => simpa using ih (by simpa using hmem)
  | fail _ _ ih | run _ ih =>
    rcases List.mem_cons.mp hmem with heq | hmem
    · injection heq with heq
      rw [heq]
    · simpa using ih hmem
  | retract _ _ uninterrupted _ ih =>
    injection ih (by simpa using hmem) with heq
    exact absurd heq uninterrupted
  | again _ ih => simpa using ih hmem

theorem interrupted_last (h : Course zNs phase n events) : .ran (-RT_EINTR) ∉ events.tail := by
  induction h with
  | start => simp
  | enter h | verify _ h | fail _ h | run h =>
    intro hmem
    simpa using h.interrupted_mem hmem
  | retract _ _ uninterrupted h =>
    intro hmem
    injection h.interrupted_mem hmem with heq
    exact uninterrupted heq
  | again _ ih => exact ih

theorem mayBegin (h : Course zNs .ready n events) : MayBegin events := by
  cases h with
  | start => exact .inl rfl
  | again h =>
    cases h with
    | retract _ failed uninterrupted h =>
      cases h with
      | fail | run => exact .inr ⟨_, _, rfl, failed, uninterrupted⟩

/-- **Every entry into AIMING finds the relay off and Z retracted.** -/
theorem entry (h : Course zNs phase n events) {relayOn : Bool} {zPulseNs : UInt32}
    {older : List MissionEvent} (hentry : .aiming relayOn zPulseNs :: older <:+ events) :
    relayOn = false ∧ zPulseNs = zNs ∧ MayBegin older := by
  induction h with
  | start => simp at hentry
  | enter h ih =>
    rcases List.suffix_cons_iff.mp hentry with heq | hentry
    · injection heq with hevent holder
      injection hevent with hrelay hz
      exact ⟨hrelay, hz, holder ▸ h.mayBegin⟩
    · exact ih hentry
  | verify _ _ ih | fail _ _ ih | run _ ih | retract _ _ _ _ ih =>
    rcases List.suffix_cons_iff.mp hentry with heq | hentry
    · simp at heq
    · exact ih hentry
  | again _ ih => exact ih hentry

end Course

/-! ## Missions -/

/-- The module is where a mission is, with what has happened recorded. -/
def OnCourse (config : SaneConfig) (phase : Phase) (n : Nat) (g : Gimbal) : Prop :=
  g.config = config ∧ Course config.zRetractNs phase n g.mission

/-- The mission is somewhere in its first `limit` cycles. -/
def Within (config : SaneConfig) (limit : Nat) (g : Gimbal) : Prop :=
  ∃ phase n, n ≤ limit ∧ OnCourse config phase n g

/-- The mission has returned, with success if its last cycle was verified. -/
def Returned (config : SaneConfig) (limit : Nat) (result : RtErr) (g : Gimbal) : Prop :=
  Within config limit g ∧ (result = RT_EOK ↔ VerifiedClear g.mission)

section Mission

variable {config : SaneConfig} {phase : Phase} {n limit : Nat}

theorem closed_onCourse : Closed (OnCourse config phase n) where
  setState _ _ h := h
  relay _ _ h := h
  axis _ _ h := h
  applyPose _ _ _ _ h := h

theorem returned {result : RtErr} {g : Gimbal} (hn : n ≤ limit) (h : OnCourse config phase n g)
    (hresult : result = RT_EOK ↔ phase = .verified RT_EOK ∨ phase = .ran RT_EOK) :
    Returned config limit result g :=
  ⟨⟨_, _, hn, h⟩, hresult.trans h.2.verifiedClear_iff.symm⟩

theorem within_keeps {α : Type} {p : Proc Gimbal Look α} (hn : n ≤ limit)
    (h : Keeps (OnCourse config phase n) p) :
    Proc.Spec (OnCourse config phase n) p (Within config limit)
      fun _ => OnCourse config phase n :=
  h.mono (fun _ hg => hg) (fun _ hg => ⟨_, _, hn, hg⟩) fun _ _ hg => hg

/-- How `hcics_cleaner_run_once` ends: with the result of its verification, or a failure before. -/
def Ended (config : SaneConfig) (n : Nat) (result : RtErr) (g : Gimbal) : Prop :=
  OnCourse config (.verified result) n g ∨ result ≠ RT_EOK ∧ OnCourse config .cycle n g

theorem ended_log {result : RtErr} {g : Gimbal} (h : Ended config n result g) :
    OnCourse config (.ran result) n (g.log (.ran result)) := by
  rcases h with h | ⟨hfailed, h⟩
  · exact ⟨h.1, .run h.2⟩
  · exact ⟨h.1, .fail hfailed h.2⟩

theorem ended_phase {p next : Proc Gimbal Look RtErr} (hn : n ≤ limit)
    (hp : Keeps (OnCourse config .cycle n) p)
    (hnext : Proc.Spec (OnCourse config .cycle n) next (Within config limit) (Ended config n)) :
    Proc.Spec (OnCourse config .cycle n)
      (p >>= fun result => if result ≠ RT_EOK then pure result else next)
      (Within config limit) (Ended config n) :=
  spec_unless (within_keeps hn hp) (fun _ _ hfailed h => .inr ⟨hfailed, h⟩) hnext

theorem keeps_setState (state : CleanerState) :
    Keeps (OnCourse config phase n) (.modify (·.setState state)) := .modify fun _ h => h

theorem runLocked_ended (hn : n ≤ limit) (target : CleanerTarget) :
    Proc.Spec (OnCourse config .cycle n) (runLocked target) (Within config limit)
      (Ended config n) := by
  apply Proc.Spec.bind (Q := fun _ => OnCourse config .cycle n) (.gets fun _ h => h)
  intro baseYNs
  apply Proc.Spec.bind (within_keeps hn (keeps_setState _))
  intro _
  apply ended_phase hn (closed_onCourse.extendZ baseYNs)
  apply Proc.Spec.bind (within_keeps hn (keeps_setState _))
  intro _
  apply ended_phase hn closed_onCourse.spray
  apply Proc.Spec.bind (within_keeps hn (keeps_setState _))
  intro _
  apply Proc.Spec.bind (within_keeps hn (closed_onCourse.scrub baseYNs))
  intro result
  apply Proc.Spec.bind (within_keeps hn (closed_onCourse.modify_relay false))
  intro _
  split
  · rename_i hfailed
    exact .pure fun _ h => .inr ⟨hfailed, h⟩
  · apply ended_phase hn closed_onCourse.retract
    apply Proc.Spec.bind (within_keeps hn (keeps_setState _))
    intro _
    apply Proc.Spec.bind (within_keeps hn keeps_verifyClear)
    intro result
    apply Proc.Spec.bind (Q := fun _ => OnCourse config (.verified result) n)
    · exact .modify fun _ h => ⟨h.1, .verify result h.2⟩
    · intro _
      exact .pure fun _ h => .inl h

/-- **A cycle** that begins with the relay off and Z retracted. -/
theorem runOnce_ended (hn : n + 1 ≤ limit) :
    Proc.Spec (fun g => OnCourse config .ready n g ∧ Retracted g) runOnce (Within config limit)
      (Ended config (n + 1)) := by
  apply Proc.Spec.bind (Q := fun _ => OnCourse config .cycle (n + 1))
  · apply Proc.Spec.modify
    rintro g ⟨⟨rfl, hcourse⟩, hrelay, hz⟩
    refine ⟨rfl, ?_⟩
    have henter := Course.enter hcourse
    rw [← hrelay] at henter
    exact hz ▸ henter
  · intro _
    apply Proc.Spec.bind ((within_keeps hn keeps_waitStain).and_result waitStain_result)
    rintro (code | _)
    · exact .pure fun _ h => .inr ⟨h.2 code rfl, h.1⟩
    · apply Proc.Spec.bind (Q := fun result g =>
        OnCourse config .cycle (n + 1) g ∧ FailsAsError result)
      · exact ((within_keeps hn closed_onCourse.aim).and_result aim_result).mono
          (fun _ h => h.1) (fun _ h => h) fun _ _ h => h
      · rintro (code | target)
        · exact .pure fun _ h => .inr ⟨h.2 code rfl, h.1⟩
        · exact (runLocked_ended hn target).mono (fun _ h => h.1) (fun _ h => h) fun _ _ h => h

/-- **The loop of a mission**, by induction on the cycles left. -/
theorem runCycles_returned (cycle : UInt8) (left n : Nat) (hlimit : n + left ≤ limit) :
    Proc.Spec (fun g => OnCourse config .ready n g ∧ Retracted g) (runCycles cycle left)
      (Within config limit) (Returned config limit) := by
  induction left generalizing cycle n with
  | zero => exact .pure fun _ h => returned hlimit h.1 (by simp)
  | succ left ih =>
    have hn : n + 1 ≤ limit := by omega
    apply Proc.Spec.bind (Q := fun _ g => OnCourse config .ready n g ∧ Retracted g)
    · exact .modify fun _ h => h
    intro _
    apply Proc.Spec.bind (runOnce_ended hn)
    intro result
    apply Proc.Spec.bind (Q := fun _ => OnCourse config (.ran result) (n + 1))
    · exact .modify fun _ h => ended_log h
    intro _
    split
    · rename_i hok
      exact .pure fun _ h => returned hn h (by simp [hok])
    rename_i hfailed
    split
    · exact .pure fun _ h => returned hn h (by simp)
    rename_i huninterrupted
    apply Proc.Spec.bind (Q := fun result' g =>
      OnCourse config (.ran result) (n + 1) g ∧ (result' = RT_EOK → Retracted g))
    · exact ((within_keeps hn closed_onCourse.retract).and retract_retracted).mono
        (fun _ h => ⟨h, trivial⟩) (fun _ h => h.1) fun _ _ h => h
    intro result'
    apply Proc.Spec.bind (Q := fun _ g =>
      OnCourse config (.retracted result') (n + 1) g ∧ (result' = RT_EOK → Retracted g))
    · exact .modify fun _ h => ⟨⟨h.1.1, .retract result' hfailed huninterrupted h.1.2⟩, h.2⟩
    intro _
    split
    · rename_i hfailed'
      exact .pure fun _ h => returned hn h.1 (by simp [hfailed'])
    · rename_i hok
      obtain rfl := not_not.mp hok
      exact (ih (cycle + 1) (n + 1) (by omega)).mono
        (fun _ h => ⟨⟨h.1.1, .again h.1.2⟩, h.2 rfl⟩) (fun _ h => h) fun _ _ h => h

theorem retracted_safeOutputs (g : Gimbal) (l : Look) : Retracted (g.safeOutputs l).1 :=
  ⟨rfl, clamp_retract g.config⟩

theorem work_returned (maxCycles : UInt8) :
    Proc.Spec (fun g => g.config = config ∧ g.mission = []) (work maxCycles)
      (Within config maxCycles.toNat) (Returned config maxCycles.toNat) := by
  have hstart : ∀ g : Gimbal, g.config = config ∧ g.mission = [] → OnCourse config .ready 0 g :=
    fun g h => ⟨h.1, h.2 ▸ .start⟩
  apply Proc.Spec.bind (Q := fun _ g => OnCourse config .ready 0 g ∧ Retracted g)
  · apply Proc.Spec.act
    · exact fun g h => ⟨_, _, Nat.zero_le _, hstart g h⟩
    · exact fun g l h => ⟨closed_onCourse.safeOutputs (hstart g h) l, retracted_safeOutputs g l⟩
  · intro result
    split
    · rename_i hfailed
      exact .pure fun _ h => returned (Nat.zero_le _) h.1 (by simp [hfailed])
    · exact runCycles_returned 0 _ 0 (by omega)

end Mission

/-- The result of a run of the worker, where it has one, and what its mission did. -/
def missionRun (maxCycles : UInt8) (g : Gimbal) (looks : List Look) :
    Option RtErr × List MissionEvent :=
  let (result, g, _) := work maxCycles { g with mission := [] } looks
  (result, g.mission)

/-- **Cleaning cycles are bounded and start retracted.** Whatever the procedures read, a mission has
no more than `max_cycles` cycles, succeeds exactly if its last cycle was verified clear, does nothing
after an interrupted cycle, and enters AIMING with the relay off and Z retracted, at first and after
retracts that succeeded. -/
theorem cycles_start_retracted (maxCycles : UInt8) (g : Gimbal) (looks : List Look) :
    let (result, events) := missionRun maxCycles g looks
    cycles events ≤ maxCycles.toNat ∧
      (∀ code, result = some code → (code = RT_EOK ↔ VerifiedClear events)) ∧
      .ran (-RT_EINTR) ∉ events.tail ∧
      ∀ relayOn zPulseNs older, .aiming relayOn zPulseNs :: older <:+ events →
        relayOn = false ∧ zPulseNs = g.config.zRetractNs ∧ MayBegin older := by
  obtain ⟨hret, hwait⟩ := work_returned maxCycles { g with mission := [] } looks ⟨rfl, rfl⟩
  unfold missionRun
  rcases hwork : work maxCycles { g with mission := [] } looks with ⟨_ | code, k, rest⟩
  · obtain ⟨phase, n, hn, -, hcourse⟩ := hwait k rest hwork
    refine ⟨hcourse.cycles_eq.symm ▸ hn, ?_, hcourse.interrupted_last, ?_⟩
    · intro code hcode
      cases hcode
    · exact fun _ _ _ => hcourse.entry
  · obtain ⟨⟨phase, n, hn, -, hcourse⟩, hresult⟩ := hret code k rest hwork
    refine ⟨hcourse.cycles_eq.symm ▸ hn, ?_, hcourse.interrupted_last, ?_⟩
    · intro code' hcode
      rwa [← Option.some.inj hcode]
    · exact fun _ _ _ => hcourse.entry

end Hcics.Gimbal
