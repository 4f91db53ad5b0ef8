import Hcics.App.Progress
import Hcics.Lib.Clock

/-!
# A mission ends in time

The application beside a clock that does not wrap. The mission thread reads it in every step, and
`hcics_cleaner_wait_not_busy` gives up by it; what the other threads do and read is left open. Where the
mission thread is never kept waiting for more than `D` ms, its delays included, a mission is over, its
report is out or stored and the mission thread waits for the next fault after `missionMs D`: every loop of
it has a limit of its own.
-/

namespace Hcics

abbrev cleanerResetWaitMs : UInt32 := 2500

/-- The application and the time: now, of the mission thread's last step, when it took its message from
the queue, and when it began to wait for the cleaner. -/
structure AppClock where
  app : App
  now : Nat
  last : Nat
  begun : Nat
  waitFrom : Nat

namespace AppClock

open App

/-- A millisecond passes, the mission thread takes a step, or another thread does. -/
inductive Input where
  | tick
  | mission (io : AppIo)
  | other (i : App.Input)

/-- Whether the mission is in `hcics_cleaner_wait_not_busy`. -/
def waits : WorkPc → Bool
  | .reset .wait | .endReset _ .wait => true
  | _ => false

/-- What the mission thread reads: the time, and whether `hcics_cleaner_wait_not_busy` gives up. -/
def stamp (s : AppClock) (io : AppIo) : AppIo :=
  { io with
    now := UInt32.ofNat s.now
    giveUp := decide (UInt32.ofNat s.now - UInt32.ofNat s.waitFrom ≥ cleanerResetWaitMs) }

def step (s : AppClock) : Input → Option AppClock
  | .tick => some { s with now := s.now + 1 }
  | .mission io =>
    (s.app.stepMission (s.stamp io)).map fun app =>
      { s with
        app := app
        last := s.now
        begun := if s.app.link.mission = .recv then s.now else s.begun
        waitFrom := if waits s.app.work then s.waitFrom else s.now }
  | .other (.mission _) => none
  | .other i => (s.app.step i).map fun app => { s with app := app }

/-- The application after its init, at any time. -/
def machine : Machine AppClock Input where
  start s := App.machine.start s.app ∧ s.last ≤ s.now
  step := step

/-- The mission thread is not kept waiting for more than `D` ms, except for a message. -/
def Prompt (D : Nat) (s : AppClock) : Input → Prop
  | .tick => s.app.link.mission = .recv ∨ s.now < s.last + D
  | _ => True

instance (D : Nat) (s : AppClock) : ∀ i, Decidable (Prompt D s i)
  | .tick => inferInstanceAs (Decidable (_ ∨ _))
  | .mission _ | .other _ => .isTrue trivial

/-! ## Limits -/

/-- When the wait for the camera of a path begins, after the mission began. -/
def pathMs (D : Nat) : Phase → Nat
  | .nav => 8 * D + 2500
  | .home => 34 * D + 187500

def followMs (D : Nat) : Nat := 12 * D + 125000

/-- When the thread is back in `rt_mq_recv`. -/
def missionMs (D : Nat) : Nat := 58 * D + 2 * 2500 + 2 * (5000 + 120000) + 60000

/-- The loop of a path, entered at `startMs` with its limit: the time of `nowMs` is within it. -/
def InLoop (D b : Nat) (phase : Phase) (startMs : UInt32) (time : Nat) : Prop :=
  ∃ start, startMs = UInt32.ofNat start ∧ start ≤ time ∧ start ≤ b + pathMs D phase + 5000 + 3 * D ∧
    time ≤ start + 120000 + 5 * D

/-- How late it can be at a place of the mission that began at `b`: `t` is when it came there, `w` when it
began to wait for the cleaner. -/
def OnTime (D b w t : Nat) : WorkPc → Prop
  | .begin => t ≤ b
  | .clearStop => t ≤ b + D
  | .resetMotion => t ≤ b + 2 * D
  | .snapshot => t ≤ b + 3 * D
  | .reset .mark => t ≤ b + 4 * D
  | .reset .outputs => t ≤ b + 5 * D
  | .reset .wait => w ≤ b + 6 * D ∧ w ≤ t ∧ t ≤ w + 2500
  | .navigate => t ≤ b + 7 * D + 2500
  | .waitCamera phase startMs => ∃ start, startMs = UInt32.ofNat start ∧ start ≤ t ∧
      start ≤ b + pathMs D phase ∧ t ≤ start + 5000
  | .cameraRecent phase startMs => ∃ start, startMs = UInt32.ofNat start ∧ start ≤ t ∧
      start ≤ b + pathMs D phase ∧ t ≤ start + 5000 + D
  | .startPath phase => t ≤ b + pathMs D phase + 5000 + 2 * D
  | .follow phase startMs => ∃ start, startMs = UInt32.ofNat start ∧ start ≤ t ∧
      start ≤ b + pathMs D phase + 5000 + 3 * D ∧ t ≤ start + 120000 + 4 * D
  | .faultTest phase startMs nowMs => ∃ r, nowMs = UInt32.ofNat r ∧ InLoop D b phase startMs r ∧ r ≤ t ∧ t ≤ r
  | .finishedTest phase startMs nowMs =>
    ∃ r, nowMs = UInt32.ofNat r ∧ InLoop D b phase startMs r ∧ r ≤ t ∧ t ≤ r + D
  | .status phase startMs nowMs =>
    ∃ r, nowMs = UInt32.ofNat r ∧ InLoop D b phase startMs r ∧ r ≤ t ∧ t ≤ r + 2 * D
  | .cameraLost phase startMs nowMs =>
    ∃ r, nowMs = UInt32.ofNat r ∧ InLoop D b phase startMs r ∧ r ≤ t ∧ t ≤ r + 3 * D
  | .stopPath => t ≤ b + pathMs D .home + followMs D
  | .zeroFailed => t ≤ b + pathMs D .home + followMs D + D
  | .zeroFinished phase => t ≤ b + pathMs D phase + 125000 + 10 * D
  | .parked left => ∃ k, left.toNat + 50 * k = 500 ∧ t ≤ b + pathMs D .nav + 125000 + 11 * D + k * D
  | .startCleaner => t ≤ b + pathMs D .nav + 125000 + 22 * D
  | .clean startMs => ∃ start, startMs = UInt32.ofNat start ∧ start ≤ t ∧
      start ≤ b + pathMs D .nav + 125000 + 23 * D ∧ t ≤ start + 60000
  | .cleanStatus startMs => ∃ start, startMs = UInt32.ofNat start ∧ start ≤ t ∧
      start ≤ b + pathMs D .nav + 125000 + 23 * D ∧ t ≤ start + 60000 + D
  | .stopCleaner => t ≤ b + pathMs D .nav + 185000 + 25 * D
  | .stopCleanerOutputs => t ≤ b + pathMs D .nav + 185000 + 26 * D
  | .setReturn => t ≤ b + pathMs D .nav + 185000 + 25 * D
  | .endStop _ => t ≤ b + pathMs D .home + followMs D + 2 * D
  | .endReset _ .mark => t ≤ b + pathMs D .home + followMs D + 3 * D
  | .endReset _ .outputs => t ≤ b + pathMs D .home + followMs D + 4 * D
  | .endReset _ .wait => w ≤ b + pathMs D .home + followMs D + 5 * D ∧ w ≤ t ∧ t ≤ w + 2500
  | .endZero _ => t ≤ b + pathMs D .home + followMs D + 6 * D + 2500
  | .endState _ => t ≤ b + pathMs D .home + followMs D + 7 * D + 2500

/-- How late it can be at a place of the mission thread. -/
def Due (D : Nat) (s : AppClock) : Prop :=
  match s.app.link.mission with
  | .recv => True
  | .running _ => OnTime D s.begun s.waitFrom s.last s.app.work
  | .report _ _ => s.last ≤ s.begun + 54 * D + 315000
  | .reportSend _ _ _ => s.last ≤ s.begun + 55 * D + 315000
  | .reportStore _ _ => s.last ≤ s.begun + 56 * D + 315000
  | .release _ _ => s.last ≤ s.begun + 57 * D + 315000

variable {D b w t now : Nat} {a a' : App} {io : AppIo} {msg : Msg} {s s' : AppClock}

/-! ## The mission -/

theorem cleanerReset_goes {next : ResetPart → WorkPc} {after : WorkPc} {part : ResetPart}
    (hw : a.work = next part) (hstep : a.cleanerReset io next after part = some a') :
    a'.link = a.link ∧ (part = .mark ∧ a'.work = next .outputs ∨ part = .outputs ∧ a'.work = next .wait ∨
      part = .wait ∧ (a'.work = after ∨ a'.work = next .wait ∧ io.giveUp = false)) := by
  unfold cleanerReset at hstep
  split at hstep
  · obtain ⟨r, hr, rfl⟩ := Option.map_eq_some_iff.mp hstep
    obtain ⟨c, -, rfl⟩ := cleanerStep_some hr
    exact ⟨rfl, .inl ⟨rfl, rfl⟩⟩
  · obtain ⟨r, hr, rfl⟩ := Option.map_eq_some_iff.mp hstep
    obtain ⟨c, -, rfl⟩ := cleanerStep_some hr
    exact ⟨rfl, .inr (.inl ⟨rfl, rfl⟩)⟩
  · split at hstep
    · rename_i r hr
      obtain rfl := Option.some.inj hstep
      obtain ⟨c, -, rfl⟩ := cleanerStep_some hr
      exact ⟨rfl, .inr (.inr ⟨rfl, .inl rfl⟩)⟩
    · split at hstep
      · obtain ⟨r, hr, rfl⟩ := Option.map_eq_some_iff.mp hstep
        obtain ⟨c, -, rfl⟩ := cleanerStep_some hr
        exact ⟨rfl, .inr (.inr ⟨rfl, .inl rfl⟩)⟩
      · rename_i hgive
        obtain rfl := Option.some.inj hstep
        exact ⟨rfl, .inr (.inr ⟨rfl, .inr ⟨hw, by simpa using hgive⟩⟩)⟩

theorem stays_waiting (hgive : io.giveUp = decide (UInt32.ofNat now - UInt32.ofNat w ≥ cleanerResetWaitMs))
    (hstay : io.giveUp = false) (hw : w ≤ now) (hnow : now < w + 2 ^ 32) : now ≤ w + 2500 := by
  rw [hgive, decide_eq_false_iff_not] at hstay
  exact (Clock.lt_of_sub_lt hw hnow hstay).le

/-- The three parts of a reset that begins by `m`. -/
def ResetTime (D m w t : Nat) : ResetPart → Prop
  | .mark => t ≤ m
  | .outputs => t ≤ m + D
  | .wait => w ≤ m + 2 * D ∧ w ≤ t ∧ t ≤ w + 2500

theorem cleanerReset_onTime (hD : D ≤ 2 ^ 28) {next : ResetPart → WorkPc} {after : WorkPc} {part : ResetPart}
    {m : Nat} (hnext : ∀ w t part, OnTime D b w t (next part) ↔ ResetTime D m w t part)
    (hafter : ∀ w t, t ≤ m + 3 * D + 2500 → OnTime D b w t after)
    (hwaits : ∀ part, waits (next part) = decide (part = .wait))
    (hw : a.work = next part) (h : OnTime D b w t (next part)) (hle : t ≤ now) (hnow : now ≤ t + D)
    (hgive : io.giveUp = decide (UInt32.ofNat now - UInt32.ofNat w ≥ cleanerResetWaitMs))
    (hstep : a.cleanerReset io next after part = some a') :
    a'.link = a.link ∧ OnTime D b (if waits (next part) then w else now) now a'.work := by
  obtain ⟨hlink, hgoes⟩ := cleanerReset_goes hw hstep
  rw [hnext] at h
  refine ⟨hlink, ?_⟩
  rw [hwaits]
  rcases hgoes with ⟨rfl, hw'⟩ | ⟨rfl, hw'⟩ | ⟨rfl, hw' | ⟨hw', hstay⟩⟩ <;> rw [hw']
  · rw [hnext]
    simp only [ResetTime] at h ⊢
    omega
  · rw [hnext]
    simp only [ResetTime, reduceCtorEq, decide_false, Bool.false_eq_true, if_false] at h ⊢
    omega
  · obtain ⟨hlow, -, hhigh⟩ := h
    exact hafter _ _ (by omega)
  · obtain ⟨hlow, hw, hhigh⟩ := h
    rw [hnext]
    simp only [decide_true, if_true]
    exact ⟨hlow, hw.trans hle, stays_waiting hgive hstay (hw.trans hle) (by omega)⟩

theorem pathMs_le (D : Nat) (phase : Phase) : pathMs D phase ≤ pathMs D .home := by
  cases phase <;> simp only [pathMs] <;> omega

theorem endStop_onTime {done : Bool} (phase : Phase) (h : now ≤ b + pathMs D phase + followMs D + 2 * D) :
    OnTime D b w now (.endStop done) := by
  have hphase := pathMs_le D phase
  change now ≤ b + pathMs D .home + followMs D + 2 * D
  omega

theorem InLoop.stopPath {phase : Phase} {startMs : UInt32} {r : Nat} (h : InLoop D b phase startMs r)
    (hnow : now ≤ r + 4 * D) : OnTime D b w now .stopPath := by
  obtain ⟨start, -, -, hlow, hhigh⟩ := h
  have hphase := pathMs_le D phase
  change now ≤ b + pathMs D .home + followMs D
  simp only [followMs]
  omega

theorem followWait_link {phase : Phase} {startMs nowMs : UInt32} :
    (a.followWait phase startMs nowMs).link = a.link := by
  unfold App.followWait
  split <;> rfl

theorem followWait_onTime (hD : D ≤ 2 ^ 28) {phase : Phase} {startMs : UInt32} {r : Nat}
    (hloop : InLoop D b phase startMs r) (hle : r ≤ now) (hnow : now ≤ r + 4 * D) :
    OnTime D b w now (a.followWait phase startMs (UInt32.ofNat r)).work := by
  unfold App.followWait
  split
  · exact hloop.stopPath hnow
  · rename_i hlimit
    obtain ⟨start, rfl, hstart, hlow, hhigh⟩ := hloop
    have hlt := Clock.lt_of_sub_lt hstart (by omega) hlimit
    rw [show navTimeoutMs.toNat = 120000 from rfl] at hlt
    exact ⟨start, rfl, by omega, hlow, by omega⟩

section Places

/-! The places one by one; `now` is when the step is taken. -/

variable (hle : t ≤ now) (hnow : now ≤ t + D)
include hle hnow

theorem waitCamera_onTime {phase : Phase} {startMs : UInt32} (hw : a.work = .waitCamera phase startMs)
    (h : OnTime D b w t (.waitCamera phase startMs)) (hstep : a.stepWork msg io = some a') :
    a'.link = a.link ∧ OnTime D b w now a'.work := by
  obtain ⟨start, rfl, hstart, hlow, hhigh⟩ := h
  simp only [stepWork, hw] at hstep
  split at hstep <;> obtain rfl := Option.some.inj hstep <;> refine ⟨rfl, ?_⟩
  · exact endStop_onTime phase (by simp only [followMs]; omega)
  · exact ⟨start, rfl, hstart.trans hle, hlow, by omega⟩

theorem cameraRecent_onTime (hD : D ≤ 2 ^ 28) (hio : io.now = UInt32.ofNat now) {phase : Phase}
    {startMs : UInt32} (hw : a.work = .cameraRecent phase startMs)
    (h : OnTime D b w t (.cameraRecent phase startMs)) (hstep : a.stepWork msg io = some a') :
    a'.link = a.link ∧ OnTime D b w now a'.work := by
  obtain ⟨start, rfl, hstart, hlow, hhigh⟩ := h
  simp only [stepWork, hw, hio, tickToMs_eq] at hstep
  split_ifs at hstep with hrecent hlimit <;> obtain rfl := Option.some.inj hstep <;> refine ⟨rfl, ?_⟩
  · change now ≤ b + pathMs D phase + 5000 + 2 * D
    omega
  · exact endStop_onTime phase (by simp only [followMs]; omega)
  · have hlt := Clock.lt_of_sub_lt (hstart.trans hle) (by omega) hlimit
    exact ⟨start, rfl, hstart.trans hle, hlow, hlt.le⟩

omit hle in
theorem startPath_onTime (hio : io.now = UInt32.ofNat now) {phase : Phase} (hw : a.work = .startPath phase)
    (h : OnTime D b w t (.startPath phase)) (hstep : a.stepWork msg io = some a') :
    a'.link = a.link ∧ OnTime D b w now a'.work := by
  change t ≤ b + pathMs D phase + 5000 + 2 * D at h
  simp only [stepWork, hw, hio, tickToMs_eq] at hstep
  split at hstep <;> obtain rfl := Option.some.inj hstep <;> refine ⟨rfl, ?_⟩
  · exact endStop_onTime phase (by simp only [followMs]; omega)
  · exact ⟨now, rfl, Nat.le_refl _, by omega, by omega⟩

theorem follow_onTime (hio : io.now = UInt32.ofNat now) {phase : Phase} {startMs : UInt32}
    (hw : a.work = .follow phase startMs)
    (h : OnTime D b w t (.follow phase startMs)) (hstep : a.stepWork msg io = some a') :
    a'.link = a.link ∧ OnTime D b w now a'.work := by
  obtain ⟨start, rfl, hstart, hlow, hhigh⟩ := h
  simp only [stepWork, hw, hio, tickToMs_eq] at hstep
  have hloop : InLoop D b phase (UInt32.ofNat start) now := ⟨start, rfl, hstart.trans hle, hlow, by omega⟩
  split at hstep <;> obtain rfl := Option.some.inj hstep <;> refine ⟨rfl, ?_⟩
  · exact hloop.stopPath (by omega)
  · exact ⟨now, rfl, hloop, Nat.le_refl _, Nat.le_refl _⟩

theorem faultTest_onTime {phase : Phase} {startMs nowMs : UInt32}
    (hw : a.work = .faultTest phase startMs nowMs) (h : OnTime D b w t (.faultTest phase startMs nowMs))
    (hstep : a.stepWork msg io = some a') : a'.link = a.link ∧ OnTime D b w now a'.work := by
  obtain ⟨r, rfl, hloop, hr, hlate⟩ := h
  simp only [stepWork, hw] at hstep
  split at hstep <;> obtain rfl := Option.some.inj hstep <;> refine ⟨rfl, ?_⟩
  · exact hloop.stopPath (by omega)
  · exact ⟨r, rfl, hloop, hr.trans hle, by omega⟩

theorem finishedTest_onTime {phase : Phase} {startMs nowMs : UInt32}
    (hw : a.work = .finishedTest phase startMs nowMs)
    (h : OnTime D b w t (.finishedTest phase startMs nowMs)) (hstep : a.stepWork msg io = some a') :
    a'.link = a.link ∧ OnTime D b w now a'.work := by
  obtain ⟨r, rfl, hloop, hr, hlate⟩ := h
  simp only [stepWork, hw] at hstep
  split at hstep <;> obtain rfl := Option.some.inj hstep <;> refine ⟨rfl, ?_⟩
  · obtain ⟨start, -, -, hlow, hhigh⟩ := hloop
    change now ≤ b + pathMs D phase + 125000 + 10 * D
    omega
  · exact ⟨r, rfl, hloop, hr.trans hle, by omega⟩

theorem status_onTime (hD : D ≤ 2 ^ 28) {phase : Phase} {startMs nowMs : UInt32}
    (hw : a.work = .status phase startMs nowMs) (h : OnTime D b w t (.status phase startMs nowMs))
    (hstep : a.stepWork msg io = some a') : a'.link = a.link ∧ OnTime D b w now a'.work := by
  obtain ⟨r, rfl, hloop, hr, hlate⟩ := h
  simp only [stepWork, hw] at hstep
  split at hstep <;> obtain rfl := Option.some.inj hstep
  · exact ⟨rfl, r, rfl, hloop, hr.trans hle, by omega⟩
  · exact ⟨followWait_link .., followWait_onTime hD hloop (hr.trans hle) (by omega)⟩

theorem cameraLost_onTime (hD : D ≤ 2 ^ 28) {phase : Phase} {startMs nowMs : UInt32}
    (hw : a.work = .cameraLost phase startMs nowMs)
    (h : OnTime D b w t (.cameraLost phase startMs nowMs)) (hstep : a.stepWork msg io = some a') :
    a'.link = a.link ∧ OnTime D b w now a'.work := by
  obtain ⟨r, rfl, hloop, hr, hlate⟩ := h
  simp only [stepWork, hw] at hstep
  split at hstep <;> obtain rfl := Option.some.inj hstep
  · exact ⟨followWait_link .., followWait_onTime hD hloop (hr.trans hle) (by omega)⟩
  · exact ⟨rfl, hloop.stopPath (by omega)⟩

omit hle in
/-- The parked delay: `k` of its ten chunks are over. -/
theorem parked_onTime {left : UInt32} (hw : a.work = .parked left) (h : OnTime D b w t (.parked left))
    (hstep : a.stepWork msg io = some a') : a'.link = a.link ∧ OnTime D b w now a'.work := by
  obtain ⟨k, hk, hlate⟩ := h
  have hturns : k * D ≤ 10 * D := Nat.mul_le_mul_right D (by omega)
  simp only [stepWork, hw] at hstep
  split_ifs at hstep with hzero habort hleft <;> obtain rfl := Option.some.inj hstep <;> refine ⟨rfl, ?_⟩
  · change now ≤ b + pathMs D .nav + 125000 + 22 * D
    omega
  · exact endStop_onTime .home (by simp only [pathMs, followMs] at *; omega)
  · have hfifty : 50 ≤ left.toNat := UInt32.le_iff_toNat_le.mp hleft
    have hsub : (left - 50).toNat = left.toNat - 50 := UInt32.toNat_sub_of_le _ _ hleft
    have hturn : (k + 1) * D = k * D + D := Nat.succ_mul k D
    exact ⟨k + 1, by omega, by omega⟩
  · -- a multiple of 50 below 50 is 0
    have hfifty : ¬ 50 ≤ left.toNat := fun hle => hleft (UInt32.le_iff_toNat_le.mpr hle)
    exact absurd (UInt32.toNat_inj.mp (by change left.toNat = 0; omega)) hzero

theorem clean_onTime {startMs : UInt32} (hw : a.work = .clean startMs) (h : OnTime D b w t (.clean startMs))
    (hstep : a.stepWork msg io = some a') : a'.link = a.link ∧ OnTime D b w now a'.work := by
  obtain ⟨start, rfl, hstart, hlow, hhigh⟩ := h
  simp only [stepWork, hw] at hstep
  split at hstep <;> obtain rfl := Option.some.inj hstep <;> refine ⟨rfl, ?_⟩
  · change now ≤ b + pathMs D .nav + 185000 + 25 * D
    omega
  · exact ⟨start, rfl, hstart.trans hle, hlow, by omega⟩

theorem cleanStatus_onTime (hD : D ≤ 2 ^ 28) (hio : io.now = UInt32.ofNat now) {startMs : UInt32}
    (hw : a.work = .cleanStatus startMs) (h : OnTime D b w t (.cleanStatus startMs))
    (hstep : a.stepWork msg io = some a') : a'.link = a.link ∧ OnTime D b w now a'.work := by
  obtain ⟨start, rfl, hstart, hlow, hhigh⟩ := h
  have hend : OnTime D b w now (.endStop false) :=
    endStop_onTime .home (by simp only [pathMs, followMs] at *; omega)
  simp only [stepWork, hw, hio, tickToMs_eq] at hstep
  split at hstep
  · split at hstep <;> obtain rfl := Option.some.inj hstep <;> refine ⟨rfl, ?_⟩
    · exact hend
    · change now ≤ b + pathMs D .nav + 185000 + 25 * D
      omega
  · exact Option.some.inj hstep ▸ ⟨rfl, hend⟩
  · exact Option.some.inj hstep ▸ ⟨rfl, hend⟩
  · split at hstep <;> obtain rfl := Option.some.inj hstep <;> refine ⟨rfl, ?_⟩
    · change now ≤ b + pathMs D .nav + 185000 + 25 * D
      omega
    · rename_i hlimit
      have hlt := Clock.lt_of_sub_lt (hstart.trans hle) (by omega) hlimit
      exact ⟨start, rfl, hstart.trans hle, hlow, hlt.le⟩

end Places

theorem stepWork_onTime (hD : D ≤ 2 ^ 28) (h : OnTime D b w t a.work) (hle : t ≤ now) (hnow : now ≤ t + D)
    (hio : io.now = UInt32.ofNat now)
    (hgive : io.giveUp = decide (UInt32.ofNat now - UInt32.ofNat w ≥ cleanerResetWaitMs))
    (hstep : a.stepWork msg io = some a') :
    (∃ done, a.work = .endState done ∧ a'.link = a.link.finish done) ∨
      a'.link = a.link ∧ OnTime D b (if waits a.work then w else now) now a'.work := by
  cases hw : a.work <;> rw [hw] at h
  case endState done =>
    simp only [stepWork, hw] at hstep
    obtain rfl := Option.some.inj hstep
    exact .inl ⟨done, rfl, rfl⟩
  all_goals right
  case waitCamera => exact waitCamera_onTime hle hnow hw h hstep
  case cameraRecent => exact cameraRecent_onTime hle hnow hD hio hw h hstep
  case startPath => exact startPath_onTime hnow hio hw h hstep
  case follow => exact follow_onTime hle hnow hio hw h hstep
  case faultTest => exact faultTest_onTime hle hnow hw h hstep
  case finishedTest => exact finishedTest_onTime hle hnow hw h hstep
  case status => exact status_onTime hle hnow hD hw h hstep
  case cameraLost => exact cameraLost_onTime hle hnow hD hw h hstep
  case parked => exact parked_onTime hnow hw h hstep
  case clean => exact clean_onTime hle hnow hw h hstep
  case cleanStatus => exact cleanStatus_onTime hle hnow hD hio hw h hstep
  all_goals simp only [stepWork, hw, hio, tickToMs_eq] at hstep
  case reset part =>
    exact cleanerReset_onTime (m := b + 4 * D) hD
      (fun _ _ part => by cases part <;> simp only [OnTime, ResetTime] <;> omega)
      (fun _ _ hm => by simp only [OnTime]; omega) (fun part => by cases part <;> rfl) hw h hle hnow hgive hstep
  case endReset done part =>
    exact cleanerReset_onTime (m := b + pathMs D .home + followMs D + 3 * D) hD
      (fun _ _ part => by cases part <;> simp only [OnTime, ResetTime] <;> omega)
      (fun _ _ hm => by simp only [OnTime]; omega) (fun part => by cases part <;> rfl) hw h hle hnow hgive hstep
  -- the other places have a time of their own
  all_goals simp only [OnTime] at h
  case zeroFinished phase =>
    cases phase <;> obtain rfl := Option.some.inj hstep <;> refine ⟨rfl, ?_⟩
    · exact ⟨0, rfl, by omega⟩
    · exact endStop_onTime .home (by simp only [followMs]; omega)
  case startCleaner =>
    obtain ⟨r, hr, rfl⟩ := Option.map_eq_some_iff.mp hstep
    obtain ⟨c, -, rfl⟩ := cleanerStep_some hr
    split <;> refine ⟨rfl, ?_⟩
    · exact ⟨now, rfl, Nat.le_refl _, by omega, by omega⟩
    · exact endStop_onTime .home (by simp only [pathMs, followMs] at *; omega)
  case stopCleaner | stopCleanerOutputs =>
    obtain ⟨r, hr, rfl⟩ := Option.map_eq_some_iff.mp hstep
    obtain ⟨c, -, rfl⟩ := cleanerStep_some hr
    refine ⟨rfl, ?_⟩
    simp only [OnTime, App.goto, pathMs, followMs] at h ⊢
    omega
  case snapshot =>
    split at hstep <;> obtain rfl := Option.some.inj hstep <;> refine ⟨rfl, ?_⟩ <;>
      simp only [OnTime, App.goto, pathMs, followMs] <;> omega
  case navigate =>
    split at hstep <;> obtain rfl := Option.some.inj hstep <;> refine ⟨rfl, ?_⟩
    · simp only [OnTime, App.goto, pathMs, followMs]
      omega
    · refine ⟨now, rfl, Nat.le_refl _, ?_, by omega⟩
      simp only [pathMs]
      omega
  case setReturn =>
    obtain rfl := Option.some.inj hstep
    refine ⟨rfl, now, rfl, Nat.le_refl _, ?_, by omega⟩
    simp only [pathMs] at h ⊢
    omega
  all_goals
    obtain rfl := Option.some.inj hstep
    refine ⟨rfl, ?_⟩
    simp only [OnTime, App.goto, pathMs, followMs] at h ⊢
    omega

/-! ## The steps -/

/-- The times of the mission thread, and how late it can be. -/
structure Inv (D : Nat) (s : AppClock) : Prop where
  app : App.machine.Reach Machine.free s.app
  due : Due D s
  order : s.last ≤ s.now
  prompt : s.app.link.mission ≠ .recv → s.now ≤ s.last + D

theorem OnTime.le {pc : WorkPc} (h : OnTime D b w t pc) : t ≤ b + 53 * D + 315000 := by
  cases pc <;> simp only [OnTime, InLoop, pathMs, followMs] at h
  case reset part | endReset done part => cases part <;> simp only at h <;> omega
  case waitCamera phase _ | cameraRecent phase _ | follow phase _ =>
    obtain ⟨start, -, -, hlow, hhigh⟩ := h
    cases phase <;> simp only at hlow <;> omega
  case faultTest phase _ _ | finishedTest phase _ _ | status phase _ _ | cameraLost phase _ _ =>
    obtain ⟨r, -, ⟨start, -, -, hlow, hhigh⟩, -, hlate⟩ := h
    cases phase <;> simp only at hlow <;> omega
  case startPath phase | zeroFinished phase => cases phase <;> simp only at h <;> omega
  case parked left =>
    obtain ⟨k, hk, hlate⟩ := h
    have hturns : k * D ≤ 10 * D := Nat.mul_le_mul_right D (by omega)
    omega
  case clean | cleanStatus =>
    obtain ⟨start, -, -, hlow, hhigh⟩ := h
    omega
  case stopPath => exact Nat.le_trans h (by omega)
  all_goals omega

theorem Inv.now_le (h : Inv D s) (hm : s.app.link.mission ≠ .recv) : s.now ≤ s.begun + missionMs D := by
  have hnow := h.prompt hm
  have hdue := h.due
  unfold Due at hdue
  unfold missionMs
  split at hdue
  · contradiction
  · have hle := OnTime.le hdue
    omega
  all_goals omega

theorem Inv.mission (hD : D ≤ 2 ^ 28) (h : Inv D s) (hstep : s.step (.mission io) = some s') : Due D s' := by
  obtain ⟨a, ha, rfl⟩ := Option.map_eq_some_iff.mp hstep
  have hdue := h.due
  have hle := h.order
  have hprompt := h.prompt
  unfold Due at hdue
  cases hm : s.app.link.mission with
  | running msg =>
    simp only [hm] at hdue
    have hnow := hprompt (by rw [hm]; simp)
    have ha' : s.app.stepWork msg (s.stamp io) = some a := by
      simpa only [stepMission, hm] using ha
    rcases stepWork_onTime hD hdue hle hnow rfl rfl ha' with ⟨done, hw, hlink⟩ | ⟨hlink, hon⟩
    · have hlate := OnTime.le hdue
      simp only [Due, hlink, Link.finish, hm, if_false, reduceCtorEq]
      omega
    · simp only [Due, hlink, hm, if_false, reduceCtorEq]
      exact hon
  | recv =>
    simp only [stepMission, hm, Link.stepMission] at ha
    obtain ⟨l, hl, rfl⟩ := Option.map_eq_some_iff.mp ha
    split at hl
    · cases hl
    · rename_i taken rest hmq
      obtain rfl := Option.some.inj hl
      simp only [Due, if_true]
      cases faultIsValid taken.fault
      · trivial
      · exact Nat.le_refl _
  | report msg done =>
    simp only [hm] at hdue
    have hnow := hprompt (by rw [hm]; simp)
    simp only [stepMission, hm, Link.stepMission, Option.map_some, Option.some.injEq] at ha
    subst ha
    simp only [Due, if_false, reduceCtorEq]
    omega
  | reportSend msg done dst =>
    simp only [hm] at hdue
    have hnow := hprompt (by rw [hm]; simp)
    simp only [stepMission, hm, Link.stepMission] at ha
    obtain ⟨l, hl, rfl⟩ := Option.map_eq_some_iff.mp ha
    split at hl <;> obtain rfl := Option.some.inj hl <;> simp only [Due, if_false, reduceCtorEq] <;> omega
  | reportStore msg done =>
    simp only [hm] at hdue
    have hnow := hprompt (by rw [hm]; simp)
    simp only [stepMission, hm, Link.stepMission, Option.map_some, Option.some.injEq] at ha
    subst ha
    simp only [Due, if_false, reduceCtorEq]
    omega
  | release msg done =>
    simp only [stepMission, hm, Link.stepMission, Option.map_some, Option.some.injEq] at ha
    subst ha
    trivial

theorem Inv.step (hD : D ≤ 2 ^ 28) (h : Inv D s) {i : Input} (hok : Prompt D s i) (hstep : s.step i = some s') :
    Inv D s' := by
  cases i with
  | tick =>
    obtain rfl := Option.some.inj hstep
    refine ⟨h.app, h.due, Nat.le_succ_of_le h.order, fun hm => ?_⟩
    exact Nat.succ_le_of_lt (hok.resolve_left hm)
  | mission io =>
    have hdue := h.mission hD hstep
    obtain ⟨a, ha, rfl⟩ := Option.map_eq_some_iff.mp hstep
    exact ⟨h.app.step (i := .mission (s.stamp io)) trivial ha, hdue, Nat.le_refl _, fun _ => Nat.le_add_right ..⟩
  | other i =>
    have hi : ∀ io, i ≠ .mission io := by
      rintro io rfl
      cases hstep
    have hmap : (s.app.step i).map (fun app => { s with app := app }) = some s' := by
      cases i <;> first | exact hstep | exact absurd rfl (hi _)
    obtain ⟨a, ha, rfl⟩ := Option.map_eq_some_iff.mp hmap
    obtain ⟨hmission, hwork⟩ := step_place hi ha
    refine ⟨h.app.step (i := i) trivial ha, ?_, h.order, fun hm => h.prompt (hmission ▸ hm)⟩
    have hdue := h.due
    simp only [Due, hmission, hwork] at hdue ⊢
    exact hdue

/-- **A mission ends.** Whatever the other threads, the cameras, the guard, the network and the motors do:
where the mission thread is never kept waiting for more than `D` ms, at most `missionMs D` after it took a
fault from the queue it waits for the next one. It can take its next step at any time before that, and the UDP
thread can at any time. -/
theorem mission_ends (hD : D ≤ 2 ^ 28) (h : machine.Reach (Prompt D) s) :
    (s.app.link.mission ≠ .recv → s.now ≤ s.begun + missionMs D ∧ ∀ io, (s.app.stepMission io).isSome = true) ∧
      ∀ io, (s.app.stepUdp io).isSome = true := by
  have hinv : Inv D s := by
    refine h.inv ?_ fun _ _ _ _ hs hok hstep => hs.step hD hok hstep
    rintro r ⟨hstart, horder⟩
    have hrecv : r.app.link.mission = .recv := by
      obtain ⟨pins, io, -, happ⟩ := hstart
      rw [happ]
      rfl
    refine ⟨.base hstart, ?_, horder, fun hm => absurd hrecv hm⟩
    unfold Due
    rw [hrecv]
    trivial
  have hplaced := placed_of_reach hinv.app
  exact ⟨fun hm => ⟨hinv.now_le hm, stepMission_isSome hplaced hm⟩, stepUdp_isSome hplaced⟩

/-- A fault arrives, and after a millisecond the mission thread takes it. -/
def taken : List Input := faultRun.map .other ++ [.tick, .mission {}, .tick, .mission {}]

/-- Its mission is over six minutes later. -/
theorem mission_ends_taken : ∃ s : AppClock, s.app.link.mission = .running panel1 ∧ s.begun = 1 ∧ s.now = 2 ∧
    s.now ≤ s.begun + 373000 := by
  let start : AppClock := ⟨boot, 0, 0, 0, 0⟩
  let s := (machine.exec start taken).get (by decide +kernel)
  have hstart : machine.start start := ⟨boot_start, Nat.le_refl _⟩
  have hmeets : machine.Meets (Prompt 1000) start taken := by decide +kernel
  have hreach : machine.Reach (Prompt 1000) s :=
    ⟨start, hstart, .of_exec taken (Option.some_get _).symm hmeets⟩
  have hrun : s.app.link.mission = .running panel1 := by decide +kernel
  have hend := (mission_ends (by decide) hreach).1 (by rw [hrun]; simp)
  exact ⟨s, hrun, by decide +kernel, by decide +kernel, hend.1⟩

end AppClock

end Hcics
