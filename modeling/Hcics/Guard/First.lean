import Hcics.Guard.Latch

/-!
# The first sample

`hcics_guard_init` trusts what `hcics_guard_sample_once` returns for its first sample, and that is
what the transfers returned, also where the distance they brought counts as a failure. The transfers
are given here by a list of answers, so `Completes` says of any list whether the driver reads a
distance from it, and which one.
-/

namespace Hcics

namespace Guard

section Sample

variable {σ ι : Type} {B : I2cBus σ ι} {d d' : GuardDev σ} {is js : List ι} {r : RtErr}

def Received (d d' : GuardDev σ) : Prop :=
  ∃ g, d'.received = g :: d.received ∧ g.tofValid = true

theorem publish_cases {distance : UInt16} {valid force : Bool}
    (husable : valid = true → distance ≠ Cleaner.tofInvalidMm)
    (h : publish B distance valid force d is = (some r, d', js)) :
    r = RT_EOK ∧ d'.probe = d.probe ∧
      ∃ g, d'.received = g :: d.received ∧ g.tofValid = valid ∧ (valid = true → g.tofMm = distance) := by
  obtain ⟨tick, e, ks, hclock, hupd⟩ := Proc.bind_eq_some.mp h
  obtain ⟨p, htick, rfl⟩ := Proc.within_eq_some.mp hclock
  obtain ⟨i, rfl, hp⟩ := Proc.act_eq_some.mp htick
  obtain ⟨rfl, rfl⟩ := Prod.mk.inj hp
  obtain ⟨j, rfl, he⟩ := Proc.act_eq_some.mp hupd
  obtain ⟨rfl, rfl⟩ := Prod.mk.inj he
  refine ⟨rfl, rfl, _, rfl, ?_, fun hvalid => ?_⟩
  · rw [GuardSys.updateGuard_guard _ husable]
    rfl
  · rw [GuardSys.updateGuard_guard _ husable, hvalid]
    rfl

def NotReceived (d d' : GuardDev σ) : Prop :=
  d'.received = d.received ∨ ∃ g, d'.received = g :: d.received ∧ g.tofValid = false

theorem NotReceived.not_received (h : NotReceived d d') : ¬ Received d d' := by
  rintro ⟨g, hg, hvalid⟩
  rcases h with hsame | ⟨g', hg', hinvalid⟩
  · rw [hsame] at hg
    exact List.cons_ne_self g _ hg.symm
  · rw [hg'] at hg
    obtain ⟨rfl, -⟩ := List.cons.inj hg
    rw [hinvalid] at hvalid
    cases hvalid

/-- What a sample does after the distance was read: it publishes a usable one, and returns success;
else it publishes no distance, and returns what the read returned. -/
theorem sampleOnce_cases (h : sampleOnce B d is = (some r, d', js)) :
    ∃ result distance probe ks,
      readDistance B Cleaner.tofInvalidMm d.probe is = (some (result, distance), probe, ks) ∧
      d'.probe = ⟨{ probe.ctx with readErrors := d'.probe.ctx.readErrors }, probe.bus⟩ ∧
      ((usable result distance = true ∧ r = RT_EOK ∧
          ∃ g, d'.received = g :: d.received ∧ g.tofValid = true ∧ g.tofMm = distance) ∨
        (usable result distance = false ∧ r = result ∧ NotReceived d d')) := by
  obtain ⟨⟨result, distance⟩, e, ks, hprobe, hrest⟩ := Proc.bind_eq_some.mp h
  obtain ⟨probe, hread, rfl⟩ := Proc.within_eq_some.mp hprobe
  refine ⟨result, distance, probe, ks, hread, ?_⟩
  dsimp only at hrest
  by_cases husable : usable result distance = true
  · rw [if_pos husable] at hrest
    obtain ⟨a, e, ls, hset, hpub⟩ := Proc.bind_eq_some.mp hrest
    obtain ⟨rfl, rfl⟩ := Proc.modify_eq_some.mp hset
    have hne : distance ≠ Cleaner.tofInvalidMm := by
      unfold usable at husable
      simp only [Bool.and_eq_true, decide_eq_true_eq] at husable
      exact husable.2
    obtain ⟨rfl, hkept, g, hg, hvalid, hmm⟩ := publish_cases (fun _ => hne) hpub
    refine ⟨?_, .inl ⟨husable, rfl, g, hg, hvalid, hmm rfl⟩⟩
    rw [hkept]
    rfl
  · rw [if_neg husable] at hrest
    obtain ⟨a, e, ls, hset, hcount⟩ := Proc.bind_eq_some.mp hrest
    obtain ⟨rfl, rfl⟩ := Proc.modify_eq_some.mp hset
    obtain ⟨errors, e, ls, hgets, hend⟩ := Proc.bind_eq_some.mp hcount
    obtain ⟨rfl, rfl, rfl⟩ := Proc.gets_eq_some.mp hgets
    have hfailed : (⟨probe.ctx.failed, probe.bus⟩ : Probe σ) =
        ⟨{ probe.ctx with readErrors := probe.ctx.failed.readErrors }, probe.bus⟩ := by
      unfold GuardContext.failed
      split <;> rfl
    have hfalse : usable result distance = false := by simpa using husable
    split at hend
    · obtain ⟨pr, e, ls, hpub, hret⟩ := Proc.bind_eq_some.mp hend
      obtain ⟨rfl, rfl, rfl⟩ := Proc.pure_eq_some.mp hret
      obtain ⟨-, hkept, g, hg, hvalid, -⟩ := publish_cases (fun hv => by cases hv) hpub
      refine ⟨?_, .inr ⟨hfalse, rfl, .inr ⟨g, hg, hvalid⟩⟩⟩
      rw [hkept]
      exact hfailed
    · obtain ⟨rfl, rfl, rfl⟩ := Proc.pure_eq_some.mp hend
      exact ⟨hfailed, .inr ⟨hfalse, rfl, .inl rfl⟩⟩

end Sample

/-! ## Answers -/

/-- What one transfer brings back, and the clock before it. -/
structure Answer where
  now : Tick
  ok : Bool
  data : List UInt8
  deriving DecidableEq, Repr

namespace Answer

/-- The first bytes; the missing ones are 0. -/
def bytes (a : Answer) (len : ℕ) : Vector UInt8 len := .ofFn fun k : Fin len => a.data.getD k 0

/-- Whether a byte shows what `hcics_guard_wait_reg_bits` waits for. -/
def shows (mask : UInt8) (set : Bool) (a : Answer) : Bool :=
  if set then (a.bytes 1).head &&& mask ≠ 0 else (a.bytes 1).head &&& mask = 0

/-- The round comes in time, and its transfer succeeds. -/
def inTime (start : Tick) (a : Answer) : Prop :=
  a.now - start ≤ tickFromMs i2cTimeoutMs ∧ a.ok = true

instance (start : Tick) (a : Answer) : Decidable (a.inTime start) :=
  inferInstanceAs (Decidable (_ ∧ _))

end Answer

/-- A bus that gives these answers, whatever is asked of it. -/
def scripted : I2cBus Unit Answer where
  now a := a.now
  write _ _ _ a := ((), a.ok)
  read len _ _ a := ((), if a.ok then some (a.bytes len) else none)

section Script

variable {p p' : Probe Unit} {is js : List Answer} {reg mask : UInt8} {set : Bool}

theorem writeU8_ok {value : UInt8} (hbus : p.ctx.bus = true) :
    writeU8 scripted reg value p is = (some RT_EOK, p', js) ↔
      p' = p ∧ ∃ a, is = a :: js ∧ a.ok = true := by
  have htransfer : ∀ a : Answer,
      writeTransfer scripted p reg [value] a = (p, if a.ok then RT_EOK else -RT_ERROR) := by
    intro a
    unfold writeTransfer
    rw [if_neg (by simp [hbus]), if_neg (by simp)]
    rfl
  unfold writeU8 writeMulti
  rw [Proc.act_eq_some]
  simp only [htransfer, Prod.mk.injEq]
  constructor
  · rintro ⟨a, rfl, rfl, hok⟩
    refine ⟨rfl, a, rfl, ?_⟩
    by_contra hfail
    rw [if_neg hfail] at hok
    cases hok
  · rintro ⟨rfl, a, rfl, hok⟩
    exact ⟨a, rfl, rfl, if_pos hok⟩

theorem readTransfer_scripted (len : ℕ) (hbus : p.ctx.bus = true) (a : Answer) :
    readTransfer scripted (len + 1) p reg a =
      (p, if a.ok then .ok (a.bytes (len + 1)) else .error (-RT_ERROR)) := by
  unfold readTransfer
  rw [if_neg (by simp [hbus])]
  cases hok : a.ok <;> simp [scripted, hok]

theorem readU16_ok {distance : UInt16} (hbus : p.ctx.bus = true) :
    readU16 scripted reg p is = (some (.ok distance), p', js) ↔
      p' = p ∧ ∃ a, is = a :: js ∧ a.ok = true ∧ word (a.bytes 2) = distance := by
  unfold readU16 readMulti
  simp only [Proc.bind_eq_some, Proc.act_eq_some, Proc.pure_eq_some, readTransfer_scripted _ hbus,
    Prod.mk.injEq]
  constructor
  · rintro ⟨r, q, ks, ⟨a, rfl, rfl, rfl⟩, hword, rfl, rfl⟩
    refine ⟨rfl, a, rfl, ?_⟩
    cases hok : a.ok with
    | true =>
      rw [hok] at hword
      exact ⟨rfl, Except.ok.inj hword⟩
    | false =>
      rw [hok] at hword
      cases hword
  · rintro ⟨rfl, a, rfl, hok, rfl⟩
    refine ⟨_, p', js, ⟨a, rfl, rfl, rfl⟩, ?_, rfl, rfl⟩
    rw [if_pos hok]
    rfl

theorem allOk_writes (hbus : p.ctx.bus = true) (writes : List (UInt8 × UInt8)) :
    allOk (writes.map fun w => writeU8 scripted w.1 w.2) p is = (some true, p', js) ↔
      p' = p ∧ ∃ as : List Answer, is = as ++ js ∧ as.length = writes.length ∧
        ∀ a ∈ as, a.ok = true := by
  induction writes generalizing is with
  | nil =>
    rw [List.map_nil, allOk, Proc.pure_eq_some]
    constructor
    · rintro ⟨-, rfl, rfl⟩
      exact ⟨rfl, [], rfl, rfl, fun a ha => absurd ha List.not_mem_nil⟩
    · rintro ⟨rfl, as, rfl, hlen, -⟩
      obtain rfl := List.length_eq_zero_iff.mp hlen
      exact ⟨rfl, rfl, rfl⟩
  | cons w writes ih =>
    rw [List.map_cons, allOk, Proc.bind_ite_eq_some (by decide)]
    constructor
    · rintro ⟨r, q, ks, hw, hr, hrest⟩
      obtain rfl := not_not.mp hr
      obtain ⟨rfl, a, rfl, hok⟩ := (writeU8_ok hbus).mp hw
      obtain ⟨rfl, as, rfl, hlen, hall⟩ := ih.mp hrest
      exact ⟨rfl, a :: as, rfl, congrArg (· + 1) hlen, List.forall_mem_cons.mpr ⟨hok, hall⟩⟩
    · rintro ⟨rfl, as, rfl, hlen, hall⟩
      cases as with
      | nil => cases hlen
      | cons a as =>
        obtain ⟨hok, hall⟩ := List.forall_mem_cons.mp hall
        have hw : writeU8 scripted w.1 w.2 p' (a :: (as ++ js)) = (some RT_EOK, p', as ++ js) :=
          (writeU8_ok hbus).mpr ⟨rfl, a, rfl, hok⟩
        exact ⟨RT_EOK, p', as ++ js, hw, not_not.mpr rfl,
          ih.mpr ⟨rfl, as, rfl, Nat.succ.inj hlen, hall⟩⟩

/-- The answers of a wait that succeeds: a reading of the clock, then bytes that do not show what is
waited for, and one that does. -/
def Waits (mask : UInt8) (set : Bool) (is js : List Answer) : Prop :=
  ∃ start polls last, is = start :: (polls ++ last :: js) ∧
    (∀ a ∈ polls, a.inTime start.now ∧ a.shows mask set = false) ∧
    last.inTime start.now ∧ last.shows mask set = true

theorem waitRound_scripted (reg mask : UInt8) (set : Bool) (start : Tick) (hbus : p.ctx.bus = true)
    (a : Answer) :
    waitRound scripted reg mask set start (p, ()) a =
      ((p, ()), if a.inTime start then (if a.shows mask set = true then some true else none)
        else some false) := by
  unfold waitRound
  by_cases htime : a.now - start ≤ tickFromMs i2cTimeoutMs
  · rw [if_pos (show scripted.now a - start ≤ tickFromMs i2cTimeoutMs from htime)]
    rw [readTransfer_scripted 0 hbus]
    by_cases hok : a.ok = true
    · rw [if_pos hok, if_pos (show a.inTime start from ⟨htime, hok⟩)]
      cases set <;> simp [Answer.shows] <;> rfl
    · rw [if_neg hok, if_neg fun h : a.inTime start => hok h.2]
  · rw [if_neg (show ¬ scripted.now a - start ≤ tickFromMs i2cTimeoutMs from htime),
      if_neg fun h : a.inTime start => htime h.1]

theorem waitRound_goes {start : Tick} (hbus : p.ctx.bus = true) {u : Probe Unit × Unit} :
    Polling.Goes (waitRound scripted reg mask set start) (p, ()) is u ↔
      u = (p, ()) ∧ ∀ a ∈ is, a.inTime start ∧ a.shows mask set = false := by
  have hround := waitRound_scripted reg mask set start hbus
  rw [Polling.goes_still]
  · refine and_congr_right fun _ => forall₂_congr fun a _ => ?_
    rw [hround, Prod.mk.injEq]
    by_cases htime : a.inTime start
    · cases hshows : a.shows mask set <;> simp [htime]
    · simp [htime]
  · intro a t h
    rw [hround] at h
    exact (Prod.mk.inj h).1.symm

theorem waitRegBits_ok (hbus : p.ctx.bus = true) :
    waitRegBits scripted reg mask set p is = (some true, p', js) ↔
      p' = p ∧ Waits mask set is js := by
  have hround := fun start => waitRound_scripted reg mask set start hbus
  unfold waitRegBits
  rw [Proc.bind_eq_some]
  constructor
  · rintro ⟨start, q, ks, hclock, hpoll⟩
    obtain ⟨first, rfl, heq⟩ := Proc.act_eq_some.mp hclock
    obtain ⟨rfl, rfl⟩ := Prod.mk.inj heq
    obtain ⟨polls, last, u, l, rfl, hgo, hlast⟩ := Proc.poll_eq_some.mp hpoll
    obtain ⟨rfl, hpolls⟩ := (waitRound_goes hbus).mp hgo
    rw [hround] at hlast
    obtain ⟨hstate, hresult⟩ := Prod.mk.inj hlast
    refine ⟨(Prod.mk.inj hstate).1.symm, first, polls, last, rfl, hpolls, ?_⟩
    by_cases htime : last.inTime (scripted.now first)
    · rw [if_pos htime] at hresult
      by_cases hshows : last.shows mask set = true
      · exact ⟨htime, hshows⟩
      · rw [if_neg hshows] at hresult
        cases hresult
    · rw [if_neg htime] at hresult
      cases hresult
  · rintro ⟨rfl, first, polls, last, rfl, hpolls, htime, hshows⟩
    refine ⟨first.now, p', polls ++ last :: js, Proc.act_eq_some.mpr ⟨first, rfl, rfl⟩, ?_⟩
    refine Proc.poll_eq_some.mpr ⟨polls, last, (p', ()), (), rfl, ?_, ?_⟩
    · exact (waitRound_goes hbus).mpr ⟨rfl, hpolls⟩
    · rw [hround, if_pos htime, if_pos hshows]

/-- The answers with which a distance is read: the eight writes and both waits succeed, and then the
word of the range and the write that clears the interrupt. -/
def Completes (distance : UInt16) (is js : List Answer) : Prop :=
  ∃ (starts : List Answer) (ks ls : List Answer) (range clear : Answer), is = starts ++ ks ∧
    starts.length = 8 ∧ (∀ a ∈ starts, a.ok = true) ∧ Waits 0x01 false ks ls ∧
    Waits 0x07 true ls (range :: clear :: js) ∧ range.ok = true ∧
    word (range.bytes 2) = distance ∧ clear.ok = true

theorem startRange_ok (hbus : p.ctx.bus = true) :
    startRange scripted p is = (some true, p', js) ↔
      p' = p ∧ ∃ starts : List Answer, is = starts ++ js ∧ starts.length = 8 ∧
        ∀ a ∈ starts, a.ok = true :=
  allOk_writes hbus [(0x80, 0x01), (0xFF, 0x01), (0x00, 0x00), (0x91, p.ctx.stopVariable),
    (0x00, 0x01), (0xFF, 0x00), (0x80, 0x00), (regSysrangeStart, 0x01)]

theorem startRange_nobus (hbus : p.ctx.bus = false) {b : Bool} (h :
    startRange scripted p is = (some b, p', js)) : b = false := by
  obtain ⟨v, q, ks, hgets, hall⟩ := Proc.bind_eq_some.mp h
  obtain ⟨-, rfl, rfl⟩ := Proc.gets_eq_some.mp hgets
  obtain ⟨r, q, ls, hw, hrest⟩ := Proc.bind_eq_some.mp hall
  obtain ⟨a, rfl, htransfer⟩ := Proc.act_eq_some.mp hw
  have hinval : writeTransfer scripted p 0x80 [0x01] a = (p, -RT_EINVAL) := by
    simp [writeTransfer, hbus]
  rw [hinval] at htransfer
  obtain ⟨rfl, rfl⟩ := Prod.mk.inj htransfer
  rw [if_pos (by decide)] at hrest
  exact (Proc.pure_eq_some.mp hrest).1.symm

theorem readDistance_ok {unread distance : UInt16} :
    readDistance scripted unread p is = (some (RT_EOK, distance), p', js) ↔
      p.ctx.bus = true ∧ p' = p ∧ Completes distance is js := by
  have hne : ∀ {e : RtErr}, e ≠ RT_EOK → (e, unread) ≠ (RT_EOK, distance) :=
    fun he heq => he (Prod.mk.inj heq).1
  unfold readDistance
  constructor
  · intro hrun
    obtain ⟨started, q, ks, hstart, hstarted, hrun'⟩ :=
      (Proc.bind_ite_eq_some (hne (by decide))).mp hrun
    obtain rfl : started = true := by simpa using hstarted
    have hbus : p.ctx.bus = true := by
      by_contra hno
      have hfalse := startRange_nobus (by simpa using hno) hstart
      cases hfalse
    obtain ⟨rfl, starts, rfl, hlen, hok⟩ := (startRange_ok hbus).mp hstart
    obtain ⟨begun, q, ks, hbegin, hbegun, hrest⟩ :=
      (Proc.bind_ite_eq_some (hne (by decide))).mp hrun'
    obtain rfl : begun = true := by simpa using hbegun
    obtain ⟨rfl, hwait⟩ := (waitRegBits_ok hbus).mp hbegin
    obtain ⟨done, q, ls, hdo, hdone, hrest'⟩ :=
      (Proc.bind_ite_eq_some (hne (by decide))).mp hrest
    obtain rfl : done = true := by simpa using hdone
    obtain ⟨rfl, hwait'⟩ := (waitRegBits_ok hbus).mp hdo
    obtain ⟨r, q, ms, hread, hend⟩ := Proc.bind_eq_some.mp hrest'
    cases r with
    | error e => exact absurd (Proc.pure_eq_some.mp hend).1 (hne (by decide))
    | ok distance' =>
      obtain ⟨rfl, range, rfl, hrange, hword⟩ := (readU16_ok hbus).mp hread
      obtain ⟨r, q, ns, hclear, hret⟩ := Proc.bind_eq_some.mp hend
      obtain ⟨heq, rfl, rfl⟩ := Proc.pure_eq_some.mp hret
      obtain ⟨rfl, rfl⟩ := Prod.mk.inj heq
      obtain ⟨rfl, clear, rfl, hok'⟩ := (writeU8_ok hbus).mp hclear
      exact ⟨hbus, rfl, starts, _, _, range, clear, rfl, hlen, hok, hwait, hwait', hrange, hword,
        hok'⟩
  · rintro ⟨hbus, rfl, starts, ks, ls, range, clear, rfl, hlen, hok, hwait, hwait', hrange, hword,
      hok'⟩
    have hstart : startRange scripted p' (starts ++ ks) = (some true, p', ks) :=
      (startRange_ok hbus).mpr ⟨rfl, starts, rfl, hlen, hok⟩
    have hbegin : waitRegBits scripted regSysrangeStart 0x01 false p' ks = (some true, p', ls) :=
      (waitRegBits_ok hbus).mpr ⟨rfl, hwait⟩
    have hdo : waitRegBits scripted regResultInterruptStatus 0x07 true p' ls =
        (some true, p', range :: clear :: js) := (waitRegBits_ok hbus).mpr ⟨rfl, hwait'⟩
    refine (Proc.bind_ite_eq_some (hne (by decide))).mpr ⟨true, p', ks, hstart, by decide, ?_⟩
    refine (Proc.bind_ite_eq_some (hne (by decide))).mpr ⟨true, p', ls, hbegin, by decide, ?_⟩
    refine (Proc.bind_ite_eq_some (hne (by decide))).mpr ⟨true, p', _, hdo, by decide, ?_⟩
    refine Proc.bind_eq_some.mpr ⟨_, p', _, (readU16_ok hbus).mpr ⟨rfl, range, rfl, hrange, hword⟩, ?_⟩
    exact Proc.bind_eq_some.mpr ⟨_, p', js, (writeU8_ok hbus).mpr ⟨rfl, clear, rfl, hok'⟩, rfl⟩

/-- The distance that is read counts as a failure. -/
def Misread (is : List Answer) : Prop :=
  ∃ distance js, (distance = 0 ∨ distance = Cleaner.tofInvalidMm) ∧ Completes distance is js

theorem usable_iff {result : RtErr} {distance : UInt16} : usable result distance = true ↔
    result = RT_EOK ∧ ¬ (distance = 0 ∨ distance = Cleaner.tofInvalidMm) := by
  unfold usable
  simp only [Bool.and_eq_true, decide_eq_true_eq, not_or, and_assoc]

variable {d d' : GuardDev Unit} {r : RtErr}

theorem sampleOnce_received (h : sampleOnce scripted d is = (some r, d', js)) :
    (r = RT_EOK → Received d d') ↔ ¬ (d.probe.ctx.bus = true ∧ Misread is) := by
  obtain ⟨result, distance, probe, ks, hread, -, hcases⟩ := sampleOnce_cases h
  have hone : ∀ {distance' ls}, d.probe.ctx.bus = true → Completes distance' is ls →
      result = RT_EOK ∧ distance = distance' := by
    intro distance' ls hbus hcompletes
    have hread' : readDistance scripted Cleaner.tofInvalidMm d.probe is =
        (some (RT_EOK, distance'), d.probe, ls) := readDistance_ok.mpr ⟨hbus, rfl, hcompletes⟩
    rw [hread] at hread'
    simp only [Prod.mk.injEq, Option.some.injEq] at hread'
    exact hread'.1
  rcases hcases with ⟨husable, hr, g, hg, hvalid, -⟩ | ⟨hnot, hr, hnone⟩
  · refine iff_of_true (fun _ => ⟨g, hg, hvalid⟩) ?_
    rintro ⟨hbus, distance', ls, hbad, hcompletes⟩
    obtain ⟨-, rfl⟩ := hone hbus hcompletes
    exact (usable_iff.mp husable).2 hbad
  · constructor
    · rintro hprop ⟨hbus, distance', ls, hbad, hcompletes⟩
      exact hnone.not_received (hprop (hr.trans (hone hbus hcompletes).1))
    · intro hcond hok
      subst hr hok
      obtain ⟨hbus, -, hcompletes⟩ := readDistance_ok.mp hread
      refine absurd ⟨hbus, distance, ks, ?_, hcompletes⟩ hcond
      by_contra hgood
      rw [usable_iff.mpr ⟨rfl, hgood⟩] at hnot
      cases hnot

end Script

section Init

variable {σ ι : Type} {B : I2cBus σ ι} {d d' : GuardDev σ} {is js : List ι} {r : RtErr}
  {busFound threadCreated : Bool}

/-- The driver after `hcics_guard_init` cleared its context. -/
def cleared (d : GuardDev σ) (busFound : Bool) : Probe σ :=
  ⟨⟨false, false, 0, 0, busFound, false⟩, d.probe.bus⟩

/-- What a first call of `hcics_guard_init` does: it fails to set up the sensor, or it takes a sample
and returns success where that did and the thread could be created. It is ready where it returns
success. -/
theorem init_cases (hfirst : d.probe.ctx.initialized = false)
    (h : init B busFound threadCreated d is = (some r, d', js)) :
    (isReady d' = true ↔ r = RT_EOK) ∧
    ((r ≠ RT_EOK ∧
        ∀ p ks, busFound = true → sensorInit B (cleared d busFound) is ≠ (some RT_EOK, p, ks)) ∨
      ∃ p ks e r', busFound = true ∧ sensorInit B (cleared d busFound) is = (some RT_EOK, p, ks) ∧
        p.ctx.bus = true ∧ sampleOnce B { d with probe := p } ks = (some r', e, js) ∧
        d'.received = e.received ∧ (r = RT_EOK ↔ r' = RT_EOK ∧ threadCreated = true)) := by
  have hneg : ∀ {e : RtErr}, e ≠ RT_EOK → (false = true ↔ e = RT_EOK) := fun he =>
    iff_of_false Bool.false_ne_true he
  unfold init at h
  obtain ⟨initialized, e₀, is₀, hgets, hinit⟩ := Proc.bind_eq_some.mp h
  obtain ⟨rfl, rfl, rfl⟩ := Proc.gets_eq_some.mp hgets
  rw [if_neg (by simp [hfirst])] at hinit
  obtain ⟨u, e₁, is₁, hclear, hbus⟩ := Proc.bind_eq_some.mp hinit
  obtain ⟨rfl, rfl⟩ := Proc.modify_eq_some.mp hclear
  cases busFound with
  | false =>
    obtain ⟨rfl, rfl, rfl⟩ := Proc.pure_eq_some.mp hbus
    exact ⟨hneg (by decide), .inl ⟨by decide, fun p ks hfound => by cases hfound⟩⟩
  | true =>
    rw [if_neg (by decide)] at hbus
    obtain ⟨result, e₂, ks, hprobe, hrest⟩ := Proc.bind_eq_some.mp hbus
    obtain ⟨p, hsensor, rfl⟩ := Proc.within_eq_some.mp hprobe
    change sensorInit B (cleared d true) is = (some result, p, ks) at hsensor
    have hkept : Kept B fun p : Probe σ => p.ctx.bus = true ∧ p.ctx.ready = false := by
      have hctx := kept_ctx B
      exact ⟨fun p reg data i hp => by rw [(hctx p.ctx).write p reg data i rfl]; exact hp,
        fun len p reg i hp => by rw [(hctx p.ctx).read len p reg i rfl]; exact hp⟩
    obtain ⟨hpbus, hpready⟩ := ((hkept.sensorInit fun p value hp => hp) (cleared d true) is
      ⟨rfl, rfl⟩).1 _ _ _ hsensor
    by_cases hresult : result = RT_EOK
    · subst hresult
      rw [if_neg (by decide)] at hrest
      obtain ⟨r', e, ls, hsample, hend⟩ := Proc.bind_eq_some.mp hrest
      have heready : e.probe.ctx.ready = false := by
        obtain ⟨_, _, probe, _, hread, heprobe, -⟩ := sampleOnce_cases hsample
        have hctx := ((kept_ctx B p.ctx).readDistance Cleaner.tofInvalidMm p ks rfl).1 _ _ _ hread
        rw [heprobe]
        show probe.ctx.ready = false
        rw [hctx]
        exact hpready
      by_cases hr' : r' = RT_EOK
      · subst hr'
        rw [if_neg (by decide)] at hend
        cases threadCreated with
        | false =>
          obtain ⟨rfl, rfl, rfl⟩ := Proc.pure_eq_some.mp hend
          refine ⟨?_, .inr ⟨p, ks, e, RT_EOK, rfl, hsensor, hpbus, hsample, rfl, by decide⟩⟩
          unfold isReady
          rw [heready]
          exact hneg (by decide)
        | true =>
          rw [if_neg (by decide)] at hend
          obtain ⟨u, e₃, ms, hset, hret⟩ := Proc.bind_eq_some.mp hend
          obtain ⟨rfl, rfl⟩ := Proc.modify_eq_some.mp hset
          obtain ⟨rfl, rfl, rfl⟩ := Proc.pure_eq_some.mp hret
          exact ⟨iff_of_true rfl rfl,
            .inr ⟨p, ks, e, RT_EOK, rfl, hsensor, hpbus, hsample, rfl, by decide⟩⟩
      · rw [if_pos hr'] at hend
        obtain ⟨rfl, rfl, rfl⟩ := Proc.pure_eq_some.mp hend
        refine ⟨?_, .inr ⟨p, ks, e, r', rfl, hsensor, hpbus, hsample, rfl, ?_⟩⟩
        · unfold isReady
          rw [heready]
          exact hneg hr'
        · exact iff_of_false hr' fun h => hr' h.1
    · rw [if_pos hresult] at hrest
      obtain ⟨rfl, rfl, rfl⟩ := Proc.pure_eq_some.mp hrest
      refine ⟨?_, .inl ⟨hresult, fun p' ks' _ hok => ?_⟩⟩
      · unfold isReady
        show p.ctx.ready = true ↔ _
        rw [hpready]
        exact hneg hresult
      · rw [hsensor] at hok
        exact hresult (Option.some.inj (Prod.mk.inj hok).1)

end Init

/-- When initialisation needs a real reading. For every list of answers with which it returns, a
sample that returns success published a valid distance, unless all its transfers succeed, both waits
end in time, and the range they bring is 0 or 0xFFFF. And a first call of `hcics_guard_init` that
returns success or leaves the guard ready handed a valid distance to the cleaner, unless the first
sample is such a one and nothing else fails. -/
theorem first_sample_received (d d' : GuardDev Unit) (is js : List Answer) (r : RtErr) :
    (sampleOnce scripted d is = (some r, d', js) →
      ((r = RT_EOK → Received d d') ↔ ¬ (d.probe.ctx.bus = true ∧ Misread is))) ∧
    ∀ busFound threadCreated, d.probe.ctx.initialized = false →
      init scripted busFound threadCreated d is = (some r, d', js) →
      ((r = RT_EOK ∨ isReady d' = true → Received d d') ↔
        ¬ (busFound = true ∧ threadCreated = true ∧ ∃ p ks,
          sensorInit scripted (cleared d busFound) is = (some RT_EOK, p, ks) ∧ Misread ks)) := by
  refine ⟨sampleOnce_received, fun busFound threadCreated hfirst h => ?_⟩
  obtain ⟨hready, hcases⟩ := init_cases hfirst h
  rw [hready, or_self]
  rcases hcases with ⟨hfail, hnone⟩ | ⟨p, ks, e, r', rfl, hsensor, hbus, hsample, hreceived, hok⟩
  · refine iff_of_true (fun hok => absurd hok hfail) ?_
    rintro ⟨hfound, -, p, ks, hsensor, -⟩
    exact hnone p ks hfound hsensor
  · have hsame : Received d d' ↔ Received { d with probe := p } e := by
      unfold Received
      rw [hreceived]
    have hpart := sampleOnce_received hsample
    cases threadCreated with
    | false =>
      refine iff_of_true (fun h => absurd (hok.mp h).2 (by decide)) ?_
      rintro ⟨-, hthread, -⟩
      cases hthread
    | true =>
      rw [hok, hsame, and_iff_left rfl, hpart]
      refine not_congr ⟨fun hbad => ⟨rfl, rfl, p, ks, hsensor, hbad.2⟩, ?_⟩
      rintro ⟨-, -, p', ks', hsensor', hbad⟩
      rw [hsensor] at hsensor'
      cases hsensor'
      exact ⟨hbus, hbad⟩

/-- An answer that every transfer of the driver succeeds with, in time. -/
def good : Answer := ⟨0, true, [0xEE]⟩

/-- The answers of a sample that brings this word. -/
def sampleOf (high low : UInt8) : List Answer :=
  List.replicate 12 good ++ [⟨0, true, [high, low]⟩, good, good, good]

/-- The driver before it is initialised. -/
def unused : GuardDev Unit := ⟨⟨⟨false, false, 0, 0, false, false⟩, ()⟩, Cleaner.booted, []⟩

/-- A first call with a sensor that answers, and then with that word. -/
def initWith (high low : UInt8) : Option RtErr × GuardDev Unit × List Answer :=
  init scripted true true unused (List.replicate 142 good ++ sampleOf high low)

/-- The first sample on its own. -/
def sampleWith (high low : UInt8) : Option RtErr × GuardDev Unit × List Answer :=
  sampleOnce scripted { unused with probe := cleared unused true } (sampleOf high low)

/-- A sensor without a target in its range answers 0xFFFF: the sample and the initialisation return
success, the guard is ready, and the cleaner received nothing. -/
theorem init_without_reading :
    (sampleWith 0xFF 0xFF).1 = some RT_EOK ∧ (sampleWith 0xFF 0xFF).2.1.received = [] ∧
    (initWith 0xFF 0xFF).1 = some RT_EOK ∧ isReady (initWith 0xFF 0xFF).2.1 = true ∧
    (initWith 0xFF 0xFF).2.1.received = [] := by
  decide +kernel

/-- At 100 mm both hand a valid distance over. -/
theorem first_sample_received_near : ¬ Misread (sampleOf 0 100) ∧
    ¬ ∃ p ks, sensorInit scripted (cleared unused true) (List.replicate 142 good ++ sampleOf 0 100) =
      (some RT_EOK, p, ks) ∧ Misread ks := by
  have hsample : (sampleWith 0 100).1 = some RT_EOK := by decide +kernel
  have hinit : (initWith 0 100).1 = some RT_EOK := by decide +kernel
  have hsampled : (sampleWith 0 100).2.1.received = [⟨100, true, false, false, 0⟩] := by
    decide +kernel
  have hinitialised : (initWith 0 100).2.1.received = [⟨100, true, false, false, 0⟩] := by
    decide +kernel
  generalize hs : sampleWith 0 100 = sampled at hsample hsampled
  generalize hi : initWith 0 100 = initialised at hinit hinitialised
  obtain ⟨_, d, js⟩ := sampled
  obtain ⟨_, e, ks⟩ := initialised
  subst hsample hinit
  obtain ⟨hpart, -⟩ := first_sample_received _ d _ js RT_EOK
  obtain ⟨-, hwhole⟩ := first_sample_received unused e _ ks RT_EOK
  constructor
  · intro hbad
    exact (hpart hs).mp (fun _ => ⟨_, hsampled, rfl⟩) ⟨rfl, hbad⟩
  · intro hbad
    exact (hwhole true true rfl hi).mp (fun _ => ⟨_, hinitialised, rfl⟩) ⟨rfl, rfl, hbad⟩

end Guard

end Hcics
