import Hcics.Guard.First

/-!
# Stale distances

The sensor here numbers its measurements. What the driver relies on is that the interrupt status is
set when a measurement completes and stays until it is cleared, that the start bit clears once the
measurement has begun, and that the range register holds the last completed measurement. When it
begins a measurement, when it completes one, and what it does with a measurement that another one
was started over, is open, and so is whether a failed write took effect.

`Clean` is when a sample can only publish what it measured itself.
-/

namespace Hcics

namespace Guard

/-- A measurement, with the bytes it leaves in the range register. -/
structure Measurement where
  number : ℕ
  data : Vector UInt8 2
  deriving DecidableEq, Repr

namespace Measurement

/-- The distance that is published for it. -/
def distance (m : Measurement) : UInt16 := word m.data

/-- The distance counts as none. -/
def Unusable (m : Measurement) : Prop := m.distance = 0 ∨ m.distance = Cleaner.tofInvalidMm

instance (m : Measurement) : Decidable m.Unusable := inferInstanceAs (Decidable (_ ∨ _))

end Measurement

/-- The sensor. `started` counts the measurements, `requested` is one whose start bit is still set,
`running` are those that have begun, and `range` is the one in the range register; `taken` is the
one last read from there. -/
structure Sensor where
  page : UInt8
  started : ℕ
  requested : Option ℕ
  running : List ℕ
  interrupt : Bool
  range : Measurement
  taken : Measurement
  requested_le : ∀ k ∈ requested, k ≤ started
  running_le : ∀ k ∈ running, k ≤ started
  range_le : range.number ≤ started
  deriving DecidableEq, Repr

inductive SensorEvent where
  /-- The requested measurement begins. -/
  | begins
  | completes (number : ℕ) (data : Vector UInt8 2)
  /-- The measurement ends without a result. -/
  | ends (number : ℕ)
  deriving DecidableEq, Repr

namespace Sensor

variable {s : Sensor} {n : ℕ}

def event (s : Sensor) : SensorEvent → Sensor
  | .begins =>
    { s with
      requested := none
      running := s.requested.toList ++ s.running
      requested_le := fun _ hk => by cases hk
      running_le := by
        intro k hk
        rcases List.mem_append.mp hk with hk | hk
        · exact s.requested_le k (Option.mem_toList.mp hk)
        · exact s.running_le k hk }
  | .completes number data =>
    if h : number ∈ s.running then
      { s with
        running := s.running.filter (· ≠ number)
        interrupt := true
        range := ⟨number, data⟩
        running_le := fun k hk => s.running_le k (List.mem_of_mem_filter hk)
        range_le := s.running_le number h }
    else s
  | .ends number =>
    { s with
      running := s.running.filter (· ≠ number)
      running_le := fun k hk => s.running_le k (List.mem_of_mem_filter hk) }

def events (s : Sensor) (es : List SensorEvent) : Sensor := es.foldl event s

/-- A write of one byte that the sensor takes: of the page, of the start bit, of the interrupt. -/
def write (s : Sensor) (reg : UInt8) (data : List UInt8) : Sensor :=
  if reg = 0xFF then { s with page := data.headD 0 }
  else if s.page ≠ 0 then s
  else if reg = regSysrangeStart ∧ data.headD 0 &&& 0x01 ≠ 0 then
    { s with
      started := s.started + 1
      requested := some (s.started + 1)
      requested_le := fun _ hk => (Option.mem_some.mp hk).ge
      running_le := fun k hk => (s.running_le k hk).trans (Nat.le_succ _)
      range_le := s.range_le.trans (Nat.le_succ _) }
  else if reg = regSystemInterruptClear then { s with interrupt := false }
  else s

/-- What a register holds; `data` is for those that the driver does not read in a sample. -/
def answer (s : Sensor) (reg : UInt8) (data : List UInt8) : List UInt8 :=
  if s.page ≠ 0 then data
  else if reg = regSysrangeStart then [if s.requested.isSome then 0x01 else 0x00]
  else if reg = regResultInterruptStatus then [if s.interrupt then 0x04 else 0x00]
  else if reg = regResultRangeStatus + 10 then s.range.data.toList
  else data

def read (s : Sensor) (reg : UInt8) : Sensor :=
  if s.page = 0 ∧ reg = regResultRangeStatus + 10 then { s with taken := s.range } else s

end Sensor

/-- One transfer: the time, what the sensor did before it, whether it succeeded, and whether the
sensor took it if it failed. -/
structure Slot where
  now : Tick
  events : List SensorEvent
  ok : Bool
  takes : Bool
  data : List UInt8
  deriving DecidableEq, Repr

def sensorBus : I2cBus Sensor Slot where
  now i := i.now
  write s reg data i :=
    let s := s.events i.events
    (if i.ok || i.takes then s.write reg data else s, i.ok)
  read len s reg i :=
    let s := s.events i.events
    (if i.ok then s.read reg else s,
      if i.ok then some (.ofFn fun k : Fin len => (s.answer reg i.data).getD k 0) else none)

/-- A distance that a sample published: the number of the measurement that its start write started,
the measurement it read, and the distance. -/
structure Publication where
  own : ℕ
  source : Measurement
  distance : UInt16
  deriving DecidableEq, Repr

/-- It was measured by the sample that published it. -/
def Publication.Own (pub : Publication) : Prop :=
  pub.source.number = pub.own ∧ pub.distance = pub.source.distance

def publications (d d' : GuardDev Sensor) : List Publication :=
  ((d'.received.take (d'.received.length - d.received.length)).filter (·.tofValid)).map fun g =>
    ⟨d.probe.bus.started + 1, d'.probe.bus.taken, g.tofMm⟩

/-- The driver after any samples, with what they published, newest first. -/
structure SampleRun where
  dev : GuardDev Sensor
  published : List Publication
  deriving DecidableEq, Repr

namespace SampleRun

/-- A sample with its transfers, or time between two samples. -/
inductive Input where
  | sample (slots : List Slot)
  | idle (es : List SensorEvent)

def step (s : SampleRun) : Input → Option SampleRun
  | .sample slots =>
    match sampleOnce sensorBus s.dev slots with
    | (some _, d, []) => some ⟨d, publications s.dev d ++ s.published⟩
    | _ => none
  | .idle es =>
    let bus := s.dev.probe.bus.events es
    some { s with dev := { s.dev with probe := { s.dev.probe with bus := bus } } }

/-- Any samples, from any state of the sensor on. -/
def machine : Machine SampleRun Input where
  start s := s.published = []
  step := step

end SampleRun

/-! ## A sample from a clean sensor -/

namespace Sensor

variable {s : Sensor} {n : ℕ}

/-- No measurement is under way, and none is ready that would be published. -/
structure Clean (s : Sensor) : Prop where
  requested : s.requested = none
  running : s.running = []
  ready : s.interrupt = true → s.range.Unusable

def Before (s : Sensor) (n : ℕ) : Prop := s.Clean ∧ s.started = n

/-- Before the start write, with a page that the sample has set. -/
def On (s : Sensor) (n : ℕ) (page : UInt8) : Prop := s.Before n ∧ s.page = page

/-- After it: every measurement under way is the one it started, and so is one that is ready. -/
structure After (s : Sensor) (n : ℕ) : Prop where
  page : s.page = 0
  requested : ∀ k ∈ s.requested, k = n + 1
  running : ∀ k ∈ s.running, k = n + 1
  ready : s.interrupt = true → s.range.number = n + 1 ∨ s.range.Unusable

@[simp] theorem event_page (s : Sensor) (e : SensorEvent) : (s.event e).page = s.page := by
  cases e with
  | completes number data =>
    unfold event
    dsimp only
    split <;> rfl
  | _ => rfl

@[simp] theorem event_taken (s : Sensor) (e : SensorEvent) : (s.event e).taken = s.taken := by
  cases e with
  | completes number data =>
    unfold event
    dsimp only
    split <;> rfl
  | _ => rfl

theorem event_interrupt (h : s.interrupt = true) (e : SensorEvent) :
    (s.event e).interrupt = true := by
  cases e with
  | completes number data =>
    unfold event
    dsimp only
    split
    · rfl
    · exact h
  | _ => exact h

theorem Before.event (h : s.Before n) (e : SensorEvent) : (s.event e).Before n := by
  obtain ⟨⟨hreq, hrun, hready⟩, hn⟩ := h
  cases e with
  | begins => exact ⟨⟨rfl, by simp [Sensor.event, hreq, hrun], hready⟩, hn⟩
  | completes number data =>
    have hnone : number ∉ s.running := by simp [hrun]
    simp only [Sensor.event, dif_neg hnone]
    exact ⟨⟨hreq, hrun, hready⟩, hn⟩
  | ends number => exact ⟨⟨hreq, by simp [Sensor.event, hrun], hready⟩, hn⟩

theorem After.event (h : s.After n) (e : SensorEvent) : (s.event e).After n := by
  obtain ⟨hpage, hreq, hrun, hready⟩ := h
  cases e with
  | begins =>
    refine ⟨hpage, (fun k hk => by cases hk), fun k hk => ?_, hready⟩
    rcases List.mem_append.mp hk with hk | hk
    · exact hreq k (Option.mem_toList.mp hk)
    · exact hrun k hk
  | completes number data =>
    by_cases hmem : number ∈ s.running
    · simp only [Sensor.event, dif_pos hmem]
      exact ⟨hpage, hreq, fun k hk => hrun k (List.mem_of_mem_filter hk),
        fun _ => .inl (hrun number hmem)⟩
    · simp only [Sensor.event, dif_neg hmem]
      exact ⟨hpage, hreq, hrun, hready⟩
  | ends number =>
    exact ⟨hpage, hreq, fun k hk => hrun k (List.mem_of_mem_filter hk), hready⟩

theorem On.event {page : UInt8} (h : s.On n page) (e : SensorEvent) : (s.event e).On n page :=
  ⟨h.1.event e, by rw [event_page, h.2]⟩

theorem events_keep {P : Sensor → Prop} (h : ∀ s e, P s → P (s.event e)) (hs : P s)
    (es : List SensorEvent) : P (s.events es) := by
  unfold events
  induction es generalizing s with
  | nil => exact hs
  | cons e es ih => exact ih (h s e hs)

theorem write_still {reg : UInt8} {data : List UInt8} (hreg : reg ≠ 0xFF)
    (h : s.page ≠ 0 ∨ (reg ≠ regSysrangeStart ∨ data.headD 0 &&& 0x01 = 0) ∧
      reg ≠ regSystemInterruptClear) : s.write reg data = s := by
  unfold write
  rw [if_neg hreg]
  by_cases hpage : s.page ≠ 0
  · rw [if_pos hpage]
  · obtain ⟨hstart, hclear⟩ := h.resolve_left hpage
    rw [if_neg hpage, if_neg hclear, if_neg]
    rintro ⟨hs, hbit⟩
    exact hstart.elim (fun hne => hne hs) hbit

theorem Before.setPage (h : s.Before n) (page : UInt8) : (s.write 0xFF [page]).On n page := by
  rw [write, if_pos rfl]
  exact ⟨⟨⟨h.1.requested, h.1.running, h.1.ready⟩, h.2⟩, rfl⟩

theorem On.start (h : s.On n 0) : (s.write regSysrangeStart [0x01]).After n := by
  obtain ⟨⟨⟨hreq, hrun, hready⟩, rfl⟩, hpage⟩ := h
  have hwrite : s.write regSysrangeStart [0x01] = { s with
      started := s.started + 1
      requested := some (s.started + 1)
      requested_le := fun _ hk => (Option.mem_some.mp hk).ge
      running_le := fun k hk => (s.running_le k hk).trans (Nat.le_succ _)
      range_le := s.range_le.trans (Nat.le_succ _) } := by
    rw [write, if_neg (by decide), if_neg (by simp [hpage]), if_pos ⟨rfl, by decide⟩]
  rw [hwrite]
  refine ⟨hpage, fun k hk => (Option.mem_some.mp hk).symm, fun k hk => ?_,
    fun hint => .inr (hready hint)⟩
  rw [hrun] at hk
  cases hk

theorem After.read (h : s.After n) (reg : UInt8) : (s.read reg).After n := by
  unfold Sensor.read
  split
  · exact ⟨h.page, h.requested, h.running, h.ready⟩
  · exact h

@[simp] theorem read_interrupt (s : Sensor) (reg : UInt8) :
    (s.read reg).interrupt = s.interrupt := by
  unfold read
  split <;> rfl

@[simp] theorem write_taken (s : Sensor) (reg : UInt8) (data : List UInt8) :
    (s.write reg data).taken = s.taken := by
  unfold write
  split_ifs <;> rfl

end Sensor

theorem ofFn_bytes (m : Measurement) :
    (.ofFn fun k : Fin 2 => m.data.toList.getD k 0 : Vector UInt8 2) = m.data := by
  refine Vector.ext fun k hk => ?_
  have hlen : k < m.data.toList.length := by rwa [Vector.length_toList]
  rw [Vector.getElem_ofFn, List.getD_eq_getElem?_getD, List.getElem?_eq_getElem hlen,
    Option.getD_some, Vector.getElem_toList]

section Bus

variable {P : Sensor → Prop} {n : ℕ} {reg value : UInt8}

/-- A write that succeeds was taken. -/
theorem writeU8_sensor (P Q : Sensor → Prop) (hev : ∀ s e, P s → P (s.event e))
    (hw : ∀ s, P s → Q (s.write reg [value])) :
    Proc.Spec (fun p => P p.bus) (writeU8 sensorBus reg value) anywhere
      fun r p => r = RT_EOK → Q p.bus := by
  refine .act (fun _ _ => trivial) fun p i hp => ?_
  unfold writeTransfer
  split_ifs with hbus hlen
  · intro hr
    cases hr
  · intro hr
    cases hr
  · intro hr
    have hok : i.ok = true := by
      by_contra hfail
      simp [sensorBus, hfail] at hr
    show Q (if (i.ok || i.takes) = true then _ else _)
    rw [if_pos (by simp [hok])]
    exact hw _ (Sensor.events_keep hev hp i.events)

theorem readTransfer_sensor {len : ℕ} (hev : ∀ s e, P s → P (s.event e))
    (hr : ∀ s, P s → P (s.read reg)) (p : Probe Sensor) (i : Slot) (hp : P p.bus) :
    P (readTransfer sensorBus len p reg i).1.bus := by
  have hp' := Sensor.events_keep hev hp i.events
  unfold readTransfer
  split
  · exact hp
  · simp only [sensorBus]
    split
    · exact hr _ hp'
    · exact hp'

theorem startRange_sensor : Proc.Spec (fun p => p.bus.Before n) (startRange sensorBus) anywhere
    fun ok p => ok = true → p.bus.After n := by
  have hbefore : ∀ {reg value}, reg ≠ 0xFF → reg ≠ regSysrangeStart → reg ≠ regSystemInterruptClear →
      Proc.Spec (fun p => p.bus.Before n) (writeU8 sensorBus reg value) anywhere
        fun r p => r = RT_EOK → p.bus.Before n := by
    intro reg value hpage hstart hclear
    refine writeU8_sensor (·.Before n) (·.Before n) (fun _ e hs => hs.event e) fun s hs => ?_
    rwa [Sensor.write_still hpage (.inr ⟨.inl hstart, hclear⟩)]
  -- on the page 1 the register 0 is not the start register
  have hfirst : ∀ {reg value}, reg ≠ 0xFF →
      Proc.Spec (fun p => p.bus.On n 1) (writeU8 sensorBus reg value) anywhere
        fun r p => r = RT_EOK → p.bus.On n 1 := by
    intro reg value hpage
    refine writeU8_sensor (·.On n 1) (·.On n 1) (fun _ e hs => hs.event e) fun s hs => ?_
    rwa [Sensor.write_still hpage (.inl (by rw [hs.2]; decide))]
  refine .bind (Q := fun _ p => p.bus.Before n) (.gets fun _ hp => hp) fun stopVariable => ?_
  refine allOk_cons (hbefore (by decide) (by decide) (by decide)) ?_
  refine allOk_cons (Q := fun p => p.bus.On n 1) ?_ ?_
  · exact writeU8_sensor (·.Before n) (·.On n 1) (fun _ e hs => hs.event e) fun _ hs => hs.setPage 1
  refine allOk_cons (hfirst (by decide)) (allOk_cons (hfirst (by decide)) ?_)
  refine allOk_cons (hfirst (by decide)) ?_
  refine allOk_cons (Q := fun p => p.bus.On n 0) ?_ ?_
  · exact writeU8_sensor (·.On n 1) (·.On n 0) (fun _ e hs => hs.event e) fun _ hs => hs.1.setPage 0
  refine allOk_cons (Q := fun p => p.bus.On n 0) ?_ ?_
  · refine writeU8_sensor (·.On n 0) (·.On n 0) (fun _ e hs => hs.event e) fun s hs => ?_
    rwa [Sensor.write_still (by decide) (.inr ⟨.inl (by decide), by decide⟩)]
  refine allOk_cons (Q := fun p => p.bus.After n) ?_ (.pure fun _ hp _ => hp)
  exact writeU8_sensor (·.On n 0) (·.After n) (fun _ e hs => hs.event e) fun _ hs => hs.start

/-- The measurement that is read is the own one, or its distance is not published. -/
def Own (n : ℕ) (m : Measurement) : Prop := m.number = n + 1 ∨ m.Unusable

theorem readTransfer_after {len : ℕ} (p : Probe Sensor) (i : Slot) (h : p.bus.After n) :
    (readTransfer sensorBus len p reg i).1.bus.After n :=
  readTransfer_sensor (P := (·.After n)) (fun _ e hs => hs.event e) (fun _ hs => hs.read reg) p i h

theorem readTransfer_bus {len : ℕ} {p q : Probe Sensor} {i : Slot} {data : Vector UInt8 len}
    (h : readTransfer sensorBus len p reg i = (q, .ok data)) :
    q.bus = (p.bus.events i.events).read reg ∧
      data = .ofFn fun k : Fin len => ((p.bus.events i.events).answer reg i.data).getD k 0 := by
  unfold readTransfer at h
  split at h
  · cases h
  · by_cases hok : i.ok = true
    · simp only [sensorBus, if_pos hok, Prod.mk.injEq, Except.ok.injEq] at h
      obtain ⟨rfl, rfl⟩ := h
      exact ⟨rfl, rfl⟩
    · simp only [sensorBus, if_neg hok, Prod.mk.injEq] at h
      cases h.2

theorem waitInterrupt_sensor : Proc.Spec (fun p => p.bus.After n)
    (waitRegBits sensorBus regResultInterruptStatus 0x07 true) anywhere
    fun ok p => ok = true → p.bus.After n ∧ p.bus.interrupt = true := by
  refine (waitRegBits_shown readTransfer_after 0x07).mono (fun _ h => h) (fun _ h => h) ?_
  rintro ok p ⟨hafter, hshown⟩ hok
  obtain ⟨q, i, value, hq, hread, hbits⟩ := hshown hok
  obtain ⟨hbus, hvalue⟩ := readTransfer_bus hread
  have hq' : (q.bus.events i.events).After n :=
    Sensor.events_keep (P := (·.After n)) (fun _ e hs => hs.event e) hq i.events
  refine ⟨hafter, ?_⟩
  rw [hbus, Sensor.read_interrupt]
  by_contra hnone
  refine hbits ?_
  have hanswer : (q.bus.events i.events).answer regResultInterruptStatus i.data = [0x00] := by
    unfold Sensor.answer
    rw [if_neg (by simp [hq'.page]), if_neg (by decide), if_pos rfl, if_neg hnone]
  rw [hvalue, hanswer]
  exact UInt8.zero_and

/-- The range is that of the measurement which raised the interrupt, or of one after it. -/
theorem readRange_sensor : Proc.Spec (fun p => p.bus.After n ∧ p.bus.interrupt = true)
    (readU16 sensorBus (regResultRangeStatus + 10)) anywhere
    fun r p => ∀ distance, r = .ok distance →
      p.bus.taken.distance = distance ∧ Own n p.bus.taken := by
  have hread : Proc.Spec (fun p => p.bus.After n ∧ p.bus.interrupt = true)
      (readMulti sensorBus 2 (regResultRangeStatus + 10)) anywhere
      fun r p => ∀ data, r = .ok data → p.bus.taken.data = data ∧ Own n p.bus.taken := by
    refine .act (fun _ _ => trivial) fun p i hp data hdata => ?_
    rcases hr : readTransfer sensorBus 2 p (regResultRangeStatus + 10) i with ⟨q, r⟩
    rw [hr] at hdata
    subst hdata
    obtain ⟨hbus, rfl⟩ := readTransfer_bus hr
    have hs := Sensor.events_keep (P := fun s => s.After n ∧ s.interrupt = true)
      (fun s e hs => ⟨hs.1.event e, Sensor.event_interrupt hs.2 e⟩) hp i.events
    generalize p.bus.events i.events = s at hbus hs
    obtain ⟨hafter, hinterrupt⟩ := hs
    have htaken : q.bus.taken = s.range := by
      rw [hbus, Sensor.read, if_pos ⟨hafter.page, rfl⟩]
    have hanswer : s.answer (regResultRangeStatus + 10) i.data = s.range.data.toList := by
      unfold Sensor.answer
      rw [if_neg (by simp [hafter.page]), if_neg (by decide), if_neg (by decide), if_pos rfl]
    show q.bus.taken.data = _ ∧ Own n q.bus.taken
    rw [htaken]
    refine ⟨?_, hafter.ready hinterrupt⟩
    rw [hanswer, ofFn_bytes]
  refine .bind hread fun r => .pure fun p hp distance hdistance => ?_
  cases r with
  | error e => cases hdistance
  | ok data =>
    cases hdistance
    obtain ⟨rfl, hown⟩ := hp data rfl
    exact ⟨rfl, hown⟩

theorem readDistance_sensor {unread : UInt16} :
    Proc.Spec (fun p => p.bus.Before n) (readDistance sensorBus unread) anywhere
      fun r p => r.1 = RT_EOK → p.bus.taken.distance = r.2 ∧ Own n p.bus.taken := by
  have hfail : ∀ {e : RtErr} {P : Probe Sensor → Prop}, e ≠ RT_EOK →
      Proc.Spec P (pure (e, unread) : Proc (Probe Sensor) Slot (RtErr × UInt16)) anywhere
        fun r p => r.1 = RT_EOK → p.bus.taken.distance = r.2 ∧ Own n p.bus.taken :=
    fun he => .pure fun _ _ hok => absurd hok he
  refine .bind startRange_sensor fun started => .ite (fun _ => hfail (by decide)) fun hstarted => ?_
  refine .mono (P := fun p => p.bus.After n) ?_ (fun p hp => hp (by simpa using hstarted))
    (fun _ h => h) fun _ _ h => h
  refine .bind (waitRegBits_keeps (P := fun p : Probe Sensor => p.bus.After n) readTransfer_after _ _) fun _ =>
    .ite (fun _ => hfail (by decide)) fun _ => ?_
  refine .bind waitInterrupt_sensor fun shown => .ite (fun _ => hfail (by decide)) fun hshown => ?_
  refine .mono (P := fun p => p.bus.After n ∧ p.bus.interrupt = true) ?_
    (fun p hp => hp (by simpa using hshown)) (fun _ h => h) fun _ _ h => h
  refine .bind readRange_sensor fun r => ?_
  cases r with
  | error e => exact hfail (by decide)
  | ok distance =>
    refine .bind (Q := fun r p => r = RT_EOK → p.bus.taken.distance = distance ∧ Own n p.bus.taken)
      ?_ fun r => .pure fun p hp hok => hp hok
    refine .mono (P := fun p => p.bus.taken.distance = distance ∧ Own n p.bus.taken) ?_
      (fun p hp => hp distance rfl) (fun _ h => h) fun _ _ h => h
    refine writeU8_sensor (fun s => s.taken.distance = distance ∧ Own n s.taken)
      (fun s => s.taken.distance = distance ∧ Own n s.taken) ?_ ?_
    · intro s e hs
      rwa [Sensor.event_taken]
    · intro s hs
      rwa [Sensor.write_taken]

end Bus

theorem sampleOnce_own {d d' : GuardDev Sensor} {is js : List Slot} {r : RtErr}
    (hclean : d.probe.bus.Clean) (h : sampleOnce sensorBus d is = (some r, d', js)) :
    ∀ pub ∈ publications d d', pub.Own := by
  obtain ⟨result, distance, probe, ks, hread, hprobe, hcases⟩ := sampleOnce_cases h
  have hown := (readDistance_sensor (n := d.probe.bus.started) d.probe is ⟨hclean, rfl⟩).1 _ _ _ hread
  rcases hcases with ⟨husable, -, g, hg, hvalid, hmm⟩ | ⟨-, -, hsame | ⟨g, hg, hvalid⟩⟩
  · obtain ⟨hok, hgood⟩ := usable_iff.mp husable
    obtain ⟨hdistance, hsource⟩ := hown hok
    intro pub hpub
    rw [publications, hg, hprobe] at hpub
    simp only [List.length_cons, Nat.add_sub_cancel_left, List.take_succ_cons, List.take_zero,
      List.filter_cons, hvalid, if_true, List.filter_nil, List.map_cons, List.map_nil,
      List.mem_singleton] at hpub
    subst hpub
    refine ⟨hsource.resolve_right fun hunusable => hgood ?_, ?_⟩
    · rwa [Measurement.Unusable, hdistance] at hunusable
    · exact hmm.trans hdistance.symm
  · intro pub hpub
    simp [publications, hsame] at hpub
  · intro pub hpub
    simp [publications, hg, hvalid] at hpub

/-! ## A sample from any other state -/

namespace Sensor

variable {s : Sensor}

/-- A sensor that is not clean can have a measurement ready before the start write. -/
theorem ready_of_not_clean (h : ¬ s.Clean) : ∃ es, (s.events es).interrupt = true ∧
    ¬ (s.events es).range.Unusable ∧ (s.events es).range.number ≤ s.started := by
  have hgood : ∀ k, ¬ (⟨k, #v[0, 100]⟩ : Measurement).Unusable := fun k => by
    show ¬ (word #v[0, 100] = 0 ∨ word #v[0, 100] = Cleaner.tofInvalidMm)
    decide
  have hcompletes : ∀ (t : Sensor) (k : ℕ), k ∈ t.running →
      (t.event (.completes k #v[0, 100])).interrupt = true ∧
      (t.event (.completes k #v[0, 100])).range = ⟨k, #v[0, 100]⟩ := by
    intro t k hk
    simp only [event, dif_pos hk]
    exact ⟨trivial, trivial⟩
  cases hreq : s.requested with
  | some k =>
    have hrunning : k ∈ (s.event .begins).running := by
      show k ∈ s.requested.toList ++ s.running
      simp [hreq]
    obtain ⟨hint, hrange⟩ := hcompletes _ k hrunning
    refine ⟨[.begins, .completes k #v[0, 100]], hint, ?_, ?_⟩
    · rw [events, List.foldl_cons, List.foldl_cons, List.foldl_nil, hrange]
      exact hgood k
    · rw [events, List.foldl_cons, List.foldl_cons, List.foldl_nil, hrange]
      exact s.requested_le k hreq
  | none =>
    cases hrun : s.running with
    | cons k rest =>
      have hrunning : k ∈ s.running := by simp [hrun]
      obtain ⟨hint, hrange⟩ := hcompletes s k hrunning
      refine ⟨[.completes k #v[0, 100]], hint, ?_, ?_⟩
      · rw [events, List.foldl_cons, List.foldl_nil, hrange]
        exact hgood k
      · rw [events, List.foldl_cons, List.foldl_nil, hrange]
        exact s.running_le k hrunning
    | nil =>
      refine ⟨[], ?_⟩
      by_contra hnot
      refine h ⟨hreq, hrun, fun hint => ?_⟩
      by_contra hready
      exact hnot ⟨hint, hready, s.range_le⟩

end Sensor

/-- A transfer that succeeds, after what the sensor did. -/
def after (es : List SensorEvent) : Slot := ⟨0, es, true, false, []⟩

/-- A transfer that succeeds, with nothing happening before it. -/
abbrev quiet : Slot := after []

theorem allOk_true {σ ι : Type} {p : Proc (Probe σ) ι RtErr} {ps : List (Proc (Probe σ) ι RtErr)}
    {x y z : Probe σ} {is js ks : List ι} (hp : p x is = (some RT_EOK, y, js))
    (hps : allOk ps y js = (some true, z, ks)) : allOk (p :: ps) x is = (some true, z, ks) := by
  refine Proc.bind_eq_some.mpr ⟨RT_EOK, y, js, hp, ?_⟩
  rw [if_neg (not_not.mpr rfl)]
  exact hps

section Smooth

variable {ctx : GuardContext} {s t : Sensor} {reg value : UInt8}

theorem writeU8_after (hbus : ctx.bus = true) {es : List SensorEvent}
    (h : (s.events es).write reg [value] = t) (is : List Slot) :
    writeU8 sensorBus reg value ⟨ctx, s⟩ (after es :: is) = (some RT_EOK, ⟨ctx, t⟩, is) := by
  unfold writeU8 writeMulti
  refine Proc.act_eq_some.mpr ⟨_, rfl, ?_⟩
  unfold writeTransfer
  rw [if_neg (by simp [hbus]), if_neg (by simp), ← h]
  rfl

theorem readTransfer_after_events (s : Sensor) (reg : UInt8) (len : ℕ) (hbus : ctx.bus = true)
    (es : List SensorEvent) : readTransfer sensorBus (len + 1) ⟨ctx, s⟩ reg (after es) = (⟨ctx, (s.events es).read reg⟩,
      .ok (.ofFn fun k : Fin (len + 1) => ((s.events es).answer reg []).getD k 0)) := by
  unfold readTransfer
  rw [if_neg (by simp [hbus])]
  rfl

theorem waitRegBits_after (value : UInt8) (hbus : ctx.bus = true) {mask : UInt8} {set : Bool}
    {es : List SensorEvent} (ht : s.events es = t) (hanswer : t.answer reg [] = [value])
    (hread : t.read reg = t) (hshows : (value &&& mask ≠ 0) = (set = true)) (is : List Slot) :
    waitRegBits sensorBus reg mask set ⟨ctx, s⟩ (quiet :: after es :: is) =
      (some true, ⟨ctx, t⟩, is) := by
  refine Proc.bind_eq_some.mpr ⟨0, ⟨ctx, s⟩, _, Proc.act_eq_some.mpr ⟨quiet, rfl, rfl⟩, ?_⟩
  refine Proc.poll_eq_some.mpr ⟨[], _, (⟨ctx, s⟩, ()), (), rfl, .refl, ?_⟩
  have htransfer := readTransfer_after_events s reg 0 hbus es
  rw [ht, hread, hanswer] at htransfer
  have htime : sensorBus.now (after es) - 0 ≤ tickFromMs i2cTimeoutMs := by
    show (0 : UInt32) - 0 ≤ 80
    decide
  unfold waitRound
  rw [if_pos htime, htransfer]
  cases set with
  | true => simp [hshows]
  | false =>
    have hzero : value &&& mask = 0 := by simpa using hshows
    simp [hzero]

theorem startRange_after (hbus : ctx.bus = true) (es : List SensorEvent) (is : List Slot) :
    startRange sensorBus ⟨ctx, s⟩ (after es :: quiet :: quiet :: quiet :: quiet :: quiet :: quiet ::
      quiet :: is) = (some true,
        ⟨ctx, ({ s.events es with page := 0 } : Sensor).write regSysrangeStart [0x01]⟩, is) := by
  -- the sensor on the page 1, and on the page 0 again
  let s₁ : Sensor := { s.events es with page := 1 }
  let s₀ : Sensor := { s.events es with page := 0 }
  have hstill : ∀ {reg data}, reg ≠ 0xFF → s₁.write reg data = s₁ := fun hreg =>
    Sensor.write_still hreg (.inl (show (1 : UInt8) ≠ 0 by decide))
  refine allOk_true (y := ⟨ctx, s.events es⟩) (writeU8_after hbus ?_ _) ?_
  · exact Sensor.write_still (by decide) (.inr ⟨.inl (by decide), by decide⟩)
  refine allOk_true (y := ⟨ctx, s₁⟩) (writeU8_after hbus rfl _) ?_
  refine allOk_true (y := ⟨ctx, s₁⟩) (writeU8_after hbus ?_ _) ?_
  · exact hstill (by decide)
  refine allOk_true (y := ⟨ctx, s₁⟩) (writeU8_after hbus ?_ _) ?_
  · exact hstill (by decide)
  refine allOk_true (y := ⟨ctx, s₁⟩) (writeU8_after hbus ?_ _) ?_
  · exact hstill (by decide)
  refine allOk_true (y := ⟨ctx, s₀⟩) (writeU8_after hbus rfl _) ?_
  refine allOk_true (y := ⟨ctx, s₀⟩) (writeU8_after hbus ?_ _) ?_
  · exact Sensor.write_still (by decide) (.inr ⟨.inl (by decide), by decide⟩)
  exact allOk_true (writeU8_after hbus rfl _) rfl

/-- A sample in which nothing fails, and which meets what the sensor did at its start. -/
def smooth (es : List SensorEvent) : List Slot :=
  [after es, quiet, quiet, quiet, quiet, quiet, quiet, quiet, quiet, after [.begins], quiet, quiet,
    quiet, quiet, quiet, quiet]

theorem readDistance_smooth (hbus : ctx.bus = true) {es : List SensorEvent}
    (hint : (s.events es).interrupt = true) (unread : UInt16) :
    ∃ t, readDistance sensorBus unread ⟨ctx, s⟩ (smooth es) =
        (some (RT_EOK, (s.events es).range.distance), ⟨ctx, t⟩, [quiet, quiet]) ∧
      t.taken = (s.events es).range := by
  -- the sensor after the start write, after the measurement began, and after the range was read
  let s₁ := ({ s.events es with page := 0 } : Sensor).write regSysrangeStart [0x01]
  let s₂ := s₁.event .begins
  let s₃ : Sensor := { s₂ with taken := s₂.range }
  have hint₂ : s₂.interrupt = true := hint
  refine ⟨s₃.write regSystemInterruptClear [0x01], ?_, ?_⟩
  · unfold readDistance smooth
    refine Proc.bind_eq_some.mpr ⟨true, ⟨ctx, s₁⟩, _, startRange_after hbus es _, ?_⟩
    rw [if_neg (by decide)]
    refine Proc.bind_eq_some.mpr ⟨true, ⟨ctx, s₂⟩, _, waitRegBits_after 0 hbus rfl rfl rfl
      (by decide) _, ?_⟩
    rw [if_neg (by decide)]
    refine Proc.bind_eq_some.mpr ⟨true, ⟨ctx, s₂⟩, _, waitRegBits_after 4 hbus rfl ?_ rfl
      (by decide) _, ?_⟩
    · show [if s₂.interrupt then (0x04 : UInt8) else 0x00] = [4]
      rw [hint₂]
      rfl
    rw [if_neg (by decide)]
    have hread : readU16 sensorBus (regResultRangeStatus + 10) ⟨ctx, s₂⟩ [quiet, quiet, quiet, quiet] =
        (some (.ok (s.events es).range.distance), ⟨ctx, s₃⟩, [quiet, quiet, quiet]) := by
      refine Proc.bind_eq_some.mpr ⟨.ok s₂.range.data, ⟨ctx, s₃⟩, _,
        Proc.act_eq_some.mpr ⟨quiet, rfl, ?_⟩, rfl⟩
      rw [← ofFn_bytes s₂.range]
      exact readTransfer_after_events _ _ 1 hbus []
    refine Proc.bind_eq_some.mpr ⟨_, ⟨ctx, s₃⟩, _, hread, ?_⟩
    exact Proc.bind_eq_some.mpr ⟨RT_EOK, _, _, writeU8_after hbus rfl _, rfl⟩
  · exact Sensor.write_taken _ _ _

end Smooth

/-- A sample from a sensor that is not clean can publish what an earlier sample measured. -/
theorem sampleOnce_stale {d : GuardDev Sensor} (hbus : d.probe.ctx.bus = true)
    (h : ¬ d.probe.bus.Clean) : ∃ slots d', sampleOnce sensorBus d slots = (some RT_EOK, d', []) ∧
      ∃ pub ∈ publications d d', ¬ pub.Own := by
  obtain ⟨es, hint, hgood, hold⟩ := Sensor.ready_of_not_clean h
  obtain ⟨t, hread, htaken⟩ := readDistance_smooth hbus hint Cleaner.tofInvalidMm
  have husable : usable RT_EOK (d.probe.bus.events es).range.distance = true :=
    usable_iff.mpr ⟨rfl, hgood⟩
  obtain ⟨d', hrun⟩ : ∃ d', sampleOnce sensorBus d (smooth es) = (some RT_EOK, d', []) := by
    have hpublish : ∀ e : GuardDev Sensor, ∃ d', publish sensorBus
        (d.probe.bus.events es).range.distance true false e [quiet, quiet] = (some RT_EOK, d', []) :=
      fun e => ⟨_, rfl⟩
    obtain ⟨d', hd'⟩ := hpublish ⟨⟨d.probe.ctx.succeeded, t⟩, d.cleaner, d.received⟩
    refine ⟨d', Proc.bind_eq_some.mpr ⟨_, _, _, Proc.within_eq_some.mpr ⟨_, hread, rfl⟩, ?_⟩⟩
    dsimp only
    rw [if_pos husable]
    exact Proc.bind_eq_some.mpr ⟨⟨⟩, _, _, Proc.modify_eq_some.mpr ⟨rfl, rfl⟩, hd'⟩
  refine ⟨smooth es, d', hrun, ?_⟩
  obtain ⟨result, distance, probe, ks, hread', hprobe, hcases⟩ := sampleOnce_cases hrun
  have hsame := hread.symm.trans hread'
  simp only [Prod.mk.injEq, Option.some.injEq] at hsame
  obtain ⟨⟨rfl, rfl⟩, rfl, -⟩ := hsame
  rcases hcases with ⟨-, -, g, hg, hvalid, -⟩ | ⟨hnot, -, -⟩
  · refine ⟨⟨d.probe.bus.started + 1, t.taken, g.tofMm⟩, ?_, ?_⟩
    · have ht : d'.probe.bus = t := by rw [hprobe]
      simp [publications, hg, hvalid, ht]
    · rintro ⟨hown, -⟩
      rw [htaken] at hown
      dsimp only at hown
      omega
  · rw [husable] at hnot
    cases hnot

/-! ## Runs -/

namespace SampleRun

def FromClean (s : SampleRun) : Input → Prop
  | .sample _ => s.dev.probe.bus.Clean
  | .idle _ => True

theorem step_own {s t : SampleRun} {i : Input} (hs : ∀ pub ∈ s.published, pub.Own)
    (hok : FromClean s i) (hstep : s.step i = some t) : ∀ pub ∈ t.published, pub.Own := by
  cases i with
  | sample slots =>
    simp only [step] at hstep
    split at hstep
    · next d hrun =>
      cases hstep
      intro pub hpub
      rcases List.mem_append.mp hpub with hpub | hpub
      · exact sampleOnce_own hok hrun pub hpub
      · exact hs pub hpub
    · cases hstep
  | idle es =>
    cases hstep
    exact hs

/-- When a published distance was measured by the sample that publishes it. In every run whose
samples all begin with a clean sensor, whatever transfers fail and whatever the sensor does in
between: every valid distance that was published is that of the measurement which the start write of
the same sample started. And no sensor that is not clean will do: from it a sample can publish an
earlier measurement. -/
theorem published_is_own (s : SampleRun) :
    (machine.Reach FromClean s → ∀ pub ∈ s.published, pub.Own) ∧
    (s.dev.probe.ctx.bus = true →
      ((∀ slots r d' rest, sampleOnce sensorBus s.dev slots = (some r, d', rest) →
          ∀ pub ∈ publications s.dev d', pub.Own) ↔ s.dev.probe.bus.Clean)) := by
  refine ⟨fun hs => ?_, fun hbus => ⟨fun hall => ?_, fun hclean slots r d' rest hrun => ?_⟩⟩
  · refine hs.inv ?_ fun _ _ _ _ hs hok hstep => step_own hs hok hstep
    intro s hnone pub hpub
    rw [hnone] at hpub
    cases hpub
  · by_contra hnot
    obtain ⟨slots, d', hrun, pub, hpub, hold⟩ := sampleOnce_stale hbus hnot
    exact hold (hall _ _ _ _ hrun pub hpub)
  · exact sampleOnce_own hclean hrun

def initialised : Sensor where
  page := 0
  started := 0
  requested := none
  running := []
  interrupt := false
  range := ⟨0, #v[0, 0]⟩
  taken := ⟨0, #v[0, 0]⟩
  requested_le := fun _ hk => by cases hk
  running_le := fun _ hk => by cases hk
  range_le := le_rfl

/-- The driver with it. -/
def boot : SampleRun :=
  ⟨⟨⟨⟨true, true, 0, 0, true, true⟩, initialised⟩, Cleaner.booted, []⟩, []⟩

/-- A sample whose measurement completes, at 100 mm, and whose read of the range fails; and one in
which nothing fails. -/
def lostRead : List Slot :=
  [quiet, quiet, quiet, quiet, quiet, quiet, quiet, quiet, quiet, after [.begins], quiet,
    after [.completes 1 #v[0, 100]], ⟨0, [], false, false, []⟩]

/-- From a clean sensor, the second sample publishes what the first one measured. -/
theorem published_is_own_stale : boot.dev.probe.bus.Clean ∧
    ∃ s, machine.exec boot [.sample lostRead, .sample (smooth [])] = some s ∧
      ∃ pub ∈ s.published, ¬ pub.Own := by
  let s := (machine.exec boot [.sample lostRead, .sample (smooth [])]).get (by decide +kernel)
  have hpublished : s.published = [⟨2, ⟨1, #v[0, 100]⟩, 100⟩] := by decide +kernel
  refine ⟨⟨rfl, rfl, fun h => by cases h⟩, s, by simp [s], ⟨2, ⟨1, #v[0, 100]⟩, 100⟩, ?_, ?_⟩
  · rw [hpublished]
    exact List.mem_singleton_self _
  · rintro ⟨hown, -⟩
    cases hown

/-- A sample whose measurement completes, and nothing fails. -/
def near : List Slot :=
  [quiet, quiet, quiet, quiet, quiet, quiet, quiet, quiet, quiet, after [.begins], quiet,
    after [.completes 1 #v[0, 100]], quiet, quiet, quiet, quiet]

/-- It publishes its own measurement, and so does every sample in its place. -/
theorem published_is_own_near : (∃ s : SampleRun,
      s.published = [⟨1, ⟨1, #v[0, 100]⟩, 100⟩] ∧ ∀ pub ∈ s.published, pub.Own) ∧
    ∀ slots r d' rest, sampleOnce sensorBus boot.dev slots = (some r, d', rest) →
      ∀ pub ∈ publications boot.dev d', pub.Own := by
  let s := (step boot (.sample near)).get (by decide +kernel)
  have hclean : FromClean boot (.sample near) := ⟨rfl, rfl, fun h => by cases h⟩
  have hstep : step boot (.sample near) = some s := by simp [s]
  have hstart : machine.start boot := rfl
  have hs : machine.Reach FromClean s := .step (i := .sample near) (.base hstart) hclean hstep
  exact ⟨⟨s, by decide +kernel, (published_is_own s).1 hs⟩,
    ((published_is_own boot).2 rfl).mpr hclean⟩

end SampleRun

end Guard

end Hcics
