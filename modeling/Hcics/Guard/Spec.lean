import Hcics.Guard.Model

/-!
# What the driver's procedures keep

`Kept` is a property of the driver and its bus that no transfer breaks. No procedure of the driver
breaks it either, whether it returns or waits; only the initialisation of the sensor also changes the
context.
-/

namespace Hcics

namespace Guard

variable {σ ι : Type} {B : I2cBus σ ι} {P : Probe σ → Prop}

/-- What is not asked of a program that waits for an input. -/
abbrev anywhere {σ : Type} (_ : Probe σ) : Prop := True

theorem allOk_spec {ps : List (Proc (Probe σ) ι RtErr)}
    (h : ∀ p ∈ ps, Proc.Spec P p anywhere fun _ => P) :
    Proc.Spec P (allOk ps) anywhere fun _ => P := by
  induction ps with
  | nil => exact .pure fun _ hp => hp
  | cons p ps ih =>
    refine .bind (h p List.mem_cons_self) fun r => .ite (fun _ => .pure fun _ hp => hp) fun _ => ?_
    exact ih fun q hq => h q (List.mem_cons_of_mem p hq)

theorem allOk_cons {p : Proc (Probe σ) ι RtErr} {ps : List (Proc (Probe σ) ι RtErr)}
    {Q R : Probe σ → Prop} (hp : Proc.Spec P p anywhere fun r x => r = RT_EOK → Q x)
    (hps : Proc.Spec Q (allOk ps) anywhere fun ok x => ok = true → R x) :
    Proc.Spec P (allOk (p :: ps)) anywhere fun ok x => ok = true → R x := by
  refine .bind hp fun r => .ite (fun _ => .pure fun _ _ hok => by cases hok) fun hr => ?_
  exact hps.mono (fun x hx => hx (not_not.mp hr)) (fun _ h => h) fun _ _ h => h

/-- The transfers keep `P`. -/
structure Kept (B : I2cBus σ ι) (P : Probe σ → Prop) : Prop where
  write : ∀ p reg data i, P p → P (writeTransfer B p reg data i).1
  read : ∀ len p reg i, P p → P (readTransfer B len p reg i).1

theorem Kept.writeU8 (h : Kept B P) (reg value : UInt8) :
    Proc.Spec P (writeU8 B reg value) anywhere fun _ => P :=
  .act (fun _ _ => trivial) fun p i => h.write p reg [value] i

theorem Kept.readU16 (h : Kept B P) (reg : UInt8) :
    Proc.Spec P (readU16 B reg) anywhere fun _ => P := by
  refine .bind (Q := fun _ => P) ?_ fun _ => .pure fun _ hp => hp
  exact .act (fun _ _ => trivial) fun p i => h.read 2 p reg i

theorem waitRound_keeps {reg : UInt8} (h : ∀ p i, P p → P (readTransfer B 1 p reg i).1) (mask : UInt8)
    (set : Bool) (start : Tick) {x : Probe σ × Unit} (hx : P x.1) (i : ι) :
    P (waitRound B reg mask set start x i).1.1 := by
  have hread := h x.1 i hx
  unfold Guard.waitRound
  by_cases htime : B.now i - start ≤ tickFromMs i2cTimeoutMs
  · rw [if_pos htime]
    rcases hr : readTransfer B 1 x.1 reg i with ⟨p, e | value⟩
    · rw [hr] at hread
      exact hread
    · rw [hr] at hread
      cases set <;> exact hread
  · rw [if_neg htime]
    exact hx

theorem waitRound_shown {reg mask : UInt8} {start : Tick} {x y : Probe σ × Unit} {i : ι}
    (h : waitRound B reg mask true start x i = (y, some true)) :
    ∃ value, readTransfer B 1 x.1 reg i = (y.1, .ok value) ∧ value.head &&& mask ≠ 0 := by
  unfold Guard.waitRound at h
  by_cases htime : B.now i - start ≤ tickFromMs i2cTimeoutMs
  · rw [if_pos htime] at h
    rcases hr : readTransfer B 1 x.1 reg i with ⟨p, e | value⟩
    · rw [hr] at h
      cases h
    · simp only [hr, if_true, Prod.mk.injEq] at h
      obtain ⟨rfl, hvalue⟩ := h
      refine ⟨value, rfl, fun hzero : value[0] &&& mask = 0 => ?_⟩
      rw [if_neg (not_not.mpr hzero)] at hvalue
      cases hvalue
  · rw [if_neg htime] at h
    cases h

theorem tickGet_keeps : Proc.Spec P (tickGet B) anywhere fun _ => P :=
  .act (fun _ _ => trivial) fun _ _ hp => hp

theorem waitRegBits_keeps {reg : UInt8} (h : ∀ p i, P p → P (readTransfer B 1 p reg i).1)
    (mask : UInt8) (set : Bool) : Proc.Spec P (waitRegBits B reg mask set) anywhere fun _ => P :=
  .bind tickGet_keeps fun start =>
    .poll_keeps (fun _ _ => trivial) fun _ i hx => waitRound_keeps h mask set start hx i

theorem waitRegBits_shown {reg : UInt8} (h : ∀ p i, P p → P (readTransfer B 1 p reg i).1)
    (mask : UInt8) : Proc.Spec P (waitRegBits B reg mask true) anywhere fun ok p => P p ∧ (ok = true →
      ∃ q i value, P q ∧ readTransfer B 1 q reg i = (p, .ok value) ∧ value.head &&& mask ≠ 0) := by
  refine .bind tickGet_keeps fun start => ?_
  refine .poll (fun x => P x.1) (fun _ hp => hp) (fun _ _ => trivial) ?_ ?_
  · intro x i y hx hround
    have hkeep := waitRound_keeps h mask true start hx i
    rwa [hround] at hkeep
  · intro x i y ok hx hround
    have hkeep := waitRound_keeps h mask true start hx i
    rw [hround] at hkeep
    refine ⟨hkeep, fun hok => ?_⟩
    subst hok
    obtain ⟨value, hread, hbits⟩ := waitRound_shown hround
    exact ⟨x.1, i, value, hx, hread, hbits⟩

theorem Kept.waitRegBits (h : Kept B P) (reg mask : UInt8) (set : Bool) :
    Proc.Spec P (waitRegBits B reg mask set) anywhere fun _ => P :=
  waitRegBits_keeps (fun p i hp => h.read 1 p reg i hp) mask set

theorem Kept.startRange (h : Kept B P) : Proc.Spec P (startRange B) anywhere fun _ => P := by
  refine .bind (Q := fun _ => P) (.gets fun _ hp => hp) fun stopVariable => allOk_spec ?_
  intro p hp
  simp only [List.mem_cons, List.not_mem_nil, or_false] at hp
  rcases hp with rfl | rfl | rfl | rfl | rfl | rfl | rfl | rfl <;> exact h.writeU8 _ _

theorem Kept.readDistance (h : Kept B P) (distance : UInt16) :
    Proc.Spec P (readDistance B distance) anywhere fun _ => P := by
  have hret : ∀ r : RtErr × UInt16, Proc.Spec P (pure r : Proc (Probe σ) ι _) anywhere fun _ => P :=
    fun r => .pure fun _ hp => hp
  refine .bind h.startRange fun _ => .ite (fun _ => hret _) fun _ => ?_
  refine .bind (h.waitRegBits _ _ _) fun _ => .ite (fun _ => hret _) fun _ => ?_
  refine .bind (h.waitRegBits _ _ _) fun _ => .ite (fun _ => hret _) fun _ => ?_
  refine .bind (h.readU16 _) fun r => ?_
  cases r with
  | error e => exact hret _
  | ok distance => exact .bind (h.writeU8 _ _) fun _ => hret _

theorem Kept.writeMulti (h : Kept B P) (reg : UInt8) (data : List UInt8) :
    Proc.Spec P (writeMulti B reg data) anywhere fun _ => P :=
  .act (fun _ _ => trivial) fun p i => h.write p reg data i

theorem Kept.readMulti (h : Kept B P) (len : ℕ) (reg : UInt8) :
    Proc.Spec P (readMulti B len reg) anywhere fun _ => P :=
  .act (fun _ _ => trivial) fun p i => h.read len p reg i

theorem Kept.readU8 (h : Kept B P) (reg : UInt8) :
    Proc.Spec P (readU8 B reg) anywhere fun _ => P :=
  .bind (h.readMulti 1 reg) fun _ => .pure fun _ hp => hp

theorem Kept.updateU8 (h : Kept B P) (reg clearMask setMask : UInt8) :
    Proc.Spec P (updateU8 B reg clearMask setMask) anywhere fun _ => P := by
  refine .bind (h.readU8 reg) fun r => ?_
  cases r with
  | error e => exact .pure fun _ hp => hp
  | ok value => exact h.writeU8 reg _

theorem Kept.writeAll (h : Kept B P) (seq : List (UInt8 × UInt8)) :
    Proc.Spec P (writeAll B seq) anywhere fun _ => P := by
  induction seq with
  | nil => exact .pure fun _ hp => hp
  | cons w seq ih =>
    exact .bind (h.writeU8 w.1 w.2) fun _ => .ite (fun _ => .pure fun _ hp => hp) fun _ => ih

theorem Kept.refCalibration (h : Kept B P) (vhvInitByte : UInt8) :
    Proc.Spec P (refCalibration B vhvInitByte) anywhere fun _ => P := by
  have hret : ∀ r : RtErr, Proc.Spec P (pure r : Proc (Probe σ) ι _) anywhere fun _ => P :=
    fun r => .pure fun _ hp => hp
  refine .bind (h.writeU8 _ _) fun _ => .ite (fun _ => hret _) fun _ => ?_
  refine .bind (h.waitRegBits _ _ _) fun _ => .ite (fun _ => hret _) fun _ => ?_
  refine .bind (allOk_spec ?_) fun _ => .ite (fun _ => hret _) fun _ => hret _
  simp only [List.forall_mem_cons, List.not_mem_nil, false_implies, implies_true, and_true]
  exact ⟨h.writeU8 _ _, h.writeU8 _ _⟩

theorem Kept.spadInfoRound (h : Kept B P) (start : Tick) {x : Probe σ × Unit} (hx : P x.1) (i : ι) :
    P (spadInfoRound B start x i).1.1 := by
  have hread := h.read 1 x.1 0x83 i hx
  unfold Guard.spadInfoRound
  rcases hr : readTransfer B 1 x.1 0x83 i with ⟨q, e | tmp⟩
  · rw [hr] at hread
    exact hread
  · rw [hr] at hread
    dsimp only
    split_ifs <;> exact hread

theorem Kept.getSpadInfo (h : Kept B P) : Proc.Spec P (getSpadInfo B) anywhere fun _ => P := by
  have hret : ∀ r : Except RtErr (UInt8 × Bool),
      Proc.Spec P (pure r : Proc (Probe σ) ι _) anywhere fun _ => P := fun r => .pure fun _ hp => hp
  refine .bind (allOk_spec ?_) fun _ => .ite (fun _ => hret _) fun _ => ?_
  · simp only [List.forall_mem_cons, List.not_mem_nil, false_implies, implies_true, and_true]
    exact ⟨h.writeU8 _ _, h.writeU8 _ _, h.writeU8 _ _, h.writeU8 _ _, h.updateU8 _ _ _,
      h.writeU8 _ _, h.writeU8 _ _, h.writeU8 _ _, h.writeU8 _ _, h.writeU8 _ _⟩
  · refine .bind tickGet_keeps fun start => ?_
    refine .bind (Q := fun _ => P) ?_ fun _ => .ite (fun _ => hret _) fun _ => ?_
    · exact .poll_keeps (fun _ _ => trivial) fun _ i hx => h.spadInfoRound start hx i
    · refine .bind (h.writeU8 _ _) fun _ => .ite (fun _ => hret _) fun _ => ?_
      refine .bind (h.readU8 _) fun r => ?_
      cases r with
      | error e => exact hret _
      | ok tmp =>
        refine .bind (allOk_spec ?_) fun _ => .ite (fun _ => hret _) fun _ => hret _
        simp only [List.forall_mem_cons, List.not_mem_nil, false_implies, implies_true, and_true]
        exact ⟨h.writeU8 _ _, h.writeU8 _ _, h.updateU8 _ _ _, h.writeU8 _ _, h.writeU8 _ _,
          h.writeU8 _ _, h.writeU8 _ _⟩

theorem Kept.configSpads (h : Kept B P) : Proc.Spec P (configSpads B) anywhere fun _ => P := by
  refine .bind h.getSpadInfo fun r => ?_
  cases r with
  | error e => exact .pure fun _ hp => hp
  | ok info =>
    refine .bind (h.readMulti 6 _) fun r => ?_
    cases r with
    | error e => exact .pure fun _ hp => hp
    | ok refSpadMap =>
      refine .bind (allOk_spec ?_) fun _ => .ite (fun _ => .pure fun _ hp => hp) fun _ =>
        h.writeMulti _ _
      simp only [List.forall_mem_cons, List.not_mem_nil, false_implies, implies_true, and_true]
      exact ⟨h.writeU8 _ _, h.writeU8 _ _, h.writeU8 _ _, h.writeU8 _ _, h.writeU8 _ _⟩

theorem Kept.sensorInit (h : Kept B P)
    (hstop : ∀ p value, P p → P { p with ctx := { p.ctx with stopVariable := value } }) :
    Proc.Spec P (sensorInit B) anywhere fun _ => P := by
  have hret : ∀ r : RtErr, Proc.Spec P (pure r : Proc (Probe σ) ι _) anywhere fun _ => P :=
    fun r => .pure fun _ hp => hp
  have hread : Proc.Spec P (readStopVariable B) anywhere fun _ => P := by
    refine .bind (h.readU8 _) fun r => ?_
    cases r with
    | error e => exact hret e
    | ok value => exact .bind (Q := fun _ => P) (.modify fun p => hstop p value) fun _ => hret _
  refine .bind (h.readU8 _) fun r => ?_
  cases r with
  | error e => exact hret e
  | ok id =>
    refine .ite (fun _ => hret _) fun _ => ?_
    refine .bind (allOk_spec ?_) fun _ => .ite (fun _ => hret _) fun _ => ?_
    · simp only [List.forall_mem_cons, List.not_mem_nil, false_implies, implies_true, and_true]
      exact ⟨h.updateU8 _ _ _, h.writeU8 _ _, h.writeU8 _ _, h.writeU8 _ _, h.writeU8 _ _, hread,
        h.writeU8 _ _, h.writeU8 _ _, h.writeU8 _ _, h.updateU8 _ _ _, h.writeMulti _ _,
        h.writeU8 _ _⟩
    refine .bind h.configSpads fun _ => .ite (fun _ => hret _) fun _ => ?_
    refine .bind (allOk_spec ?_) fun _ => .ite (fun _ => hret _) fun _ => ?_
    · simp only [List.forall_mem_cons, List.not_mem_nil, false_implies, implies_true, and_true]
      exact ⟨h.writeAll _, h.writeU8 _ _, h.updateU8 _ _ _, h.writeU8 _ _, h.writeU8 _ _⟩
    refine .bind (h.refCalibration _) fun _ => .ite (fun _ => hret _) fun _ => ?_
    refine .bind (h.writeU8 _ _) fun _ => .ite (fun _ => hret _) fun _ => ?_
    exact .bind (h.refCalibration _) fun _ => .ite (fun _ => hret _) fun _ => h.writeU8 _ _

theorem kept_ctx (B : I2cBus σ ι) (ctx : GuardContext) : Kept B fun p => p.ctx = ctx where
  write p reg data i hp := by
    unfold writeTransfer
    split_ifs <;> exact hp
  read len p reg i hp := by
    unfold readTransfer
    split_ifs <;> exact hp

end Guard

end Hcics
