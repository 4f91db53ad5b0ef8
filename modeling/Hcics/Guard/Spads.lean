import Hcics.Guard.Spec
import Hcics.Lib.Rank
import Mathlib.Data.List.FinRange

/-!
# The reference SPADs

`hcics_guard_config_spads` keeps the first SPADs of the sensor's map and clears the others, in place,
bit by bit. `selected` is the invariant of its loop: what is done is the selection of the map as it
was read, what is to come is untouched, and the counter is the number of SPADs kept.

`configSpads_spec` ties the loop to the bus: whatever the transfers return, the only write to the
map's registers is the selection of the map that was read from them.
-/

namespace Hcics

namespace Guard

open Rank

def spad (m : Vector UInt8 6) (i : ℕ) : Bool := (m[i / 8]?.getD 0).toBitVec.getLsbD (i % 8)

theorem spad_eq (m : Vector UInt8 6) {i : ℕ} (h : i / 8 < 6) :
    spad m i = m[i / 8].toBitVec.getLsbD (i % 8) := by
  simp [spad, h]

theorem spad_set (m : Vector UInt8 6) {b : ℕ} (h : b < 6) (value : UInt8) (j : ℕ) :
    spad (m.set b value) j =
      if j / 8 = b then value.toBitVec.getLsbD (j % 8) else spad m j := by
  unfold spad
  by_cases hj : j / 8 = b
  · simp [hj, h]
  · rw [if_neg hj, Vector.getElem?_set_ne h (Ne.symm hj)]

theorem mask_bit {k l : ℕ} (hk : k < 8) (hl : l < 8) :
    ((1 : UInt8) <<< UInt8.ofNat k).toBitVec.getLsbD l = decide (l = k) ∧
    (~~~((1 : UInt8) <<< UInt8.ofNat k)).toBitVec.getLsbD l = decide (l ≠ k) := by
  have hall : ∀ k l : Fin 8,
      ((1 : UInt8) <<< UInt8.ofNat k.val).toBitVec.getLsbD l.val = decide (l.val = k.val) ∧
      (~~~((1 : UInt8) <<< UInt8.ofNat k.val)).toBitVec.getLsbD l.val =
        decide (l.val ≠ k.val) := by
    decide
  exact hall ⟨k, hk⟩ ⟨l, hl⟩

theorem test_bit (x : UInt8) {k : ℕ} (hk : k < 8) :
    x &&& ((1 : UInt8) <<< UInt8.ofNat k) ≠ 0 ↔ x.toBitVec.getLsbD k = true := by
  have hbit : ∀ l, l < 8 → (x &&& ((1 : UInt8) <<< UInt8.ofNat k)).toBitVec.getLsbD l =
      (x.toBitVec.getLsbD l && decide (l = k)) := by
    intro l hl
    rw [UInt8.toBitVec_and, BitVec.getLsbD_and, (mask_bit hk hl).1]
  constructor
  · intro hne
    by_contra hzero
    apply hne
    apply UInt8.eq_of_toBitVec_eq
    apply BitVec.eq_of_getLsbD_eq
    intro l hl
    rw [hbit l hl]
    by_cases hlk : l = k
    · subst hlk
      simpa using hzero
    · simp [hlk]
  · intro hset hzero
    have hk' := hbit k hk
    rw [hzero, hset] at hk'
    simp at hk'

/-- A round skips its SPAD: there are enough, or it comes before the first one. -/
def Skips (spadCount first : UInt8) (enabled : UInt8) (i : ℕ) : Prop :=
  i < first.toNat ∨ enabled = spadCount

theorem skips_iff {spadCount first enabled : UInt8} (i : Fin 48) :
    UInt8.ofNat i.val < first ∨ enabled = spadCount ↔ Skips spadCount first enabled i := by
  unfold Skips
  rw [UInt8.lt_iff_toNat_lt, UInt8.toNat_ofNat_of_lt' (Nat.lt_trans i.isLt (by decide))]

instance (spadCount first enabled : UInt8) (i : ℕ) : Decidable (Skips spadCount first enabled i) :=
  inferInstanceAs (Decidable (_ ∨ _))

section Round

variable {spadCount first : UInt8} {x : Vector UInt8 6 × UInt8} {i : Fin 48}

theorem selectRound_skip (h : Skips spadCount first x.2 i) (j : ℕ) :
    (selectRound spadCount first x i).2 = x.2 ∧
    (spad (selectRound spadCount first x i).1 j = true ↔ spad x.1 j = true ∧ j ≠ i.val) := by
  have hbyte : i.val / 8 < 6 := by omega
  have hround : selectRound spadCount first x i = (x.1.set (i.val / 8)
      (x.1[i.val / 8] &&& ~~~((1 : UInt8) <<< UInt8.ofNat (i.val % 8))), x.2) :=
    if_pos ((skips_iff i).mpr h)
  rw [hround]
  refine ⟨rfl, ?_⟩
  rw [spad_set _ hbyte]
  by_cases hj : j / 8 = i.val / 8
  · have hbit := (mask_bit (Nat.mod_lt i.val (by omega : 0 < 8))
      (Nat.mod_lt j (by omega : 0 < 8))).2
    rw [if_pos hj, UInt8.toBitVec_and, BitVec.getLsbD_and, hbit, spad_eq _ (hj ▸ hbyte)]
    simp only [hj, Bool.and_eq_true, decide_eq_true_eq]
    refine and_congr_right fun _ => not_congr ?_
    omega
  · rw [if_neg hj]
    refine (and_iff_left ?_).symm
    rintro rfl
    exact hj rfl

theorem selectRound_keep (h : ¬ Skips spadCount first x.2 i) :
    selectRound spadCount first x i = (x.1, if spad x.1 i = true then x.2 + 1 else x.2) := by
  have hbyte : i.val / 8 < 6 := by omega
  have htest := test_bit x.1[i.val / 8] (Nat.mod_lt i.val (by omega : 0 < 8))
  rw [← spad_eq x.1 hbyte] at htest
  have hround : selectRound spadCount first x i =
      if x.1[i.val / 8] &&& ((1 : UInt8) <<< UInt8.ofNat (i.val % 8)) ≠ 0 then (x.1, x.2 + 1)
      else x :=
    if_neg fun hskip => h ((skips_iff i).mp hskip)
  rw [hround]
  by_cases hset : spad x.1 i = true
  · rw [if_pos (htest.mpr hset), if_pos hset]
  · rw [if_neg fun hbit => hset (htest.mp hbit), if_neg hset]

end Round

/-! ## The loop -/

/-- The map after the first rounds, and the counter. -/
def rounds (spadCount first : UInt8) (m : Vector UInt8 6) (n : ℕ) : Vector UInt8 6 × UInt8 :=
  ((List.finRange 48).take n).foldl (selectRound spadCount first) (m, 0)

theorem rounds_succ (spadCount first : UInt8) (m : Vector UInt8 6) {n : ℕ} (h : n < 48) :
    rounds spadCount first m (n + 1) =
      selectRound spadCount first (rounds spadCount first m n) ⟨n, h⟩ := by
  have hlen : n < (List.finRange 48).length := by simpa using h
  unfold rounds
  rw [List.take_succ_eq_append_getElem hlen, List.foldl_append]
  simp

/-- The invariant of the loop: the SPADs before `n` are selected, the others are as they were, and
the counter is the number of SPADs kept. -/
structure Selected (spadCount first : UInt8) (m : Vector UInt8 6) (n : ℕ) : Prop where
  done : ∀ j, j < n → (spad (rounds spadCount first m n).1 j = true ↔
    First (spad m) first.toNat spadCount.toNat j)
  todo : ∀ j, n ≤ j → spad (rounds spadCount first m n).1 j = spad m j
  enabled : (rounds spadCount first m n).2.toNat =
    min spadCount.toNat (rank (spad m) first.toNat n)

theorem rank_le (p : ℕ → Bool) (a i : ℕ) : rank p a i ≤ i := by
  unfold rank
  refine (Finset.card_filter_le _ _).trans ?_
  rw [Nat.card_Ico]
  omega

theorem selected (spadCount first : UInt8) (m : Vector UInt8 6) {n : ℕ} (h : n ≤ 48) :
    Selected spadCount first m n := by
  induction n with
  | zero =>
    refine ⟨fun j hj => absurd hj (Nat.not_lt_zero j), fun j _ => rfl, ?_⟩
    rw [rank_eq_zero (Nat.zero_le _)]
    simp [rounds]
  | succ n ih =>
    obtain ⟨hdone, htodo, henabled⟩ := ih (Nat.le_of_succ_le h)
    have hround := rounds_succ spadCount first m (n := n) h
    have hrank : rank (spad m) first.toNat n ≤ n := rank_le _ _ _
    have hlt : (rounds spadCount first m n).2.toNat < 48 := by omega
    have hskips : Skips spadCount first (rounds spadCount first m n).2 n ↔
        n < first.toNat ∨ spadCount.toNat ≤ rank (spad m) first.toNat n := by
      unfold Skips
      rw [← UInt8.toNat_inj]
      omega
    by_cases hskip : Skips spadCount first (rounds spadCount first m n).2 n
    · -- the SPAD `n` is cleared, and is not among the first
      have hnot : ¬ First (spad m) first.toNat spadCount.toNat n := by
        rintro ⟨-, hfirst, hfew⟩
        have := hskips.mp hskip
        omega
      have hspad := fun j => (selectRound_skip (i := ⟨n, h⟩) hskip j).2
      refine ⟨?_, ?_, ?_⟩
      · intro j hj
        rw [hround, hspad]
        by_cases hjn : j = n
        · simp only [hjn, ne_eq, not_true, and_false, false_iff]
          exact hnot
        · simp only [ne_eq, hjn, not_false_iff, and_true]
          exact hdone j (by omega)
      · intro j hj
        have hjn : j ≠ n := by omega
        rw [hround, Bool.eq_iff_iff, hspad, htodo j (by omega)]
        simp [hjn]
      · rw [hround, (selectRound_skip (i := ⟨n, h⟩) hskip 0).1, henabled]
        have hcase := hskips.mp hskip
        by_cases hfirst : n < first.toNat
        · rw [rank_succ_of_lt hfirst]
        · rw [rank_succ (Nat.le_of_not_lt hfirst)]
          omega
    · -- the map stays as it is, and the SPAD `n` counts where it is set
      have hmore := mt hskips.mpr hskip
      have hkeep := selectRound_keep (i := ⟨n, h⟩) hskip
      refine ⟨?_, ?_, ?_⟩
      · intro j hj
        rw [hround, hkeep]
        by_cases hjn : j = n
        · subst hjn
          show spad (rounds spadCount first m j).1 j = true ↔ _
          rw [htodo j le_rfl]
          refine ⟨fun hset => ⟨hset, ?_, ?_⟩, fun hfirst => hfirst.1⟩
          · omega
          · omega
        · exact hdone j (by omega)
      · intro j hj
        rw [hround, hkeep]
        exact htodo j (by omega)
      · rw [hround, hkeep, rank_succ (by omega)]
        show (if spad (rounds spadCount first m n).1 n = true then _ else _ : UInt8).toNat = _
        rw [htodo n le_rfl]
        by_cases hset : spad m n = true
        · rw [if_pos hset, if_pos hset, UInt8.toNat_add, UInt8.toNat_one, henabled]
          omega
        · rw [if_neg hset, if_neg hset, henabled, Nat.add_zero]

/-! ## The transfers -/

/-- A transfer as it was made: what was written where, or what a register gave. -/
inductive Op where
  | wrote (reg : UInt8) (data : List UInt8)
  | got (reg : UInt8) (data : List UInt8)
  | failed (reg : UInt8)
  deriving DecidableEq, Repr

/-- A bus that keeps a log of its transfers, newest first. -/
def logged {σ ι : Type} (B : I2cBus σ ι) : I2cBus (σ × List Op) ι where
  now := B.now
  write s reg data i := (((B.write s.1 reg data i).1, .wrote reg data :: s.2), (B.write s.1 reg data i).2)
  read len s reg i :=
    match B.read len s.1 reg i with
    | (t, some data) => ((t, .got reg data.toList :: s.2), some data)
    | (t, none) => ((t, .failed reg :: s.2), none)

section Log

variable {σ ι : Type} (B : I2cBus σ ι) {facts : List Op} {reg : UInt8}

/-- These transfers were made, and none that writes a map. -/
structure NoMap (facts : List Op) (p : Probe (σ × List Op)) : Prop where
  made : ∀ op ∈ facts, op ∈ p.bus.2
  unwritten : ∀ data, Op.wrote regGlobalConfigSpadEnablesRef0 data ∉ p.bus.2

variable {B}

theorem NoMap.more {p : Probe (σ × List Op)} (h : NoMap facts p) {op : Op} {t : σ}
    (hop : ∀ data, op ≠ .wrote regGlobalConfigSpadEnablesRef0 data) :
    NoMap facts { p with bus := (t, op :: p.bus.2) } := by
  refine ⟨fun o ho => List.mem_cons_of_mem op (h.made o ho), fun data hmem => ?_⟩
  rcases List.mem_cons.mp hmem with heq | hmem
  · exact hop data heq.symm
  · exact h.unwritten data hmem

theorem writeMulti_noMap {data : List UInt8} (hreg : reg ≠ regGlobalConfigSpadEnablesRef0) :
    Proc.Spec (NoMap facts) (writeMulti (logged B) reg data) anywhere fun _ => NoMap facts := by
  refine .act (fun _ _ => trivial) fun p i hp => ?_
  unfold writeTransfer
  split_ifs
  · exact hp
  · exact hp
  · exact hp.more fun _ heq => hreg (Op.wrote.inj heq).1

def readFacts {len : ℕ} (facts : List Op) (reg : UInt8) :
    Except RtErr (Vector UInt8 len) → List Op
  | .ok data => .got reg data.toList :: facts
  | .error _ => facts

theorem readTransfer_noMap (reg : UInt8) (len : ℕ) {p : Probe (σ × List Op)} (hp : NoMap facts p) (i : ι) :
    NoMap (readFacts facts reg (readTransfer (logged B) len p reg i).2)
      (readTransfer (logged B) len p reg i).1 := by
  unfold readTransfer
  by_cases hbus : (!p.ctx.bus || len == 0) = true
  · rw [if_pos hbus]
    exact hp
  · rw [if_neg hbus]
    simp only [logged]
    rcases hread : B.read len p.bus.1 reg i with ⟨t, _ | data⟩
    · exact hp.more fun _ heq => by cases heq
    · have hmore : NoMap facts ⟨p.ctx, (t, .got reg data.toList :: p.bus.2)⟩ :=
        hp.more fun _ heq => by cases heq
      refine ⟨fun op hop => ?_, hmore.unwritten⟩
      rcases List.mem_cons.mp hop with rfl | hop
      · exact List.mem_cons_self
      · exact hmore.made op hop

theorem readMulti_noMap {len : ℕ} : Proc.Spec (NoMap facts) (readMulti (logged B) len reg) anywhere
    fun r => NoMap (readFacts facts reg r) :=
  .act (fun _ _ => trivial) fun _ i hp => readTransfer_noMap reg len hp i

theorem NoMap.forget {len : ℕ} {p : Probe (σ × List Op)} {r : Except RtErr (Vector UInt8 len)}
    (h : NoMap (readFacts facts reg r) p) : NoMap facts p := by
  cases r with
  | ok data => exact ⟨fun op hop => h.made op (List.mem_cons_of_mem _ hop), h.unwritten⟩
  | error e => exact h

theorem readU8_noMap : Proc.Spec (NoMap facts) (readU8 (logged B) reg) anywhere fun r p =>
    NoMap facts p ∧ ∀ v, r = .ok v → NoMap (.got reg [v] :: facts) p := by
  refine .bind readMulti_noMap fun r => .pure fun p hp => ⟨hp.forget, fun v hv => ?_⟩
  cases r with
  | error e => cases hv
  | ok data =>
    cases hv
    have hdata : data.toList = [data[0]] := by
      rcases data with ⟨⟨l⟩, hl⟩
      obtain ⟨v, rfl⟩ := List.length_eq_one_iff.mp hl
      rfl
    have hfacts : NoMap (.got reg data.toList :: facts) p := hp
    rwa [hdata] at hfacts

theorem updateU8_noMap {clearMask setMask : UInt8} (hreg : reg ≠ regGlobalConfigSpadEnablesRef0) :
    Proc.Spec (NoMap facts) (updateU8 (logged B) reg clearMask setMask) anywhere
      fun _ => NoMap facts := by
  refine .bind readU8_noMap fun r => ?_
  cases r with
  | error e => exact .pure fun p hp => hp.1
  | ok value =>
    exact (writeMulti_noMap hreg).mono (fun p hp => hp.1) (fun _ h => h) fun _ _ h => h

theorem spadInfoRound_noMap (start : Tick) {x : Probe (σ × List Op) × Unit} (hx : NoMap facts x.1)
    (i : ι) : NoMap facts (spadInfoRound (logged B) start x i).1.1 := by
  have hread := (readTransfer_noMap (B := B) 0x83 1 hx i).forget
  unfold spadInfoRound
  rcases hr : readTransfer (logged B) 1 x.1 0x83 i with ⟨q, e | tmp⟩
  · rw [hr] at hread
    exact hread
  · rw [hr] at hread
    simp only
    split_ifs <;> exact hread

/-- What `hcics_guard_get_spad_info` returns comes from the register 0x92. -/
def SpadInfo (r : Except RtErr (UInt8 × Bool)) (p : Probe (σ × List Op)) : Prop :=
  match r with
  | .ok x => ∃ tmp, x = (tmp &&& 0x7F, decide (tmp &&& 0x80 ≠ 0)) ∧ NoMap [.got 0x92 [tmp]] p
  | .error e => e ≠ RT_EOK ∧ NoMap [] p

theorem spadInfo_error {e : RtErr} (he : e ≠ RT_EOK) : Proc.Spec (NoMap facts) (pure (.error e) :
    Proc (Probe (σ × List Op)) ι (Except RtErr (UInt8 × Bool))) anywhere SpadInfo :=
  .pure fun _ hp => ⟨he, fun _ hop => absurd hop List.not_mem_nil, hp.unwritten⟩

theorem getSpadInfo_noMap : Proc.Spec (NoMap []) (getSpadInfo (logged B)) anywhere SpadInfo := by
  have hw : ∀ {facts : List Op} {reg v : UInt8}, reg ≠ regGlobalConfigSpadEnablesRef0 →
      Proc.Spec (NoMap facts) (writeU8 (logged B) reg v) anywhere fun _ => NoMap facts :=
    writeMulti_noMap
  have herr : (-RT_ERROR : RtErr) ≠ RT_EOK := by decide
  refine .bind (allOk_spec ?_) fun ok => .ite (fun _ => spadInfo_error herr) fun _ => ?_
  · simp only [List.forall_mem_cons, List.not_mem_nil, false_implies, implies_true, and_true]
    exact ⟨hw (by decide), hw (by decide), hw (by decide), hw (by decide),
      updateU8_noMap (by decide), hw (by decide), hw (by decide), hw (by decide), hw (by decide),
      hw (by decide)⟩
  · refine .bind tickGet_keeps fun start => ?_
    refine .bind (Q := fun _ => NoMap []) ?_ fun result => .ite spadInfo_error fun _ => ?_
    · exact .poll_keeps (fun _ _ => trivial) fun _ i hx => spadInfoRound_noMap start hx i
    · refine .bind (hw (by decide)) fun r => .ite (fun _ => spadInfo_error herr) fun _ => ?_
      refine .bind readU8_noMap fun r => ?_
      cases r with
      | error e => exact (spadInfo_error herr).mono (fun p hp => hp.1) (fun _ h => h) fun _ _ h => h
      | ok tmp =>
        refine .mono (P := NoMap [.got 0x92 [tmp]]) ?_ (fun p hp => hp.2 tmp rfl) (fun _ h => h)
          fun _ _ h => h
        refine .bind (allOk_spec ?_) fun ok => .ite (fun _ => spadInfo_error herr) fun _ => ?_
        · simp only [List.forall_mem_cons, List.not_mem_nil, false_implies, implies_true, and_true]
          exact ⟨hw (by decide), hw (by decide), updateU8_noMap (by decide), hw (by decide),
            hw (by decide), hw (by decide), hw (by decide)⟩
        · exact .pure fun p hp => ⟨tmp, rfl, hp⟩

/-- The map that is written back: the selection of one that was read, with the count and the type
that were read; it is written where the function succeeds. -/
structure WroteBack (r : RtErr) (p : Probe (σ × List Op)) : Prop where
  selected : ∀ data, .wrote regGlobalConfigSpadEnablesRef0 data ∈ p.bus.2 → ∃ tmp m,
    .got 0x92 [tmp] ∈ p.bus.2 ∧
    .got regGlobalConfigSpadEnablesRef0 (Vector.toList m) ∈ p.bus.2 ∧
    data = (selectSpads (tmp &&& 0x7F) (tmp &&& 0x80 ≠ 0) m).toList
  written : r = RT_EOK → ∃ data, .wrote regGlobalConfigSpadEnablesRef0 data ∈ p.bus.2

theorem wroteBack_error {r : RtErr} (hr : r ≠ RT_EOK) :
    Proc.Spec (NoMap facts) (pure r : Proc (Probe (σ × List Op)) ι RtErr) anywhere WroteBack :=
  .pure fun _ hp => ⟨fun data hdata => absurd hdata (hp.unwritten data), fun heq => absurd heq hr⟩

theorem readTransfer_error {len : ℕ} {p : Probe σ} {i : ι} {e : RtErr}
    (h : (readTransfer B len p reg i).2 = .error e) : e ≠ RT_EOK := by
  unfold readTransfer at h
  by_cases hbus : (!p.ctx.bus || len == 0) = true
  · rw [if_pos hbus] at h
    cases h
    decide
  · rw [if_neg hbus] at h
    rcases hread : B.read len p.bus reg i with ⟨t, _ | data⟩
    · simp only [hread] at h
      cases h
      decide
    · simp only [hread] at h
      cases h

theorem writeBack_wroteBack {tmp : UInt8} {m : Vector UInt8 6} :
    Proc.Spec (NoMap [.got regGlobalConfigSpadEnablesRef0 m.toList, .got 0x92 [tmp]])
      (writeMulti (logged B) regGlobalConfigSpadEnablesRef0
        (selectSpads (tmp &&& 0x7F) (tmp &&& 0x80 ≠ 0) m).toList) anywhere WroteBack := by
  refine .act (fun _ _ => trivial) fun p i hp => ?_
  unfold writeTransfer
  have hnone : ∀ {e : RtErr}, e ≠ RT_EOK → WroteBack e p := fun he =>
    ⟨fun data hdata => absurd hdata (hp.unwritten data), fun heq => absurd heq he⟩
  have hinval : (-RT_EINVAL : RtErr) ≠ RT_EOK := by decide
  split_ifs
  · exact hnone hinval
  · exact hnone hinval
  · refine ⟨fun data hdata => ⟨tmp, m, ?_, ?_, ?_⟩, fun _ => ⟨_, List.mem_cons_self⟩⟩
    · exact List.mem_cons_of_mem _ (hp.made _ (List.mem_cons_of_mem _ List.mem_cons_self))
    · exact List.mem_cons_of_mem _ (hp.made _ List.mem_cons_self)
    · rcases List.mem_cons.mp hdata with heq | hdata
      · exact (Op.wrote.inj heq).2
      · exact absurd hdata (hp.unwritten data)

theorem configSpads_wroteBack :
    Proc.Spec (NoMap []) (configSpads (logged B)) anywhere WroteBack := by
  have hw : ∀ {facts : List Op} {reg v : UInt8}, reg ≠ regGlobalConfigSpadEnablesRef0 →
      Proc.Spec (NoMap facts) (writeU8 (logged B) reg v) anywhere fun _ => NoMap facts :=
    writeMulti_noMap
  refine .bind getSpadInfo_noMap fun info => ?_
  rcases info with e | ⟨count, aperture⟩
  · exact .of_and wroteBack_error
  · refine .of_exists fun tmp => .of_and fun hx => ?_
    obtain ⟨rfl, rfl⟩ := Prod.mk.inj hx
    have hread : Proc.Spec (NoMap [.got 0x92 [tmp]])
        (readMulti (logged B) 6 regGlobalConfigSpadEnablesRef0) anywhere
        fun r => NoMap (readFacts [.got 0x92 [tmp]] regGlobalConfigSpadEnablesRef0 r) :=
      readMulti_noMap
    have herror : Proc.Spec (fun _ => True)
        (readMulti (logged B) 6 regGlobalConfigSpadEnablesRef0) (fun _ => True)
        fun r _ => ∀ e, r = .error e → e ≠ RT_EOK :=
      .act (fun _ _ => trivial) fun _ _ _ _ he => readTransfer_error he
    refine .bind (hread.and_result herror) fun r => ?_
    cases r with
    | error e =>
      refine .mono (P := fun p => e ≠ RT_EOK ∧ NoMap [.got 0x92 [tmp]] p)
        (.of_and wroteBack_error) (fun p hp => ⟨hp.2 e rfl, hp.1⟩) (fun _ h => h) fun _ _ h => h
    | ok m =>
      refine .mono (P := NoMap [.got regGlobalConfigSpadEnablesRef0 m.toList, .got 0x92 [tmp]]) ?_
        (fun p hp => hp.1) (fun _ h => h) fun _ _ h => h
      refine .bind (allOk_spec ?_) fun ok => .ite (fun _ => wroteBack_error (by decide)) fun _ =>
        writeBack_wroteBack
      simp only [List.forall_mem_cons, List.not_mem_nil, false_implies, implies_true, and_true]
      exact ⟨hw (by decide), hw (by decide), hw (by decide), hw (by decide), hw (by decide)⟩

end Log

/-- The map that is left: the first `spadCount` SPADs of the map that was read, from the first
usable one on. -/
theorem selectSpads_spad (spadCount : UInt8) (aperture : Bool) (m : Vector UInt8 6) (i : ℕ) :
    spad (selectSpads spadCount aperture m) i = true ↔
      First (spad m) (firstSpad aperture).toNat spadCount.toNat i := by
  have hall : selectSpads spadCount aperture m = (rounds spadCount (firstSpad aperture) m 48).1 := by
    unfold selectSpads rounds
    rw [List.take_of_length_le (by simp)]
  by_cases hi : i < 48
  · rw [hall]
    exact (selected spadCount (firstSpad aperture) m le_rfl).done i hi
  · have hnone : ∀ m : Vector UInt8 6, spad m i = false := by
      intro m
      have hbyte : m[i / 8]? = none := Vector.getElem?_eq_none (by omega)
      simp [spad, hbyte]
    unfold First
    rw [hnone, hnone]
    simp

/-- Reference SPAD selection. Of any map, for any count and both aperture types, the loop keeps the
bits that are set, come after `first_spad`, and have fewer than the count of set bits before them: so
it keeps a part of the map, the requested number or all there are. And whatever the bus does, the
only bytes written to the map's registers are the six of that selection, of the map that was read
from them and with the count and type that were read; a call that succeeds has written them. -/
theorem config_spads_selects :
    (∀ (m : Vector UInt8 6) (spadCount : UInt8) (aperture : Bool),
      let first := (firstSpad aperture).toNat
      let selection := selectSpads spadCount aperture m
      (∀ i, spad selection i = true ↔
        spad m i = true ∧ first ≤ i ∧ rank (spad m) first i < spadCount.toNat) ∧
      (∀ i, spad selection i = true → spad m i = true) ∧
      ((Finset.range 48).filter fun i => spad selection i = true).card =
        min spadCount.toNat (rank (spad m) first 48)) ∧
    ∀ {σ ι : Type} (B : I2cBus σ ι) (p : Probe (σ × List Op)) (is : List ι) (r : RtErr)
      (p' : Probe (σ × List Op)) (js : List ι), p.bus.2 = [] →
      configSpads (logged B) p is = (some r, p', js) →
      (∀ data, .wrote regGlobalConfigSpadEnablesRef0 data ∈ p'.bus.2 → ∃ tmp m,
        .got 0x92 [tmp] ∈ p'.bus.2 ∧
        .got regGlobalConfigSpadEnablesRef0 (Vector.toList m) ∈ p'.bus.2 ∧
        data = (selectSpads (tmp &&& 0x7F) (tmp &&& 0x80 ≠ 0) m).toList) ∧
      (r = RT_EOK → ∃ data, .wrote regGlobalConfigSpadEnablesRef0 data ∈ p'.bus.2) := by
  refine ⟨fun m spadCount aperture => ⟨selectSpads_spad spadCount aperture m, ?_, ?_⟩, ?_⟩
  · exact fun i hi => ((selectSpads_spad spadCount aperture m i).mp hi).1
  · rw [← card_first]
    congr 1
    exact Finset.filter_congr fun i _ => selectSpads_spad spadCount aperture m i
  · intro σ ι B p is r p' js hlog hrun
    have hnone : NoMap [] p := by
      refine ⟨fun _ hop => absurd hop List.not_mem_nil, fun data hdata => ?_⟩
      rw [hlog] at hdata
      exact absurd hdata List.not_mem_nil
    obtain ⟨hselected, hwritten⟩ := (configSpads_wroteBack p is hnone).1 r p' js hrun
    exact ⟨hselected, hwritten⟩

/-- A sensor all of whose bits are set. -/
def ones : I2cBus Unit Unit where
  now _ := 0
  write _ _ _ _ := ((), true)
  read len _ _ _ := ((), some (Vector.replicate len 0xFF))

def onesRun : Option RtErr × Probe (Unit × List Op) × List Unit :=
  configSpads (logged ones) ⟨⟨false, false, 0, 0, true, false⟩, ((), [])⟩ (List.replicate 30 ())

/-- It has 127 aperture SPADs, so the map loses its first twelve bits and nothing else. -/
theorem config_spads_selects_ones :
    spad (selectSpads 0x7F true (Vector.replicate 6 0xFF)) 12 = true ∧
    ∃ data, .wrote regGlobalConfigSpadEnablesRef0 data ∈ onesRun.2.1.bus.2 := by
  have hresult : onesRun.1 = some RT_EOK := by decide +kernel
  have hrun : onesRun = (some RT_EOK, onesRun.2.1, onesRun.2.2) := by rw [← hresult]
  obtain ⟨hselect, hbus⟩ := config_spads_selects
  exact ⟨((hselect _ 0x7F true).1 12).mpr (by decide), (hbus ones _ _ _ _ _ rfl hrun).2 rfl⟩

end Guard

end Hcics
