import Hcics.Driver.I2c

/-!
# What a transfer does to a device

A transfer over the pins of a device that shifts the bits of a target is the transfer that the target
is meant to see, byte by byte. Between two bytes SCL is low and the device is `Talk.slave`; between two
transfers both lines are high.
-/

namespace Hcics

open TwoWire

namespace I2cMsg

/-- A message without the flags that change where a transfer begins and ends or leave out an
acknowledgement; one that reads asks for a byte at least. -/
structure Plain (m : I2cMsg) : Prop where
  start : m.has RT_I2C_NO_START = false
  ack : m.has RT_I2C_NO_READ_ACK = false
  stop : m.has RT_I2C_NO_STOP = false
  read : m.has RT_I2C_RD = true → m.buf ≠ []

@[simp] theorem has_wr (addr : UInt16) (buf : List UInt8) (flag : UInt16) :
    has ⟨addr, RT_I2C_WR, buf⟩ flag = false := by
  rw [has, RT_I2C_WR, UInt16.zero_and]
  rfl

theorem has_rd (addr : UInt16) (buf : List UInt8) (flag : UInt16) :
    has ⟨addr, RT_I2C_RD, buf⟩ flag = (RT_I2C_RD &&& flag != 0) := rfl

theorem Plain.wr (addr : UInt16) (buf : List UInt8) : Plain ⟨addr, RT_I2C_WR, buf⟩ where
  start := has_wr _ _ _
  ack := has_wr _ _ _
  stop := has_wr _ _ _
  read h := by
    rw [has_wr] at h
    cases h

theorem Plain.rd (addr : UInt16) {buf : List UInt8} (h : buf ≠ []) : Plain ⟨addr, RT_I2C_RD, buf⟩ where
  start := (has_rd _ _ _).trans (by decide)
  ack := (has_rd _ _ _).trans (by decide)
  stop := (has_rd _ _ _).trans (by decide)
  read _ := h

end I2cMsg

namespace I2cPins

variable {ρ : Type} {T : Target ρ} {timeout : UInt32} {p : I2cPins (Slave ρ)} {t : Talk ρ}

/-- The device lets go of SCL in time, whenever it holds it. -/
def Patient {σ : Type} (timeout : UInt32) (p : I2cPins σ) : Prop := ∀ h ∈ p.holds, h.lets timeout = true

/-- Between two bytes. -/
structure At (T : Target ρ) (timeout : UInt32) (p : I2cPins (Slave ρ)) (t : Talk ρ) : Prop where
  lines : ∃ out marked, p.lines = ⟨false, out, marked, t.slave T⟩
  patient : p.Patient timeout

/-- Between two transfers. -/
structure Idle (T : Target ρ) (timeout : UInt32) (p : I2cPins (Slave ρ)) (t : Talk ρ) : Prop where
  lines : ∃ marked, p.lines = ⟨true, true, marked, t.slave T⟩
  mode : t.mode = .off
  patient : p.Patient timeout

/-! ## The pins -/

theorem sclH_eq {σ : Type} {p : I2cPins σ} (h : p.Patient timeout) :
    p.sclH timeout = (⟨rise p.lines, p.holds.tail⟩, RT_EOK) := by
  obtain ⟨lines, holds⟩ := p
  cases holds with
  | nil => rfl
  | cons hold holds => exact if_pos (h hold List.mem_cons_self)

theorem Patient.tail {σ : Type} {p : I2cPins σ} (h : p.Patient timeout) (lines : Lines σ) :
    Patient timeout ⟨lines, p.holds.tail⟩ :=
  fun hold hmem => h hold (List.mem_of_mem_tail hmem)

theorem start_at (h : Idle T timeout p t) : At T timeout (p.start (slave T)) t.start := by
  obtain ⟨marked, hlines⟩ := h.lines
  refine ⟨⟨false, true, ?_⟩, h.patient⟩
  have hsda : (slave T).sda (t.slave T) = true := slave_sda (by rw [h.mode]; decide)
  simp only [start, setSda, sclL, hlines, setSda_start hsda]
  rfl

theorem restart_at (h : At T timeout p t) (hmode : t.mode ≠ .sending) :
    At T timeout (p.restart (slave T) timeout) t.start := by
  obtain ⟨out, marked, hlines⟩ := h.lines
  have hpatient : (p.setSda (slave T) true).Patient timeout := h.patient
  refine ⟨⟨false, true, ?_⟩, ?_⟩
  · simp only [restart, sclH_eq hpatient]
    simp only [setSda, sclL, hlines, setSda_low, rise_low, setSda_start (slave_sda hmode)]
    rfl
  · simp only [restart, sclH_eq hpatient]
    exact hpatient.tail _

theorem stop_idle (h : At T timeout p t) (hmode : t.mode ≠ .sending) :
    Idle T timeout (p.stop (slave T) timeout) (t.stop T) := by
  obtain ⟨out, marked, hlines⟩ := h.lines
  have hpatient : (p.setSda (slave T) false).Patient timeout := h.patient
  refine ⟨⟨true, ?_⟩, rfl, ?_⟩
  · simp only [stop, sclH_eq hpatient]
    simp only [setSda, hlines, setSda_low, rise_low, setSda_stop (slave_sda hmode)]
    rfl
  · simp only [stop, sclH_eq hpatient]
    exact hpatient.tail _

theorem writeBits_eq {σ : Type} {D : Device σ} (data : UInt8) (places : List ℕ) {p : I2cPins σ}
    {out marked : Bool} {s : σ} (h : p.Patient timeout) (hlines : fall D p.lines = ⟨false, out, marked, s⟩) :
    ∃ p', p.writeBits D timeout data places = (p', RT_EOK) ∧ p'.Patient timeout ∧
      ∃ out' marked', fall D p'.lines =
        ⟨false, out', marked', (places.map data.toBitVec.getLsbD).foldl (clock D) s⟩ := by
  induction places generalizing p out marked s with
  | nil => exact ⟨p, rfl, h, out, marked, hlines⟩
  | cons i places ih =>
    have hpatient : ((p.sclL D).setSda D (data.toBitVec.getLsbD i)).Patient timeout := h
    rw [writeBits, sclH_eq hpatient]
    refine @ih ⟨_, _⟩ (data.toBitVec.getLsbD i) false _ (hpatient.tail _) ?_
    simp only [setSda, sclL, hlines, setSda_low, rise_low, fall_high]

theorem writeb_at (h : At T timeout p t) (hmode : t.mode = .off ∨ t.mode = .addressing ∨ t.mode = .receiving)
    (b : UInt8) :
    (p.writeb (slave T) timeout b).2 = ((talkOps T).writeb t b).2 ∧
      At T timeout (p.writeb (slave T) timeout b).1 ((talkOps T).writeb t b).1 := by
  obtain ⟨out, marked, hlines⟩ := h.lines
  obtain ⟨p', hbits, hpatient, out', marked', hfall⟩ :=
    writeBits_eq (D := slave T) b [7, 6, 5, 4, 3, 2, 1, 0] h.patient
      (by rw [hlines, fall_low])
  obtain ⟨hack, hnext⟩ := write_bits (T := T) hmode b
  have hp' : ((p'.sclL (slave T)).setSda (slave T) true).Patient timeout := hpatient
  rw [msbBits] at hack hnext
  simp only [writeb, hbits, Int.lt_irrefl, if_false, waitack, sclH_eq hp']
  simp only [setSda, sclL, hfall, setSda_low, rise_low, fall_high, getSda, level, hack, hnext, talkOps,
    Bool.true_and, Bool.not_not]
  exact ⟨trivial, ⟨true, false, rfl⟩, hp'.tail _⟩

theorem readBits_eq {σ : Type} {D : Device σ} (n : ℕ) (data : UInt8) {p : I2cPins σ} {marked : Bool} {s : σ}
    (h : p.Patient timeout) (hlines : p.lines = ⟨false, true, marked, s⟩) :
    ∃ p' : I2cPins σ,
      p.readBits D timeout n data = (p', (((sample D s n).1.foldl shiftIn data).toNat : RtErr)) ∧
      p'.Patient timeout ∧ ∃ marked', p'.lines = ⟨false, true, marked', (sample D s n).2⟩ := by
  induction n generalizing p data marked s with
  | zero => exact ⟨p, rfl, h, marked, hlines⟩
  | succ n ih =>
    have hbit : (if getSda D ⟨rise p.lines, p.holds.tail⟩ then data <<< 1 ||| 1 else data <<< 1) =
        shiftIn data (D.sda s) := by
      simp only [getSda, hlines, rise_low, level, Bool.true_and, shiftIn]
      cases D.sda s <;> simp
    have hnext : (sclL D ⟨rise p.lines, p.holds.tail⟩).lines = ⟨false, true, false, clock D s true⟩ := by
      simp only [sclL, hlines, rise_low, fall_high]
    rw [readBits, sclH_eq h]
    simp only [Int.lt_irrefl, if_false, hbit]
    exact ih _ (h.tail _) hnext

theorem readb_at (h : At T timeout p t) (hmode : t.mode = .off ∨ t.mode = .sending) :
    (p.readb (slave T) timeout).2 = ((talkOps T).readb t).2 ∧
      At T timeout (p.readb (slave T) timeout).1 ((talkOps T).readb t).1 ∧
      (p.readb (slave T) timeout).1.lines.out = true := by
  obtain ⟨out, marked, hlines⟩ := h.lines
  have hp : (p.setSda (slave T) true).Patient timeout := h.patient
  obtain ⟨p', hbits, hpatient, marked', hlines'⟩ :=
    readBits_eq (D := slave T) (s := t.slave T) 8 0 hp
      (show _ = Lines.mk false true marked (t.slave T) by simp only [setSda, hlines, setSda_low])
  rw [read_bits hmode, foldl_shiftIn] at hbits
  rw [read_bits hmode] at hlines'
  rw [readb, hbits]
  exact ⟨rfl, ⟨⟨true, marked', hlines'⟩, hpatient⟩, by rw [hlines']⟩

theorem sendAckOrNack_at (h : At T timeout p t) (hout : p.lines.out = true)
    (hmode : t.mode = .off ∨ t.mode = .sent) (more : Bool) :
    (p.sendAckOrNack (slave T) timeout more).2 = RT_EOK ∧
      At T timeout (p.sendAckOrNack (slave T) timeout more).1 (t.ack T more) := by
  obtain ⟨out, marked, hlines⟩ := h.lines
  obtain rfl : true = out := by rw [← hout, hlines]
  have hnext := ack_bit (T := T) hmode more
  cases more with
  | false =>
    simp only [sendAckOrNack, Bool.false_eq_true, if_false, sclH_eq h.patient, Int.lt_irrefl]
    simp only [sclL, hlines, rise_low, fall_high]
    exact ⟨trivial, ⟨true, false, congrArg _ hnext⟩, h.patient.tail _⟩
  | true =>
    have hp : (p.setSda (slave T) false).Patient timeout := h.patient
    simp only [sendAckOrNack, if_true, sclH_eq hp, Int.lt_irrefl, if_false]
    simp only [setSda, sclL, hlines, setSda_low, rise_low, fall_high]
    exact ⟨trivial, ⟨false, false, congrArg _ hnext⟩, hp.tail _⟩

end I2cPins

/-! ## The modes of a transfer -/

namespace I2cByteOps

open I2cPins

variable {ρ : Type} {T : Target ρ} {timeout : UInt32} {p : I2cPins (Slave ρ)} {t : Talk ρ} {b : UInt8}

theorem write_mode_off (h : (t.write T b).2 = false) (hmode : t.mode = .addressing) :
    (t.write T b).1.mode = .off := by
  unfold Talk.write at h ⊢
  rw [hmode] at h ⊢
  dsimp only at h ⊢
  rw [h]
  rfl

theorem write_mode_addressed (h : (t.write T b).2 = true) (hmode : t.mode = .addressing) :
    (t.write T b).1.mode = .addressed b := by
  unfold Talk.write at h ⊢
  rw [hmode] at h ⊢
  dsimp only at h ⊢
  rw [h]
  rfl

/-- The device receives, or is off. -/
def Takes (t : Talk ρ) : Prop := t.mode = .off ∨ t.mode = .receiving

theorem write_taken (h : Takes t) (b : UInt8) : (t.write T b).1.mode = .off ∨
    ((talkOps T).writeb t b).2 = 1 ∧ (t.write T b).1.mode = .receiving := by
  obtain ⟨mode, mem⟩ := t
  rcases h with rfl | rfl
  · exact .inl rfl
  · show (if (T.receive mem b).2 then Mode.receiving else .off) = .off ∨
      (if (T.receive mem b).2 then (1 : RtErr) else 0) = 1 ∧
        (if (T.receive mem b).2 then Mode.receiving else .off) = .receiving
    split
    · exact .inr ⟨rfl, rfl⟩
    · exact .inl rfl

theorem write_takes (h : Takes t) (b : UInt8) : Takes (t.write T b).1 :=
  (write_taken h b).imp_right And.right

theorem Takes.ne_sending (h : Takes t) : t.mode ≠ .sending := by
  rcases h with h | h <;> rw [h] <;> decide

/-- A function of the driver does what it is meant to do. -/
structure Follows {α : Type} (T : Target ρ) (timeout : UInt32) (r : I2cPins (Slave ρ) × α) (r' : Talk ρ × α) :
    Prop where
  result : r.2 = r'.2
  pins : At T timeout r.1 r'.1

theorem writeb_follows (h : At T timeout p t)
    (hmode : t.mode = .off ∨ t.mode = .addressing ∨ t.mode = .receiving) (b : UInt8) :
    Follows T timeout ((bitOps (slave T) timeout).writeb p b) ((talkOps T).writeb t b) :=
  ⟨(writeb_at h hmode b).1, (writeb_at h hmode b).2⟩

theorem sendBytes_follows (ignoreNack : Bool) (bs : List UInt8) (bytes : RtErr) (h : At T timeout p t)
    (htakes : Takes t) :
    Follows T timeout ((bitOps (slave T) timeout).sendBytes ignoreNack bs bytes p)
        ((talkOps T).sendBytes ignoreNack bs bytes t) ∧
      Takes ((talkOps T).sendBytes ignoreNack bs bytes t).1 := by
  induction bs generalizing bytes p t with
  | nil => exact ⟨⟨rfl, h⟩, htakes⟩
  | cons b bs ih =>
    obtain ⟨hret, hat⟩ := writeb_follows h (htakes.imp_right .inr) b
    have hnext : Takes ((talkOps T).writeb t b).1 := write_takes htakes b
    rw [sendBytes, sendBytes]
    generalize (bitOps (slave T) timeout).writeb p b = r at hret hat ⊢
    generalize (talkOps T).writeb t b = r' at hret hat hnext ⊢
    obtain ⟨p', ret⟩ := r
    obtain ⟨t', ret'⟩ := r'
    obtain rfl : ret = ret' := hret
    dsimp only at hat hnext ⊢
    split
    · exact ih (bytes + 1) hat hnext
    · split
      · exact ⟨⟨rfl, hat⟩, hnext⟩
      · exact ⟨⟨rfl, hat⟩, hnext⟩

/-- The device gives bytes, or is off. -/
def Gives (t : Talk ρ) : Prop := t.mode = .off ∨ t.mode = .sending

theorem recvBytes_round {τ : Type} {O : I2cByteOps τ} {t : τ} {b : UInt8} (count : ℕ) (got : List UInt8)
    (hread : (O.readb t).2 = b.toNat)
    (hack : (O.sendAckOrNack (O.readb t).1 (count ≠ 0)).2 = RT_EOK) :
    O.recvBytes false (count + 1) got t =
      O.recvBytes false count (got ++ [b]) (O.sendAckOrNack (O.readb t).1 (count ≠ 0)).1 := by
  rw [recvBytes]
  simp only [hread, hack, ge_iff_le, Int.natCast_nonneg, if_true, Bool.false_eq_true, if_false,
    Int.lt_irrefl, Int.toNat_natCast, UInt8.ofNat_toNat]

theorem recvBytes_follows (count : ℕ) (got : List UInt8) (h : At T timeout p t) (hgives : Gives t)
    (hcount : count = 0 → t.mode = .off) :
    Follows T timeout ((bitOps (slave T) timeout).recvBytes false count got p)
        ((talkOps T).recvBytes false count got t) ∧
      ((talkOps T).recvBytes false count got t).1.mode = .off := by
  induction count generalizing p t got with
  | zero => exact ⟨⟨rfl, h⟩, hcount rfl⟩
  | succ count ih =>
    obtain ⟨hval, hat, hout⟩ := readb_at h hgives
    have hread : (t.read T).1.mode = .off ∨ (t.read T).1.mode = .sent := by
      obtain ⟨mode, mem⟩ := t
      rcases hgives with rfl | rfl
      · exact .inl rfl
      · exact .inr rfl
    obtain ⟨hret, hat'⟩ := sendAckOrNack_at hat hout hread (count ≠ 0)
    have hgives' : Gives ((t.read T).1.ack T (count ≠ 0)) ∧
        (count = 0 → ((t.read T).1.ack T (count ≠ 0)).mode = .off) := by
      unfold Talk.ack Gives
      rcases hread with hread | hread
      · simp [hread]
      · by_cases hzero : count = 0 <;> simp [hread, hzero]
    rw [recvBytes_round (b := (t.read T).2) count got hval hret,
      recvBytes_round (O := talkOps T) (b := (t.read T).2) count got rfl rfl]
    exact ih _ hat' hgives'.1 hgives'.2

/-! ## Addresses -/

theorem addressed_even (x : UInt16) : Mode.addressed (x <<< 1).toUInt8 = .receiving := by
  have hbit : (x <<< 1).toUInt8.toBitVec.getLsbD 0 = false := by simp
  rw [Mode.addressed, hbit]
  rfl

theorem addressed_odd (b : UInt8) : Mode.addressed (b ||| 1) = .sending := by
  have hbit : (b ||| 1).toBitVec.getLsbD 0 = true := by simp
  rw [Mode.addressed, hbit]
  rfl

theorem addressed_ten (x : UInt16) : Mode.addressed (0xf0 ||| (x &&& 0x06).toUInt8) = .receiving := by
  have hbit : (0xf0 ||| (x &&& 0x06).toUInt8).toBitVec.getLsbD 0 = false := by simp
  rw [Mode.addressed, hbit]
  rfl

theorem sendAddress_follows (b : UInt8) (retries : ℕ) (h : At T timeout p t) (hmode : t.mode = .addressing) :
    Follows T timeout ((bitOps (slave T) timeout).sendAddress b retries p)
        ((talkOps T).sendAddress b retries t) ∧
      (((talkOps T).sendAddress b retries t).1.mode = .off ∨
        ((talkOps T).sendAddress b retries t).2 = 1 ∧
          ((talkOps T).sendAddress b retries t).1.mode = .addressed b) := by
  induction retries generalizing p t with
  | zero =>
    refine ⟨writeb_follows h (.inr (.inl hmode)) b, ?_⟩
    simp only [sendAddress, talkOps]
    cases hack : (t.write T b).2 with
    | false => exact .inl (write_mode_off hack hmode)
    | true => exact .inr ⟨by simp, write_mode_addressed hack hmode⟩
  | succ retries ih =>
    obtain ⟨hret, hat⟩ := writeb_follows h (.inr (.inl hmode)) b
    rw [sendAddress, sendAddress]
    cases hack : (t.write T b).2 with
    | false =>
      -- the device is off, so there is a stop and a start before the next try
      have hoff : (t.write T b).1.mode = .off := write_mode_off hack hmode
      have hretry := start_at (stop_idle hat (by rw [talkOps, hoff]; decide))
      simp only [hret]
      simp only [talkOps, hack, Bool.false_eq_true, if_false, zero_ne_one]
      exact ih hretry rfl
    | true =>
      simp only [hret]
      simp only [talkOps, hack, if_true]
      exact ⟨⟨rfl, hat⟩, .inr ⟨trivial, write_mode_addressed hack hmode⟩⟩

/-- What `i2c_bit_send_address` makes of a byte of an address, before `next`. -/
def checked {τ : Type} (ignoreNack : Bool) (r : τ × RtErr) (next : τ → τ × RtErr) : τ × RtErr :=
  if r.2 ≠ 1 && !ignoreNack then (r.1, - RT_EIO) else next r.1

theorem bitSendAddress_eq {τ : Type} (O : I2cByteOps τ) (retries : ℕ) (m : I2cMsg) (t : τ) :
    O.bitSendAddress retries m t =
      let ignoreNack := m.has RT_I2C_IGNORE_NACK
      let retries := if ignoreNack then 0 else retries
      if m.has RT_I2C_ADDR_10BIT then
        let addr1 := (0xf0 : UInt8) ||| ((m.addr >>> 7) &&& 0x06).toUInt8
        checked ignoreNack (O.sendAddress addr1 retries t) fun t =>
          checked ignoreNack (O.writeb t (m.addr &&& 0xff).toUInt8) fun t =>
            if m.has RT_I2C_RD then
              checked ignoreNack (O.sendAddress (addr1 ||| 0x01) retries (O.restart t)) fun t => (t, RT_EOK)
            else (t, RT_EOK)
      else
        let addr1 := (m.addr <<< 1).toUInt8
        let addr1 := if m.has RT_I2C_RD then addr1 ||| 1 else addr1
        checked ignoreNack (O.sendAddress addr1 retries t) fun t => (t, RT_EOK) := rfl

/-- After an address the device is off, or ready in the mode that was asked for. -/
def Addressed (mode : Mode) (r : Talk ρ × RtErr) : Prop :=
  r.1.mode = .off ∨ r.2 = RT_EOK ∧ r.1.mode = mode

theorem checked_follows {r : I2cPins (Slave ρ) × RtErr} {r' : Talk ρ × RtErr} {mode mode' : Mode}
    {next : I2cPins (Slave ρ) → I2cPins (Slave ρ) × RtErr} {next' : Talk ρ → Talk ρ × RtErr}
    (ignoreNack : Bool) (h : Follows T timeout r r') (hmode : r'.1.mode = .off ∨ r'.2 = 1 ∧ r'.1.mode = mode)
    (hnext : ∀ p t, At T timeout p t → (t.mode = .off ∨ t.mode = mode) →
      Follows T timeout (next p) (next' t) ∧ Addressed mode' (next' t)) :
    Follows T timeout (checked ignoreNack r next) (checked ignoreNack r' next') ∧
      Addressed mode' (checked ignoreNack r' next') := by
  obtain ⟨hret, hat⟩ := h
  unfold checked
  rw [hret]
  split
  · rename_i hnack
    refine ⟨⟨rfl, hat⟩, .inl ?_⟩
    rcases hmode with hoff | ⟨hone, -⟩
    · exact hoff
    · simp [hone] at hnack
  · exact hnext _ _ hat (hmode.imp_right And.right)

theorem done_follows {mode : Mode} (p : I2cPins (Slave ρ)) (t : Talk ρ) (h : At T timeout p t)
    (hmode : t.mode = .off ∨ t.mode = mode) :
    Follows T timeout (p, RT_EOK) (t, RT_EOK) ∧ Addressed mode (t, RT_EOK) :=
  ⟨⟨rfl, h⟩, hmode.imp_right fun h => ⟨rfl, h⟩⟩

theorem bitSendAddress_follows (retries : ℕ) (m : I2cMsg) (h : At T timeout p t)
    (hmode : t.mode = .addressing) :
    Follows T timeout ((bitOps (slave T) timeout).bitSendAddress retries m p)
        ((talkOps T).bitSendAddress retries m t) ∧
      Addressed (if m.has RT_I2C_RD then .sending else .receiving)
        ((talkOps T).bitSendAddress retries m t) := by
  rw [bitSendAddress_eq, bitSendAddress_eq]
  dsimp only
  split
  · obtain ⟨hsent, hready⟩ := sendAddress_follows ((0xf0 : UInt8) ||| ((m.addr >>> 7) &&& 0x06).toUInt8)
      (if m.has RT_I2C_IGNORE_NACK then 0 else retries) h hmode
    rw [addressed_ten] at hready
    refine checked_follows _ hsent hready fun p t h htakes => ?_
    have hwrite := writeb_follows h (htakes.imp_right .inr) (m.addr &&& 0xff).toUInt8
    refine checked_follows _ hwrite (write_taken htakes _) fun p t h htakes => ?_
    split
    · obtain ⟨hsent, hready⟩ := sendAddress_follows
        ((0xf0 : UInt8) ||| ((m.addr >>> 7) &&& 0x06).toUInt8 ||| 0x01)
        (if m.has RT_I2C_IGNORE_NACK then 0 else retries) (restart_at h (Takes.ne_sending htakes)) rfl
      rw [addressed_odd] at hready
      exact checked_follows _ hsent hready done_follows
    · exact done_follows p t h htakes
  · obtain ⟨hsent, hready⟩ := sendAddress_follows
      (if m.has RT_I2C_RD then (m.addr <<< 1).toUInt8 ||| 1 else (m.addr <<< 1).toUInt8)
      (if m.has RT_I2C_IGNORE_NACK then 0 else retries) h hmode
    have hlast : Mode.addressed
        (if m.has RT_I2C_RD then (m.addr <<< 1).toUInt8 ||| 1 else (m.addr <<< 1).toUInt8) =
        if m.has RT_I2C_RD then .sending else .receiving := by
      split
      · exact addressed_odd _
      · exact addressed_even m.addr
    rw [hlast] at hready
    exact checked_follows _ hsent hready done_follows

/-! ## Messages -/

/-- Before a message: between two transfers, or after another message. -/
def Before (T : Target ρ) (timeout : UInt32) (first : Bool) (p : I2cPins (Slave ρ)) (t : Talk ρ) : Prop :=
  if first then Idle T timeout p t else At T timeout p t ∧ Takes t

theorem openMessage_follows {first : Bool} {m : I2cMsg} (retries : ℕ) (hplain : m.Plain)
    (h : Before T timeout first p t) :
    Follows T timeout ((bitOps (slave T) timeout).openMessage retries first m p)
        ((talkOps T).openMessage retries first m t) ∧
      Addressed (if m.has RT_I2C_RD then .sending else .receiving)
        ((talkOps T).openMessage retries first m t) := by
  unfold openMessage
  rw [hplain.start]
  cases first with
  | false => exact bitSendAddress_follows retries m (restart_at h.1 (Takes.ne_sending h.2)) rfl
  | true => exact bitSendAddress_follows retries m (start_at h) rfl

theorem message_follows {first : Bool} {m : I2cMsg} (retries : ℕ) (hplain : m.Plain)
    (h : Before T timeout first p t) :
    Follows T timeout ((bitOps (slave T) timeout).message retries first m p)
        ((talkOps T).message retries first m t) ∧
      Takes ((talkOps T).message retries first m t).1 := by
  obtain ⟨⟨hret, hat⟩, hready⟩ := openMessage_follows retries hplain h
  unfold message
  generalize (bitOps (slave T) timeout).openMessage retries first m p = r at hret hat ⊢
  generalize (talkOps T).openMessage retries first m t = r' at hret hat hready ⊢
  obtain ⟨p', ret⟩ := r
  obtain ⟨t', ret'⟩ := r'
  obtain rfl : ret = ret' := hret
  dsimp only at hat ⊢
  split
  · -- the address was not acknowledged
    rename_i hnack
    refine ⟨⟨rfl, hat⟩, .inl ?_⟩
    rcases hready with hoff | ⟨hok, -⟩
    · exact hoff
    · rw [show ret = RT_EOK from hok] at hnack
      cases hnack
  · cases hread : m.has RT_I2C_RD with
    | true =>
      rw [hread] at hready
      have hgives : Gives t' := hready.imp_right And.right
      have hcount : m.buf.length = 0 → t'.mode = .off := fun hnil =>
        absurd (List.eq_nil_of_length_eq_zero hnil) (hplain.read hread)
      obtain ⟨⟨hres, hat'⟩, hoff⟩ := recvBytes_follows m.buf.length [] hat hgives hcount
      rw [hplain.ack]
      simp only [if_true]
      exact ⟨⟨by simp only [hres], hat'⟩, .inl hoff⟩
    | false =>
      rw [hread] at hready
      have htakes : Takes t' := hready.imp_right And.right
      obtain ⟨⟨hres, hat'⟩, htakes'⟩ :=
        sendBytes_follows (m.has RT_I2C_IGNORE_NACK) m.buf 0 hat htakes
      simp only [Bool.false_eq_true, if_false]
      exact ⟨⟨by simp only [hres], hat'⟩, htakes'⟩

theorem message_flags {τ : Type} (O : I2cByteOps τ) (retries : ℕ) (first : Bool) (m : I2cMsg) (t : τ) :
    (O.message retries first m t).2.1.flags = m.flags := by
  unfold message
  dsimp only
  split
  · rfl
  split <;> rfl

theorem close_idle {m m' : I2cMsg} (hplain : m.Plain) (hflags : m'.flags = m.flags) (h : At T timeout p t)
    (htakes : Takes t) :
    Idle T timeout ((bitOps (slave T) timeout).close m' p) ((talkOps T).close m' t) := by
  have hstop : m'.has RT_I2C_NO_STOP = false := by
    rw [← hplain.stop, I2cMsg.has, I2cMsg.has, hflags]
  unfold close
  rw [hstop]
  exact stop_idle h htakes.ne_sending

theorem xferFrom_more {τ : Type} (O : I2cByteOps τ) (retries i : ℕ) (m m' : I2cMsg) (msgs : List I2cMsg)
    (t : τ) : O.xferFrom retries i (m :: m' :: msgs) t =
      match O.message retries (i == 0) m t with
      | (t, m, some ret) => (O.close m t, m :: m' :: msgs, ret)
      | (t, m, none) =>
        let (t, ms, ret) := O.xferFrom retries (i + 1) (m' :: msgs) t
        (t, m :: ms, ret) := rfl

theorem xferFrom_follows {msgs : List I2cMsg} (retries : ℕ) {i : ℕ} (hplain : ∀ m ∈ msgs, m.Plain)
    (hne : msgs ≠ []) (h : Before T timeout (i == 0) p t) :
    ((bitOps (slave T) timeout).xferFrom retries i msgs p).2 = ((talkOps T).xferFrom retries i msgs t).2 ∧
      Idle T timeout ((bitOps (slave T) timeout).xferFrom retries i msgs p).1
        ((talkOps T).xferFrom retries i msgs t).1 := by
  induction msgs generalizing p t i with
  | nil => exact absurd rfl hne
  | cons m msgs ih =>
    have hm := hplain m List.mem_cons_self
    obtain ⟨⟨hres, hat⟩, htakes⟩ := message_follows retries hm h
    have hflags := message_flags (talkOps T) retries (i == 0) m t
    cases msgs with
    | nil =>
      simp only [xferFrom, hres]
      exact ⟨trivial, close_idle hm hflags hat htakes⟩
    | cons m' msgs =>
      rw [xferFrom_more, xferFrom_more]
      generalize (bitOps (slave T) timeout).message retries (i == 0) m p = r at hres hat ⊢
      generalize (talkOps T).message retries (i == 0) m t = r' at hres hat htakes hflags ⊢
      obtain ⟨p', res⟩ := r
      obtain ⟨t', m₁, out⟩ := r'
      obtain rfl : res = (m₁, out) := hres
      cases out with
      | some ret => exact ⟨rfl, close_idle hm hflags hat htakes⟩
      | none =>
        obtain ⟨hrest, hidle⟩ := ih (i := i + 1) (fun m hmem => hplain m (List.mem_cons_of_mem _ hmem))
          (List.cons_ne_nil _ _) (p := p') (t := t') ⟨hat, htakes⟩
        exact ⟨by simp only [hrest], hidle⟩

theorem xfer_follows {msgs : List I2cMsg} (retries : ℕ) (hplain : ∀ m ∈ msgs, m.Plain) (hne : msgs ≠ [])
    (h : Idle T timeout p t) :
    ((bitOps (slave T) timeout).xfer retries msgs p).2 = ((talkOps T).xfer retries msgs t).2 ∧
      Idle T timeout ((bitOps (slave T) timeout).xfer retries msgs p).1
        ((talkOps T).xfer retries msgs t).1 :=
  xferFrom_follows retries hplain hne h

/-- **A transfer does what it is meant to do.** Over a device that lets go of SCL in time, whatever the
target, the messages and the number of retries: the bits on the lines are the bytes of the messages, so
that the target goes to the state in which the messages should leave it and the caller gets what the
target gave and the right result, and the lines are high again, ready for the next transfer. -/
theorem i2c_transfer_refines (retries : ℕ) (msgs : List I2cMsg) (hplain : ∀ m ∈ msgs, m.Plain)
    (h : Idle T timeout p t) :
    ((bitOps (slave T) timeout).xfer retries msgs p).2 = ((talkOps T).xfer retries msgs t).2 ∧
      Idle T timeout ((bitOps (slave T) timeout).xfer retries msgs p).1
        ((talkOps T).xfer retries msgs t).1 := by
  cases msgs with
  | nil => exact ⟨rfl, h⟩
  | cons m msgs => exact xfer_follows retries hplain (List.cons_ne_nil _ _) h

end I2cByteOps

/-- A bank of registers that hold what was written to them. -/
def bank : Registers (List UInt8) where
  write mem reg b := mem.set reg.toNat b
  peek mem reg := mem.getD reg.toNat 0
  took mem _ := mem

namespace I2cByteOps

/-- Two messages write a register and read it and the next one. -/
def bankMsgs : List I2cMsg := [⟨0x29, RT_I2C_WR, [1, 7]⟩, ⟨0x29, RT_I2C_WR, [1]⟩, ⟨0x29, RT_I2C_RD, [0, 0]⟩]

/-- The lines at rest before three registers. -/
def bankPins : I2cPins (Slave (Registers.Access (List UInt8))) :=
  ⟨⟨true, true, false, (Talk.mk .off ⟨[1, 2, 3], 0, false⟩).slave (bank.target 0x29)⟩, [⟨5, [5, 55]⟩]⟩

theorem i2c_transfer_refines_bank :
    ((bitOps (slave (bank.target 0x29)) 100).xfer 0 bankMsgs bankPins).2 =
        ([⟨0x29, RT_I2C_WR, [1, 7]⟩, ⟨0x29, RT_I2C_WR, [1]⟩, ⟨0x29, RT_I2C_RD, [7, 3]⟩], 3) ∧
      I2cPins.Idle (bank.target 0x29) 100
        ((bitOps (slave (bank.target 0x29)) 100).xfer 0 bankMsgs bankPins).1 ⟨.off, ⟨[1, 7, 3], 3, false⟩⟩ := by
  have hidle : I2cPins.Idle (bank.target 0x29) 100 bankPins ⟨.off, ⟨[1, 2, 3], 0, false⟩⟩ :=
    ⟨⟨false, rfl⟩, rfl, fun hold hmem => List.mem_singleton.mp hmem ▸ by decide⟩
  have hplain : ∀ m ∈ bankMsgs, m.Plain := by
    rintro m (_ | ⟨_, _ | ⟨_, _ | ⟨_, ⟨⟩⟩⟩⟩)
    · exact .wr _ _
    · exact .wr _ _
    · exact .rd _ (List.cons_ne_nil _ _)
  obtain ⟨hres, hidle'⟩ := i2c_transfer_refines 0 bankMsgs hplain hidle
  exact ⟨hres.trans (by decide), hidle'⟩

end I2cByteOps

end Hcics
