import Hcics.Driver.I2cSpec
import Hcics.Guard.Model

/-!
# The guard sensor at the pins

The bus of the guard sensor as the driver drives it: `pinBus` makes each transfer of `hcics_guard.c` with
the messages of `hcics_guard_write_multi` and `hcics_guard_read_multi`. Over a device with registers the
transfers are accesses of its registers; where no device has the address, they fail.
-/

namespace Hcics

open TwoWire

/-- The time of a transfer, and how the device holds SCL in it. -/
structure PinSlot where
  now : Tick
  holds : List SclHold
  deriving DecidableEq, Repr

namespace Guard

abbrev vl53l0xAddr : UInt16 := 0x29

def writeMsgs (reg : UInt8) (data : List UInt8) : List I2cMsg := [⟨vl53l0xAddr, RT_I2C_WR, reg :: data⟩]

/-- The messages of `hcics_guard_read_multi`; the buffer is what the caller gave. -/
def readMsgs (reg : UInt8) (buf : List UInt8) : List I2cMsg :=
  [⟨vl53l0xAddr, RT_I2C_WR, [reg]⟩, ⟨vl53l0xAddr, RT_I2C_RD, buf⟩]

/-- The buffer after the messages of `hcics_guard_read_multi`, where they succeeded. -/
def readAnswer (len : ℕ) (msgs : List I2cMsg) (ret : RtErr) : Option (Vector UInt8 len) :=
  let buf := (msgs.getLast?.map I2cMsg.buf).getD []
  if ret = 2 then if h : buf.length = len then some ⟨buf.toArray, by simpa using h⟩ else none else none

/-- The bus at the pins of a device, with `rt_i2c_transfer`. -/
def pinBus {σ : Type} (D : Device σ) (timeout : UInt32) (retries : ℕ) : I2cBus (I2cPins σ) PinSlot where
  now i := i.now
  write p reg data i :=
    let (p, _, ret) := (bitOps D timeout).xfer retries (writeMsgs reg data) { p with holds := i.holds }
    (p, ret == 1)
  read len p reg i :=
    let (p, msgs, ret) :=
      (bitOps D timeout).xfer retries (readMsgs reg (List.replicate len 0)) { p with holds := i.holds }
    (p, readAnswer len msgs ret)

theorem readAnswer_ok {len : ℕ} {reg : UInt8} {bs : List UInt8} (h : bs.length = len) :
    (readAnswer len (readMsgs reg bs) 2).map Vector.toList = some bs := by
  subst h
  simp [readAnswer, readMsgs]

end Guard

/-! ## Transfers of registers -/

namespace I2cByteOps

variable {ρ μ : Type} {T : Target ρ} {R : Registers μ} {a : UInt8}

theorem sendAddress_ack {τ : Type} {O : I2cByteOps τ} {t : τ} {addr : UInt8} (retries : ℕ)
    (h : (O.writeb t addr).2 = 1) : O.sendAddress addr retries t = O.writeb t addr := by
  cases retries with
  | zero => rfl
  | succ retries =>
    rw [sendAddress]
    exact if_pos h

theorem sendAddress_nack {addr : UInt8} (retries : ℕ) (s : Registers.Access μ) (h : addr >>> 1 ≠ a) :
    (talkOps (R.target a)).sendAddress addr retries ⟨.addressing, s⟩ = (⟨.off, s⟩, 0) := by
  have hwrite : (talkOps (R.target a)).writeb ⟨.addressing, s⟩ addr = (⟨.off, s⟩, 0) := by
    simp [talkOps, Talk.write, Registers.target, h]
  induction retries with
  | zero => exact hwrite
  | succ retries ih =>
    rw [sendAddress, hwrite]
    exact ih

/-- Bytes of data are written to the register that is next and to those after it. -/
theorem sendBytes_data (ignoreNack : Bool) (bs : List UInt8) (bytes : RtErr) (mem : μ) (next : UInt8) :
    (talkOps (R.target a)).sendBytes ignoreNack bs bytes ⟨.receiving, ⟨mem, next, false⟩⟩ =
      (⟨.receiving, ⟨R.writeAll mem next bs, next + .ofNat bs.length, false⟩⟩, bytes + bs.length) := by
  induction bs generalizing bytes mem next with
  | nil => simp [sendBytes, Registers.writeAll]
  | cons b bs ih =>
    have hround : (talkOps (R.target a)).sendBytes ignoreNack (b :: bs) bytes ⟨.receiving, ⟨mem, next, false⟩⟩ =
        (talkOps (R.target a)).sendBytes ignoreNack bs (bytes + 1)
          ⟨.receiving, ⟨R.write mem next b, next + 1, false⟩⟩ := rfl
    have hnext : next + 1 + UInt8.ofNat bs.length = next + UInt8.ofNat (bs.length + 1) := by
      rw [UInt8.ofNat_add, UInt8.add_assoc, UInt8.add_comm (.ofNat bs.length)]
      rfl
    rw [hround, ih, Registers.writeAll, List.length_cons, hnext]
    push_cast
    rw [Int.add_assoc, Int.add_comm 1]

/-- Bytes are read from the register that is next and from those after it. -/
theorem recvBytes_data (count : ℕ) (got : List UInt8) (mem : μ) (next : UInt8) (naming : Bool) :
    ∃ next', (talkOps (R.target a)).recvBytes false (count + 1) got ⟨.sending, ⟨mem, next, naming⟩⟩ =
      (⟨.off, ⟨(R.readAll mem next (count + 1)).2, next', naming⟩⟩,
        got ++ (R.readAll mem next (count + 1)).1, ((got.length + (count + 1) : ℕ) : RtErr)) := by
  induction count generalizing got mem next with
  | zero =>
    refine ⟨next + 1, ?_⟩
    rw [recvBytes_round (b := R.peek mem next) 0 got rfl rfl]
    simp only [recvBytes, List.length_append]
    rfl
  | succ count ih =>
    obtain ⟨next', hrest⟩ := ih (got ++ [R.peek mem next]) (R.took mem next) (next + 1)
    refine ⟨next', ?_⟩
    rw [recvBytes_round (b := R.peek mem next) (count + 1) got rfl rfl]
    show (talkOps (R.target a)).recvBytes false (count + 1) (got ++ [R.peek mem next])
      ⟨.sending, ⟨R.took mem next, next + 1, naming⟩⟩ = _
    rw [hrest, Registers.readAll, List.length_append, List.append_assoc]
    simp only [List.length_singleton, List.singleton_append]
    congr 3
    omega

section Address

open Guard

variable {flags : UInt16} {first : Bool} {buf : List UInt8} {retries : ℕ} {mode : Mode} {mem : μ}
  {reg next : UInt8} {naming : Bool}

theorem openMessage_wr {τ : Type} {O : I2cByteOps τ} {t : τ} :
    O.openMessage retries first ⟨vl53l0xAddr, RT_I2C_WR, buf⟩ t =
      checked false (O.sendAddress 0x52 retries (if first then O.start t else O.restart t))
        fun t => (t, RT_EOK) := by
  have haddr : (vl53l0xAddr <<< 1).toUInt8 = 0x52 := by decide
  rw [openMessage, bitSendAddress_eq]
  simp only [I2cMsg.has_wr, haddr, Bool.false_eq_true, if_false]

theorem openMessage_rd {τ : Type} {O : I2cByteOps τ} {t : τ} :
    O.openMessage retries first ⟨vl53l0xAddr, RT_I2C_RD, buf⟩ t =
      checked false (O.sendAddress 0x53 retries (if first then O.start t else O.restart t))
        fun t => (t, RT_EOK) := by
  have hstart : (RT_I2C_RD &&& RT_I2C_NO_START != 0) = false := by decide
  have hten : (RT_I2C_RD &&& RT_I2C_ADDR_10BIT != 0) = false := by decide
  have hignore : (RT_I2C_RD &&& RT_I2C_IGNORE_NACK != 0) = false := by decide
  have hread : (RT_I2C_RD &&& RT_I2C_RD != 0) = true := by decide
  have haddr : (vl53l0xAddr <<< 1).toUInt8 ||| 1 = 0x53 := by decide
  rw [openMessage, bitSendAddress_eq]
  simp only [I2cMsg.has_rd, hstart, hten, hignore, hread, haddr, Bool.false_eq_true, if_false, if_true]

theorem open_write : (talkOps (R.target 0x29)).openMessage retries first ⟨vl53l0xAddr, RT_I2C_WR, buf⟩
    ⟨mode, ⟨mem, next, naming⟩⟩ = (⟨.receiving, ⟨mem, next, true⟩⟩, RT_EOK) := by
  have hack : (talkOps (R.target 0x29)).writeb ⟨.addressing, ⟨mem, next, naming⟩⟩ 0x52 =
      (⟨.receiving, ⟨mem, next, true⟩⟩, 1) := by
    cases naming <;> rfl
  have hsent := sendAddress_ack retries (congrArg Prod.snd hack)
  rw [hack] at hsent
  rw [openMessage_wr]
  cases first <;> exact congrArg (checked false · fun t => (t, RT_EOK)) hsent

theorem open_read : (talkOps (R.target 0x29)).openMessage retries first ⟨vl53l0xAddr, RT_I2C_RD, buf⟩
    ⟨mode, ⟨mem, next, naming⟩⟩ = (⟨.sending, ⟨mem, next, naming⟩⟩, RT_EOK) := by
  have hack : (talkOps (R.target 0x29)).writeb ⟨.addressing, ⟨mem, next, naming⟩⟩ 0x53 =
      (⟨.sending, ⟨mem, next, naming⟩⟩, 1) := by
    cases naming <;> rfl
  have hsent := sendAddress_ack retries (congrArg Prod.snd hack)
  rw [hack] at hsent
  rw [openMessage_rd]
  cases first <;> exact congrArg (checked false · fun t => (t, RT_EOK)) hsent

theorem open_absent (h : a ≠ 0x29) : (talkOps (R.target a)).openMessage retries first
    ⟨vl53l0xAddr, RT_I2C_WR, buf⟩ ⟨mode, ⟨mem, next, naming⟩⟩ =
      (⟨.off, ⟨mem, next, naming⟩⟩, - RT_EIO) := by
  have hsent := sendAddress_nack (R := R) retries ⟨mem, next, naming⟩
    (show (0x52 : UInt8) >>> 1 ≠ a from fun he => h (he.symm.trans (by decide)))
  rw [openMessage_wr]
  cases first <;> exact congrArg (checked false · fun t => (t, RT_EOK)) hsent

theorem message_write (bs : List UInt8) :
    (talkOps (R.target 0x29)).message retries first ⟨vl53l0xAddr, RT_I2C_WR, next :: bs⟩ ⟨mode, ⟨mem, reg, naming⟩⟩ =
      (⟨.receiving, ⟨R.writeAll mem next bs, next + .ofNat bs.length, false⟩⟩,
        ⟨vl53l0xAddr, RT_I2C_WR, next :: bs⟩, none) := by
  have hname : (talkOps (R.target 0x29)).sendBytes false (next :: bs) 0 ⟨.receiving, ⟨mem, reg, true⟩⟩ =
      (talkOps (R.target 0x29)).sendBytes false bs 1 ⟨.receiving, ⟨mem, next, false⟩⟩ := rfl
  have hlength : ¬ ((1 : RtErr) + bs.length < (next :: bs).length) := by
    rw [List.length_cons]
    push_cast
    rw [Int.add_comm]
    exact Int.lt_irrefl _
  rw [message, open_write]
  simp only [I2cMsg.has_wr, hname, sendBytes_data, hlength, ne_eq, not_true_eq_false, decide_false, Bool.false_and,
    Bool.false_eq_true, if_false]

theorem message_read (buf : List UInt8) (hbuf : buf ≠ []) : ∃ next',
    (talkOps (R.target 0x29)).message retries first ⟨vl53l0xAddr, RT_I2C_RD, buf⟩ ⟨mode, ⟨mem, next, naming⟩⟩ =
      (⟨.off, ⟨(R.readAll mem next buf.length).2, next', naming⟩⟩,
        ⟨vl53l0xAddr, RT_I2C_RD, (R.readAll mem next buf.length).1⟩, none) := by
  obtain ⟨count, hcount⟩ : ∃ count, buf.length = count + 1 :=
    Nat.exists_eq_succ_of_ne_zero (mt List.eq_nil_of_length_eq_zero hbuf)
  obtain ⟨next', hdata⟩ := recvBytes_data (R := R) (a := 0x29) count [] mem next naming
  refine ⟨next', ?_⟩
  have hread : (RT_I2C_RD &&& RT_I2C_RD != 0) = true := by decide
  have hack : (RT_I2C_RD &&& RT_I2C_NO_READ_ACK != 0) = false := by decide
  rw [message, open_read]
  simp only [I2cMsg.has_rd, hread, hack, hcount, hdata, ne_eq, not_true_eq_false, decide_false, Bool.false_and,
    Bool.false_eq_true, if_false, if_true]
  simp [hcount]

theorem xfer_write (data : List UInt8) :
    (talkOps (R.target 0x29)).xfer retries (writeMsgs reg data) ⟨mode, ⟨mem, next, naming⟩⟩ =
      (⟨.off, ⟨R.writeAll mem reg data, reg + .ofNat data.length, false⟩⟩, writeMsgs reg data, 1) := by
  simp only [xfer, writeMsgs, xferFrom, message_write, close, I2cMsg.has_wr, Bool.false_eq_true, if_false,
    Option.getD_none]
  rfl

theorem xfer_read (buf : List UInt8) (hbuf : buf ≠ []) : ∃ next',
    (talkOps (R.target 0x29)).xfer retries (readMsgs reg buf) ⟨mode, ⟨mem, next, naming⟩⟩ =
      (⟨.off, ⟨(R.readAll mem reg buf.length).2, next', false⟩⟩,
        readMsgs reg (R.readAll mem reg buf.length).1, 2) := by
  obtain ⟨next', hmessage⟩ := @message_read _ R false retries .receiving mem reg false buf hbuf
  refine ⟨next', ?_⟩
  have hstop : (RT_I2C_RD &&& RT_I2C_NO_STOP != 0) = false := by decide
  have hname : reg + UInt8.ofNat ([] : List UInt8).length = reg := UInt8.add_zero reg
  simp only [xfer, readMsgs, xferFrom_more, message_write, Registers.writeAll, hname]
  simp only [xferFrom, show (0 + 1 == 0) = false from rfl, hmessage, close, I2cMsg.has_rd, hstop,
    Bool.false_eq_true, if_false, Option.getD_none]
  rfl

theorem xfer_absent (h : a ≠ 0x29) (msgs : List I2cMsg) :
    (talkOps (R.target a)).xfer retries (⟨vl53l0xAddr, RT_I2C_WR, buf⟩ :: msgs) ⟨mode, ⟨mem, next, naming⟩⟩ =
      (⟨.off, ⟨mem, next, naming⟩⟩, ⟨vl53l0xAddr, RT_I2C_WR, buf⟩ :: msgs, - RT_EIO) := by
  have hmessage : (talkOps (R.target a)).message retries true ⟨vl53l0xAddr, RT_I2C_WR, buf⟩
      ⟨mode, ⟨mem, next, naming⟩⟩ =
        (⟨.off, ⟨mem, next, naming⟩⟩, ⟨vl53l0xAddr, RT_I2C_WR, buf⟩, some (- RT_EIO)) := by
    rw [message, open_absent h]
    simp
  cases msgs with
  | nil =>
    simp only [xfer, xferFrom, beq_self_eq_true, hmessage, close, I2cMsg.has_wr, Bool.false_eq_true, if_false]
    rfl
  | cons m msgs =>
    simp only [xfer, xferFrom_more, beq_self_eq_true, hmessage, close, I2cMsg.has_wr, Bool.false_eq_true, if_false]
    rfl

end Address

end I2cByteOps

namespace Guard

open I2cByteOps I2cPins

variable {μ : Type} {R : Registers μ} {a : UInt8} {timeout : UInt32} {retries : ℕ}

/-- The lines between two transfers, and what the registers hold. -/
def Rests (R : Registers μ) (a : UInt8) (p : I2cPins (Slave (Registers.Access μ))) (mem : μ) : Prop :=
  ∃ marked next naming,
    p.lines = ⟨true, true, marked, (Talk.mk .off ⟨mem, next, naming⟩).slave (R.target a)⟩

theorem Rests.idle {p : I2cPins (Slave (Registers.Access μ))} {mem : μ} (h : Rests R a p mem) {i : PinSlot}
    (hpatient : ∀ hold ∈ i.holds, hold.lets timeout = true) :
    ∃ next naming, Idle (R.target a) timeout { p with holds := i.holds } ⟨.off, ⟨mem, next, naming⟩⟩ := by
  obtain ⟨marked, next, naming, hlines⟩ := h
  exact ⟨next, naming, ⟨marked, hlines⟩, rfl, hpatient⟩

theorem rests_of_idle {p : I2cPins (Slave (Registers.Access μ))} {mem : μ} {next : UInt8} {naming : Bool}
    (h : Idle (R.target a) timeout p ⟨.off, ⟨mem, next, naming⟩⟩) : Rests R a p mem := by
  obtain ⟨marked, hlines⟩ := h.lines
  exact ⟨marked, next, naming, hlines⟩

variable {p : Probe (I2cPins (Slave (Registers.Access μ)))} {mem : μ} {i : PinSlot}

theorem writeTransfer_pins (hbus : p.ctx.bus = true) (h : Rests R a p.bus mem)
    (hpatient : ∀ hold ∈ i.holds, hold.lets timeout = true) (reg : UInt8) {data : List UInt8}
    (hne : data ≠ []) (hlength : data.length ≤ 7) :
    (writeTransfer (pinBus (slave (R.target a)) timeout retries) p reg data i).2 =
        (if a = 0x29 then RT_EOK else -RT_ERROR) ∧
      Rests R a (writeTransfer (pinBus (slave (R.target a)) timeout retries) p reg data i).1.bus
        (if a = 0x29 then R.writeAll mem reg data else mem) := by
  obtain ⟨next, naming, hidle⟩ := h.idle hpatient
  have hplain : ∀ m ∈ writeMsgs reg data, m.Plain := by
    rintro m (_ | ⟨_, ⟨⟩⟩)
    exact .wr _ _
  obtain ⟨hres, hidle'⟩ := xfer_follows retries hplain (List.cons_ne_nil _ _) hidle
  have hargs : (!p.ctx.bus || data.isEmpty) = false := by simp [hbus, hne]
  unfold writeTransfer pinBus
  simp only [hargs, Bool.false_eq_true, if_false, Nat.not_lt.mpr hlength, hres]
  by_cases ha : a = 0x29
  · subst ha
    rw [xfer_write] at hidle' ⊢
    exact ⟨rfl, rests_of_idle hidle'⟩
  · rw [writeMsgs, xfer_absent ha] at hidle' ⊢
    simp only [ha, if_false]
    exact ⟨rfl, rests_of_idle hidle'⟩

theorem readTransfer_pins (hbus : p.ctx.bus = true) (h : Rests R a p.bus mem)
    (hpatient : ∀ hold ∈ i.holds, hold.lets timeout = true) (reg : UInt8) {len : ℕ} (hlen : len ≠ 0) :
    (readTransfer (pinBus (slave (R.target a)) timeout retries) len p reg i).2.map Vector.toList =
        (if a = 0x29 then .ok (R.readAll mem reg len).1 else .error (-RT_ERROR)) ∧
      Rests R a (readTransfer (pinBus (slave (R.target a)) timeout retries) len p reg i).1.bus
        (if a = 0x29 then (R.readAll mem reg len).2 else mem) := by
  obtain ⟨next, naming, hidle⟩ := h.idle hpatient
  have hbuf : List.replicate len (0 : UInt8) ≠ [] := by simpa using hlen
  have hplain : ∀ m ∈ readMsgs reg (List.replicate len 0), m.Plain := by
    rintro m (_ | ⟨_, _ | ⟨_, ⟨⟩⟩⟩)
    · exact .wr _ _
    · exact .rd _ hbuf
  obtain ⟨hres, hidle'⟩ := xfer_follows retries hplain (List.cons_ne_nil _ _) hidle
  have hargs : (!p.ctx.bus || len == 0) = false := by simp [hbus, hlen]
  unfold readTransfer pinBus
  simp only [hargs, Bool.false_eq_true, if_false, hres]
  by_cases ha : a = 0x29
  · subst ha
    obtain ⟨next', hxfer⟩ := @xfer_read _ R retries .off mem reg next naming (List.replicate len 0) hbuf
    rw [List.length_replicate] at hxfer
    rw [hxfer] at hidle' ⊢
    have hanswer := @readAnswer_ok len reg _ (R.length_readAll mem reg len)
    refine ⟨?_, rests_of_idle hidle'⟩
    generalize readAnswer len (readMsgs reg (R.readAll mem reg len).1) 2 = answer at hanswer ⊢
    obtain ⟨v, rfl, hv⟩ := Option.map_eq_some_iff.mp hanswer
    exact congrArg Except.ok hv
  · have hxfer := @xfer_absent _ R a [reg] retries .off mem next naming ha
      [⟨vl53l0xAddr, RT_I2C_RD, List.replicate len 0⟩]
    rw [readMsgs, hxfer] at hidle'
    rw [readMsgs, hxfer]
    simp only [ha, if_false]
    exact ⟨rfl, rests_of_idle hidle'⟩

/-- **The driver's transfers are accesses of registers.** At the pins of a device with registers that lets
go of SCL in time, from lines at rest: a transfer of `hcics_guard_write_multi` writes the data to the
register and those after it, one of `hcics_guard_read_multi` reads them in order, and neither does
anything else; if no device has the address they fail and touch no register. The lines are at rest
again either way. -/
theorem guard_transfer_registers (hbus : p.ctx.bus = true) (h : Rests R a p.bus mem)
    (hpatient : ∀ hold ∈ i.holds, hold.lets timeout = true) (reg : UInt8) :
    (∀ data : List UInt8, data ≠ [] → data.length ≤ 7 →
      (writeTransfer (pinBus (slave (R.target a)) timeout retries) p reg data i).2 =
          (if a = 0x29 then RT_EOK else -RT_ERROR) ∧
        Rests R a (writeTransfer (pinBus (slave (R.target a)) timeout retries) p reg data i).1.bus
          (if a = 0x29 then R.writeAll mem reg data else mem)) ∧
      ∀ len ≠ 0,
        (readTransfer (pinBus (slave (R.target a)) timeout retries) len p reg i).2.map Vector.toList =
            (if a = 0x29 then .ok (R.readAll mem reg len).1 else .error (-RT_ERROR)) ∧
          Rests R a (readTransfer (pinBus (slave (R.target a)) timeout retries) len p reg i).1.bus
            (if a = 0x29 then (R.readAll mem reg len).2 else mem) :=
  ⟨fun _ hne hlength => writeTransfer_pins hbus h hpatient reg hne hlength,
    fun _ hlen => readTransfer_pins hbus h hpatient reg hlen⟩

/-- The driver with three registers behind the pins. -/
def bankProbe : Probe (I2cPins (Slave (Registers.Access (List UInt8)))) where
  ctx := ⟨true, true, 0, 0, true, true⟩
  bus := ⟨⟨true, true, false, (Talk.mk .off ⟨[1, 2, 3], 0, false⟩).slave (bank.target 0x29)⟩, []⟩

/-- The device holds SCL in the second bit, and lets go after one round of the wait. -/
def heldSlot : PinSlot := ⟨0, [⟨5, []⟩, ⟨5, [5, 55]⟩]⟩

theorem guard_transfer_registers_bank :
    (writeTransfer (pinBus (slave (bank.target 0x29)) 100 0) bankProbe 1 [7, 8] heldSlot).2 = RT_EOK ∧
      Rests bank 0x29 (writeTransfer (pinBus (slave (bank.target 0x29)) 100 0) bankProbe 1 [7, 8] heldSlot).1.bus
        [1, 7, 8] ∧
      (readTransfer (pinBus (slave (bank.target 0x29)) 100 0) 2 bankProbe 1 heldSlot).2.map Vector.toList =
        .ok [2, 3] := by
  have hrest : Rests bank 0x29 bankProbe.bus [1, 2, 3] := ⟨false, 0, false, rfl⟩
  obtain ⟨hwrite, hread⟩ := @guard_transfer_registers _ bank 0x29 100 0 bankProbe _ heldSlot rfl hrest
    (by decide) 1
  obtain ⟨hok, hwritten⟩ := hwrite [7, 8] (by decide) (by decide)
  exact ⟨hok, hwritten, (hread 2 (by decide)).1⟩

end Guard

end Hcics
