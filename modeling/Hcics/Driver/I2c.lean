import Hcics.Basic
import Hcics.Lib.TwoWire

/-!
# The I2C bus driver

`components/drivers/i2c/i2c-bit-ops.c` over the pins of `drv_soft_i2c.c`. The functions down to a byte
work on `TwoWire.Lines`; those above one are programs over any `I2cByteOps`, of which `bitOps` are the
ones of the driver and `talkOps` say what they are meant to do to a device.

A device may hold SCL low: a `SclHold` is what a call of `SCL_H` sees of it. The delays take time and do
nothing else.
-/

namespace Hcics

@[simp] abbrev RT_EIO : RtErr := 8

abbrev RT_I2C_WR : UInt16 := 0x0000
abbrev RT_I2C_RD : UInt16 := 0x0001
abbrev RT_I2C_ADDR_10BIT : UInt16 := 0x0004
abbrev RT_I2C_NO_START : UInt16 := 0x0010
abbrev RT_I2C_IGNORE_NACK : UInt16 := 0x0020
abbrev RT_I2C_NO_READ_ACK : UInt16 := 0x0040
abbrev RT_I2C_NO_STOP : UInt16 := 0x0080

/-- `struct rt_i2c_msg`; `len` is the length of `buf`. -/
structure I2cMsg where
  addr : UInt16
  flags : UInt16
  buf : List UInt8
  deriving DecidableEq, Repr

/-- `flags & flag`. -/
def I2cMsg.has (m : I2cMsg) (flag : UInt16) : Bool := m.flags &&& flag != 0

/-! ## The pins -/

/-- The clock before the loop of `SCL_H`, and in each of its rounds that find the line low. -/
structure SclHold where
  start : Tick
  rounds : List Tick
  deriving DecidableEq, Repr

/-- The device lets go of the line before a round finds that the time is over. -/
def SclHold.lets (timeout : UInt32) (h : SclHold) : Bool :=
  h.rounds.all fun now => decide (now - h.start ≤ timeout)

/-- The lines, and how the device will hold SCL in the next calls of `SCL_H`; in those after them it
does not. -/
structure I2cPins (σ : Type) where
  lines : TwoWire.Lines σ
  holds : List SclHold
  deriving DecidableEq, Repr

namespace I2cPins

variable {σ : Type} (D : TwoWire.Device σ) (timeout : UInt32)

def setSda (b : Bool) (p : I2cPins σ) : I2cPins σ := { p with lines := TwoWire.setSda D b p.lines }

def getSda (p : I2cPins σ) : Bool := TwoWire.level D p.lines

def sclL (p : I2cPins σ) : I2cPins σ := { p with lines := TwoWire.fall D p.lines }

/-- `SCL_H`. A device that has not let go of the line does so in a later call. -/
def sclH (p : I2cPins σ) : I2cPins σ × RtErr :=
  match p.holds with
  | [] => ({ p with lines := TwoWire.rise p.lines }, RT_EOK)
  | h :: holds =>
    if h.lets timeout then (⟨TwoWire.rise p.lines, holds⟩, RT_EOK)
    else ({ p with holds := holds }, -RT_ETIMEOUT)

/-- `i2c_start`. -/
def start (p : I2cPins σ) : I2cPins σ := (p.setSda D false).sclL D

/-- `i2c_restart`. -/
def restart (p : I2cPins σ) : I2cPins σ :=
  let p := ((p.setSda D true).sclH timeout).1
  (p.setSda D false).sclL D

/-- `i2c_stop`. -/
def stop (p : I2cPins σ) : I2cPins σ :=
  let p := ((p.setSda D false).sclH timeout).1
  p.setSda D true

/-- `i2c_waitack`. -/
def waitack (p : I2cPins σ) : I2cPins σ × RtErr :=
  let (p, ret) := (p.setSda D true).sclH timeout
  if ret < 0 then (p, -RT_ETIMEOUT)
  else
    let ack := !p.getSda D
    (p.sclL D, if ack then 1 else 0)

/-- The loop of `i2c_writeb` over the places of the bits. -/
def writeBits (data : UInt8) : List ℕ → I2cPins σ → I2cPins σ × RtErr
  | [], p => (p, RT_EOK)
  | i :: is, p =>
    let p := p.sclL D
    let (p, ret) := (p.setSda D (data.toBitVec.getLsbD i)).sclH timeout
    if ret < 0 then (p, -RT_ETIMEOUT) else writeBits data is p

/-- `i2c_writeb`. -/
def writeb (p : I2cPins σ) (data : UInt8) : I2cPins σ × RtErr :=
  let (p, ret) := writeBits D timeout data [7, 6, 5, 4, 3, 2, 1, 0] p
  if ret < 0 then (p, ret) else (p.sclL D).waitack D timeout

def readBits : ℕ → UInt8 → I2cPins σ → I2cPins σ × RtErr
  | 0, data, p => (p, data.toNat)
  | n + 1, data, p =>
    let data := data <<< 1
    let (p, ret) := p.sclH timeout
    if ret < 0 then (p, -RT_ETIMEOUT)
    else
      let data := if p.getSda D then data ||| 1 else data
      readBits n data (p.sclL D)

/-- `i2c_readb`. -/
def readb (p : I2cPins σ) : I2cPins σ × RtErr := readBits D timeout 8 0 (p.setSda D true)

/-- `i2c_send_ack_or_nack`. -/
def sendAckOrNack (p : I2cPins σ) (ack : Bool) : I2cPins σ × RtErr :=
  let p := if ack then p.setSda D false else p
  let (p, ret) := p.sclH timeout
  if ret < 0 then (p, -RT_ETIMEOUT) else (p.sclL D, RT_EOK)

end I2cPins

/-! ## Messages -/

/-- What the functions above a byte are programs over. -/
structure I2cByteOps (τ : Type) where
  start : τ → τ
  restart : τ → τ
  stop : τ → τ
  writeb : τ → UInt8 → τ × RtErr
  readb : τ → τ × RtErr
  sendAckOrNack : τ → Bool → τ × RtErr

def bitOps {σ : Type} (D : TwoWire.Device σ) (timeout : UInt32) : I2cByteOps (I2cPins σ) where
  start := I2cPins.start D
  restart := I2cPins.restart D timeout
  stop := I2cPins.stop D timeout
  writeb := I2cPins.writeb D timeout
  readb := I2cPins.readb D timeout
  sendAckOrNack := I2cPins.sendAckOrNack D timeout

/-- What they are meant to do. -/
def talkOps {ρ : Type} (T : TwoWire.Target ρ) : I2cByteOps (TwoWire.Talk ρ) where
  start := .start
  restart := .start
  stop := .stop T
  writeb t data := ((t.write T data).1, if (t.write T data).2 then 1 else 0)
  readb t := ((t.read T).1, (t.read T).2.toNat)
  sendAckOrNack t ack := (t.ack T ack, RT_EOK)

namespace I2cByteOps

variable {τ : Type} (O : I2cByteOps τ)

def sendBytes (ignoreNack : Bool) : List UInt8 → RtErr → τ → τ × RtErr
  | [], bytes, t => (t, bytes)
  | b :: bs, bytes, t =>
    let (t, ret) := O.writeb t b
    if ret > 0 || (ignoreNack && ret == 0) then sendBytes ignoreNack bs (bytes + 1) t
    else if ret = 0 then (t, 0)
    else (t, ret)

/-- The loop of `i2c_recv_bytes`: the bytes stored, and the result. -/
def recvBytes (noReadAck : Bool) : ℕ → List UInt8 → τ → τ × List UInt8 × RtErr
  | 0, got, t => (t, got, got.length)
  | count + 1, got, t =>
    let (t, val) := O.readb t
    if val ≥ 0 then
      let got := got ++ [UInt8.ofNat val.toNat]
      if noReadAck then recvBytes noReadAck count got t
      else
        let (t, val) := O.sendAckOrNack t (count ≠ 0)
        if val < 0 then (t, got, val) else recvBytes noReadAck count got t
    else (t, got, got.length)

def sendAddress (addr : UInt8) : ℕ → τ → τ × RtErr
  | 0, t => O.writeb t addr
  | retries + 1, t =>
    let (t, ret) := O.writeb t addr
    if ret = 1 then (t, ret) else sendAddress addr retries (O.start (O.stop t))

/-- `i2c_bit_send_address`. -/
def bitSendAddress (retries : ℕ) (m : I2cMsg) (t : τ) : τ × RtErr :=
  let ignoreNack := m.has RT_I2C_IGNORE_NACK
  let retries := if ignoreNack then 0 else retries
  if m.has RT_I2C_ADDR_10BIT then
    let addr1 := (0xf0 : UInt8) ||| ((m.addr >>> 7) &&& 0x06).toUInt8
    let addr2 := (m.addr &&& 0xff).toUInt8
    let (t, ret) := O.sendAddress addr1 retries t
    if ret ≠ 1 && !ignoreNack then (t, - RT_EIO)
    else
      let (t, ret) := O.writeb t addr2
      if ret ≠ 1 && !ignoreNack then (t, - RT_EIO)
      else if m.has RT_I2C_RD then
        let (t, ret) := O.sendAddress (addr1 ||| 0x01) retries (O.restart t)
        if ret ≠ 1 && !ignoreNack then (t, - RT_EIO) else (t, RT_EOK)
      else (t, RT_EOK)
  else
    let addr1 := (m.addr <<< 1).toUInt8
    let addr1 := if m.has RT_I2C_RD then addr1 ||| 1 else addr1
    let (t, ret) := O.sendAddress addr1 retries t
    if ret ≠ 1 && !ignoreNack then (t, - RT_EIO) else (t, RT_EOK)

/-- The start and the address of a message. -/
def openMessage (retries : ℕ) (first : Bool) (m : I2cMsg) (t : τ) : τ × RtErr :=
  if m.has RT_I2C_NO_START then (t, RT_EOK)
  else O.bitSendAddress retries m (if first then O.start t else O.restart t)

/-- A round of `i2c_bit_xfer`: the message with what was read, and the result where the round leaves
the loop. -/
def message (retries : ℕ) (first : Bool) (m : I2cMsg) (t : τ) : τ × I2cMsg × Option RtErr :=
  let (t, ret) := O.openMessage retries first m t
  if ret ≠ RT_EOK && !m.has RT_I2C_IGNORE_NACK then (t, m, some ret)
  else if m.has RT_I2C_RD then
    let (t, got, ret) := O.recvBytes (m.has RT_I2C_NO_READ_ACK) m.buf.length [] t
    (t, { m with buf := got ++ m.buf.drop got.length },
      if ret < m.buf.length then some (if ret ≥ 0 then - RT_EIO else ret) else none)
  else
    let (t, ret) := O.sendBytes (m.has RT_I2C_IGNORE_NACK) m.buf 0 t
    (t, m, if ret < m.buf.length then some (if ret ≥ 0 then -RT_ERROR else ret) else none)

/-- What is left to do after the last message. -/
def close (m : I2cMsg) (t : τ) : τ := if m.has RT_I2C_NO_STOP then t else O.stop t

/-- The loop of `i2c_bit_xfer` from the message `i` on. -/
def xferFrom (retries : ℕ) (i : ℕ) : List I2cMsg → τ → τ × List I2cMsg × RtErr
  | [], t => (t, [], i)
  | [m], t =>
    let (t, m, out) := O.message retries (i == 0) m t
    (O.close m t, [m], out.getD (i + 1 : ℕ))
  | m :: ms, t =>
    match O.message retries (i == 0) m t with
    | (t, m, some ret) => (O.close m t, m :: ms, ret)
    | (t, m, none) =>
      let (t, ms, ret) := xferFrom retries (i + 1) ms t
      (t, m :: ms, ret)

/-- `i2c_bit_xfer`. -/
def xfer (retries : ℕ) (msgs : List I2cMsg) (t : τ) : τ × List I2cMsg × RtErr :=
  O.xferFrom retries 0 msgs t

end I2cByteOps

end Hcics
