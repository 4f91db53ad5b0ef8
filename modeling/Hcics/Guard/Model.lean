import Hcics.Cleaner.Model
import Hcics.Lib.Polling

/-!
# The guard sensor

`hcics_guard.c` drives a VL53L0X over I2C and hands its distances to the cleaner. The procedures are
programs over any bus: an `I2cBus` says what a transfer does to the other end and what comes back,
and one input of the program is one transfer, or one reading of the clock where the program only
asks for the time. A `Probe` is the context of the driver with the state of the bus.
-/

namespace Hcics

/-- `RT_TICK_PER_SECOND` is 1000, so `rt_tick_from_millisecond` is the number itself. -/
abbrev tickFromMs (ms : UInt32) : Tick := ms

/-- An I2C bus with a sensor. `write` is a transfer of a register and data for it, `read` one of a
register and of as many bytes from it; the result is whether the transfer succeeded. -/
structure I2cBus (σ ι : Type) where
  now : ι → Tick
  write : σ → UInt8 → List UInt8 → ι → σ × Bool
  read : (len : Nat) → σ → UInt8 → ι → σ × Option (Vector UInt8 len)

/-- `hcics_guard_context_t`; of the bus and the thread only whether they are there. -/
structure GuardContext where
  initialized : Bool
  ready : Bool
  stopVariable : UInt8
  readErrors : UInt8
  bus : Bool
  thread : Bool
  deriving DecidableEq, Repr

structure Probe (σ : Type) where
  ctx : GuardContext
  bus : σ
  deriving DecidableEq, Repr

namespace Guard

abbrev i2cTimeoutMs : UInt32 := 80
abbrev maxReadErrors : UInt8 := 3

abbrev regSysrangeStart : UInt8 := 0x00
abbrev regSystemSequenceConfig : UInt8 := 0x01
abbrev regSystemInterruptConfigGpio : UInt8 := 0x0A
abbrev regSystemInterruptClear : UInt8 := 0x0B
abbrev regResultInterruptStatus : UInt8 := 0x13
abbrev regResultRangeStatus : UInt8 := 0x14
abbrev regMsrcConfigControl : UInt8 := 0x60
abbrev regFinalRangeMinRateRtnLimit : UInt8 := 0x44
abbrev regDynamicSpadRefEnStartOffset : UInt8 := 0x4F
abbrev regDynamicSpadNumRequested : UInt8 := 0x4E
abbrev regGlobalConfigRefEnStartSelect : UInt8 := 0xB6
abbrev regGlobalConfigSpadEnablesRef0 : UInt8 := 0xB0
abbrev regGpioHvMuxActiveHigh : UInt8 := 0x84
abbrev regVhvConfigPadSclSdaExtsupHv : UInt8 := 0x89
abbrev regIdentificationModelId : UInt8 := 0xC0

/-! ## Transfers -/

variable {σ ι : Type} (B : I2cBus σ ι)

def writeTransfer (p : Probe σ) (reg : UInt8) (data : List UInt8) (i : ι) : Probe σ × RtErr :=
  if !p.ctx.bus || data.isEmpty then (p, -RT_EINVAL)
  else if data.length > 7 then (p, -RT_EINVAL)
  else
    let (bus, ok) := B.write p.bus reg data i
    ({ p with bus := bus }, if ok then RT_EOK else -RT_ERROR)

def readTransfer (len : Nat) (p : Probe σ) (reg : UInt8) (i : ι) :
    Probe σ × Except RtErr (Vector UInt8 len) :=
  if !p.ctx.bus || len == 0 then (p, .error (-RT_EINVAL))
  else
    let (bus, data) := B.read len p.bus reg i
    ({ p with bus := bus },
      match data with
      | some data => .ok data
      | none => .error (-RT_ERROR))

/-- `rt_tick_get`. -/
def tickGet : Proc (Probe σ) ι Tick := .act fun p i => (p, B.now i)

def writeMulti (reg : UInt8) (data : List UInt8) : Proc (Probe σ) ι RtErr :=
  .act fun p i => writeTransfer B p reg data i

def readMulti (len : Nat) (reg : UInt8) : Proc (Probe σ) ι (Except RtErr (Vector UInt8 len)) :=
  .act fun p i => readTransfer B len p reg i

def writeU8 (reg value : UInt8) : Proc (Probe σ) ι RtErr := writeMulti B reg [value]

def readU8 (reg : UInt8) : Proc (Probe σ) ι (Except RtErr UInt8) := do
  return (← readMulti B 1 reg).map fun data => data[0]

def writeU16 (reg : UInt8) (value : UInt16) : Proc (Probe σ) ι RtErr :=
  writeMulti B reg [(value >>> 8).toUInt8, (value &&& 0xFF).toUInt8]

def word (data : Vector UInt8 2) : UInt16 := (data[0].toUInt16 <<< 8) ||| data[1].toUInt16

def readU16 (reg : UInt8) : Proc (Probe σ) ι (Except RtErr UInt16) := do
  return (← readMulti B 2 reg).map word

def updateU8 (reg clearMask setMask : UInt8) : Proc (Probe σ) ι RtErr := do
  match ← readU8 B reg with
  | .error result => return result
  | .ok value => writeU8 B reg ((value &&& ~~~clearMask) ||| setMask)

/-- A condition `a != RT_EOK || b != RT_EOK || ...` that ends a function where it holds: the calls in
order, up to the first that fails. -/
def allOk : List (Proc (Probe σ) ι RtErr) → Proc (Probe σ) ι Bool
  | [] => return true
  | p :: ps => do
    if (← p) ≠ RT_EOK then return false
    else allOk ps

def waitRound (reg mask : UInt8) (set : Bool) (start : Tick) (x : Probe σ × Unit) (i : ι) :
    (Probe σ × Unit) × Option Bool :=
  if B.now i - start ≤ tickFromMs i2cTimeoutMs then
    match readTransfer B 1 x.1 reg i with
    | (p, .error _) => ((p, ()), some false)
    | (p, .ok value) =>
      if set then ((p, ()), if value[0] &&& mask ≠ 0 then some true else none)
      else ((p, ()), if value[0] &&& mask = 0 then some true else none)
  else (x, some false)

def waitRegBits (reg mask : UInt8) (set : Bool) : Proc (Probe σ) ι Bool := do
  let start ← tickGet B
  .poll (waitRound B reg mask set start) ()

/-! ## Setting up the sensor -/

def tuning : List (UInt8 × UInt8) :=
  [(0xFF, 0x01), (0x00, 0x00), (0xFF, 0x00), (0x09, 0x00),
   (0x10, 0x00), (0x11, 0x00), (0x24, 0x01), (0x25, 0xFF),
   (0x75, 0x00), (0xFF, 0x01), (0x4E, 0x2C), (0x48, 0x00),
   (0x30, 0x20), (0xFF, 0x00), (0x30, 0x09), (0x54, 0x00),
   (0x31, 0x04), (0x32, 0x03), (0x40, 0x83), (0x46, 0x25),
   (0x60, 0x00), (0x27, 0x00), (0x50, 0x06), (0x51, 0x00),
   (0x52, 0x96), (0x56, 0x08), (0x57, 0x30), (0x61, 0x00),
   (0x62, 0x00), (0x64, 0x00), (0x65, 0x00), (0x66, 0xA0),
   (0xFF, 0x01), (0x22, 0x32), (0x47, 0x14), (0x49, 0xFF),
   (0x4A, 0x00), (0xFF, 0x00), (0x7A, 0x0A), (0x7B, 0x00),
   (0x78, 0x21), (0xFF, 0x01), (0x23, 0x34), (0x42, 0x00),
   (0x44, 0xFF), (0x45, 0x26), (0x46, 0x05), (0x40, 0x40),
   (0x0E, 0x06), (0x20, 0x1A), (0x43, 0x40), (0xFF, 0x00),
   (0x34, 0x03), (0x35, 0x44), (0xFF, 0x01), (0x31, 0x04),
   (0x4B, 0x09), (0x4C, 0x05), (0x4D, 0x04), (0xFF, 0x00),
   (0x44, 0x00), (0x45, 0x20), (0x47, 0x08), (0x48, 0x28),
   (0x67, 0x00), (0x70, 0x04), (0x71, 0x01), (0x72, 0xFE),
   (0x76, 0x00), (0x77, 0x00), (0xFF, 0x01), (0x0D, 0x01),
   (0xFF, 0x00), (0x80, 0x01), (0x01, 0xF8), (0xFF, 0x01),
   (0x8E, 0x01), (0x00, 0x01), (0xFF, 0x00), (0x80, 0x00)]

def writeAll : List (UInt8 × UInt8) → Proc (Probe σ) ι RtErr
  | [] => return RT_EOK
  | (reg, value) :: seq => do
    let result ← writeU8 B reg value
    if result ≠ RT_EOK then return result
    else writeAll seq

def writeTuning : Proc (Probe σ) ι RtErr := writeAll B tuning

/-- A round of the loop of `hcics_guard_get_spad_info`. -/
def spadInfoRound (start : Tick) (x : Probe σ × Unit) (i : ι) : (Probe σ × Unit) × Option RtErr :=
  match readTransfer B 1 x.1 0x83 i with
  | (p, .error _) => ((p, ()), some (-RT_ERROR))
  | (p, .ok tmp) =>
    if tmp[0] ≠ 0 then ((p, ()), some RT_EOK)
    else if B.now i - start ≤ tickFromMs i2cTimeoutMs then ((p, ()), none)
    else ((p, ()), some (-RT_ETIMEOUT))

/-- `hcics_guard_get_spad_info`, with the count and the type. -/
def getSpadInfo : Proc (Probe σ) ι (Except RtErr (UInt8 × Bool)) := do
  if !(← allOk [writeU8 B 0x80 0x01, writeU8 B 0xFF 0x01, writeU8 B 0x00 0x00, writeU8 B 0xFF 0x06,
      updateU8 B 0x83 0x00 0x04, writeU8 B 0xFF 0x07, writeU8 B 0x81 0x01, writeU8 B 0x80 0x01,
      writeU8 B 0x94 0x6B, writeU8 B 0x83 0x00]) then return .error (-RT_ERROR)
  else
    let start ← tickGet B
    let result ← .poll (spadInfoRound B start) ()
    if result ≠ RT_EOK then return .error result
    else if (← writeU8 B 0x83 0x01) ≠ RT_EOK then return .error (-RT_ERROR)
    else
      match ← readU8 B 0x92 with
      | .error _ => return .error (-RT_ERROR)
      | .ok tmp =>
        if !(← allOk [writeU8 B 0x81 0x00, writeU8 B 0xFF 0x06, updateU8 B 0x83 0x04 0x00,
            writeU8 B 0xFF 0x01, writeU8 B 0x00 0x01, writeU8 B 0xFF 0x00, writeU8 B 0x80 0x00])
        then return .error (-RT_ERROR)
        else return .ok (tmp &&& 0x7F, tmp &&& 0x80 ≠ 0)

/-- A round of the loop of `hcics_guard_config_spads`, with the map and the SPADs enabled so far. -/
def selectRound (spadCount firstSpad : UInt8) (x : Vector UInt8 6 × UInt8) (i : Fin 48) :
    Vector UInt8 6 × UInt8 :=
  let byte : Fin 6 := ⟨i.val / 8, by omega⟩
  let bit : UInt8 := 1 <<< UInt8.ofNat (i.val % 8)
  if UInt8.ofNat i.val < firstSpad ∨ x.2 = spadCount then
    (x.1.set byte (x.1[byte] &&& ~~~bit), x.2)
  else if x.1[byte] &&& bit ≠ 0 then (x.1, x.2 + 1)
  else x

def firstSpad (aperture : Bool) : UInt8 := if aperture then 12 else 0

def selectSpads (spadCount : UInt8) (aperture : Bool) (refSpadMap : Vector UInt8 6) :
    Vector UInt8 6 :=
  ((List.finRange 48).foldl (selectRound spadCount (firstSpad aperture)) (refSpadMap, 0)).1

def configSpads : Proc (Probe σ) ι RtErr := do
  match ← getSpadInfo B with
  | .error result => return result
  | .ok (spadCount, aperture) =>
    match ← readMulti B 6 regGlobalConfigSpadEnablesRef0 with
    | .error result => return result
    | .ok refSpadMap =>
      if !(← allOk [writeU8 B 0xFF 0x01, writeU8 B regDynamicSpadRefEnStartOffset 0x00,
          writeU8 B regDynamicSpadNumRequested 0x2C, writeU8 B 0xFF 0x00,
          writeU8 B regGlobalConfigRefEnStartSelect 0xB4]) then return -RT_ERROR
      else
        writeMulti B regGlobalConfigSpadEnablesRef0 (selectSpads spadCount aperture refSpadMap).toList

def refCalibration (vhvInitByte : UInt8) : Proc (Probe σ) ι RtErr := do
  if (← writeU8 B regSysrangeStart (0x01 ||| vhvInitByte)) ≠ RT_EOK then return -RT_ERROR
  else if !(← waitRegBits B regResultInterruptStatus 0x07 true) then return -RT_ETIMEOUT
  else if !(← allOk [writeU8 B regSystemInterruptClear 0x01, writeU8 B regSysrangeStart 0x00]) then
    return -RT_ERROR
  else return RT_EOK

def readStopVariable : Proc (Probe σ) ι RtErr := do
  match ← readU8 B 0x91 with
  | .error result => return result
  | .ok value =>
    .modify fun p => { p with ctx := { p.ctx with stopVariable := value } }
    return RT_EOK

def sensorInit : Proc (Probe σ) ι RtErr := do
  match ← readU8 B regIdentificationModelId with
  | .error result => return result
  | .ok id =>
    if id ≠ 0xEE then return -RT_ENOSYS
    else if !(← allOk [updateU8 B regVhvConfigPadSclSdaExtsupHv 0x00 0x01, writeU8 B 0x88 0x00,
        writeU8 B 0x80 0x01, writeU8 B 0xFF 0x01, writeU8 B 0x00 0x00, readStopVariable B,
        writeU8 B 0x00 0x01, writeU8 B 0xFF 0x00, writeU8 B 0x80 0x00,
        updateU8 B regMsrcConfigControl 0x00 0x12, writeU16 B regFinalRangeMinRateRtnLimit 32,
        writeU8 B regSystemSequenceConfig 0xFF]) then return -RT_ERROR
    else
      let result ← configSpads B
      if result ≠ RT_EOK then return result
      else if !(← allOk [writeTuning B, writeU8 B regSystemInterruptConfigGpio 0x04,
          updateU8 B regGpioHvMuxActiveHigh 0x10 0x00, writeU8 B regSystemInterruptClear 0x01,
          writeU8 B regSystemSequenceConfig 0x01]) then return -RT_ERROR
      else
        let result ← refCalibration B 0x40
        if result ≠ RT_EOK then return result
        else if (← writeU8 B regSystemSequenceConfig 0x02) ≠ RT_EOK then return -RT_ERROR
        else
          let result ← refCalibration B 0x00
          if result ≠ RT_EOK then return result
          else writeU8 B regSystemSequenceConfig 0xE8

/-! ## Reading a distance -/

/-- The writes of `hcics_guard_read_distance`, the last of which starts the measurement. -/
def startRange : Proc (Probe σ) ι Bool := do
  let stopVariable ← .gets fun p => p.ctx.stopVariable
  allOk [writeU8 B 0x80 0x01, writeU8 B 0xFF 0x01, writeU8 B 0x00 0x00, writeU8 B 0x91 stopVariable,
    writeU8 B 0x00 0x01, writeU8 B 0xFF 0x00, writeU8 B 0x80 0x00, writeU8 B regSysrangeStart 0x01]

/-- `hcics_guard_read_distance`, with what it leaves in `distance_mm`. -/
def readDistance (distanceMm : UInt16) : Proc (Probe σ) ι (RtErr × UInt16) := do
  if !(← startRange B) then return (-RT_ERROR, distanceMm)
  else if !(← waitRegBits B regSysrangeStart 0x01 false) then return (-RT_ETIMEOUT, distanceMm)
  else if !(← waitRegBits B regResultInterruptStatus 0x07 true) then
    return (-RT_ETIMEOUT, distanceMm)
  else
    match ← readU16 B (regResultRangeStatus + 10) with
    | .error _ => return (-RT_ERROR, distanceMm)
    | .ok distanceMm => return (← writeU8 B regSystemInterruptClear 0x01, distanceMm)

/-! ## Samples -/

/-- A distance that is published; the others count as failures. -/
def usable (result : RtErr) (distance : UInt16) : Bool :=
  result = RT_EOK && distance ≠ 0 && distance ≠ Cleaner.tofInvalidMm

end Guard

/-- `hcics_guard_sample_once` after a usable distance. -/
def GuardContext.succeeded (g : GuardContext) : GuardContext := { g with readErrors := 0 }

def GuardContext.failed (g : GuardContext) : GuardContext :=
  if g.readErrors < 0xFF then { g with readErrors := g.readErrors + 1 } else g

/-- The driver with the cleaner, which is initialised before it. `received` are the guards the cleaner
stored, newest first. -/
structure GuardDev (σ : Type) where
  probe : Probe σ
  cleaner : Cleaner
  received : List CleanerGuard
  deriving DecidableEq, Repr

namespace Guard

/-- `hcics_guard_read_contact` without `HCICS_GUARD_CONTACT_PIN`, which is -1. -/
abbrev readContact : Bool := false

/-- What `hcics_guard_publish` hands to the cleaner. -/
def record (distanceMm : UInt16) (tofValid forceStop : Bool) (tick : Tick) : CleanerGuard where
  tofMm := if tofValid then distanceMm else Cleaner.tofInvalidMm
  tofValid := tofValid
  contact := readContact
  forceStop := forceStop
  tick := tick

variable {σ ι : Type} (B : I2cBus σ ι)

def onProbe {α : Type} : Proc (Probe σ) ι α → Proc (GuardDev σ) ι α :=
  .within (fun d => d.probe) fun d probe => { d with probe := probe }

def setCtx (f : GuardContext → GuardContext) : Proc (GuardDev σ) ι PUnit :=
  .modify fun d => { d with probe := { d.probe with ctx := f d.probe.ctx } }

/-- `hcics_cleaner_update_guard`, whose clock is only used where the tick is 0. -/
def updateGuard (guard : CleanerGuard) : Proc (GuardDev σ) ι RtErr :=
  .act fun d i =>
    let cleaner := d.cleaner.updateGuard guard (B.now i)
    ({ d with cleaner := cleaner, received := cleaner.guard :: d.received }, RT_EOK)

def publish (distanceMm : UInt16) (tofValid forceStop : Bool) : Proc (GuardDev σ) ι RtErr := do
  let tick ← onProbe (tickGet B)
  updateGuard B (record distanceMm tofValid forceStop tick)

def sampleOnce : Proc (GuardDev σ) ι RtErr := do
  let (result, distance) ← onProbe (readDistance B Cleaner.tofInvalidMm)
  if usable result distance then
    setCtx GuardContext.succeeded
    publish B distance true false
  else
    setCtx GuardContext.failed
    let readErrors ← .gets fun d => d.probe.ctx.readErrors
    if readErrors ≥ maxReadErrors then
      let _ ← publish B Cleaner.tofInvalidMm false true
      return result
    else return result

/-- `hcics_guard_init`; whether the bus is there and whether the thread can be created are its
surroundings'. -/
def init (busFound threadCreated : Bool) : Proc (GuardDev σ) ι RtErr := do
  if ← .gets fun d => d.probe.ctx.initialized then return RT_EOK
  else
    setCtx fun _ => ⟨false, false, 0, 0, busFound, false⟩
    if !busFound then return -RT_ENOSYS
    else
      let result ← onProbe (sensorInit B)
      if result ≠ RT_EOK then return result
      else
        let result ← sampleOnce B
        if result ≠ RT_EOK then return result
        else if !threadCreated then return -RT_ENOMEM
        else
          setCtx fun g => { g with thread := true, ready := true, initialized := true }
          return RT_EOK

def isReady (d : GuardDev σ) : Bool := d.probe.ctx.ready

end Guard

end Hcics
