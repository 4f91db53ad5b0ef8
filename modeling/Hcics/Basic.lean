import Mathlib.Tactic.Common

/-!
# Result codes, ticks and camera targets

`rt_err_t` is a signed machine word whose zero is success and whose error codes are returned
negated. `RT_TICK_PER_SECOND` is 1000, so `tick * 1000 / RT_TICK_PER_SECOND` on 64 bits is the tick
itself and the firmware's milliseconds are its 32-bit ticks.
-/

namespace Hcics

/-- `rt_err_t`. -/
abbrev RtErr := Int

@[simp] abbrev RT_EOK : RtErr := 0
@[simp] abbrev RT_ERROR : RtErr := 1
@[simp] abbrev RT_ETIMEOUT : RtErr := 2
@[simp] abbrev RT_EFULL : RtErr := 3
@[simp] abbrev RT_ENOMEM : RtErr := 5
@[simp] abbrev RT_ENOSYS : RtErr := 6
@[simp] abbrev RT_EBUSY : RtErr := 7
@[simp] abbrev RT_EINTR : RtErr := 9
@[simp] abbrev RT_EINVAL : RtErr := 10

/-- `rt_tick_t`, and a millisecond count. -/
abbrev Tick := UInt32

abbrev RT_TICK_PER_SECOND : Nat := 1000

/-- `(rt_uint32_t)(((rt_uint64_t)tick * 1000ULL) / RT_TICK_PER_SECOND)`, as `hcics_now_ms` and its
copies in the modules compute it. -/
def tickToMs (tick : Tick) : UInt32 := UInt32.ofNat (tick.toNat * 1000 / RT_TICK_PER_SECOND)

@[simp] theorem tickToMs_eq (tick : Tick) : tickToMs tick = tick := by
  simp [tickToMs]

abbrev HCICS_CAM_MODE_TRACK : UInt8 := 1
abbrev HCICS_CAM_MODE_CLEAN : UInt8 := 2

/-- `hcics_camera_target_t`: what one camera frame reports, with the tick it was parsed at. -/
structure CameraTarget where
  mode : UInt8
  x : UInt16
  y : UInt16
  width : UInt8
  type : UInt8
  tick : Tick
  deriving DecidableEq, Repr

end Hcics
