import Hcics.Lib.Transition
import Hcics.Lib.Clock
import Hcics.Lib.Framing
import Hcics.Lib.Observe
import Hcics.Lib.Polling
import Hcics.Lib.Window
import Hcics.Basic
import Hcics.Protocol.Camera
import Hcics.Motion.Model
import Hcics.Motion.Spec
import Hcics.Motion.Latch
import Hcics.Motion.Clear
import Hcics.Motion.Report
import Hcics.Lib.Watchdog
import Hcics.Motion.Stall
import Hcics.Motion.StallRuns
import Hcics.Lib.Approach
import Hcics.Motion.Range
import Hcics.Motion.Shift
import Hcics.Motion.Snapshot
import Hcics.Track.Model
import Hcics.Track.Spec
import Hcics.Track.Tracker
import Hcics.Track.Plan
import Hcics.Track.Frames
import Hcics.Track.Refused
import Hcics.Track.Blind
import Hcics.Track.Location
import Hcics.Cleaner.Model
import Hcics.Cleaner.Pulses
import Hcics.Cleaner.Worker
import Hcics.Cleaner.Stop
import Hcics.Cleaner.Runs
import Hcics.Cleaner.RunSpec
import Hcics.Cleaner.Simulation
import Hcics.Cleaner.Camera
import Hcics.Cleaner.Procedures
import Hcics.Cleaner.Rounds
import Hcics.Cleaner.Verify
import Hcics.Cleaner.Aim
import Hcics.Cleaner.Servo
import Hcics.Cleaner.Extend
import Hcics.Cleaner.Phases
import Hcics.Cleaner.Mission
import Hcics.Cleaner.Resume
import Hcics.Cleaner.Pose
import Hcics.App.Link
import Hcics.App.Reports
import Hcics.Protocol.Command
import Hcics.App.Datagram
import Hcics.App.Errors
import Hcics.App.Model
import Hcics.App.Spec
import Hcics.App.Missions
import Hcics.App.Done
import Hcics.App.Stop
import Hcics.App.MotionFault
import Hcics.App.Rest
import Hcics.App.Cameras
import Hcics.App.Ready
import Hcics.Lib.Winding
import Hcics.Encoder.Count
import Hcics.Lib.Serial
import Hcics.Axis.Wire
import Hcics.Lib.Codes
import Hcics.Axis.Frames
import Hcics.Guard.Model
import Hcics.Guard.Spec
import Hcics.Lib.Rank
import Hcics.Guard.Spads
import Hcics.Guard.Latch
import Hcics.Guard.First
import Hcics.Guard.Fresh
import Hcics.Lib.Linked
import Hcics.Lib.Fifo
import Hcics.Kernel.Ipc
import Hcics.Kernel.MessageQueue
import Hcics.Kernel.QueueBlocks
import Hcics.Kernel.QueueSpec
import Hcics.Kernel.QueueParts
import Hcics.Kernel.QueueRuns
import Hcics.App.Queue
import Hcics.Lib.RingBuffer
import Hcics.Driver.Serial
import Hcics.App.Uarts
import Hcics.Lib.TwoWire
import Hcics.Driver.Delay
import Hcics.Driver.I2c
import Hcics.Driver.I2cSpec
import Hcics.Guard.Pins
import Hcics.Kernel.Mutex
import Hcics.Kernel.MutexSpec
import Hcics.Kernel.MutexPriority
import Hcics.Axis.Locked
import Hcics.Lib.Agenda
import Hcics.Kernel.Timer
import Hcics.Kernel.TimerSpec
import Hcics.Kernel.TimerRuns
import Hcics.App.Deadline
