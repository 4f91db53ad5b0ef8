import Hcics.Basic
import Hcics.Lib.Transition

/-!
# Missions and their reports

The part of `hcics_app.c` that admits missions and reports their results: the UDP thread and the ends
of the mission thread, which share `busy`, the message queue, the socket and the pending report. A
step is one section under `state_lock` or `udp_lock`, one operation of the queue or the socket, or
the code up to the next of these. What a mission does between its first step and its report, and what
`hcics_app_stop` does, is left open here and filled in by the application.

A datagram is kept as what `hcics_protocol_parse_fault_text` and `hcics_protocol_parse_stop_text`
make of it; texts, and the fields only the log reads, are left out. `reserved`, `released`,
`accepted`, `finals`, `delivered` and `lost` are history, oldest first.
-/

namespace Hcics

/-- `hcics_fault_t`, without `source`. -/
structure Fault where
  id : UInt8
  row : UInt8
  col : UInt8
  severity : UInt8
  deriving DecidableEq, Repr

def faultIdToGrid (id : UInt8) : Option (UInt8 × UInt8) :=
  if id < 1 ∨ id > 9 then none else some ((id - 1) / 3 + 1, (id - 1) % 3 + 1)

def faultIsValid (fault : Fault) : Bool :=
  match faultIdToGrid fault.id with
  | none => false
  | some (row, col) => fault.row == row && fault.col == col && fault.severity != 0

/-- `struct sockaddr_in`, up to what `hcics_same_peer` compares. -/
structure Peer where
  family : UInt8
  port : UInt16
  addr : UInt32
  deriving DecidableEq, Repr

/-- `hcics_msg_t` of type FAULT; the only sender gives a peer. -/
structure Msg where
  fault : Fault
  peer : Peer
  deriving DecidableEq, Repr

inductive RemoteCmd where
  | done | error
  deriving DecidableEq, Repr

/-- A final report and where it goes. -/
structure Report where
  cmd : RemoteCmd
  param : UInt8
  peer : Peer
  deriving DecidableEq, Repr

def Msg.report (msg : Msg) (done : Bool) : Report :=
  ⟨if done then .done else .error, msg.fault.id, msg.peer⟩

/-- What `recvfrom` gave the UDP thread. -/
inductive Datagram where
  /-- `len <= 0`. -/
  | none
  /-- A text with an embedded NUL. -/
  | embeddedNul
  | fault (msg : Msg)
  | stop
  | unknown
  deriving DecidableEq, Repr

inductive StopPc where
  | abort | track | cleaner | cleanerOutputs | motion
  deriving DecidableEq, Repr

/-- Where the UDP thread is; after a flush it goes on with the datagram the pc holds. -/
inductive UdpPc where
  /-- Waiting for the link, or opening the socket. -/
  | closed
  /-- At the head of the receive loop. -/
  | loop (sock : Nat)
  /-- In `hcics_flush_pending_report`, before its first section. -/
  | flush (sock : Nat) (next : Datagram)
  /-- Before `hcics_udp_send_report` of a flush. -/
  | flushSend (sock : Nat) (next : Datagram) (report : Report) (dst : Nat)
  /-- Before `hcics_clear_pending_report_if_current`. -/
  | flushClear (sock : Nat) (next : Datagram) (report : Report)
  /-- Before the `hcics_pending_report_active` of the thread itself. -/
  | pendingCheck (sock : Nat) (msg : Msg)
  /-- In `hcics_enqueue_fault`, before its `hcics_pending_report_active`. -/
  | enqueue (sock : Nat) (msg : Msg)
  /-- Before the section of `hcics_reserve_mission`. -/
  | reserve (sock : Nat) (msg : Msg)
  /-- Before `rt_mq_send`. -/
  | send (sock : Nat) (msg : Msg)
  /-- Before the `hcics_release_mission` that follows a failed send. -/
  | sendFailed (sock : Nat) (msg : Msg)
  /-- Before the section of `hcics_report_esp_reject`. -/
  | reject (sock : Nat) (msg : Msg)
  /-- Before the send of `hcics_report_esp_reject`. -/
  | rejectSend (sock : Nat) (msg : Msg) (dst : Option Nat)
  /-- In `hcics_app_stop`. -/
  | stop (sock : Nat) (pc : StopPc)
  /-- Before the section that closes the socket. -/
  | closing
  deriving DecidableEq, Repr

inductive MissionPc where
  /-- In `rt_mq_recv`. -/
  | recv
  /-- In `hcics_run_mission`, before the final report. -/
  | running (msg : Msg)
  /-- Before the first section of `hcics_report_esp_final`. -/
  | report (msg : Msg) (done : Bool)
  /-- Before `hcics_udp_send_report` of the final report. -/
  | reportSend (msg : Msg) (done : Bool) (dst : Option Nat)
  /-- Before `hcics_store_pending_report_locked`. -/
  | reportStore (msg : Msg) (done : Bool)
  /-- Before `hcics_release_mission`. -/
  | release (msg : Msg) (done : Bool)
  deriving DecidableEq, Repr

/-- What the missions and their reports share. `pending` is the pending report where
`pending_report_valid` is set, `udpSock` is `none` for -1. -/
structure Link where
  busy : Bool
  mq : List Msg
  udpSock : Option Nat
  pending : Option Report
  udp : UdpPc
  mission : MissionPc
  /-- The faults whose reservation succeeded. -/
  reserved : List Msg
  /-- The faults whose reservation was released. -/
  released : List Msg
  /-- The faults for which `hcics_enqueue_fault` returned `RT_EOK`. -/
  accepted : List Msg
  /-- The final reports that were sent or stored. -/
  finals : List Report
  /-- The final reports that were sent, at once or by a flush. -/
  delivered : List Report
  /-- The final reports that met an occupied pending slot. -/
  lost : List Report
  deriving DecidableEq, Repr

/-- What the network answers during a step: whether the link is ready, whether `sendto` sent the
whole text, what was received, and the socket that was bound. -/
structure NetIo where
  linkReady : Bool := true
  sent : Bool := true
  datagram : Datagram := .none
  bound : Option Nat := some 0
  deriving DecidableEq, Repr

namespace Link

abbrev eventDepth : Nat := 12

def udpSendReport (dst : Option Nat) (io : NetIo) : Bool := dst.isSome && io.linkReady && io.sent

/-! ## The UDP thread -/

def afterFlush (sock : Nat) : Datagram → UdpPc
  | .fault msg => .pendingCheck sock msg
  | .stop => .stop sock .abort
  | .none | .embeddedNul | .unknown => .loop sock

def received (sock : Nat) : Datagram → UdpPc
  | .embeddedNul => .loop sock
  | d => .flush sock d

def reserveMission (l : Link) (sock : Nat) (msg : Msg) : Link :=
  if !faultIsValid msg.fault then { l with udp := .reject sock msg }
  else if l.busy then { l with udp := .reject sock msg }
  else if l.pending.isSome then { l with udp := .reject sock msg }
  else { l with busy := true, reserved := l.reserved ++ [msg], udp := .send sock msg }

/-- `rt_mq_send`. -/
def mqSend (l : Link) (sock : Nat) (msg : Msg) : Link :=
  if l.mq.length ≥ eventDepth then { l with udp := .sendFailed sock msg }
  else { l with mq := l.mq ++ [msg], accepted := l.accepted ++ [msg], udp := .loop sock }

def flushPending (l : Link) (io : NetIo) (sock : Nat) (next : Datagram) : Link :=
  match l.pending, l.udpSock with
  | some report, some dst =>
    if io.linkReady then { l with udp := .flushSend sock next report dst }
    else { l with udp := afterFlush sock next }
  | _, _ => { l with udp := afterFlush sock next }

/-- `hcics_clear_pending_report_if_current`. -/
def clearPendingIfCurrent (l : Link) (report : Report) : Link :=
  if l.pending = some report then { l with pending := none } else l

def stepUdp (l : Link) (io : NetIo) : Link :=
  match l.udp with
  | .closed =>
    match io.bound with
    | none => { l with udpSock := none }
    | some sock => { l with udpSock := some sock, udp := .flush sock .none }
  | .loop sock => if io.linkReady then { l with udp := received sock io.datagram } else { l with udp := .closing }
  | .flush sock next => l.flushPending io sock next
  | .flushSend sock next report dst =>
    if udpSendReport (some dst) io then
      { l with delivered := l.delivered ++ [report], udp := .flushClear sock next report }
    else { l with udp := afterFlush sock next }
  | .flushClear sock next report =>
    { l.clearPendingIfCurrent report with udp := afterFlush sock next }
  | .pendingCheck sock msg =>
    { l with udp := if l.pending.isSome then .reject sock msg else .enqueue sock msg }
  | .enqueue sock msg =>
    if !faultIsValid msg.fault then { l with udp := .reject sock msg }
    else { l with udp := if l.pending.isSome then .reject sock msg else .reserve sock msg }
  | .reserve sock msg => l.reserveMission sock msg
  | .send sock msg => l.mqSend sock msg
  | .sendFailed sock msg =>
    { l with busy := false, released := l.released ++ [msg], udp := .reject sock msg }
  | .reject sock msg => { l with udp := .rejectSend sock msg l.udpSock }
  | .rejectSend sock _ _ => { l with udp := .loop sock }
  | .stop sock pc =>
    { l with
      udp := match pc with
        | .abort => .stop sock .track
        | .track => .stop sock .cleaner
        | .cleaner => .stop sock .cleanerOutputs
        | .cleanerOutputs => .stop sock .motion
        | .motion => .loop sock }
  | .closing => { l with udpSock := none, udp := .closed }

/-! ## The mission thread -/

/-- `hcics_store_pending_report_locked`. -/
def storePending (l : Link) (report : Report) : Link :=
  match l.pending with
  | some _ => { l with lost := l.lost ++ [report] }
  | none => { l with pending := some report, finals := l.finals ++ [report] }

/-- The mission thread's next step outside of the mission itself. -/
def stepMission (l : Link) (io : NetIo) : Option Link :=
  match l.mission with
  | .recv =>
    match l.mq with
    | [] => none
    | msg :: rest =>
      some { l with mq := rest, mission := if faultIsValid msg.fault then .running msg else .recv }
  | .running _ => none
  | .report msg done => some { l with mission := .reportSend msg done l.udpSock }
  | .reportSend msg done dst =>
    if udpSendReport dst io then
      some { l with
        finals := l.finals ++ [msg.report done]
        delivered := l.delivered ++ [msg.report done]
        mission := .release msg done }
    else some { l with mission := .reportStore msg done }
  | .reportStore msg done =>
    some { l.storePending (msg.report done) with mission := .release msg done }
  | .release msg _ =>
    some { l with busy := false, released := l.released ++ [msg], mission := .recv }

def finish (l : Link) (done : Bool) : Link :=
  match l.mission with
  | .running msg => { l with mission := .report msg done }
  | _ => l

def booted : Link where
  busy := false
  mq := []
  udpSock := none
  pending := none
  udp := .closed
  mission := .recv
  reserved := []
  released := []
  accepted := []
  finals := []
  delivered := []
  lost := []

/-! ## The link as a machine -/

/-- A step of the UDP thread, a step of the mission thread outside of the mission, or the end of the
mission with its result. -/
inductive Input where
  | udp (io : NetIo)
  | mission (io : NetIo)
  | finish (done : Bool)
  deriving DecidableEq, Repr

def step (l : Link) : Input → Option Link
  | .udp io => some (l.stepUdp io)
  | .mission io => l.stepMission io
  | .finish done =>
    match l.mission with
    | .running _ => some (l.finish done)
    | _ => none

/-- The link under every order of its threads' steps. -/
def machine : Machine Link Input where
  start l := l = booted
  step := step

end Link

end Hcics
