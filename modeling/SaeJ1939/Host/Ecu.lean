/-
  SaeJ1939.Host.Ecu — a running ECU: a protocol stack bound to a bus
  (`ecu.rs`).

  The methods of an ECU are programs: each may fail halfway, at a frame the
  bus refuses or a peer that does not answer, and what it did before stays
  done.  Beside the ECU a run carries a log of what it did, which no method
  reads.  Loops that end with the clock, or with what arrives, are given
  `fuel`; cutting one short is the failure `outOfFuel`.
-/
import SaeJ1939.Diagnostics.FaultLog
import SaeJ1939.Diagnostics.Services
import SaeJ1939.Host.Bus
import SaeJ1939.Host.Replay
import SaeJ1939.Lib.Fallible
import SaeJ1939.Node.Delivery
import SaeJ1939.Schedule.Schedule

namespace SaeJ1939.Host

open AddressClaim Checked Diagnostics

/-! ## §1. The ECU. -/

/-- How many active, and how many previously active, codes an ECU keeps. -/
def faultCapacity : Nat := 32

/-- How many periodic messages an ECU transmits. -/
def scheduleCapacity : Nat := 16

/-- How large an extended transfer an ECU accepts. -/
def etpBuffer : Nat := 65536

/-- The gap left between BAM data packets. -/
def bamPacketInterval : Nat := 50000

/-- How long `sendTo` waits for a peer to answer. -/
def handshakeTimeout : Nat := 1250000

/-- How long `claimAddress` waits for arbitration to settle. -/
def claimTimeout : Nat := 3000000

/-- An ECU bound to a bus. -/
structure Ecu (β : Type) (BUF SESSIONS : Nat) where
  bus : β
  node : Node BUF SESSIONS
  etp : Etp.Reassembler etpBuffer 2
  /-- Messages that arrived while the ECU was busy. -/
  pending : List Message
  faults : FaultLog faultCapacity
  /-- Who else is on the bus. -/
  inventory : Address → Option Name
  obdCompliance : ObdCompliance
  schedule : Schedule scheduleCapacity
  /-- The payload for each scheduled message. -/
  payloads : Schedule.Key → Option (List UInt8 × Priority)
  lastTick : LiveClock

/-- A timer that a tick advances. -/
inductive Timer where
  | node
  | etp
  | faults
  | schedule
  deriving Repr, DecidableEq

/-- What an ECU does, for the log of a run. -/
inductive Happening (BUF SESSIONS : Nat) where
  /-- It hands a frame to the bus, while it holds this address. -/
  | sent (frame : Frame) (held : Option Address)
  /-- It takes a frame off the bus, with its node in this state. -/
  | received (frame : Frame) (node : Node BUF SESSIONS)
  /-- A frame completes a message. -/
  | completed (message : Message)
  /-- A message is put into the queue. -/
  | queued (message : Message)
  /-- A call fails. -/
  | failed (failure : Failure)
  /-- These milliseconds are taken off the clock. -/
  | taken (elapsedMs : Nat)
  /-- A timer is advanced. -/
  | passed (timer : Timer) (elapsedMs : Nat)

/-- An ECU, and what it has done so far. -/
structure Watched (β : Type) (BUF SESSIONS : Nat) extends Ecu β BUF SESSIONS where
  log : List (Happening BUF SESSIONS)

/-- A method of an ECU. -/
abbrev Prog (β : Type) (BUF SESSIONS : Nat) (α : Type) := EStateM Failure (Watched β BUF SESSIONS) α

/-- What came back from `requestWait`. -/
inductive Response where
  /-- The parameter group that was asked for. -/
  | message (message : Message)
  /-- An acknowledgement instead. -/
  | acknowledged (ack : Acknowledgement)
  /-- Nothing came back in time. -/
  | timedOut
  deriving DecidableEq

namespace Ecu

variable {β α : Type} [Bus β] {BUF SESSIONS : Nat}

/-- Build an ECU on any bus. -/
def new (bus : β) (name : Name) (preferred : Address) : Ecu β BUF SESSIONS where
  bus := (Bus.now bus).2
  node := Node.new name preferred
  etp := Etp.Reassembler.new
  pending := []
  faults := FaultLog.new
  inventory := fun _ => none
  obdCompliance := .notIntended
  schedule := Schedule.new
  payloads := fun _ => none
  lastTick := ⟨(Bus.now bus).1⟩

/-- The address that is claimed, if one is. -/
def held (n : Node BUF SESSIONS) : Option Address := if n.hasAddress then some n.address else none

/-! ## §2. The bus, the clock and the parts. -/

/-- Note what happens. -/
def record (h : Happening BUF SESSIONS) : Prog β BUF SESSIONS Unit :=
  modify fun w => { w with log := w.log ++ [h] }

/-- Return an error. -/
def fail (failure : Failure) : Prog β BUF SESSIONS α := do
  record (.failed failure)
  throw failure

/-- A call that may panic. -/
def exec (x : Exec α) : Prog β BUF SESSIONS α :=
  match x with
  | .ok a => pure a
  | .error p => fail (.panic p)

/-- `.map_err(invalid_input)?` -/
def valid (x : Result α) : Prog β BUF SESSIONS α :=
  match x with
  | .ok a => pure a
  | .error e => fail (.io (.invalidInput e))

def sendFrame (frame : Frame) : Prog β BUF SESSIONS Unit := fun w =>
  let (answer, bus) := Bus.sendFrame frame w.bus
  let w := { w with bus, log := w.log ++ [.sent frame (held w.node)] }
  match answer with
  | .ok () => .ok () w
  | .error e => fail (.io e) w

def recvFrame : Prog β BUF SESSIONS (Option Frame) := fun w =>
  let (answer, bus) := Bus.recvFrame w.bus
  match answer with
  | .ok none => .ok none { w with bus }
  | .ok (some frame) =>
      .ok (some frame) { w with bus, log := w.log ++ [.received frame w.node] }
  | .error e => fail (.io e) { w with bus }

def now : Prog β BUF SESSIONS Nat := fun w =>
  .ok (Bus.now w.bus).1 { w with bus := (Bus.now w.bus).2 }

def sleep (duration : Nat) : Prog β BUF SESSIONS Unit :=
  modify fun w => { w with bus := Bus.sleep duration w.bus }

/-- A call on the node. -/
def onNode (f : Node BUF SESSIONS → Exec (α × Node BUF SESSIONS)) : Prog β BUF SESSIONS α :=
  fun w =>
    match f w.node with
    | .ok (a, node) => .ok a { w with node }
    | .error p => fail (.panic p) w

/-- A call on the extended reassembler. -/
def onEtp (f : Etp.Reassembler etpBuffer 2 → Exec (α × Etp.Reassembler etpBuffer 2)) :
    Prog β BUF SESSIONS α :=
  fun w =>
    match f w.etp with
    | .ok (a, etp) => .ok a { w with etp }
    | .error p => fail (.panic p) w

/-- `self.pending.push_back(message)`. -/
def queue (message : Message) : Prog β BUF SESSIONS Unit := do
  modify fun w => { w with pending := w.pending ++ [message] }
  record (.queued message)

/-- Queue the message, if there is one. -/
def queueIfAny : Option Message → Prog β BUF SESSIONS Unit
  | some message => queue message
  | none => pure ()

/-- A message has been completed. -/
def complete (message : Message) : Prog β BUF SESSIONS Unit := record (.completed message)

/-! ## §3. Transmitting. -/

/-- No transmitting from an address that is not claimed. -/
def checkMayTransmit : Prog β BUF SESSIONS Unit := do
  let w ← get
  if w.node.hasAddress then pure () else fail (.io (.notConnected w.node.claimState))

/-- Ask `destination` to transmit `requested`. -/
def request (destination : Address) (requested : Pgn) : Prog β BUF SESSIONS Unit := do
  checkMayTransmit
  let id ← valid (Id.fromParts .default .request destination (← get).node.address)
  let frame ← valid (Frame.new id (Request.mk requested).encode)
  sendFrame frame

/-- The announcement of a BAM goes out immediately, the data packets are
spaced. -/
def pause (paced first : Bool) : Prog β BUF SESSIONS Unit :=
  if paced && !first then sleep bamPacketInterval else pure ()

/-- Send every frame of a broadcast. -/
def pushFrames (paced : Bool) : Nat → Bool → Outgoing → Prog β BUF SESSIONS Unit
  | 0, _, _ => throw .outOfFuel
  | bound + 1, first, outgoing => do
      match ← exec outgoing.nextFrame with
      | (none, _) => pure ()
      | (some frame, outgoing) =>
          pause paced first
          sendFrame frame
          pushFrames paced bound false outgoing

/-- Broadcast `data` as `group` at a chosen priority. -/
def broadcastWithPriority (group : Pgn) (data : List UInt8) (priority : Priority) :
    Prog β BUF SESSIONS Unit := do
  checkMayTransmit
  let outgoing ← valid (Outgoing.new group (← get).node.address Address.global data)
  let outgoing := outgoing.withPriority priority
  pushFrames outgoing.needsPacing (outgoing.frameCount + 1) true outgoing

/-- Broadcast `data` as `group`. -/
def broadcast (group : Pgn) (data : List UInt8) : Prog β BUF SESSIONS Unit :=
  broadcastWithPriority group data .default

/-! ## §4. Reporting this ECU's own faults. -/

/-- Report a fault, lighting `lamp` until it is cleared. -/
def setFault (spn : Nat) (fmi : UInt8) (lamp : Lamp) : Prog β BUF SESSIONS Unit := do
  let w ← get
  let (raised, faults) := w.faults.set spn fmi lamp
  modify fun w => { w with faults }
  valid raised

/-- Retire a fault, returning whether it was active. -/
def clearFault (spn : Nat) (fmi : UInt8) : Prog β BUF SESSIONS Bool := fun w =>
  .ok (w.faults.clear spn fmi).1 { w with faults := (w.faults.clear spn fmi).2 }

/-- What an application does to the fault log directly. -/
def faultsMut (op : FaultLog.Op) : Prog β BUF SESSIONS FaultLog.Reply := fun w =>
  .ok (w.faults.apply op).1 { w with faults := (w.faults.apply op).2 }

/-- What this ECU reports for its compliance level. -/
def setObdCompliance (level : ObdCompliance) : Prog β BUF SESSIONS Unit :=
  modify fun w => { w with obdCompliance := level }

/-- Broadcast the active fault list as DM1. -/
def sendDm1 : Prog β BUF SESSIONS Unit := do
  let w ← get
  let (len, payload) := w.faults.dm1 (List.replicate w.faults.dm1Len 0)
  let len ← valid len
  let data ← exec (slice payload 0 len)
  broadcast .dm1 data

/-- Broadcast the fault history as DM2. -/
def sendDm2 : Prog β BUF SESSIONS Unit := do
  let w ← get
  let (len, payload) := w.faults.dm2 (List.replicate w.faults.dm2Len 0)
  let len ← valid len
  let data ← exec (slice payload 0 len)
  broadcast .dm2 data

/-- A single byte gives each count. -/
def saturatingCount (count : Nat) : UInt8 := UInt8.ofNat (min count 255)

/-- Broadcast readiness and fault counts as DM5. -/
def sendDm5 : Prog β BUF SESSIONS Unit := do
  let w ← get
  let readiness := Dm5.new (saturatingCount w.faults.active.length)
    (saturatingCount w.faults.previous.length) w.obdCompliance
  broadcast .dm5 readiness.encode

/-- Send an acknowledgement to whoever asked. -/
def acknowledge (requester : Address) (ack : Acknowledgement) : Prog β BUF SESSIONS Unit := do
  let id ← valid (Id.fromParts .default .acknowledgement requester (← get).node.address)
  sendFrame (Frame.fromPayload id ack.encode)

/-- Answer a diagnostic request aimed at this ECU; whether it was one. -/
def answerDiagnosticRequest (requester : Address) (request : Request) :
    Prog β BUF SESSIONS Bool := do
  if request.pgn = .dm1 then do
    sendDm1
    return true
  else if request.pgn = .dm2 then do
    sendDm2
    return true
  else if request.pgn = .dm5 then do
    sendDm5
    return true
  else if request.pgn = .dm3 then do
    modify fun w => { w with faults := w.faults.clearPreviouslyActive }
    acknowledge requester (Dm3.acknowledge (← get).node.address)
    return true
  else if request.pgn = .dm11 then do
    modify fun w => { w with faults := w.faults.clearActive }
    acknowledge requester (Dm11.acknowledge (← get).node.address)
    sendDm1
    return true
  else return false

/-! ## §5. Receiving. -/

/-- An ETP connection-management frame. -/
def sendEtpCm (destination : Address) (cm : Etp.EtpCm) : Prog β BUF SESSIONS Unit := do
  let id ← valid (Id.fromParts .lowest .etpCm destination (← get).node.address)
  sendFrame (Frame.fromPayload id cm.encode)

/-- The frame an outcome asks to have sent. -/
def replyOf : Etp.Rx → Option Etp.EtpCm
  | .idle => none
  | .send cm => some cm
  | .message _ _ _ ack => some ack

/-- Act on what the extended reassembler wants. -/
def actOnEtp (source : Address) (outcome : Etp.Rx) : Prog β BUF SESSIONS (Option Message) := do
  (Replay.messageOf outcome).toList.forM complete
  (replyOf outcome).toList.forM (sendEtpCm source)
  return Replay.messageOf outcome

/-- Reassemble extended-transport-protocol traffic; none for a frame that
is not of it. -/
def dispatchEtp (frame : Frame) : Prog β BUF SESSIONS (Option (Option Message)) := do
  if frame.pgn ≠ .etpCm ∧ frame.pgn ≠ .etpDt then return none
  else if !frame.id.isAddressedTo (← get).node.address then return some none
  else if frame.pgn = .etpCm then
    match Etp.EtpCm.decode frame.payload with
    | .ok cm =>
        let outcome ← onEtp fun r => r.onEtpCm frame.sourceAddress cm
        return some (← actOnEtp frame.sourceAddress outcome)
    | .error _ => return some none
  else
    let outcome ← onEtp fun r => r.onEtpDt frame.sourceAddress (Etp.EtpDt.decode frame.payload)
    return some (← actOnEtp frame.sourceAddress outcome)

/-- Act on a stop/start broadcast command for a network this ECU is on. -/
def onDm13 (command : Dm13) (s : Schedule scheduleCapacity) : Schedule scheduleCapacity :=
  match command.command .currentDataLink with
  | .stop => s.suspend Schedule.defaultSuspendMs
  | .start => s.resume
  | .reserved | .doNotCare =>
      match command.command .vehicle with
      | .stop => s.suspend Schedule.defaultSuspendMs
      | .start => s.resume
      | .reserved | .doNotCare => s

/-- A Commanded Address tells this ECU to move. -/
def obeyCommandedAddress (message : Message) : Prog β BUF SESSIONS Unit := do
  if message.pgn = .commandedAddress then
    match ← onNode fun n => .ok (n.onCommandedAddress message.data) with
    | .ok (some claim) => sendFrame claim
    | .ok none | .error _ => pure ()

/-- The schedule after a message: a tool may ask the bus to go quiet. -/
def scheduleAfter (message : Message) (s : Schedule scheduleCapacity) : Schedule scheduleCapacity :=
  if message.pgn = .dm13 then
    match message.data with
    | b₀ :: b₁ :: _ :: _ :: _ :: _ :: _ :: _ :: _ => onDm13 (Dm13.decode b₀ b₁) s
    | _ => s
  else s

def obeyDm13 (message : Message) : Prog β BUF SESSIONS Unit :=
  modify fun w => { w with schedule := scheduleAfter message w.schedule }

/-- A tool asks this ECU about its faults. -/
def obeyRequest (message : Message) : Prog β BUF SESSIONS Unit := do
  if message.pgn = .request && (← get).node.hasAddress then
    match Request.decode message.data with
    | .ok request =>
        let _ ← answerDiagnosticRequest message.source request
    | .error _ => pure ()

/-- Record an address claim before the node consumes it. -/
def recordClaim (frame : Frame) : Prog β BUF SESSIONS Unit := do
  if frame.pgn = .addressClaimed ∧ frame.sourceAddress.isSpecific = true then
    modify fun w => { w with
      inventory := Function.update w.inventory frame.sourceAddress
        (some (Name.fromBytes frame.payload)) }

/-- Send whatever the node asks for, and act on a message it passes up. -/
def actOnEvent : Event → Prog β BUF SESSIONS (Option Message)
  | .idle => pure none
  | .transmit reply => do
      sendFrame reply
      return none
  | .message pgn source data reply => do
      let message : Message := ⟨pgn, source, data⟩
      complete message
      reply.toList.forM sendFrame
      obeyCommandedAddress message
      obeyDm13 message
      obeyRequest message
      return some message

/-- Feed one frame to the node and send whatever it asks for. -/
def dispatch (frame : Frame) : Prog β BUF SESSIONS (Option Message) := do
  recordClaim frame
  match ← dispatchEtp frame with
  | some message => return message
  | none =>
      let event ← onNode fun n => n.onFrame frame
      actOnEvent event

/-! ## §6. Messages to one ECU. -/

/-- Send the frames that are available right now. -/
def drain : Nat → Outgoing → Prog β BUF SESSIONS Outgoing
  | 0, _ => throw .outOfFuel
  | bound + 1, outgoing => do
      match ← exec outgoing.nextFrame with
      | (none, outgoing) => return outgoing
      | (some frame, outgoing) =>
          sendFrame frame
          drain bound outgoing

/-- Act on a frame that arrives during a transfer; `again` goes on
waiting. -/
def react (frame : Frame) (outgoing : Outgoing) (deadline : Nat)
    (again : Outgoing → Nat → Prog β BUF SESSIONS Unit) : Prog β BUF SESSIONS Unit := do
  match ← exec (outgoing.onFrame frame) with
  | (.ready, outgoing) =>
      let outgoing ← drain (outgoing.frameCount + 1) outgoing
      let deadline := (← now) + handshakeTimeout
      again outgoing deadline
  | (.complete, _) => return
  | (.aborted reason, _) => fail (.io (.aborted reason))
  | (.idle, outgoing) =>
      -- not part of this transfer: handled normally and queued
      queueIfAny (← dispatch frame)
      again outgoing deadline

/-- Wait for the peer until the transfer is complete. -/
def handshake (destination : Address) : Nat → Outgoing → Nat → Prog β BUF SESSIONS Unit
  | 0, _, _ => throw .outOfFuel
  | fuel + 1, outgoing, deadline => do
      if outgoing.isComplete then return
      else if (← now) ≥ deadline then fail (.io (.timedOut destination))
      else
        match ← recvFrame with
        | none => handshake destination fuel outgoing deadline
        | some frame => react frame outgoing deadline (handshake destination fuel)

/-- Send `data` to one ECU as `group`. -/
def sendTo (fuel : Nat) (destination : Address) (group : Pgn) (data : List UInt8) :
    Prog β BUF SESSIONS Unit := do
  if destination.isBroadcast then broadcast group data
  else
    checkMayTransmit
    let outgoing ← valid (Outgoing.new group (← get).node.address destination data)
    let outgoing ← drain (outgoing.frameCount + 1) outgoing
    let deadline := (← now) + handshakeTimeout
    handshake destination fuel outgoing deadline

/-! ## §7. Transmitting on a schedule. -/

/-- Take the next message the schedule says is due. -/
def nextDue : Prog β BUF SESSIONS (Option Due) := fun w =>
  .ok w.schedule.nextDue.1 { w with schedule := w.schedule.nextDue.2 }

/-- Send everything the schedule says is due. -/
def sendDue (fuel : Nat) : Nat → Prog β BUF SESSIONS Unit
  | 0 => throw .outOfFuel
  | bound + 1 => do
      match ← nextDue with
      | none => pure ()
      | some due =>
          match (← get).payloads (due.pgn, due.destination) with
          | none => sendDue fuel bound
          | some (payload, priority) =>
              if due.destination.isBroadcast then
                broadcastWithPriority due.pgn payload priority
              else sendTo fuel due.destination due.pgn payload
              sendDue fuel bound

/-- Send `data` to one ECU as `group` every `period`. -/
def sendEvery (group : Pgn) (destination : Address) (data : List UInt8) (period : Nat) :
    Prog β BUF SESSIONS Unit := do
  if period / 1000 > 0xFFFF then fail (.io (.periodTooLong period))
  else
    let w ← get
    let (registered, schedule) := w.schedule.sendEvery group destination (period / 1000)
    modify fun w => { w with schedule }
    valid registered
    -- a change of rate keeps the priority
    let priority := match w.payloads (group, destination) with
      | some (_, priority) => priority
      | none => .default
    modify fun w => { w with
      payloads := Function.update w.payloads (group, destination) (some (data, priority)) }

/-- Broadcast `data` as `group` every `period`. -/
def broadcastEvery (group : Pgn) (data : List UInt8) (period : Nat) : Prog β BUF SESSIONS Unit :=
  sendEvery group Address.global data period

/-- Send a scheduled message at a chosen priority from now on. -/
def setPeriodicPriority (group : Pgn) (destination : Address) (priority : Priority) :
    Prog β BUF SESSIONS Unit := do
  match (← get).payloads (group, destination) with
  | some (data, _) =>
      modify fun w => { w with
        payloads := Function.update w.payloads (group, destination) (some (data, priority)) }
  | none => fail (.io (.notScheduled group))

/-- Replace the payload of a scheduled message, leaving its timing alone. -/
def updatePeriodicTo (group : Pgn) (destination : Address) (data : List UInt8) :
    Prog β BUF SESSIONS Unit := do
  let w ← get
  if w.schedule.contains group destination then
    let priority := match w.payloads (group, destination) with
      | some (_, priority) => priority
      | none => .default
    modify fun w => { w with
      payloads := Function.update w.payloads (group, destination) (some (data, priority)) }
  else fail (.io (.notScheduled group))

/-- Stop transmitting `group` periodically. -/
def stopPeriodic (group : Pgn) (destination : Address) : Prog β BUF SESSIONS Bool := fun w =>
  .ok (w.schedule.remove group destination).1 { w with
    payloads := Function.update w.payloads (group, destination) none
    schedule := (w.schedule.remove group destination).2 }

/-- Stop periodic transmission for `timeout`, then resume automatically. -/
def suspendBroadcasts (timeout : Nat) : Prog β BUF SESSIONS Unit :=
  modify fun w => { w with schedule := w.schedule.suspend (min (timeout / 1000) 0xFFFF) }

/-- Resume periodic transmission now. -/
def resumeBroadcasts : Prog β BUF SESSIONS Unit :=
  modify fun w => { w with schedule := w.schedule.resume }

/-! ## §8. Time. -/

/-- Advance the node. -/
def tickNode (elapsedMs : Nat) : Prog β BUF SESSIONS (List Frame) := fun w =>
  .ok (w.node.tick elapsedMs).1 { w with
    node := (w.node.tick elapsedMs).2
    log := w.log ++ [.passed .node elapsedMs] }

/-- Advance the extended sessions, by the timeout of a handshake. -/
def tickEtp (elapsedMs : Nat) : Prog β BUF SESSIONS (List Etp.Reassembler.Timeout) := fun w =>
  .ok (w.etp.tick elapsedMs Tp.t3TimeoutMs).1 { w with
    etp := (w.etp.tick elapsedMs Tp.t3TimeoutMs).2
    log := w.log ++ [.passed .etp elapsedMs] }

/-- Advance the fault log; whether a DM1 is due. -/
def tickFaults (elapsedMs : Nat) : Prog β BUF SESSIONS Bool := fun w =>
  .ok (w.faults.tick elapsedMs).1 { w with
    faults := (w.faults.tick elapsedMs).2
    log := w.log ++ [.passed .faults elapsedMs] }

/-- Advance the schedule. -/
def tickSchedule (elapsedMs : Nat) : Prog β BUF SESSIONS Unit := fun w =>
  .ok () { w with
    schedule := (w.schedule.tick elapsedMs).2
    log := w.log ++ [.passed .schedule elapsedMs] }

/-- The milliseconds since the last tick, taken off the clock. -/
def elapsed : Prog β BUF SESSIONS Nat := do
  let t ← now
  let w ← get
  let (elapsedMs, lastTick) := w.lastTick.tick t
  if elapsedMs = 0 then return 0
  else
    modify fun w => { w with lastTick }
    record (.taken elapsedMs)
    return elapsedMs

/-- The periodic DM1, held back until an address is claimed. -/
def report (elapsedMs : Nat) : Prog β BUF SESSIONS Unit := do
  if (← get).node.hasAddress then
    if ← tickFaults elapsedMs then sendDm1

/-- What this ECU publishes on its own, held back for the same reason. -/
def publish (fuel elapsedMs : Nat) : Prog β BUF SESSIONS Unit := do
  if (← get).node.hasAddress then
    tickSchedule elapsedMs
    sendDue fuel (scheduleCapacity + 1)

/-- Let time pass for every part, and send what has become due. -/
def pass (fuel elapsedMs : Nat) : Prog β BUF SESSIONS Unit := do
  (← tickNode elapsedMs).forM sendFrame
  (← tickEtp elapsedMs).forM fun (peer, abort) => sendEtpCm peer abort
  report elapsedMs
  publish fuel elapsedMs

/-- Advance the ECU by however long has actually passed. -/
def tick (fuel : Nat) : Prog β BUF SESSIONS Unit := do
  let elapsedMs ← elapsed
  if elapsedMs = 0 then return
  else pass fuel elapsedMs

/-! ## §9. Driving an ECU. -/

/-- Read one frame, and dispatch it. -/
def receive : Prog β BUF SESSIONS (Option Message) := do
  match ← recvFrame with
  | some frame => dispatch frame
  | none => return none

/-- Read one frame, dispatch it, and advance the timers. -/
def pump (fuel : Nat) : Prog β BUF SESSIONS (Option Message) := do
  let message ← receive
  tick fuel
  return message

/-- Receive the next complete message, or none if the bus stayed quiet. -/
def poll (fuel : Nat) : Prog β BUF SESSIONS (Option Message) := do
  match (← get).pending with
  | message :: pending =>
      modify fun w => { w with pending }
      return some message
  | [] => pump fuel

/-- Wait until the claim is settled, one way or the other. -/
def settle (giveUpAt : Nat) : Nat → Prog β BUF SESSIONS Unit
  | 0 => throw .outOfFuel
  | fuel + 1 => do
      if (← now) < giveUpAt then
        let w ← get
        if w.node.hasAddress || w.node.claimState == .cannotClaim then return
        else
          queueIfAny (← pump fuel)
          settle giveUpAt fuel

/-- Broadcast an address claim and settle it. -/
def claimAddress (fuel : Nat) : Prog β BUF SESSIONS Unit := do
  let claim ← onNode fun n => .ok n.start
  sendFrame claim
  let giveUpAt := (← now) + claimTimeout
  settle giveUpAt fuel

/-- Every ECU heard claiming an address, in address order. -/
def inventoryList (w : Watched β BUF SESSIONS) : List (Address × Name) :=
  (List.range 256).filterMap fun a =>
    (w.inventory (Address.ofNat a)).map fun name => (Address.ofNat a, name)

/-- Queue what arrives until the deadline. -/
def listen (deadline : Nat) : Nat → Prog β BUF SESSIONS Unit
  | 0 => throw .outOfFuel
  | fuel + 1 => do
      if (← now) < deadline then
        queueIfAny (← pump fuel)
        listen deadline fuel

/-- Ask every ECU on the bus to identify itself. -/
def scan (fuel duration : Nat) : Prog β BUF SESSIONS (List (Address × Name)) := do
  request Address.global .addressClaimed
  let deadline := (← now) + duration
  listen deadline fuel
  return inventoryList (← get)

/-- What a message says to a request, if it answers it. -/
def answers (destination : Address) (requested : Pgn) (message : Message) : Option Response :=
  if destination.isBroadcast || message.source == destination then
    if message.pgn = requested then some (.message message)
    else if message.pgn = .acknowledgement then
      match message.data with
      | b₀ :: b₁ :: b₂ :: b₃ :: b₄ :: b₅ :: b₆ :: b₇ :: _ =>
          let ack := Acknowledgement.decode ![b₀, b₁, b₂, b₃, b₄, b₅, b₆, b₇]
          if ack.pgn = requested then some (.acknowledged ack) else none
      | _ => none
    else none
  else none

/-- Wait for the answer to a request, queueing everything else. -/
def await (destination : Address) (requested : Pgn) (deadline : Nat) :
    Nat → Prog β BUF SESSIONS Response
  | 0 => throw .outOfFuel
  | fuel + 1 => do
      if (← now) < deadline then
        match ← pump fuel with
        | none => await destination requested deadline fuel
        | some message =>
            match answers destination requested message with
            | some response => return response
            | none =>
                queue message
                await destination requested deadline fuel
      else return .timedOut

/-- Ask `destination` for `requested` and wait for the answer. -/
def requestWait (fuel : Nat) (destination : Address) (requested : Pgn) (timeout : Nat) :
    Prog β BUF SESSIONS Response := do
  request destination requested
  let deadline := (← now) + timeout
  await destination requested deadline fuel

/-! ## §10. Everything an application may call. -/

/-- A call on an ECU. -/
inductive Op where
  | claimAddress
  | poll
  | request (destination : Address) (requested : Pgn)
  | broadcastWithPriority (group : Pgn) (data : List UInt8) (priority : Priority)
  | sendTo (destination : Address) (group : Pgn) (data : List UInt8)
  | sendEvery (group : Pgn) (destination : Address) (data : List UInt8) (period : Nat)
  | setPeriodicPriority (group : Pgn) (destination : Address) (priority : Priority)
  | updatePeriodicTo (group : Pgn) (destination : Address) (data : List UInt8)
  | stopPeriodic (group : Pgn) (destination : Address)
  | suspendBroadcasts (timeout : Nat)
  | resumeBroadcasts
  | setFault (spn : Nat) (fmi : UInt8) (lamp : Lamp)
  | clearFault (spn : Nat) (fmi : UInt8)
  | faultsMut (op : FaultLog.Op)
  | sendDm1
  | sendDm2
  | sendDm5
  | setObdCompliance (level : ObdCompliance)
  | scan (duration : Nat)
  | requestWait (destination : Address) (requested : Pgn) (timeout : Nat)

/-- A call whose value is not looked at. -/
def ignoring (x : Prog β BUF SESSIONS α) : Prog β BUF SESSIONS Unit := do
  let _ ← x
  return

/-- Make a call. -/
def call (fuel : Nat) : Op → Prog β BUF SESSIONS Unit
  | .claimAddress => claimAddress fuel
  | .poll => ignoring (poll fuel)
  | .request destination requested => request destination requested
  | .broadcastWithPriority group data priority => broadcastWithPriority group data priority
  | .sendTo destination group data => sendTo fuel destination group data
  | .sendEvery group destination data period => sendEvery group destination data period
  | .setPeriodicPriority group destination priority =>
      setPeriodicPriority group destination priority
  | .updatePeriodicTo group destination data => updatePeriodicTo group destination data
  | .stopPeriodic group destination => ignoring (stopPeriodic group destination)
  | .suspendBroadcasts timeout => suspendBroadcasts timeout
  | .resumeBroadcasts => resumeBroadcasts
  | .setFault spn fmi lamp => setFault spn fmi lamp
  | .clearFault spn fmi => ignoring (clearFault spn fmi)
  | .faultsMut op => ignoring (faultsMut op)
  | .sendDm1 => sendDm1
  | .sendDm2 => sendDm2
  | .sendDm5 => sendDm5
  | .setObdCompliance level => setObdCompliance level
  | .scan duration => ignoring (scan fuel duration)
  | .requestWait destination requested timeout =>
      ignoring (requestWait fuel destination requested timeout)

/-- A state some sequence of calls leads to, whatever the bus does during
and between them. -/
inductive Reachable (name : Name) (preferred : Address) : Watched β BUF SESSIONS → Prop where
  | new (bus : β) : Reachable name preferred ⟨Ecu.new bus name preferred, []⟩
  | call {w : Watched β BUF SESSIONS} (h : Reachable name preferred w) (fuel : Nat) (op : Op) :
      Reachable name preferred (Fallible.after (call fuel op w))
  | bus {w : Watched β BUF SESSIONS} (h : Reachable name preferred w) (bus : β) :
      Reachable name preferred { w with bus := bus }

/-- What an ECU did between two states. -/
def happened (w w' : Watched β BUF SESSIONS) : List (Happening BUF SESSIONS) :=
  w'.log.drop w.log.length

omit [Bus β] in
theorem happened_eq {w w' : Watched β BUF SESSIONS} {done : List (Happening BUF SESSIONS)}
    (h : w'.log = w.log ++ done) : happened w w' = done := by
  rw [happened, h, List.drop_left]

end Ecu

end SaeJ1939.Host
