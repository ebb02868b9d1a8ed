/-
  SaeJ1939.Tp.Reassembler — the receive side of the transport protocol
  (`tp.rs`, `Reassembler`).

  A reassembler is an array of `SESSIONS` slots, each a buffer of `N`
  bytes and perhaps a session filling it; sessions are found by the
  peer's address.  Methods that change the reassembler return their
  result with the reassembler they leave behind.  Only `onTpDt` does
  arithmetic and slicing that could panic, so only it runs in `Exec`.

  Slot indices come from `position` and are in range by their type.
-/
import SaeJ1939.Tp.Message
import SaeJ1939.Lib.Machine
import SaeJ1939.Lib.SlotTable

namespace SaeJ1939.Tp

open Checked

/-- What a reassembler wants the caller to do after a message. -/
inductive Rx where
  /-- Nothing to do. -/
  | idle
  /-- Transmit this connection-management message back to the sender. -/
  | send (cm : TpCm)
  /-- A complete message; `ack` closes an RTS/CTS session. -/
  | message (pgn : Pgn) (source : Address) (data : List UInt8) (ack : Option TpCm)
  deriving DecidableEq

/-! ## §1. Sessions and slots. -/

/-- One transfer being received. -/
structure Session where
  source : Address
  pgn : Pgn
  size : Nat
  packets : Nat
  /-- The sequence number expected next (1-based). -/
  nextSequence : Nat
  /-- Packets still expected in the window granted by the last CTS. -/
  windowRemaining : Nat
  /-- The most packets the sender will accept being asked for in one CTS. -/
  maxPacketsPerCts : Nat
  /-- BAM sessions are broadcast: no CTS, no acknowledgement, no abort. -/
  broadcast : Bool
  /-- Milliseconds since this session last made progress. -/
  idleMs : Nat
  deriving DecidableEq

/-- One in-flight transfer and the buffer it is filling. -/
structure Slot (N : Nat) where
  buffer : Fin N → UInt8
  session : Option Session

def Slot.empty {N : Nat} : Slot N := ⟨fun _ => 0, none⟩

/-- The receive side of the transport protocol. -/
structure Reassembler (N SESSIONS : Nat) where
  slots : Fin SESSIONS → Slot N

/-- An announcement is coherent only if the size is in range and the
packet count matches it exactly. -/
def validAnnouncement (size packets : Nat) : Bool :=
  size ≥ minMessageSize && size ≤ maxMessageSize && packets == packetCount size

/-- How many packets to ask for in one CTS, respecting the sender's
limit; `0` and `0xFF` both mean that none was stated. -/
def grantWindow (packets maxPacketsPerCts : Nat) : Nat :=
  if maxPacketsPerCts == 0 || maxPacketsPerCts == 0xFF then packets
  else if maxPacketsPerCts < packets then maxPacketsPerCts
  else packets

namespace Reassembler

variable {N SESSIONS : Nat}

def new : Reassembler N SESSIONS := ⟨fun _ => Slot.empty⟩

/-- `self.slots[index].session = session`. -/
def setSession (r : Reassembler N SESSIONS) (index : Fin SESSIONS) (session : Option Session) :
    Reassembler N SESSIONS :=
  ⟨Function.update r.slots index { r.slots index with session := session }⟩

/-- Replace the bytes of one slot's buffer. -/
def setBuffer (r : Reassembler N SESSIONS) (index : Fin SESSIONS) (buffer : Fin N → UInt8) :
    Reassembler N SESSIONS :=
  ⟨Function.update r.slots index { r.slots index with buffer := buffer }⟩

/-- The slot holding `source`'s session, if it has one. -/
def slotOf (r : Reassembler N SESSIONS) (source : Address) : Option (Fin SESSIONS) :=
  position (fun slot => slot.session.any fun s => s.source == source) r.slots

/-- The slot to start a transfer from `source` in: its existing one, or
the first free slot. -/
def slotFor (r : Reassembler N SESSIONS) (source : Address) : Option (Fin SESSIONS) :=
  (r.slotOf source).or (position (fun slot => slot.session.isNone) r.slots)

/-- How many transfers are in flight. -/
def activeSessions (r : Reassembler N SESSIONS) : Nat :=
  (List.finRange SESSIONS).countP fun i => (r.slots i).session.isSome

/-- Whether `source` has a transfer in progress. -/
def isReceivingFrom (r : Reassembler N SESSIONS) (source : Address) : Bool :=
  (r.slotOf source).isSome

/-- Abandon every session in progress. -/
def reset (_r : Reassembler N SESSIONS) : Reassembler N SESSIONS :=
  ⟨fun i => { _r.slots i with session := none }⟩

/-- Abandon the session with `source`, if any, and report whether there
was one. -/
def abandon (r : Reassembler N SESSIONS) (source : Address) : Bool × Reassembler N SESSIONS :=
  match r.slotOf source with
  | some index => (true, r.setSession index none)
  | none => (false, r)

/-- Open a fresh session in a slot. -/
def begin (r : Reassembler N SESSIONS) (index : Fin SESSIONS) (source : Address) (pgn : Pgn)
    (size packets : Nat) (broadcast : Bool) (window maxPacketsPerCts : Nat) :
    Reassembler N SESSIONS :=
  r.setSession index (some
    { source, pgn, size, packets
      nextSequence := 1
      windowRemaining := window
      maxPacketsPerCts, broadcast
      idleMs := 0 })

/-! ## §2. Connection management. -/

/-- Handle an incoming TP.CM addressed to this ECU. -/
def onTpCm (r : Reassembler N SESSIONS) (source : Address) :
    TpCm → Rx × Reassembler N SESSIONS
  | .bam size packets pgn =>
      -- a BAM has no back-channel: an unacceptable one can only be dropped
      if !validAnnouncement size packets || size > N then
        (.idle, (r.abandon source).2)
      else
        match r.slotFor source with
        | none => (.idle, r)
        | some index => (.idle, r.begin index source pgn size packets true packets 0)
  | .rts size packets maxPacketsPerCts pgn =>
      if !validAnnouncement size packets then (.send (.abort (.other fill) pgn), r)
      else if size > N then (.send (.abort .resourcesUnavailable pgn), r)
      else if (r.slotOf source).any
          fun index => (r.slots index).session.any fun s => !s.broadcast then
        -- one connection-managed session per peer
        (.send (.abort .alreadyInSession pgn), r)
      else
        match r.slotFor source with
        | none => (.send (.abort .resourcesUnavailable pgn), r)
        | some index =>
            let window := grantWindow packets maxPacketsPerCts
            (.send (.cts window 1 pgn),
              r.begin index source pgn size packets false window maxPacketsPerCts)
  | .abort _ pgn =>
      -- the abort names the parameter group it abandons
      match r.slotOf source with
      | some index =>
          if (r.slots index).session.any fun s => s.pgn == pgn then
            (.idle, r.setSession index none)
          else (.idle, r)
      | none => (.idle, r)
  -- sender-side messages; not ours to act on
  | .cts .. | .endOfMsgAck .. => (.idle, r)

/-! ## §3. Data transfer. -/

/-- Handle an incoming TP.DT packet addressed to this ECU. -/
def onTpDt (r : Reassembler N SESSIONS) (source : Address) (dt : TpDt) :
    Exec (Rx × Reassembler N SESSIONS) :=
  match r.slotOf source with
  | none => .ok (.idle, r)
  | some index =>
    match (r.slots index).session with
    | none => .ok (.idle, r)
    | some session =>
      if dt.sequence ≠ session.nextSequence then
        -- out of order: a BAM is dropped, an RTS/CTS session is aborted
        let r := r.setSession index none
        if session.broadcast then .ok (.idle, r)
        else
          let reason :=
            if dt.sequence < session.nextSequence then .duplicateSequenceNumber
            else .badSequenceNumber
          .ok (.send (.abort reason session.pgn), r)
      else do
        -- copy this packet's slice, clamped to the announced size
        let offset := (← subU dt.sequence 1) * bytesPerPacket
        let stop := min (offset + bytesPerPacket) session.size
        let piece ← slice dt.bytes 0 (← subU stop offset)
        let buffer ← write (r.slots index).buffer offset stop piece
        let r := r.setBuffer index buffer
        -- completion is checked before advancing
        if dt.sequence = session.packets then
          let r := r.setSession index none
          let ack :=
            if !session.broadcast then
              some (.endOfMsgAck session.size session.packets session.pgn)
            else none
          let data ← slice (List.ofFn buffer) 0 session.size
          return (.message session.pgn session.source data ack, r)
        else
          let session := { session with
            nextSequence := ← addU 8 session.nextSequence 1
            windowRemaining := session.windowRemaining - 1
            idleMs := 0 }
          let r := r.setSession index (some session)
          if !session.broadcast && session.windowRemaining == 0 then
            -- the granted window is used up; open the next one
            let remaining ← addU 8 (← subU session.packets session.nextSequence) 1
            let window := grantWindow remaining session.maxPacketsPerCts
            let r := r.setSession index (some { session with windowRemaining := window })
            return (.send (.cts window session.nextSequence session.pgn), r)
          else return (.idle, r)

/-! ## §4. Time. -/

/-- What a tick reports about a session it ends: the peer, and the abort
to send it when there is a back-channel. -/
abbrev Timeout := Address × Option TpCm

/-- One slot's share of a tick. -/
def tickSlot (elapsedMs timeoutMs : Nat) (slot : Slot N) : Option Timeout × Slot N :=
  match slot.session with
  | none => (none, slot)
  | some session =>
      let session := { session with idleMs := saturatingAdd 16 session.idleMs elapsedMs }
      if session.idleMs ≤ timeoutMs then (none, { slot with session := some session })
      else
        let abort := if !session.broadcast then some (.abort .timeout session.pgn) else none
        (some (session.source, abort), { slot with session := none })

/-- Advance every session's idle timer, abandoning any that has gone
quiet for longer than `timeoutMs`. -/
def tickWithTimeout (r : Reassembler N SESSIONS) (elapsedMs timeoutMs : Nat) :
    List Timeout × Reassembler N SESSIONS :=
  ((List.finRange SESSIONS).filterMap fun i => (tickSlot elapsedMs timeoutMs (r.slots i)).1,
    ⟨fun i => (tickSlot elapsedMs timeoutMs (r.slots i)).2⟩)

/-- `tickWithTimeout` with the standard's `T1`. -/
def tick (r : Reassembler N SESSIONS) (elapsedMs : Nat) :
    List Timeout × Reassembler N SESSIONS :=
  r.tickWithTimeout elapsedMs t1TimeoutMs

/-! ## §5. The reassembler as a machine. -/

/-- A call on a reassembler. -/
inductive Call where
  | tpCm (source : Address) (cm : TpCm)
  | tpDt (source : Address) (dt : TpDt)
  | tick (elapsedMs timeoutMs : Nat)
  | abandon (source : Address)
  | reset
  deriving DecidableEq

/-- What a call returns. -/
inductive Reply where
  | rx (rx : Rx)
  | timeouts (timeouts : List Timeout)
  | wasBusy (busy : Bool)
  | unit
  deriving DecidableEq

/-- One call. -/
def step : Machine.Step (Reassembler N SESSIONS) Call Reply
  | r, .tpCm source cm => .ok (.rx (r.onTpCm source cm).1, (r.onTpCm source cm).2)
  | r, .tpDt source dt => do
      let (rx, r) ← r.onTpDt source dt
      return (.rx rx, r)
  | r, .tick elapsedMs timeoutMs =>
      .ok (.timeouts (r.tickWithTimeout elapsedMs timeoutMs).1,
        (r.tickWithTimeout elapsedMs timeoutMs).2)
  | r, .abandon source => .ok (.wasBusy (r.abandon source).1, (r.abandon source).2)
  | r, .reset => .ok (.unit, r.reset)

/-- A state some run of calls leads to. -/
def Reachable (r : Reassembler N SESSIONS) : Prop := Machine.Reachable step new r

end Reassembler

end SaeJ1939.Tp
