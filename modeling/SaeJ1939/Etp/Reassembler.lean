/-
  SaeJ1939.Etp.Reassembler — the receive side of the extended transport
  protocol (`etp.rs`, `Reassembler`).

  A data packet's sequence number is one byte, so it cannot address a
  packet a million deep: the sender precedes each block with an offset,
  and the receiver adds the two.  Arithmetic and slices are checked, so
  the methods that compute a position may panic.
-/
import SaeJ1939.Etp.Message
import SaeJ1939.Lib.Machine

namespace SaeJ1939.Etp

open Checked
open Tp (AbortReason bytesPerPacket)

/-! ## §1. Sessions and slots. -/

/-- What a reassembler wants the caller to do next. -/
inductive Rx where
  /-- Nothing to do. -/
  | idle
  /-- Transmit this connection-management message back to the sender. -/
  | send (cm : EtpCm)
  /-- A complete message has been reassembled. -/
  | message (pgn : Pgn) (source : Address) (data : List UInt8) (ack : EtpCm)
  deriving DecidableEq

structure Session where
  source : Address
  pgn : Pgn
  size : Nat
  packets : Nat
  /-- The absolute packet number the current block starts at. -/
  blockStart : Nat
  /-- Packets granted in the current block. -/
  blockPackets : Nat
  /-- The offset the sender declared for the current block, if it has. -/
  offset : Option Nat
  /-- The sequence number expected next, within the block. -/
  nextSequence : Nat
  /-- Milliseconds since this session last made progress. -/
  idleMs : Nat
  deriving DecidableEq

structure Slot (N : Nat) where
  buffer : Fin N → UInt8
  session : Option Session

def Slot.empty {N : Nat} : Slot N := ⟨fun _ => 0, none⟩

/-- The receive side of the extended transport protocol. -/
structure Reassembler (N SESSIONS : Nat) where
  slots : Fin SESSIONS → Slot N

/-- How many packets to grant, capped by what a one-byte sequence number
can address. -/
def blockSize (remaining _from : Nat) : Nat :=
  if remaining > maxPacketsPerBlock then maxPacketsPerBlock else remaining % 256

/-- A grant of at least one packet, and what bounds it. -/
theorem blockSize_bounds {remaining : Nat} (start : Nat) (h : 1 ≤ remaining) :
    1 ≤ blockSize remaining start ∧ blockSize remaining start ≤ maxPacketsPerBlock
      ∧ blockSize remaining start ≤ remaining
      ∧ blockSize remaining start = min remaining maxPacketsPerBlock := by
  unfold blockSize maxPacketsPerBlock
  split <;> omega

namespace Reassembler

variable {N SESSIONS : Nat}

def new : Reassembler N SESSIONS := ⟨fun _ => Slot.empty⟩

/-- `self.slots[index].session = session`. -/
def setSession (r : Reassembler N SESSIONS) (index : Fin SESSIONS) (session : Option Session) :
    Reassembler N SESSIONS :=
  ⟨Function.update r.slots index { r.slots index with session := session }⟩

/-- Replace the bytes of one slot's buffer. -/
def setBuffer (r : Reassembler N SESSIONS) (index : Fin SESSIONS) (buffer : Fin N → UInt8) :
    Reassembler N SESSIONS :=
  ⟨Function.update r.slots index { r.slots index with buffer := buffer }⟩

/-- The slot holding `source`'s session, if it has one. -/
def slotOf (r : Reassembler N SESSIONS) (source : Address) : Option (Fin SESSIONS) :=
  position (fun slot => slot.session.any fun s => s.source == source) r.slots

/-- The first slot without a session. -/
def freeSlot (r : Reassembler N SESSIONS) : Option (Fin SESSIONS) :=
  position (fun slot => slot.session.isNone) r.slots

/-- Whether `source` has a transfer in progress. -/
def isReceivingFrom (r : Reassembler N SESSIONS) (source : Address) : Bool :=
  (r.slotOf source).isSome

/-- Abandon the session with `source`, reporting whether there was one. -/
def abandon (r : Reassembler N SESSIONS) (source : Address) : Bool × Reassembler N SESSIONS :=
  match r.slotOf source with
  | some index => (true, r.setSession index none)
  | none => (false, r)

/-- Abandon every session. -/
def reset (r : Reassembler N SESSIONS) : Reassembler N SESSIONS :=
  ⟨fun i => { r.slots i with session := none }⟩

/-! ## §2. Connection management. -/

/-- Handle an incoming ETP.CM addressed to this ECU. -/
def onEtpCm (r : Reassembler N SESSIONS) (source : Address) :
    EtpCm → Exec (Rx × Reassembler N SESSIONS)
  | .rts size pgn =>
      if size < minMessageSize ∨ size > maxMessageSize then
        .ok (.send (.abort (.other fill) pgn), r)
      else if size > N then .ok (.send (.abort .resourcesUnavailable pgn), r)
      else if (r.slotOf source).isSome then .ok (.send (.abort .alreadyInSession pgn), r)
      else
        match r.freeSlot with
        | none => .ok (.send (.abort .resourcesUnavailable pgn), r)
        | some index =>
            let packets := packetCount size
            let block := blockSize packets 1
            .ok (.send (.cts block 1 pgn), r.setSession index (some
              { source, pgn, size, packets
                blockStart := 1
                blockPackets := block
                offset := none
                nextSequence := 1
                idleMs := 0 }))
  | .dpo packets offset _ =>
      match r.slotOf source with
      | none => .ok (.idle, r)
      | some index =>
          match (r.slots index).session with
          | none => .ok (.idle, r)
          | some session => do
              -- an offset that does not match the granted block would
              -- scatter data through the buffer
              let start ← addU 32 offset 1
              if start ≠ session.blockStart ∨ packets ≠ session.blockPackets then
                return (.send (.abort .unexpectedDataPacket session.pgn),
                  r.setSession index none)
              else
                return (.idle, r.setSession index (some
                  { session with offset := some offset, nextSequence := 1, idleMs := 0 }))
  | .abort _ pgn =>
      match r.slotOf source with
      | some index =>
          if (r.slots index).session.any fun s => s.pgn == pgn then
            .ok (.idle, r.setSession index none)
          else .ok (.idle, r)
      | none => .ok (.idle, r)
  -- sender-side messages
  | .cts .. | .eoma .. => .ok (.idle, r)

/-! ## §3. Data transfer. -/

/-- Handle an incoming ETP.DT packet addressed to this ECU. -/
def onEtpDt (r : Reassembler N SESSIONS) (source : Address) (dt : EtpDt) :
    Exec (Rx × Reassembler N SESSIONS) :=
  match r.slotOf source with
  | none => .ok (.idle, r)
  | some index =>
    match (r.slots index).session with
    | none => .ok (.idle, r)
    | some session =>
      match session.offset with
      | none =>
          -- data before the offset that gives it meaning cannot be placed
          .ok (.send (.abort .unexpectedDataPacket session.pgn), r.setSession index none)
      | some offset =>
        if dt.sequence ≠ session.nextSequence then
          let reason : AbortReason :=
            if dt.sequence < session.nextSequence then .duplicateSequenceNumber
            else .badSequenceNumber
          .ok (.send (.abort reason session.pgn), r.setSession index none)
        else do
          let absolute ← addU 32 offset dt.sequence
          let start := (← subU absolute 1) * bytesPerPacket
          let stop := min (start + bytesPerPacket) session.size
          if start ≥ stop then
            return (.send (.abort .badSequenceNumber session.pgn), r.setSession index none)
          else do
            let piece ← slice dt.bytes 0 (← subU stop start)
            let buffer ← write (r.slots index).buffer start stop piece
            let session := { session with idleMs := 0 }
            let r := r.setBuffer index buffer
            if absolute ≥ session.packets then
              -- the whole message has arrived
              let data ← slice (List.ofFn buffer) 0 session.size
              return (.message session.pgn session.source data (.eoma session.size session.pgn),
                r.setSession index none)
            else if dt.sequence ≥ session.blockPackets then
              -- the block is full; open the next one
              let nextStart ← addU 32 session.blockStart session.blockPackets
              let remaining ← addU 32 (← subU session.packets nextStart) 1
              let block := blockSize remaining nextStart
              return (.send (.cts block nextStart session.pgn), r.setSession index (some
                { session with
                  blockStart := nextStart
                  blockPackets := block
                  offset := none
                  nextSequence := 1 }))
            else do
              let nextSequence ← addU 8 session.nextSequence 1
              return (.idle, r.setSession index (some { session with nextSequence }))

/-! ## §4. Time. -/

/-- What a tick reports about a session it ends. -/
abbrev Timeout := Address × EtpCm

/-- One slot's share of a tick. -/
def tickSlot (elapsedMs timeoutMs : Nat) (slot : Slot N) : Option Timeout × Slot N :=
  match slot.session with
  | none => (none, slot)
  | some session =>
      let session := { session with idleMs := saturatingAdd 16 session.idleMs elapsedMs }
      if session.idleMs ≤ timeoutMs then (none, { slot with session := some session })
      else (some (session.source, .abort .timeout session.pgn), { slot with session := none })

/-- Expire sessions that have gone quiet longer than `timeoutMs`. -/
def tick (r : Reassembler N SESSIONS) (elapsedMs timeoutMs : Nat) :
    List Timeout × Reassembler N SESSIONS :=
  ((List.finRange SESSIONS).filterMap fun i => (tickSlot elapsedMs timeoutMs (r.slots i)).1,
    ⟨fun i => (tickSlot elapsedMs timeoutMs (r.slots i)).2⟩)

/-! ## §5. The reassembler as a machine. -/

/-- A call on a reassembler. -/
inductive Call where
  | etpCm (source : Address) (cm : EtpCm)
  | etpDt (source : Address) (dt : EtpDt)
  | tick (elapsedMs timeoutMs : Nat)
  | abandon (source : Address)
  | reset

/-- What a call returns. -/
inductive Reply where
  | rx (rx : Rx)
  | timeouts (timeouts : List Timeout)
  | wasBusy (busy : Bool)
  | unit
  deriving DecidableEq

/-- One call. -/
def step : Machine.Step (Reassembler N SESSIONS) Call Reply
  | r, .etpCm source cm => do
      let (rx, r) ← r.onEtpCm source cm
      return (.rx rx, r)
  | r, .etpDt source dt => do
      let (rx, r) ← r.onEtpDt source dt
      return (.rx rx, r)
  | r, .tick elapsedMs timeoutMs =>
      .ok (.timeouts (r.tick elapsedMs timeoutMs).1, (r.tick elapsedMs timeoutMs).2)
  | r, .abandon source => .ok (.wasBusy (r.abandon source).1, (r.abandon source).2)
  | r, .reset => .ok (.unit, r.reset)

/-- A state some run of calls leads to. -/
def Reachable (r : Reassembler N SESSIONS) : Prop := Machine.Reachable step new r

end Reassembler

end SaeJ1939.Etp
