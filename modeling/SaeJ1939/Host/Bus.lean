/-
  SaeJ1939.Host.Bus — the transport boundary of an ECU (`bus.rs`), and
  the errors that cross it.

  A bus takes frames and gives frames; it may refuse either.  The clock an
  ECU reads runs beside it, so both are one state here, of any type.
  Times are in microseconds.
-/
import SaeJ1939.Core.AddressClaim
import SaeJ1939.Core.Frame
import SaeJ1939.Tp.Message

namespace SaeJ1939.Host

open AddressClaim
open Tp (AbortReason)

/-! ## §1. Texts. -/

/-- A number in hexadecimal, at least `width` digits of it. -/
def hexDigits (width n : Nat) : String :=
  let digits := Nat.toDigits 16 n
  String.ofList (List.replicate (width - digits.length) '0' ++ digits)

/-- `{n:#x}`, with leading zeros up to `width` digits. -/
def hex (width n : Nat) : String := "0x" ++ hexDigits width n

/-- The text of a parameter group: in hexadecimal and in decimal. -/
def pgnText (group : Pgn) : String :=
  "0x" ++ (hexDigits 6 group.raw).toUpper ++ " (" ++ toString group.raw ++ ")"

/-- The text of an error of the protocol core. -/
def errorText : Error → String
  | .invalidId raw => hex 0 raw ++ " is not a valid 29-bit CAN identifier"
  | .invalidPgn raw => hex 0 raw ++ " is not a valid 18-bit PGN"
  | .invalidPriority p => "priority " ++ toString p ++ " exceeds the 3-bit range 0..=7"
  | .destinationMismatch => "destination address does not match the PGN's PDU format"
  | .shortPayload expected actual =>
      "payload too short: expected " ++ toString expected ++ " bytes, got " ++ toString actual
  | .invalidMessageSize size =>
      toString size ++ " bytes is outside the transport protocol range of 9..=1785"
  | .unknownControlByte byte => hex 2 byte.toNat ++ " is not a defined TP.CM control byte"
  | .invalidDtc => "diagnostic trouble code field out of range"
  | .valueOutOfRange field value => toString value ++ " does not fit the " ++ field ++ " field"

/-- The debug text of an abort reason. -/
def reasonText : AbortReason → String
  | .alreadyInSession => "AlreadyInSession"
  | .resourcesUnavailable => "ResourcesUnavailable"
  | .timeout => "Timeout"
  | .unexpectedCts => "UnexpectedCts"
  | .retransmitLimit => "RetransmitLimit"
  | .unexpectedDataPacket => "UnexpectedDataPacket"
  | .badSequenceNumber => "BadSequenceNumber"
  | .duplicateSequenceNumber => "DuplicateSequenceNumber"
  | .other raw => "Other(" ++ toString raw.toNat ++ ")"

/-! ## §2. Errors. -/

/-- The kinds of `io::Error` an ECU returns of its own. -/
inductive ErrorKind where
  | notConnected
  | invalidInput
  | timedOut
  | connectionAborted
  | notFound
  /-- An error of the bus. -/
  | other
  deriving Repr, DecidableEq

/-- An `io::Error`. -/
structure IoError where
  kind : ErrorKind
  message : String
  deriving Repr, DecidableEq

namespace IoError

/-- An error of the protocol core, as an `io::Error`. -/
def invalidInput (error : Error) : IoError := ⟨.invalidInput, errorText error⟩

/-- This ECU may not transmit in this state of its claim. -/
def notConnected (state : ClaimState) : IoError :=
  ⟨.notConnected, match state with
    | .cannotClaim => "this ECU lost address arbitration and must stay off the bus"
    | _ => "no address claimed yet — call claim_address() first"⟩

/-- The peer did not answer. -/
def timedOut (destination : Address) : IoError :=
  ⟨.timedOut, "no response from " ++ hex 2 destination.asU8
    ++ " during a multi-packet transfer"⟩

/-- The peer ended the transfer. -/
def aborted (reason : AbortReason) : IoError :=
  ⟨.connectionAborted, "peer aborted the transfer: " ++ reasonText reason⟩

/-- There is no such periodic message. -/
def notScheduled (group : Pgn) : IoError :=
  ⟨.notFound, pgnText group ++ " is not scheduled for transmission"⟩

/-- `{period:?}`, for a period of at least a second. -/
def secondsText (period : Nat) : String :=
  let micros := (toString (1000000 + period % 1000000)).toList.tail
  let fraction := (micros.reverse.dropWhile (· == '0')).reverse
  toString (period / 1000000)
    ++ (if fraction.isEmpty then "" else "." ++ String.ofList fraction) ++ "s"

/-- A period does not fit the schedule. -/
def periodTooLong (period : Nat) : IoError :=
  ⟨.invalidInput, "a period of " ++ secondsText period
    ++ " is longer than the 65535 ms a schedule holds"⟩

end IoError

/-- Why a call on an ECU did not return a value. -/
inductive Failure where
  | io (error : IoError)
  | panic (panic : Checked.Panic)
  /-- A loop was cut short: not something the code does. -/
  | outOfFuel
  deriving DecidableEq

/-! ## §3. Buses. -/

/-- Something that can carry J1939 frames, and the clock that runs beside
it. -/
class Bus (β : Type) where
  /-- Put a frame on the bus. -/
  sendFrame : Frame → β → Except IoError Unit × β
  /-- Take the next frame off the bus, or none when it stays quiet. -/
  recvFrame : β → Except IoError (Option Frame) × β
  /-- Read the clock. -/
  now : β → Nat × β
  /-- Let time pass. -/
  sleep : Nat → β → β

/-- A test double: it plays back a script. -/
structure FakeBus where
  incoming : List Frame
  /-- Whether each frame to come is taken; all are, once this is empty. -/
  accepts : List Bool
  time : Nat
  /-- What passes between two readings of the clock. -/
  pace : Nat
  deriving DecidableEq

instance : Bus FakeBus where
  sendFrame _ bus :=
    match bus.accepts with
    | false :: accepts => (.error ⟨.other, "bus off"⟩, { bus with accepts })
    | true :: accepts => (.ok (), { bus with accepts })
    | [] => (.ok (), bus)
  recvFrame bus :=
    match bus.incoming with
    | frame :: incoming => (.ok (some frame), { bus with incoming })
    | [] => (.ok none, bus)
  now bus := (bus.time, { bus with time := bus.time + bus.pace })
  sleep duration bus := { bus with time := bus.time + duration }

end SaeJ1939.Host
