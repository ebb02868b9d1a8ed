/-
  SaeJ1939.Diagnostics.Services — what an ECU answers and obeys besides
  its fault lists (`diagnostics.rs`): readiness (DM5), the clearing of
  codes (DM3, DM11) and the stopping of broadcasts (DM13).
-/
import SaeJ1939.Core.Request

namespace SaeJ1939.Diagnostics

/-! ## §1. Clearing codes. -/

namespace Dm3

/-- The request that tells an ECU to clear its previously active codes. -/
def clearRequest : Request := ⟨.dm3⟩

def isClearRequest (request : Request) : Bool := request.pgn == .dm3

/-- The positive acknowledgement to send once the codes are cleared. -/
def acknowledge (responder : Address) : Acknowledgement := .positive .dm3 responder

/-- The refusal to send when the codes cannot be cleared. -/
def refuse (responder : Address) (reason : AckControl) : Acknowledgement :=
  ⟨reason, fill, responder, .dm3⟩

end Dm3

namespace Dm11

/-- The request that tells an ECU to clear its active codes. -/
def clearRequest : Request := ⟨.dm11⟩

def isClearRequest (request : Request) : Bool := request.pgn == .dm11

/-- The positive acknowledgement to send once the codes are cleared. -/
def acknowledge (responder : Address) : Acknowledgement := .positive .dm11 responder

/-- The refusal to send when the codes cannot be cleared. -/
def refuse (responder : Address) (reason : AckControl) : Acknowledgement :=
  ⟨reason, fill, responder, .dm11⟩

end Dm11

/-! ## §2. Stopping broadcasts. -/

/-- A network a stop/start command applies to. -/
inductive Network where
  /-- The data link the message arrived on. -/
  | currentDataLink
  | vehicle
  | implement
  | proprietary
  deriving Repr, DecidableEq

namespace Network

/-- How far a network's two-bit field is shifted within its byte. -/
def shift : Network → UInt8
  | currentDataLink => 0
  | vehicle => 2
  | implement => 4
  | proprietary => 6

end Network

/-- What a network is asked to do. -/
inductive BroadcastCommand where
  | stop
  | start
  | reserved
  /-- Leave this network as it is. -/
  | doNotCare
  deriving Repr, DecidableEq

namespace BroadcastCommand

def toBits : BroadcastCommand → UInt8
  | stop => 0
  | start => 1
  | reserved => 2
  | doNotCare => 3

def fromBits (bits : UInt8) : BroadcastCommand :=
  match (bits &&& 0b11).toNat with
  | 0 => stop
  | 1 => start
  | 2 => reserved
  | _ => doNotCare

end BroadcastCommand

/-- Stop or start broadcast: two bits per network, and a hold signal. -/
structure Dm13 where
  networks : UInt8
  hold : UInt8
  deriving Repr, DecidableEq

namespace Dm13

/-- A message that asks nothing of any network. -/
def new : Dm13 := ⟨0xFF, 0xFF⟩

/-- What this message asks of one network. -/
def command (d : Dm13) (network : Network) : BroadcastCommand :=
  .fromBits (d.networks >>> network.shift)

/-- Set what this message asks of one network. -/
def withCommand (d : Dm13) (network : Network) (command : BroadcastCommand) : Dm13 where
  networks := (d.networks &&& ~~~(0b11 <<< network.shift)) ||| (command.toBits <<< network.shift)
  hold := d.hold

/-- Set the hold signal byte. -/
def withHoldSignal (d : Dm13) (hold : UInt8) : Dm13 := { d with hold }

/-- Encode to the eight-byte payload. -/
def encode (d : Dm13) : List UInt8 :=
  [d.networks, d.hold, 0xFF, 0xFF, 0xFF, 0xFF, 0xFF, 0xFF]

/-- Decode the payload of at least eight bytes; the first two count. -/
def decode (networks hold : UInt8) : Dm13 := ⟨networks, hold⟩

end Dm13

/-! ## §3. Readiness. -/

/-- How thoroughly an ECU claims to meet on-board diagnostic regulations. -/
inductive ObdCompliance where
  | notIntended
  | notAvailable
  /-- A level carried through unmodified. -/
  | other (raw : UInt8)
  deriving Repr, DecidableEq

namespace ObdCompliance

/-- The wire byte. -/
def asU8 : ObdCompliance → UInt8
  | notIntended => 5
  | notAvailable => 0xFF
  | other raw => raw

def fromU8 (raw : UInt8) : ObdCompliance :=
  match raw.toNat with
  | 5 => notIntended
  | 0xFF => notAvailable
  | _ => other raw

end ObdCompliance

/-- Diagnostic readiness: fault counts and a compliance level. -/
structure Dm5 where
  activeFaults : UInt8
  previouslyActiveFaults : UInt8
  obdCompliance : ObdCompliance
  /-- Monitor support and completion, undecoded. -/
  monitors : Fin 5 → UInt8

namespace Dm5

/-- Report fault counts and a compliance level, with no monitor data. -/
def new (activeFaults previouslyActiveFaults : UInt8) (obdCompliance : ObdCompliance) : Dm5 :=
  ⟨activeFaults, previouslyActiveFaults, obdCompliance, fun _ => 0xFF⟩

/-- Set the monitor bytes verbatim. -/
def withMonitors (d : Dm5) (monitors : Fin 5 → UInt8) : Dm5 := { d with monitors }

/-- Whether the ECU is holding a fault now. -/
def hasActiveFaults (d : Dm5) : Bool := d.activeFaults > 0

/-- Encode to the eight-byte payload. -/
def encode (d : Dm5) : List UInt8 :=
  [d.activeFaults, d.previouslyActiveFaults, d.obdCompliance.asU8, d.monitors 0, d.monitors 1,
    d.monitors 2, d.monitors 3, d.monitors 4]

/-- Decode an eight-byte payload. -/
def decode (data : Payload) : Dm5 :=
  ⟨data 0, data 1, .fromU8 (data 2), ![data 3, data 4, data 5, data 6, data 7]⟩

end Dm5

end SaeJ1939.Diagnostics
