/-
  SaeJ1939.Core.Request — the Request parameter group, and the
  Acknowledgement that may answer it (`request.rs`).
-/
import SaeJ1939.Core.Bytes
import SaeJ1939.Core.Pgn

namespace SaeJ1939

/-- A request for another ECU to transmit a parameter group. -/
structure Request where
  pgn : Pgn
  deriving DecidableEq

namespace Request

/-- Bytes in a Request payload. -/
def requestLen : Nat := 3

/-- Encode to the three-byte payload. -/
def encode (r : Request) : List UInt8 := [byteAt r.pgn.raw 0, byteAt r.pgn.raw 1, byteAt r.pgn.raw 2]

/-- Decode a Request payload of at least three bytes. -/
def decode (data : List UInt8) : Result Request :=
  match data with
  | b₀ :: b₁ :: b₂ :: _ => .ok ⟨Pgn.newMasked (le24 b₀ b₁ b₂)⟩
  | _ => .error (.shortPayload requestLen data.length)

/-- A request survives its encoding. -/
theorem decode_encode (r : Request) : decode r.encode = .ok r := by
  have hraw := r.pgn.raw_lt
  unfold decode encode
  dsimp only
  rw [le24_byteAt (by omega), Pgn.newMasked_raw]

end Request

/-- How a request was received. -/
inductive AckControl where
  | acknowledged
  | notSupported
  | accessDenied
  | busy
  /-- A control byte outside the four that are defined. -/
  | other (raw : UInt8)
  deriving Repr, DecidableEq

namespace AckControl

/-- The wire byte. -/
def asU8 : AckControl → UInt8
  | acknowledged => 0
  | notSupported => 1
  | accessDenied => 2
  | busy => 3
  | other raw => raw

def fromU8 (raw : UInt8) : AckControl :=
  match raw.toNat with
  | 0 => acknowledged
  | 1 => notSupported
  | 2 => accessDenied
  | 3 => busy
  | _ => other raw

/-- Whether this is the positive acknowledgement. -/
def isPositive (c : AckControl) : Bool := c == acknowledged

end AckControl

/-- A reply to a request, reporting whether it could be honoured. -/
structure Acknowledgement where
  control : AckControl
  /-- A reason qualifying `control`; `0xFF` for no specific cause. -/
  groupFunction : UInt8
  /-- The ECU that is acknowledging. -/
  address : Address
  pgn : Pgn
  deriving DecidableEq

namespace Acknowledgement

/-- A positive acknowledgement for `pgn`. -/
def positive (pgn : Pgn) (address : Address) : Acknowledgement :=
  ⟨.acknowledged, fill, address, pgn⟩

/-- A negative acknowledgement: `pgn` is not supported. -/
def negative (pgn : Pgn) : Acknowledgement := ⟨.notSupported, fill, Address.null, pgn⟩

/-- Encode to the eight-byte payload. -/
def encode (a : Acknowledgement) : Payload := ![a.control.asU8, a.groupFunction, fill, fill,
  a.address.raw, byteAt a.pgn.raw 0, byteAt a.pgn.raw 1, byteAt a.pgn.raw 2]

/-- Decode an eight-byte payload. -/
def decode (data : Payload) : Acknowledgement :=
  ⟨.fromU8 (data 0), data 1, ⟨data 4⟩, .newMasked (le24 (data 5) (data 6) (data 7))⟩

/-- So does an acknowledgement, if its control byte is read as it was
meant. -/
theorem decode_encode {a : Acknowledgement} (h : .fromU8 a.control.asU8 = a.control) :
    decode a.encode = a := by
  have hraw := a.pgn.raw_lt
  have hpgn : Pgn.newMasked (le24 (a.encode 5) (a.encode 6) (a.encode 7)) = a.pgn := by
    show Pgn.newMasked (le24 (byteAt a.pgn.raw 0) (byteAt a.pgn.raw 1) (byteAt a.pgn.raw 2)) = _
    rw [le24_byteAt (by omega), Pgn.newMasked_raw]
  show (⟨.fromU8 a.control.asU8, a.groupFunction, ⟨a.address.raw⟩, .newMasked _⟩ : Acknowledgement)
    = a
  rw [hpgn, h]

end Acknowledgement

end SaeJ1939
