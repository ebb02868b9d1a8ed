/-
  SaeJ1939.Core.Types — addresses, priorities and errors (`types.rs`).

  An `Address` is any byte: `0..=253` name an ECU, `0xFE` is the null
  address and `0xFF` the global one.  A `Priority` carries its three-bit
  bound, so an out-of-range one cannot be built.
-/
import Mathlib.Tactic

namespace SaeJ1939

/-! ## §1. Errors. -/

/-- An error produced by the J1939 codecs. -/
inductive Error where
  | invalidId (raw : Nat)
  | invalidPgn (raw : Nat)
  | invalidPriority (priority : Nat)
  | destinationMismatch
  | shortPayload (expected actual : Nat)
  | invalidMessageSize (size : Nat)
  | unknownControlByte (byte : UInt8)
  | invalidDtc
  | valueOutOfRange (field : String) (value : Nat)
  deriving Repr, DecidableEq

/-- The result of a fallible J1939 operation. -/
abbrev Result (α : Type) := Except Error α

/-! ## §2. Addresses. -/

/-- A J1939 node address. -/
structure Address where
  raw : UInt8
  deriving Repr, DecidableEq

namespace Address

/-- The null address, used when an ECU cannot claim one. -/
def null : Address := ⟨0xFE⟩

/-- The global (broadcast) destination address. -/
def global : Address := ⟨0xFF⟩

def asU8 (a : Address) : Nat := a.raw.toNat

/-- Whether the address identifies a specific ECU (`0..=253`). -/
def isSpecific (a : Address) : Bool := a.asU8 < 0xFE

def isBroadcast (a : Address) : Bool := a == global

def isNull (a : Address) : Bool := a == null

theorem asU8_lt (a : Address) : a.asU8 < 256 := a.raw.toNat_lt

theorem asU8_inj {a b : Address} (h : a.asU8 = b.asU8) : a = b := by
  cases a; cases b
  exact congrArg Address.mk (UInt8.toNat_inj.mp h)

/-- The address with a given byte value. -/
def ofNat (n : Nat) : Address := ⟨UInt8.ofNat n⟩

@[simp] theorem asU8_ofNat (n : Nat) : (ofNat n).asU8 = n % 256 := UInt8.toNat_ofNat'

@[simp] theorem ofNat_asU8 (a : Address) : ofNat a.asU8 = a := by
  cases a
  exact congrArg Address.mk UInt8.ofNat_toNat

@[simp] theorem isBroadcast_iff {a : Address} : a.isBroadcast = true ↔ a = global := by
  simp [isBroadcast]

theorem ne_null_of_isSpecific {a : Address} (h : a.isSpecific = true) : a ≠ null := by
  rintro rfl
  exact absurd h (by decide)

theorem ne_global_of_isSpecific {a : Address} (h : a.isSpecific = true) : a ≠ global := by
  rintro rfl
  exact absurd h (by decide)

end Address

/-! ## §3. Priorities. -/

/-- A three-bit message priority, `0` the highest and `7` the lowest. -/
structure Priority where
  raw : Nat
  raw_le : raw ≤ 7
  deriving Repr, DecidableEq

namespace Priority

/-- The default priority for most parameter groups. -/
def default : Priority := ⟨6, by decide⟩

/-- The priority of control traffic. -/
def control : Priority := ⟨3, by decide⟩

/-- The lowest priority, used by all transport-protocol traffic. -/
def lowest : Priority := ⟨7, by decide⟩

/-- Anything above `7` becomes the lowest priority. -/
def newSaturating (priority : Nat) : Priority :=
  if h : priority ≤ 7 then ⟨priority, h⟩ else lowest

theorem ext_raw {p q : Priority} (h : p.raw = q.raw) : p = q := by
  cases p; cases q
  cases h
  rfl

end Priority

end SaeJ1939
