/-
  SaeJ1939.Core.Name — the 64-bit identity of an ECU (`name.rs`).

  A NAME is compared as a 64-bit integer to settle address contention;
  the numerically lower one wins.  Its bits are those of nine fields and
  one that is reserved.

  Main results:
    * `Name.wins_or_loses` — of two different NAMEs exactly one wins.
    * `Name.get_set`, `Name.get_set_of_ne`, `Name.reserved_set` — what
      one setter does to every field.
    * `Name.fields_independent` — what any sequence of setters does.
-/
import SaeJ1939.Core.Bytes
import SaeJ1939.Lib.BitFields

namespace SaeJ1939

open BitFields

/-- The 64-bit J1939-81 NAME. -/
structure Name where
  raw : BitVec 64
  deriving DecidableEq, Repr

namespace Name

/-! ## §1. Arbitration and the wire. -/

/-- Whether this ECU may pick a different address if it loses
arbitration. -/
def arbitraryAddressCapable (n : Name) : Bool := (n.raw >>> 63) &&& 1 == 1

/-- The eight-byte payload of an Address Claimed message. -/
def toBytes (n : Name) : Payload := fun i => ⟨n.raw.extractLsb' (8 * i.val) 8⟩

/-- Decode from the eight-byte payload of an Address Claimed message. -/
def fromBytes (data : Payload) : Name :=
  ⟨(data 7).toBitVec ++ (data 6).toBitVec ++ (data 5).toBitVec ++ (data 4).toBitVec
    ++ (data 3).toBitVec ++ (data 2).toBitVec ++ (data 1).toBitVec ++ (data 0).toBitVec⟩

/-- The lower NAME keeps the address. -/
def winsArbitrationAgainst (n other : Name) : Bool := n.raw < other.raw

theorem winsArbitrationAgainst_iff {n other : Name} :
    n.winsArbitrationAgainst other = true ↔ n.raw < other.raw := by
  simp [winsArbitrationAgainst]

/-- **Of two different NAMEs exactly one wins.** -/
theorem wins_or_loses {n other : Name} (h : n ≠ other) :
    n.winsArbitrationAgainst other = !other.winsArbitrationAgainst n := by
  have hne : n.raw.toNat ≠ other.raw.toNat := by
    intro he
    cases n; cases other
    exact h (congrArg Name.mk (BitVec.eq_of_toNat_eq he))
  rw [winsArbitrationAgainst, winsArbitrationAgainst]
  simp only [BitVec.lt_def]
  rw [← decide_not, decide_eq_decide]
  omega

/-- **A NAME round-trips through its eight bytes.** -/
theorem fromBytes_toBytes (n : Name) : fromBytes n.toBytes = n := by
  show (⟨n.raw.extractLsb' 56 8 ++ n.raw.extractLsb' 48 8 ++ n.raw.extractLsb' 40 8
    ++ n.raw.extractLsb' 32 8 ++ n.raw.extractLsb' 24 8 ++ n.raw.extractLsb' 16 8
    ++ n.raw.extractLsb' 8 8 ++ n.raw.extractLsb' 0 8⟩ : Name) = n
  -- eight adjacent bytes are one run of sixty-four bits
  rw [BitVec.extractLsb'_append_extractLsb'_eq_extractLsb' (show 56 = 48 + 8 from rfl),
    BitVec.extractLsb'_append_extractLsb'_eq_extractLsb' (show 48 = 40 + 8 from rfl),
    BitVec.extractLsb'_append_extractLsb'_eq_extractLsb' (show 40 = 32 + 8 from rfl),
    BitVec.extractLsb'_append_extractLsb'_eq_extractLsb' (show 32 = 24 + 8 from rfl),
    BitVec.extractLsb'_append_extractLsb'_eq_extractLsb' (show 24 = 16 + 8 from rfl),
    BitVec.extractLsb'_append_extractLsb'_eq_extractLsb' (show 16 = 8 + 8 from rfl),
    BitVec.extractLsb'_append_extractLsb'_eq_extractLsb' (show 8 = 0 + 8 from rfl)]
  exact congrArg Name.mk BitVec.extractLsb'_eq_self

/-! ## §2. The accessors. -/

/-- The getter `name_field!` makes, before its cast to the field's type. -/
def getField (shift bits : Nat) (n : Name) : BitVec 64 := read shift bits n.raw

/-- The setter `name_field!` makes, after its cast from the field's type. -/
def withField (shift bits : Nat) (n : Name) (value : BitVec 64) : Name :=
  ⟨write shift bits n.raw value⟩

/-- The device's serial number, unique within a manufacturer and function
(21 bits). -/
def identityNumber (n : Name) : UInt32 := ⟨(n.getField 0 21).setWidth 32⟩

def withIdentityNumber (n : Name) (value : UInt32) : Name :=
  n.withField 0 21 (value.toBitVec.setWidth 64)

/-- The manufacturer's code (11 bits). -/
def manufacturerCode (n : Name) : UInt16 := ⟨(n.getField 21 11).setWidth 16⟩

def withManufacturerCode (n : Name) (value : UInt16) : Name :=
  n.withField 21 11 (value.toBitVec.setWidth 64)

/-- Which instance of this ECU within the vehicle system (3 bits). -/
def ecuInstance (n : Name) : UInt8 := ⟨(n.getField 32 3).setWidth 8⟩

def withEcuInstance (n : Name) (value : UInt8) : Name :=
  n.withField 32 3 (value.toBitVec.setWidth 64)

/-- Which instance of this function within the ECU (5 bits). -/
def functionInstance (n : Name) : UInt8 := ⟨(n.getField 35 5).setWidth 8⟩

def withFunctionInstance (n : Name) (value : UInt8) : Name :=
  n.withField 35 5 (value.toBitVec.setWidth 64)

/-- What the device does (8 bits). -/
def function (n : Name) : UInt8 := ⟨(n.getField 40 8).setWidth 8⟩

def withFunction (n : Name) (value : UInt8) : Name :=
  n.withField 40 8 (value.toBitVec.setWidth 64)

/-- The vehicle system this device belongs to (7 bits). -/
def vehicleSystem (n : Name) : UInt8 := ⟨(n.getField 49 7).setWidth 8⟩

def withVehicleSystem (n : Name) (value : UInt8) : Name :=
  n.withField 49 7 (value.toBitVec.setWidth 64)

/-- Which instance of that vehicle system (4 bits). -/
def vehicleSystemInstance (n : Name) : UInt8 := ⟨(n.getField 56 4).setWidth 8⟩

def withVehicleSystemInstance (n : Name) (value : UInt8) : Name :=
  n.withField 56 4 (value.toBitVec.setWidth 64)

/-- The industry the device is built for (3 bits). -/
def industryGroup (n : Name) : UInt8 := ⟨(n.getField 60 3).setWidth 8⟩

def withIndustryGroup (n : Name) (value : UInt8) : Name :=
  n.withField 60 3 (value.toBitVec.setWidth 64)

def withArbitraryAddressCapable (n : Name) (capable : Bool) : Name :=
  let mask : BitVec 64 := 1 <<< 63
  if capable then ⟨n.raw ||| mask⟩ else ⟨n.raw &&& ~~~mask⟩

/-! ## §3. The fields, as one family. -/

/-- The fields of a NAME, from its low bits up. -/
inductive Field where
  | identityNumber
  | manufacturerCode
  | ecuInstance
  | functionInstance
  | function
  | vehicleSystem
  | vehicleSystemInstance
  | industryGroup
  | arbitraryAddressCapable
  deriving Repr, DecidableEq

namespace Field

/-- The type of a field's values. -/
def Value : Field → Type
  | identityNumber => UInt32
  | manufacturerCode => UInt16
  | ecuInstance | functionInstance | function | vehicleSystem | vehicleSystemInstance
  | industryGroup => UInt8
  | arbitraryAddressCapable => Bool

/-- The lowest bit of a field. -/
def shift : Field → Nat
  | identityNumber => 0
  | manufacturerCode => 21
  | ecuInstance => 32
  | functionInstance => 35
  | function => 40
  | vehicleSystem => 49
  | vehicleSystemInstance => 56
  | industryGroup => 60
  | arbitraryAddressCapable => 63

/-- How many bits a field has. -/
def bits : Field → Nat
  | identityNumber => 21
  | manufacturerCode => 11
  | ecuInstance => 3
  | functionInstance => 5
  | function => 8
  | vehicleSystem => 7
  | vehicleSystemInstance => 4
  | industryGroup => 3
  | arbitraryAddressCapable => 1

/-- A value masked to the width of its field. -/
def masked : (f : Field) → f.Value → f.Value
  | identityNumber => fun value : UInt32 => value &&& 0x1FFFFF
  | manufacturerCode => fun value : UInt16 => value &&& 0x7FF
  | ecuInstance => fun value : UInt8 => value &&& 0x7
  | functionInstance => fun value : UInt8 => value &&& 0x1F
  | function => fun value : UInt8 => value
  | vehicleSystem => fun value : UInt8 => value &&& 0x7F
  | vehicleSystemInstance => fun value : UInt8 => value &&& 0xF
  | industryGroup => fun value : UInt8 => value &&& 0x7
  | arbitraryAddressCapable => fun capable : Bool => capable

/-- A value as the word a setter shifts into place. -/
def toWord : (f : Field) → f.Value → BitVec 64
  | identityNumber => fun value : UInt32 => value.toBitVec.setWidth 64
  | manufacturerCode => fun value : UInt16 => value.toBitVec.setWidth 64
  | ecuInstance | functionInstance | function | vehicleSystem | vehicleSystemInstance
  | industryGroup => fun value : UInt8 => value.toBitVec.setWidth 64
  | arbitraryAddressCapable => fun capable : Bool => if capable then 1 else 0

/-- The value a getter makes of the word it has masked. -/
def ofWord : (f : Field) → BitVec 64 → f.Value
  | identityNumber => fun word => UInt32.ofBitVec (word.setWidth 32)
  | manufacturerCode => fun word => UInt16.ofBitVec (word.setWidth 16)
  | ecuInstance | functionInstance | function | vehicleSystem | vehicleSystemInstance
  | industryGroup => fun word => UInt8.ofBitVec (word.setWidth 8)
  | arbitraryAddressCapable => fun word => word == 1

end Field

/-- The getter of a field. -/
def get (n : Name) : (f : Field) → f.Value
  | .identityNumber => n.identityNumber
  | .manufacturerCode => n.manufacturerCode
  | .ecuInstance => n.ecuInstance
  | .functionInstance => n.functionInstance
  | .function => n.function
  | .vehicleSystem => n.vehicleSystem
  | .vehicleSystemInstance => n.vehicleSystemInstance
  | .industryGroup => n.industryGroup
  | .arbitraryAddressCapable => n.arbitraryAddressCapable

/-- The setter of a field. -/
def set (n : Name) : (f : Field) → f.Value → Name
  | .identityNumber => n.withIdentityNumber
  | .manufacturerCode => n.withManufacturerCode
  | .ecuInstance => n.withEcuInstance
  | .functionInstance => n.withFunctionInstance
  | .function => n.withFunction
  | .vehicleSystem => n.withVehicleSystem
  | .vehicleSystemInstance => n.withVehicleSystemInstance
  | .industryGroup => n.withIndustryGroup
  | .arbitraryAddressCapable => n.withArbitraryAddressCapable

/-- A getter reads the bits of its field. -/
theorem get_eq (n : Name) (f : Field) : n.get f = f.ofWord (read f.shift f.bits n.raw) := by
  cases f <;> rfl

/-- The flag is a field of one bit. -/
theorem withArbitraryAddressCapable_eq (n : Name) (capable : Bool) :
    n.withArbitraryAddressCapable capable = n.withField 63 1 (if capable then 1 else 0) := by
  have hones : ones 64 1 = 1 := by decide
  apply congrArg Name.mk
  rw [write, hones]
  cases capable with
  | true =>
    show n.raw ||| 1#64 <<< 63
      = (n.raw &&& ~~~(1#64 <<< 63)) ||| ((1#64 <<< 63) &&& (1#64 <<< 63))
    rw [BitVec.and_self]
    apply BitVec.eq_of_getLsbD_eq
    intro i hi
    simp only [BitVec.getLsbD_or, BitVec.getLsbD_and, BitVec.getLsbD_not, hi]
    cases n.raw.getLsbD i <;> simp
  | false =>
    show n.raw &&& ~~~(1#64 <<< 63)
      = (n.raw &&& ~~~(1#64 <<< 63)) ||| ((0#64 <<< 63) &&& (1#64 <<< 63))
    simp

/-- A setter writes the bits of its field. -/
theorem set_eq (n : Name) (f : Field) (value : f.Value) :
    n.set f value = ⟨write f.shift f.bits n.raw (f.toWord value)⟩ := by
  cases f with
  | arbitraryAddressCapable => exact withArbitraryAddressCapable_eq n value
  | _ => rfl

/-- What a getter makes of the word its setter shifted into place. -/
theorem ofWord_toWord (f : Field) (value : f.Value) :
    f.ofWord (f.toWord value &&& ones 64 f.bits) = f.masked value := by
  have h32 : ∀ (x : UInt32) (b : Nat), UInt32.ofBitVec
      ((x.toBitVec.setWidth 64 &&& ones 64 b).setWidth 32) = ⟨x.toBitVec &&& ones 32 b⟩ :=
    fun x b => congrArg UInt32.ofBitVec (setWidth_and_ones (by decide) b x.toBitVec)
  have h16 : ∀ (x : UInt16) (b : Nat), UInt16.ofBitVec
      ((x.toBitVec.setWidth 64 &&& ones 64 b).setWidth 16) = ⟨x.toBitVec &&& ones 16 b⟩ :=
    fun x b => congrArg UInt16.ofBitVec (setWidth_and_ones (by decide) b x.toBitVec)
  have h8 : ∀ (x : UInt8) (b : Nat), UInt8.ofBitVec
      ((x.toBitVec.setWidth 64 &&& ones 64 b).setWidth 8) = ⟨x.toBitVec &&& ones 8 b⟩ :=
    fun x b => congrArg UInt8.ofBitVec (setWidth_and_ones (by decide) b x.toBitVec)
  cases f with
  | identityNumber => exact h32 value 21
  | manufacturerCode => exact h16 value 11
  | function =>
    have hones : ones 8 8 = BitVec.allOnes 8 := by decide
    refine (h8 value 8).trans ?_
    rw [hones, BitVec.and_allOnes]
    rfl
  | arbitraryAddressCapable =>
    cases value <;> rfl
  | ecuInstance => exact h8 value 3
  | functionInstance => exact h8 value 5
  | vehicleSystem => exact h8 value 7
  | vehicleSystemInstance => exact h8 value 4
  | industryGroup => exact h8 value 3

/-- **No two fields share a bit.** -/
theorem Field.disjoint {f g : Field} (h : f ≠ g) :
    f.shift + f.bits ≤ g.shift ∨ g.shift + g.bits ≤ f.shift := by
  revert h
  cases f <;> cases g <;> decide

theorem Field.shift_add_bits_le (f : Field) : f.shift + f.bits ≤ 64 := by
  cases f <;> decide

/-! ## §4. What setters do. -/

section Setting

variable (n : Name) (f : Field)

/-- **A setter sets its field**, masked to the width of it. -/
theorem get_set (value : f.Value) : (n.set f value).get f = f.masked value := by
  rw [get_eq, set_eq, read_write f.shift_add_bits_le, ofWord_toWord]

/-- **A setter leaves every other field alone.** -/
theorem get_set_of_ne {g : Field} (h : f ≠ g) (value : g.Value) :
    (n.set g value).get f = n.get f := by
  rw [get_eq, get_eq, set_eq, read_write_of_disjoint f.shift_add_bits_le (Field.disjoint h)]

/-- **A setter leaves the reserved bit alone.** -/
theorem reserved_set (value : f.Value) : (n.set f value).raw.getLsbD 48 = n.raw.getLsbD 48 := by
  have hout : ¬(f.shift ≤ 48 ∧ 48 < f.shift + f.bits) := by
    cases f <;> decide
  rw [set_eq, getLsbD_write _ _ (by decide), if_neg hout]

end Setting

/-- One call of a setter. -/
structure Update where
  field : Field
  value : field.Value

/-- A sequence of setters. -/
def update (n : Name) (updates : List Update) : Name :=
  updates.foldl (fun n u => n.set u.field u.value) n

/-- The value a sequence of setters sets a field to last, if it does. -/
def lastSet (f : Field) : List Update → Option f.Value
  | [] => none
  | ⟨g, value⟩ :: rest => (lastSet f rest).or (if h : g = f then some (h ▸ value) else none)

/-- Every field after a sequence of setters. -/
theorem get_update (n : Name) (f : Field) (updates : List Update) :
    (n.update updates).get f = ((lastSet f updates).map f.masked).getD (n.get f) := by
  induction updates generalizing n with
  | nil => rfl
  | cons u rest ih =>
    obtain ⟨g, value⟩ := u
    show ((n.set g value).update rest).get f = _
    rw [ih, lastSet]
    cases hlast : lastSet f rest with
    | some last => rfl
    | none =>
      -- nothing sets the field later on: what counts is whether this setter does
      show (n.set g value).get f = _
      by_cases h : g = f
      · subst h
        rw [dif_pos rfl, get_set]
        rfl
      · rw [dif_neg h, get_set_of_ne n f (Ne.symm h)]
        rfl

theorem reserved_update (n : Name) (updates : List Update) :
    (n.update updates).raw.getLsbD 48 = n.raw.getLsbD 48 := by
  induction updates generalizing n with
  | nil => rfl
  | cons u rest ih => exact (ih (n.set u.field u.value)).trans (reserved_set n u.field u.value)

/-- **The fields of a NAME are independent.**  After any sequence of
setters every field holds the value last set for it, masked to its width,
or what it held before; the reserved bit is as it was, and the NAME
survives the wire. -/
theorem fields_independent (n : Name) (updates : List Update) :
    (∀ f, (n.update updates).get f = ((lastSet f updates).map f.masked).getD (n.get f))
      ∧ (n.update updates).raw.getLsbD 48 = n.raw.getLsbD 48
      ∧ fromBytes (n.update updates).toBytes = n.update updates
      ∧ fromBytes n.toBytes = n :=
  ⟨fun f => get_update n f updates, reserved_update n updates, fromBytes_toBytes _,
    fromBytes_toBytes n⟩

end Name

end SaeJ1939
