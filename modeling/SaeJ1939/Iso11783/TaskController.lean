/-
  SaeJ1939.Iso11783.TaskController — process data and working sets
  (`task_controller.rs`, `working_set.rs`).

  All that a task controller and an implement say to each other is process
  data: a command, an element of the implement, a quantity and a value, in
  eight bytes that have no bit to spare.

  Main results:
    * `ProcessData.one_to_one` — messages in range and payloads are one to
      one.
    * `DeviceDescriptor.pool_travels` — which of the two transport protocols
      takes an object pool.
    * `WorkingSetMaster.decode_eq_ok` — a working set has its master.
-/
import SaeJ1939.Lib.WireFormat
import SaeJ1939.Node.Outgoing
import SaeJ1939.Etp.Transmitter

namespace SaeJ1939.Iso11783

open Checked WireFormat

/-! ## §1. Commands. -/

/-- Everything a task controller and an implement say to each other. -/
def processData : Pgn := Pgn.newMasked 0x00CB00

/-- The largest element number: the field is 12 bits. -/
def maxElement : UInt16 := 0x0FFF

/-- The element that is the device itself. -/
def deviceElement : UInt16 := 0

/-- What a message asks for or reports. -/
inductive Command where
  | technicalCapabilities
  | deviceDescriptor
  | requestValue
  | value
  | measurementTimeInterval
  | measurementDistanceInterval
  | measurementMinimumThreshold
  | measurementMaximumThreshold
  | measurementChangeThreshold
  | peerControlAssignment
  | setValueAndAcknowledge
  /-- A command outside the set that is defined. -/
  | other (raw : UInt8)
  deriving Repr, DecidableEq

namespace Command

/-- The four-bit wire value. -/
def asU8 : Command → UInt8
  | technicalCapabilities => 0
  | deviceDescriptor => 1
  | requestValue => 2
  | value => 3
  | measurementTimeInterval => 4
  | measurementDistanceInterval => 5
  | measurementMinimumThreshold => 6
  | measurementMaximumThreshold => 7
  | measurementChangeThreshold => 8
  | peerControlAssignment => 9
  | setValueAndAcknowledge => 10
  | other raw => raw &&& 0x0F

def fromU8 (raw : UInt8) : Command :=
  match (raw &&& 0x0F).toNat with
  | 0 => technicalCapabilities
  | 1 => deviceDescriptor
  | 2 => requestValue
  | 3 => value
  | 4 => measurementTimeInterval
  | 5 => measurementDistanceInterval
  | 6 => measurementMinimumThreshold
  | 7 => measurementMaximumThreshold
  | 8 => measurementChangeThreshold
  | 9 => peerControlAssignment
  | 10 => setValueAndAcknowledge
  | _ => other (raw &&& 0x0F)

/-- Whether this command sets up reporting, rather than asking once. -/
def isMeasurementTrigger : Command → Bool
  | measurementTimeInterval | measurementDistanceInterval | measurementMinimumThreshold
  | measurementMaximumThreshold | measurementChangeThreshold => true
  | _ => false

/-- Whether the wire tells this command from the others. -/
def isOnWire : Command → Bool
  | other raw => decide (11 ≤ raw) && decide (raw ≤ 15)
  | _ => true

theorem fromU8_of_low {raw raw' : UInt8} (h : raw &&& 0x0F = raw' &&& 0x0F) :
    fromU8 raw = fromU8 raw' := by
  unfold fromU8
  rw [h]

/-- **What is read of a byte is written back**, as far as four bits go. -/
theorem asU8_fromU8 (raw : UInt8) : (fromU8 raw).asU8 = raw &&& 0x0F := by
  have hlow := low_four raw
  unfold fromU8
  generalize raw &&& 0x0F = low at hlow
  simp only [List.mem_cons, List.not_mem_nil, or_false] at hlow
  rcases hlow with rfl | rfl | rfl | rfl | rfl | rfl | rfl | rfl | rfl | rfl | rfl | rfl | rfl
    | rfl | rfl | rfl <;> rfl

theorem isOnWire_fromU8 (raw : UInt8) : (fromU8 raw).isOnWire = true := by
  have hlow := low_four raw
  unfold fromU8
  generalize raw &&& 0x0F = low at hlow
  simp only [List.mem_cons, List.not_mem_nil, or_false] at hlow
  rcases hlow with rfl | rfl | rfl | rfl | rfl | rfl | rfl | rfl | rfl | rfl | rfl | rfl | rfl
    | rfl | rfl | rfl <;> rfl

/-- A command takes up no more than its four bits. -/
theorem asU8_low (command : Command) : command.asU8 &&& 0x0F = command.asU8 := by
  cases command with
  | other raw =>
    show (raw &&& 0x0F) &&& 0x0F = raw &&& 0x0F
    rw [UInt8.and_assoc]
    rfl
  | _ => rfl

/-- **A command survives exactly if the wire tells it from the others.** -/
theorem fromU8_asU8_iff (command : Command) :
    fromU8 command.asU8 = command ↔ command.isOnWire = true := by
  constructor
  · intro h
    rw [← h]
    exact isOnWire_fromU8 command.asU8
  · intro h
    cases command with
    | other raw =>
      simp only [isOnWire, Bool.and_eq_true, decide_eq_true_eq] at h
      obtain ⟨hlow, hhigh⟩ := h
      have hraw : raw &&& 0x0F = raw := (and_ones8_iff (k := 4) (by decide) raw).mpr hhigh
      have hmem := low_four raw
      rw [hraw] at hmem
      simp only [List.mem_cons, List.not_mem_nil, or_false] at hmem
      rcases hmem with rfl | rfl | rfl | rfl | rfl | rfl | rfl | rfl | rfl | rfl | rfl | rfl | rfl
        | rfl | rfl | rfl <;> first | rfl | exact absurd hlow (by decide)
    | _ => rfl

end Command

/-! ## §2. Process data. -/

/-- Which quantity a message is about. -/
structure Ddi where
  raw : UInt16
  deriving Repr, DecidableEq

/-- Whether the meaning of a quantity is the manufacturer's. -/
def Ddi.isProprietary (ddi : Ddi) : Bool := ddi.raw ≥ 0xDFFF

/-- One process data message. -/
structure ProcessData where
  command : Command
  /-- Which part of the implement this is about. -/
  element : UInt16
  ddi : Ddi
  value : Int32
  deriving DecidableEq

namespace ProcessData

/-- Build a message.  A larger element number would be another element. -/
def new (command : Command) (element : UInt16) (ddi : Ddi) (value : Int32) : Result ProcessData :=
  if element > maxElement then .error (.valueOutOfRange "process data element" element.toNat)
  else .ok ⟨command, element, ddi, value⟩

/-- Ask an element for a value. -/
def request (element : UInt16) (ddi : Ddi) : Result ProcessData := new .requestValue element ddi 0

/-- Report a value for an element. -/
def report (element : UInt16) (ddi : Ddi) (value : Int32) : Result ProcessData :=
  new .value element ddi value

/-- The element number starts in the high half of the command's byte. -/
def encode (m : ProcessData) : Payload :=
  ![((m.element.toUInt8 &&& (0x0F : UInt8)) <<< (4 : UInt8)) ||| m.command.asU8,
    (m.element >>> 4).toUInt8, m.ddi.raw.toUInt8, (m.ddi.raw >>> 8).toUInt8,
    m.value.toUInt32.toUInt8, (m.value.toUInt32 >>> 8).toUInt8,
    (m.value.toUInt32 >>> 16).toUInt8, (m.value.toUInt32 >>> 24).toUInt8]

/-- Every payload is a message. -/
def decode (data : Payload) : ProcessData where
  command := .fromU8 (data 0)
  element := (data 0 >>> 4).toUInt16 ||| ((data 1).toUInt16 <<< 4)
  ddi := ⟨(data 2).toUInt16 ||| ((data 3).toUInt16 <<< 8)⟩
  value := (ofLe32 (data 4) (data 5) (data 6) (data 7)).toInt32

def format : Format ProcessData Payload := ⟨encode, decode⟩

/-- The element fits its field, and the wire has the command. -/
def InRange (m : ProcessData) : Prop := m.command.isOnWire = true ∧ m.element ≤ maxElement

/-- The element's part of the first byte. -/
theorem element_of_byte (low : UInt8) {command : UInt8} (h : command &&& 0x0F = command) :
    (((low &&& (0x0F : UInt8)) <<< (4 : UInt8)) ||| command) >>> 4 = low &&& (0x0F : UInt8) := by
  rw [← h]
  apply UInt8.toBitVec_inj.mp
  apply BitVec.eq_of_getLsbD_eq
  intro i hi
  interval_cases i <;> simp

/-- **The element number is split and joined**, as far as 12 bits go. -/
theorem join_split (element : UInt16) :
    (element.toUInt8 &&& (0x0F : UInt8)).toUInt16 ||| ((element >>> 4).toUInt8.toUInt16 <<< 4)
      = element &&& maxElement := by
  unfold maxElement
  apply UInt16.toBitVec_inj.mp
  apply BitVec.eq_of_getLsbD_eq
  intro i hi
  interval_cases i <;> simp [-UInt16.toUInt16_toUInt8]

/-- The command stands in the low half of its byte. -/
theorem command_of_byte (element : UInt16) (command : Command) :
    Command.fromU8 (((element.toUInt8 &&& (0x0F : UInt8)) <<< (4 : UInt8)) ||| command.asU8)
      = .fromU8 command.asU8 := by
  apply Command.fromU8_of_low
  generalize element.toUInt8 = low
  generalize command.asU8 = c
  apply UInt8.toBitVec_inj.mp
  apply BitVec.eq_of_getLsbD_eq
  intro i hi
  interval_cases i <;> simp

/-- What is left of a message that is sent. -/
theorem decode_encode (m : ProcessData) : decode m.encode = { m with
    command := .fromU8 m.command.asU8
    element := m.element &&& maxElement } := by
  show ProcessData.mk (.fromU8 (((m.element.toUInt8 &&& (0x0F : UInt8)) <<< (4 : UInt8))
      ||| m.command.asU8)) _ ⟨ofLe16 m.ddi.raw.toUInt8 (m.ddi.raw >>> 8).toUInt8⟩
    (ofLe32 m.value.toUInt32.toUInt8 (m.value.toUInt32 >>> 8).toUInt8
      (m.value.toUInt32 >>> 16).toUInt8 (m.value.toUInt32 >>> 24).toUInt8).toInt32 = _
  rw [command_of_byte, ofLe16_bytes, ofLe32_bytes, Int32.toInt32_toUInt32, ← join_split,
    ← element_of_byte m.element.toUInt8 m.command.asU8_low]
  rfl

theorem carries : Carries format InRange := by
  refine Carries.of_read decode_encode (fun m => ?_) fun data => ?_
  · obtain ⟨command, element, ddi, value⟩ := m
    simp only [ProcessData.mk.injEq, and_true]
    exact and_congr command.fromU8_asU8_iff (and_ones16_iff (k := 12) (by decide) element)
  · refine ⟨Command.isOnWire_fromU8 _, (and_ones16_iff (k := 12) (by decide) _).mp ?_⟩
    show ((data 0 >>> 4).toUInt16 ||| ((data 1).toUInt16 <<< 4)) &&& (0x0FFF : UInt16)
      = (data 0 >>> 4).toUInt16 ||| ((data 1).toUInt16 <<< 4)
    apply UInt16.toBitVec_inj.mp
    apply BitVec.eq_of_getLsbD_eq
    intro i hi
    interval_cases i <;> simp

/-- The bytes that an element number came from. -/
theorem split_join (b₀ b₁ : UInt8) :
    (((((b₀ >>> 4).toUInt16 ||| (b₁.toUInt16 <<< 4)).toUInt8 &&& (0x0F : UInt8)) <<< (4 : UInt8))
        ||| (b₀ &&& 0x0F)) = b₀
      ∧ (((b₀ >>> 4).toUInt16 ||| (b₁.toUInt16 <<< 4)) >>> 4).toUInt8 = b₁ := by
  refine ⟨?_, ?_⟩ <;>
    · apply UInt8.toBitVec_inj.mp
      apply BitVec.eq_of_getLsbD_eq
      intro i hi
      interval_cases i <;> simp

/-- **No bit is to spare**: every payload is what its message is written
as. -/
theorem encode_decode (data : Payload) : encode (decode data) = data := by
  obtain ⟨hfirst, hsecond⟩ := split_join (data 0) (data 1)
  obtain ⟨hddi₀, hddi₁⟩ := bytes_ofLe16 (data 2) (data 3)
  obtain ⟨h₀, h₁, h₂, h₃⟩ := bytes_ofLe32 (data 4) (data 5) (data 6) (data 7)
  have hvalue : (decode data).value.toUInt32 = ofLe32 (data 4) (data 5) (data 6) (data 7) := rfl
  unfold encode
  rw [hvalue, h₀, h₁, h₂, h₃]
  funext i
  fin_cases i
  · show _ ||| (Command.fromU8 (data 0)).asU8 = _
    rw [Command.asU8_fromU8]
    exact hfirst
  · exact hsecond
  · exact hddi₀
  · exact hddi₁
  all_goals rfl

/-- **Messages and payloads are one to one**: every payload is exactly one
message in range, and the constructor refuses the elements of the others. -/
theorem one_to_one :
    Set.BijOn encode {m | m.InRange} Set.univ ∧ (∀ data, (decode data).InRange)
      ∧ (∀ m, decode m.encode = m ↔ m.InRange)
      ∧ ∀ command element ddi value, ((∃ m, new command element ddi value = .ok m)
          ∧ command.isOnWire = true)
        ↔ decode (ProcessData.mk command element ddi value).encode
          = ⟨command, element, ddi, value⟩ := by
  have hrange : Set.range format.normal = Set.univ :=
    Set.eq_univ_of_forall fun data => ⟨data, encode_decode data⟩
  refine ⟨hrange ▸ carries.bijOn, carries.decoded, carries.survives_iff, ?_⟩
  intro command element ddi value
  refine Iff.trans ?_ (carries.survives_iff ⟨command, element, ddi, value⟩).symm
  rw [and_comm]
  refine and_congr_right fun _ => ?_
  unfold new
  by_cases helement : element > maxElement
  · rw [if_pos helement]
    refine iff_of_false ?_ (UInt16.not_le.mpr helement)
    intro h
    obtain ⟨m, h⟩ := h
    cases h
  · rw [if_neg helement]
    exact iff_of_true ⟨_, rfl⟩ (UInt16.not_lt.mp helement)

end ProcessData

/-! ## §3. Object pools. -/

namespace DeviceDescriptor

/-- Whether an object pool of this size needs the extended transport
protocol. -/
def needsExtendedTransport (size : Nat) : Bool := size > Tp.maxMessageSize

/-- The message that announces an object pool. -/
def announcement (element : UInt16) (size : UInt32) : Result ProcessData :=
  ProcessData.new .deviceDescriptor element ⟨0⟩ size.toInt32

/-- **Which protocol takes an object pool.**  The test tells the two apart:
the transport protocol sends a pool to anybody exactly if the test says no,
and the extended one exactly if it says yes and the pool has a size at all.
The announcement says the size, though it is written as a signed value. -/
theorem pool_travels (pool : List UInt8) (source destination : Address) (element : UInt16) :
    ((∃ o, Outgoing.new processData source destination pool = .ok o)
        ↔ needsExtendedTransport pool.length = false)
      ∧ ((∃ tx, Etp.Transmitter.new processData pool = .ok tx)
        ↔ needsExtendedTransport pool.length = true ∧ pool.length ≤ Etp.maxMessageSize)
      ∧ ∀ size, (∃ m, announcement element size = .ok m
          ∧ (ProcessData.decode m.encode).command = .deviceDescriptor
          ∧ (ProcessData.decode m.encode).element = element
          ∧ (ProcessData.decode m.encode).value.toUInt32 = size)
        ↔ element ≤ maxElement := by
  refine ⟨?_, ?_, fun size => ?_⟩
  · unfold needsExtendedTransport
    rw [decide_eq_false_iff_not, Nat.not_lt]
    exact Outgoing.new_ok_iff (by decide) source destination pool
  · unfold needsExtendedTransport
    rw [decide_eq_true_iff, Etp.Transmitter.new_ok_iff]
    exact Iff.rfl
  · constructor
    · rintro ⟨m, hnew, -, helement, -⟩
      rw [← helement]
      exact (ProcessData.carries.decoded m.encode).2
    · intro helement
      have hrange : (ProcessData.mk .deviceDescriptor element ⟨0⟩ size.toInt32).InRange :=
        ⟨rfl, helement⟩
      have hread := (ProcessData.carries.survives_iff _).mpr hrange
      refine ⟨_, if_neg (UInt16.not_lt.mpr helement), ?_⟩
      -- what is announced is what is read
      have hsame : ProcessData.decode
          (ProcessData.mk .deviceDescriptor element ⟨0⟩ size.toInt32).encode = _ := hread
      rw [hsame]
      exact ⟨rfl, rfl, UInt32.toUInt32_toInt32 size⟩

end DeviceDescriptor

/-! ## §4. Working sets. -/

/-- The message that says how many ECUs form an implement. -/
structure WorkingSetMaster where
  /-- The master is one of them. -/
  members : UInt8
  deriving Repr, DecidableEq

namespace WorkingSetMaster

/-- Declare a working set.  Its master is always a member. -/
def new (members : UInt8) : Result WorkingSetMaster :=
  if members = 0 then .error (.valueOutOfRange "working set members" 0) else .ok ⟨members⟩

/-- An implement that is a single ECU. -/
def single : WorkingSetMaster := ⟨1⟩

/-- How many members follow the master. -/
def followers (m : WorkingSetMaster) : UInt8 := if m.members = 0 then 0 else m.members - 1

def encode (m : WorkingSetMaster) : Payload :=
  ![m.members, fill, fill, fill, fill, fill, fill, fill]

def decode (data : Payload) : Result WorkingSetMaster := new (data 0)

/-- **A working set that is heard has its master**, and whatever is heard
of one with a master is what was declared. -/
theorem decode_eq_ok {data : Payload} {m : WorkingSetMaster} :
    decode data = .ok m
      ↔ m.members = data 0 ∧ m.followers.toNat + 1 = m.members.toNat := by
  unfold decode new followers
  constructor
  · intro h
    split at h
    next => cases h
    next hmembers =>
      injection h with h
      subst h
      dsimp only
      rw [if_neg hmembers]
      have hpos : 1 ≤ (data 0).toNat :=
        Nat.pos_of_ne_zero fun h => hmembers (UInt8.toNat_inj.mp h)
      have hle : (1 : UInt8) ≤ data 0 := UInt8.le_iff_toNat_le.mpr hpos
      rw [UInt8.toNat_sub_of_le _ _ hle]
      exact ⟨rfl, Nat.sub_add_cancel hpos⟩
  · rintro ⟨hmembers, hfollowers⟩
    have hne : data 0 ≠ 0 := by
      intro h
      rw [hmembers, h] at hfollowers
      cases hfollowers
    rw [if_neg hne, ← hmembers]

/-- What is declared is heard. -/
theorem decode_encode {members : UInt8} {m : WorkingSetMaster} (h : new members = .ok m) :
    decode m.encode = .ok m := by
  have hmembers : m.members = members := by
    unfold new at h
    split at h
    next => cases h
    next =>
      injection h with h
      exact h ▸ rfl
  show new m.members = .ok m
  rw [hmembers, h]

end WorkingSetMaster

end SaeJ1939.Iso11783
