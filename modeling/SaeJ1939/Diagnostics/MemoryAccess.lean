/-
  SaeJ1939.Diagnostics.MemoryAccess — how a tool reads and writes the
  memory of an ECU (`memory_access.rs`): the request (DM14), the response
  (DM15) and the data (DM16).

  Request and response are eight bytes each, with a count split over two
  of them.  The data has a count in front, and is filled up to a frame.

  Main results:
    * `Dm14.carries`, `Dm15.carries` — what the two messages carry: counts
      of 11 bits, pointers of 24 bits and every status on the wire.
    * `memory_access_carried` — the above, and that what the constructor
      refuses is what would not survive.
    * `Dm16.data_survives_the_trip` — data is sent in as many frames as it
      takes, and parsed on arrival.
-/
import SaeJ1939.Lib.WireFormat
import SaeJ1939.Node.Interleaving

namespace SaeJ1939.Diagnostics

open Checked WireFormat

/-! ## §1. Commands and states. -/

/-- The largest byte count: the field is 11 bits. -/
def maxByteCount : UInt16 := 0x07FF

/-- The largest memory pointer: the field is 24 bits. -/
def maxPointer : UInt32 := 0x00FFFFFF

/-- The largest error-detection parameter: the field is 24 bits. -/
def maxEdcParameter : UInt32 := 0x00FFFFFF

/-- What a request asks the ECU to do. -/
inductive MemoryCommand where
  | erase
  | read
  | write
  | statusRequest
  | operationCompleted
  | operationFailed
  | bootLoad
  | edcpGeneration
  deriving Repr, DecidableEq

namespace MemoryCommand

/-- The three-bit wire value. -/
def asU8 : MemoryCommand → UInt8
  | erase => 0
  | read => 1
  | write => 2
  | statusRequest => 3
  | operationCompleted => 4
  | operationFailed => 5
  | bootLoad => 6
  | edcpGeneration => 7

/-- Only the low three bits count. -/
def fromU8 (raw : UInt8) : MemoryCommand :=
  match (raw &&& 0b111).toNat with
  | 0 => erase
  | 1 => read
  | 2 => write
  | 3 => statusRequest
  | 4 => operationCompleted
  | 5 => operationFailed
  | 6 => bootLoad
  | _ => edcpGeneration

end MemoryCommand

/-- How the pointer and its extension combine. -/
inductive PointerType where
  /-- The extension is the high-order part of the address. -/
  | joinWithExtension
  /-- The extension selects a memory space. -/
  | extensionIsCommand
  deriving Repr, DecidableEq

namespace PointerType

def asBit : PointerType → UInt8
  | joinWithExtension => 0
  | extensionIsCommand => 1

def fromBit (bit : UInt8) : PointerType :=
  if bit &&& 1 = 1 then extensionIsCommand else joinWithExtension

end PointerType

/-- The status an ECU reports. -/
inductive MemoryStatus where
  | proceed
  | busy
  | operationCompleted
  | operationFailed
  /-- A status outside the set that is defined. -/
  | other (raw : UInt8)
  deriving Repr, DecidableEq

namespace MemoryStatus

/-- The three-bit wire value. -/
def asU8 : MemoryStatus → UInt8
  | proceed => 0
  | busy => 1
  | operationCompleted => 4
  | operationFailed => 5
  | other raw => raw &&& 0b111

def fromU8 (raw : UInt8) : MemoryStatus :=
  match (raw &&& 0b111).toNat with
  | 0 => proceed
  | 1 => busy
  | 4 => operationCompleted
  | 5 => operationFailed
  | _ => other (raw &&& 0b111)

/-- Whether the wire tells this status from the others. -/
def isOnWire : MemoryStatus → Bool
  | other raw => raw == 2 || raw == 3 || raw == 6 || raw == 7
  | _ => true

end MemoryStatus

namespace MemoryCommand

/-- **Every command survives its byte**, whatever else is in the byte. -/
theorem fromU8_of_low {raw : UInt8} {command : MemoryCommand}
    (h : raw &&& 0b111 = command.asU8 &&& 0b111) : fromU8 raw = command := by
  unfold fromU8
  rw [h]
  cases command <;> rfl

end MemoryCommand

namespace MemoryStatus

theorem isOnWire_fromU8 (raw : UInt8) : (fromU8 raw).isOnWire = true := by
  have hlow := low_three raw
  unfold fromU8
  generalize raw &&& 0b111 = low at hlow
  simp only [List.mem_cons, List.not_mem_nil, or_false] at hlow
  rcases hlow with rfl | rfl | rfl | rfl | rfl | rfl | rfl | rfl <;> rfl

theorem fromU8_of_low {raw raw' : UInt8} (h : raw &&& 0b111 = raw' &&& 0b111) :
    fromU8 raw = fromU8 raw' := by
  unfold fromU8
  rw [h]

/-- **A status survives exactly if the wire tells it from the others.** -/
theorem fromU8_asU8_iff (status : MemoryStatus) :
    fromU8 status.asU8 = status ↔ status.isOnWire = true := by
  constructor
  · intro h
    rw [← h]
    exact isOnWire_fromU8 status.asU8
  · intro h
    cases status with
    | other raw =>
      simp only [isOnWire, Bool.or_eq_true, beq_iff_eq] at h
      rcases h with ((rfl | rfl) | rfl) | rfl <;> rfl
    | proceed | busy | operationCompleted | operationFailed => rfl

end MemoryStatus

/-! ## §2. The byte that holds four fields. -/

/-- Byte 1 of a request or a response: the count's top three bits, the
pointer-type bit, a three-bit command and a reserved bit. -/
def packCountAndCommand (count : UInt16) (typeBit command : UInt8) : UInt8 :=
  ((count >>> 3).toUInt8 &&& (0xE0 : UInt8)) ||| ((typeBit &&& (1 : UInt8)) <<< (4 : UInt8))
    ||| ((command &&& (0b111 : UInt8)) <<< (1 : UInt8)) ||| (1 : UInt8)

/-- Recover the 11-bit count from bytes 0 and 1. -/
def unpackCount (low packed : UInt8) : UInt16 := ((packed &&& 0xE0).toUInt16 <<< 3) ||| low.toUInt16

variable (count : UInt16) (typeBit command : UInt8)

theorem pack_and_top :
    packCountAndCommand count typeBit command &&& (0xE0 : UInt8)
      = (count >>> 3).toUInt8 &&& (0xE0 : UInt8) := by
  unfold packCountAndCommand
  apply UInt8.toBitVec_inj.mp
  apply BitVec.eq_of_getLsbD_eq
  intro i hi
  interval_cases i <;> simp

theorem pack_type : (packCountAndCommand count typeBit command >>> 4) &&& 1 = typeBit &&& 1 := by
  unfold packCountAndCommand
  apply UInt8.toBitVec_inj.mp
  apply BitVec.eq_of_getLsbD_eq
  intro i hi
  interval_cases i <;> simp

theorem pack_command :
    (packCountAndCommand count typeBit command >>> 1) &&& 0b111 = command &&& 0b111 := by
  unfold packCountAndCommand
  apply UInt8.toBitVec_inj.mp
  apply BitVec.eq_of_getLsbD_eq
  intro i hi
  interval_cases i <;> simp

/-- **The count is split and joined**, as far as 11 bits go. -/
theorem unpack_pack :
    unpackCount count.toUInt8 (packCountAndCommand count typeBit command)
      = count &&& maxByteCount := by
  unfold unpackCount maxByteCount
  rw [pack_and_top]
  apply UInt16.toBitVec_inj.mp
  apply BitVec.eq_of_getLsbD_eq
  intro i hi
  interval_cases i <;> simp [-UInt16.toUInt16_toUInt8]

/-- No count off the wire is larger. -/
theorem unpackCount_le (low packed : UInt8) : unpackCount low packed ≤ maxByteCount := by
  have hsame : unpackCount low packed &&& maxByteCount = unpackCount low packed := by
    unfold unpackCount maxByteCount
    apply UInt16.toBitVec_inj.mp
    apply BitVec.eq_of_getLsbD_eq
    intro i hi
    interval_cases i <;> simp
  exact (and_ones16_iff (k := 11) (by decide) _).mp hsame

theorem and_maxByteCount_iff : count &&& maxByteCount = count ↔ count ≤ maxByteCount :=
  and_ones16_iff (k := 11) (by decide) count

theorem and_maxPointer_iff (pointer : UInt32) :
    pointer &&& maxPointer = pointer ↔ pointer ≤ maxPointer :=
  and_ones32_iff (k := 24) (by decide) pointer

/-! ## §3. The request. -/

/-- The key that says that none is available or required. -/
def keyNone : UInt16 := 0xFFFF

/-- A memory access request. -/
structure Dm14 where
  requestedBytes : UInt16
  command : MemoryCommand
  pointerType : PointerType
  pointer : UInt32
  /-- The high-order address bits, or a memory-space selector. -/
  pointerExtension : UInt8
  key : UInt16
  deriving Repr, DecidableEq

namespace Dm14

/-- Build a request for `requestedBytes` at `pointer`. -/
def new (requestedBytes : UInt16) (command : MemoryCommand) (pointer : UInt32) : Result Dm14 :=
  if requestedBytes > maxByteCount then
    .error (.valueOutOfRange "requested_bytes" requestedBytes.toNat)
  else if pointer > maxPointer then .error (.valueOutOfRange "pointer" pointer.toNat)
  else .ok ⟨requestedBytes, command, .joinWithExtension, pointer, 0, keyNone⟩

/-- Set the pointer extension, and mark it as a memory-space selector. -/
def withPointerExtension (d : Dm14) (extension : UInt8) : Dm14 :=
  { d with pointerExtension := extension, pointerType := .extensionIsCommand }

/-- Set the security key. -/
def withKey (d : Dm14) (key : UInt16) : Dm14 := { d with key }

def encode (d : Dm14) : Payload := ![d.requestedBytes.toUInt8,
  packCountAndCommand d.requestedBytes d.pointerType.asBit d.command.asU8,
  d.pointer.toUInt8, (d.pointer >>> 8).toUInt8, (d.pointer >>> 16).toUInt8,
  d.pointerExtension, d.key.toUInt8, (d.key >>> 8).toUInt8]

/-- Every payload is a request. -/
def decode (data : Payload) : Dm14 where
  requestedBytes := unpackCount (data 0) (data 1)
  command := .fromU8 (data 1 >>> 1)
  pointerType := .fromBit (data 1 >>> 4)
  pointer := ofLe24 (data 2) (data 3) (data 4)
  pointerExtension := data 5
  key := ofLe16 (data 6) (data 7)

def format : Format Dm14 Payload := ⟨encode, decode⟩

/-- The count and the pointer fit their fields. -/
def InRange (d : Dm14) : Prop := d.requestedBytes ≤ maxByteCount ∧ d.pointer ≤ maxPointer

/-- What is left of a request that is sent. -/
theorem decode_encode (d : Dm14) : decode d.encode = { d with
    requestedBytes := d.requestedBytes &&& maxByteCount
    pointer := d.pointer &&& maxPointer } := by
  have htype : PointerType.fromBit
      (packCountAndCommand d.requestedBytes d.pointerType.asBit d.command.asU8 >>> 4)
      = d.pointerType := by
    unfold PointerType.fromBit
    rw [pack_type]
    cases d.pointerType <;> rfl
  have hcommand := MemoryCommand.fromU8_of_low
    (pack_command d.requestedBytes d.pointerType.asBit d.command.asU8)
  show Dm14.mk (unpackCount d.requestedBytes.toUInt8
      (packCountAndCommand d.requestedBytes d.pointerType.asBit d.command.asU8)) _ _
    (ofLe24 d.pointer.toUInt8 (d.pointer >>> 8).toUInt8 (d.pointer >>> 16).toUInt8) _
    (ofLe16 d.key.toUInt8 (d.key >>> 8).toUInt8) = _
  rw [unpack_pack, ofLe24_bytes, ofLe16_bytes]
  exact congrArg₂ (fun c t => Dm14.mk (d.requestedBytes &&& maxByteCount) c t
    (d.pointer &&& maxPointer) d.pointerExtension d.key) hcommand htype

/-- **What a request carries**: every count of 11 bits and every pointer of
24, with any command, selector and key. -/
theorem carries : Carries format InRange := by
  refine Carries.of_read decode_encode (fun d => ?_) fun data => ?_
  · obtain ⟨bytes, command, type, pointer, extension, key⟩ := d
    simp only [Dm14.mk.injEq, true_and, and_true]
    exact and_congr (and_maxByteCount_iff bytes) (and_maxPointer_iff pointer)
  · exact ⟨unpackCount_le _ _, ofLe24_le _ _ _⟩

/-- **The constructor refuses what would not survive.** -/
theorem new_eq_ok {requestedBytes : UInt16} {command : MemoryCommand} {pointer : UInt32} :
    (∃ d, new requestedBytes command pointer = .ok d)
      ↔ format.Survives ⟨requestedBytes, command, .joinWithExtension, pointer, 0, keyNone⟩ := by
  rw [carries.survives_iff]
  unfold new InRange
  dsimp only
  by_cases hbytes : requestedBytes > maxByteCount
  · rw [if_pos hbytes]
    refine iff_of_false ?_ fun h => ?_
    · intro h
      obtain ⟨d, h⟩ := h
      cases h
    exact absurd hbytes (UInt16.not_lt.mpr h.1)
  · rw [if_neg hbytes]
    by_cases hpointer : pointer > maxPointer
    · rw [if_pos hpointer]
      refine iff_of_false ?_ fun h => ?_
      · intro h
        obtain ⟨d, h⟩ := h
        cases h
      exact absurd hpointer (UInt32.not_lt.mpr h.2)
    · rw [if_neg hpointer]
      exact iff_of_true ⟨_, rfl⟩ ⟨UInt16.not_lt.mp hbytes, UInt32.not_lt.mp hpointer⟩

/-- What is constructed is in range. -/
theorem inRange_of_new {requestedBytes : UInt16} {command : MemoryCommand} {pointer : UInt32}
    {d : Dm14} (h : new requestedBytes command pointer = .ok d) : d.InRange := by
  have hsurvives := new_eq_ok.mp ⟨d, h⟩
  rw [carries.survives_iff] at hsurvives
  unfold new at h
  split at h
  next => cases h
  next =>
    split at h
    next => cases h
    next =>
      injection h with h
      exact h ▸ hsurvives

end Dm14

/-! ## §4. The response. -/

/-- The seed that says that no key is used at all. -/
def seedNoKeyUsed : UInt16 := 0xFFFF

/-- The response to a memory access request. -/
structure Dm15 where
  allowedBytes : UInt16
  status : MemoryStatus
  /-- A status or error code qualifying `status`. -/
  edcParameter : UInt32
  edcpExtension : UInt8
  seed : UInt16
  deriving Repr, DecidableEq

namespace Dm15

/-- Build a response allowing `allowedBytes`. -/
def new (allowedBytes : UInt16) (status : MemoryStatus) : Result Dm15 :=
  if allowedBytes > maxByteCount then
    .error (.valueOutOfRange "allowed_bytes" allowedBytes.toNat)
  else .ok ⟨allowedBytes, status, 0, 0xFF, seedNoKeyUsed⟩

def encode (d : Dm15) : Payload := ![d.allowedBytes.toUInt8,
  -- there is no pointer-type bit; that position is reserved and set
  packCountAndCommand d.allowedBytes 1 d.status.asU8,
  d.edcParameter.toUInt8, (d.edcParameter >>> 8).toUInt8, (d.edcParameter >>> 16).toUInt8,
  d.edcpExtension, d.seed.toUInt8, (d.seed >>> 8).toUInt8]

def decode (data : Payload) : Dm15 where
  allowedBytes := unpackCount (data 0) (data 1)
  status := .fromU8 (data 1 >>> 1)
  edcParameter := ofLe24 (data 2) (data 3) (data 4)
  edcpExtension := data 5
  seed := ofLe16 (data 6) (data 7)

def format : Format Dm15 Payload := ⟨encode, decode⟩

/-- The count and the parameter fit their fields, and the wire has the
status. -/
def InRange (d : Dm15) : Prop :=
  d.allowedBytes ≤ maxByteCount ∧ d.status.isOnWire = true ∧ d.edcParameter ≤ maxEdcParameter

/-- What is left of a response that is sent. -/
theorem decode_encode (d : Dm15) : decode d.encode = { d with
    allowedBytes := d.allowedBytes &&& maxByteCount
    status := .fromU8 d.status.asU8
    edcParameter := d.edcParameter &&& maxEdcParameter } := by
  have hstatus := MemoryStatus.fromU8_of_low (pack_command d.allowedBytes 1 d.status.asU8)
  show Dm15.mk (unpackCount d.allowedBytes.toUInt8
      (packCountAndCommand d.allowedBytes 1 d.status.asU8)) _
    (ofLe24 d.edcParameter.toUInt8 (d.edcParameter >>> 8).toUInt8
      (d.edcParameter >>> 16).toUInt8) _ (ofLe16 d.seed.toUInt8 (d.seed >>> 8).toUInt8) = _
  rw [unpack_pack, ofLe24_bytes, ofLe16_bytes]
  exact congrArg (fun s => Dm15.mk (d.allowedBytes &&& maxByteCount) s
    (d.edcParameter &&& maxEdcParameter) d.edcpExtension d.seed) hstatus

/-- **What a response carries**: every count of 11 bits and every parameter
of 24, with a status that the wire has. -/
theorem carries : Carries format InRange := by
  refine Carries.of_read decode_encode (fun d => ?_) fun data => ?_
  · obtain ⟨bytes, status, parameter, extension, seed⟩ := d
    simp only [Dm15.mk.injEq, and_true]
    exact and_congr (and_maxByteCount_iff bytes)
      (and_congr status.fromU8_asU8_iff (and_maxPointer_iff parameter))
  · exact ⟨unpackCount_le _ _, MemoryStatus.isOnWire_fromU8 _, ofLe24_le _ _ _⟩

/-- The constructor refuses a count that would not survive.  A status that
the wire has no room for it accepts. -/
theorem new_eq_ok {allowedBytes : UInt16} {status : MemoryStatus} :
    ((∃ d, new allowedBytes status = .ok d) ∧ status.isOnWire = true)
      ↔ format.Survives ⟨allowedBytes, status, 0, 0xFF, seedNoKeyUsed⟩ := by
  rw [carries.survives_iff]
  unfold new InRange
  dsimp only
  by_cases hbytes : allowedBytes > maxByteCount
  · rw [if_pos hbytes]
    refine iff_of_false ?_ fun h => ?_
    · intro h
      obtain ⟨⟨d, h⟩, -⟩ := h
      cases h
    exact absurd hbytes (UInt16.not_lt.mpr h.1)
  · rw [if_neg hbytes]
    constructor
    · exact fun h => ⟨UInt16.not_lt.mp hbytes, h.2, by decide⟩
    · exact fun h => ⟨⟨_, rfl⟩, h.2.1⟩

end Dm15

/-- **What a memory access can ask and answer.**  Both messages carry
exactly the values in range, nothing out of range is ever read, and the
request's constructor refuses exactly what would not arrive as it was
built. -/
theorem memory_access_carried :
    Carries Dm14.format Dm14.InRange ∧ Carries Dm15.format Dm15.InRange
      ∧ (∀ requestedBytes command pointer,
        ((∃ d, Dm14.new requestedBytes command pointer = .ok d)
          ↔ Dm14.decode (Dm14.mk requestedBytes command .joinWithExtension pointer 0 keyNone).encode
            = ⟨requestedBytes, command, .joinWithExtension, pointer, 0, keyNone⟩)
        ∧ ∀ d extension key, Dm14.new requestedBytes command pointer = .ok d →
          Dm14.decode ((d.withPointerExtension extension).withKey key).encode
            = (d.withPointerExtension extension).withKey key)
      ∧ ∀ allowedBytes status, ((∃ d, Dm15.new allowedBytes status = .ok d)
          ∧ status.isOnWire = true)
        ↔ Dm15.decode (Dm15.mk allowedBytes status 0 0xFF seedNoKeyUsed).encode
          = ⟨allowedBytes, status, 0, 0xFF, seedNoKeyUsed⟩ := by
  refine ⟨Dm14.carries, Dm15.carries, fun bytes command pointer => ⟨Dm14.new_eq_ok, ?_⟩,
    fun bytes status => Dm15.new_eq_ok⟩
  intro d extension key hnew
  -- the builders set neither the count nor the pointer
  have hin := Dm14.inRange_of_new hnew
  exact (Dm14.carries.survives_iff _).mpr ⟨hin.1, hin.2⟩

/-! ## §5. The data. -/

/-- A binary data transfer: no more bytes than its count can say. -/
structure Dm16 where
  data : List UInt8
  length_le : data.length ≤ 255
  deriving DecidableEq

namespace Dm16

/-- The most bytes one transfer can carry. -/
def maxData : Nat := 255

/-- Wrap `data` for transmission. -/
def new (data : List UInt8) : Result Dm16 :=
  if h : data.length > maxData then
    .error (.valueOutOfRange "dm16 data length" (data.length % 2 ^ 32))
  else .ok ⟨data, Nat.le_of_not_gt h⟩

/-- One count byte and the data, and no less than a full frame. -/
def encodedLen (d : Dm16) : Nat := max (1 + d.data.length) 8

/-- Parse a payload.  The count in front says how much of it is data. -/
def parse (payload : List UInt8) : Result Dm16 :=
  match payload with
  | [] => .error (.shortPayload 1 0)
  | count :: rest =>
      if rest.length < count.toNat then .error (.shortPayload (count.toNat + 1) payload.length)
      else .ok ⟨rest.take count.toNat,
        (List.length_take_le _ _).trans (Nat.le_of_lt_succ count.toNat_lt)⟩

/-- What is written: the count, the data, and filler up to a frame. -/
def payload (d : Dm16) : List UInt8 :=
  UInt8.ofNat d.data.length
    :: (d.data ++ List.replicate (d.encodedLen - (1 + d.data.length)) 0xFF)

/-- Encode into `out`: the length written, and the buffer afterwards. -/
def encodeInto (d : Dm16) (out : List UInt8) : Result Nat × List UInt8 :=
  if out.length < d.encodedLen then (.error (.shortPayload d.encodedLen out.length), out)
  else (.ok d.encodedLen, d.payload ++ out.drop d.encodedLen)

theorem ext_data {d d' : Dm16} (h : d.data = d'.data) : d = d' := by
  cases d
  cases d'
  dsimp only at h
  subst h
  rfl

theorem length_payload (d : Dm16) : d.payload.length = d.encodedLen := by
  unfold payload encodedLen
  rw [List.length_cons, List.length_append, List.length_replicate]
  omega

/-- The count says how many bytes there are. -/
theorem toNat_count (d : Dm16) : (UInt8.ofNat d.data.length).toNat = d.data.length := by
  have hle := d.length_le
  rw [UInt8.toNat_ofNat']
  exact Nat.mod_eq_of_lt (by omega)

/-- **A payload is a transfer exactly if its count and its data are in
front**, whatever follows. -/
theorem parse_eq_ok {bytes : List UInt8} {d : Dm16} :
    parse bytes = .ok d ↔ ∃ rest, bytes = UInt8.ofNat d.data.length :: (d.data ++ rest) := by
  constructor
  · intro h
    cases bytes with
    | nil => cases h
    | cons count rest =>
      unfold parse at h
      dsimp only at h
      split at h
      next => cases h
      next hlong =>
        injection h with h
        subst h
        have hlen : (rest.take count.toNat).length = count.toNat := by
          rw [List.length_take]
          omega
        refine ⟨rest.drop count.toNat, ?_⟩
        dsimp only
        rw [hlen, List.take_append_drop, UInt8.ofNat_toNat]
  · rintro ⟨rest, rfl⟩
    unfold parse
    dsimp only
    rw [if_neg (by rw [toNat_count, List.length_append]; omega)]
    refine congrArg Except.ok (ext_data ?_)
    show (d.data ++ rest).take (UInt8.ofNat d.data.length).toNat = d.data
    rw [toNat_count, List.take_left]

/-- What is encoded is parsed back, from a buffer with room for it. -/
theorem encodeInto_ok (d : Dm16) {out : List UInt8} (h : d.encodedLen ≤ out.length) :
    (d.encodeInto out).1 = .ok d.encodedLen
      ∧ (d.encodeInto out).2.take d.encodedLen = d.payload
      ∧ (d.encodeInto out).2.drop d.encodedLen = out.drop d.encodedLen := by
  unfold encodeInto
  rw [if_neg (Nat.not_lt.mpr h), ← length_payload]
  exact ⟨rfl, List.take_left, List.drop_left⟩

theorem encodedLen_le (d : Dm16) : d.encodedLen ≤ 256 := by
  have hle := d.length_le
  unfold encodedLen
  omega

/-- **Data survives the trip**, in however many frames it takes: the bytes
that are encoded into a buffer with room, sent to everybody and heard by a
node with room, are parsed as the data they were made of. -/
theorem data_survives_the_trip {BUF SESSIONS : Nat} {n : Node BUF SESSIONS} {name : Name}
    {preferred : Address} (hreach : n.Reachable name preferred)
    (hroom : n.reassembler.activeSessions < SESSIONS) (d : Dm16)
    (hbuf : d.encodedLen ≤ BUF) (source : Address) {out : List UInt8}
    (hout : d.encodedLen ≤ out.length) :
    (d.encodeInto out).1 = .ok d.encodedLen
      ∧ ∃ o frames o' tr n', Outgoing.new .dm16 source Address.global
          ((d.encodeInto out).2.take d.encodedLen) = .ok o
        ∧ o.drain (o.frameCount + 1) = .ok (frames, o')
        ∧ Machine.run Node.step n (frames.map .frame) = .ok (tr, n')
        ∧ ∃ m, tr.filterMap (fun e => e.out.passed) = [m] ∧ m.pgn = .dm16 ∧ m.source = source
          ∧ parse m.data = .ok d := by
  obtain ⟨hlen, hwritten, -⟩ := d.encodeInto_ok hout
  rw [hwritten]
  let m : Sent := ⟨.dm16, source, d.payload⟩
  have hlength : m.data.length = d.encodedLen := d.length_payload
  have hbound : m.data.length ≤ 256 := hlength ▸ d.encodedLen_le
  -- one frame or several, the message can be sent
  have hsent : ∃ o frames o', Outgoing.new .dm16 source Address.global d.payload = .ok o
      ∧ o.drain (o.frameCount + 1) = .ok (frames, o') := by
    by_cases hshort : m.data.length ≤ Frame.maxPayload
    · obtain ⟨o, f, hnew, -, -, o', hdrain, -⟩ := Outgoing.drain_single m hshort
      exact ⟨o, [f], o', hnew, hdrain _ (Nat.lt_succ_self _)⟩
    · have hrange : Tp.minMessageSize ≤ m.data.length ∧ m.data.length ≤ Tp.maxMessageSize := by
        unfold Frame.maxPayload at hshort
        unfold Tp.minMessageSize Tp.maxMessageSize
        omega
      obtain ⟨o, hnew, -, o', hdrain, -⟩ := Outgoing.drain_broadcast m hrange.1 hrange.2
      exact ⟨o, _, o', hnew, hdrain _ (Nat.lt_succ_self _)⟩
  obtain ⟨o, frames, o', hnew, hdrain⟩ := hsent
  have hm : Node.Hearable BUF m := Node.hearable_of_new hnew (hlength ▸ hbuf) fun _ =>
    show Pgn.dm16 ≠ .addressClaimed ∧ Pgn.dm16 ≠ .tpCm ∧ Pgn.dm16 ≠ .tpDt
      ∧ ¬ (Pgn.dm16 = .request ∧ Request.decode d.payload = .ok ⟨.addressClaimed⟩) by
    exact ⟨by decide, by decide, by decide, fun h => absurd h.1 (by decide)⟩
  obtain ⟨hfirst, hsecond⟩ := Node.alone_of_drain (m := m) hnew hdrain
  have hturns : Interleaving.Interleaves (fun _ : Unit => (Node.alone m).map Prod.fst)
      (frames.map .frame) := Interleaving.interleaves_unique.mpr hfirst.symm
  obtain ⟨tr, n', hrun, htr, -⟩ := Node.run_alone (m := fun _ : Unit => m) hreach.wf
    (fun _ _ _ => rfl) (fun _ => hm) (by rw [Fintype.card_unit]; exact hroom) hturns
  refine ⟨hlen, o, frames, o', tr, n', hnew, hdrain, hrun, m, ?_, rfl, rfl, ?_⟩
  · have hall := Interleaving.interleaves_unique.mp htr
    have hmap : (tr.map fun e => (e.event, e.out)).map Prod.snd = (Node.alone m).map Prod.snd :=
      congrArg (List.map Prod.snd) hall
    rw [List.map_map, hsecond] at hmap
    have hpassed := congrArg (List.filterMap Node.Output.passed) hmap
    rw [List.filterMap_map, List.filterMap_append, List.filterMap_replicate_of_none rfl] at hpassed
    exact hpassed
  · exact parse_eq_ok.mpr ⟨_, rfl⟩

/-- Ten bytes, which take three frames. -/
theorem data_survives_the_trip_of_ten :
    ∃ o frames o' tr n', Outgoing.new .dm16 ⟨0x80⟩ Address.global
        [10, 0, 1, 2, 3, 4, 5, 6, 7, 8, 9] = .ok o
      ∧ o.drain (o.frameCount + 1) = .ok (frames, o')
      ∧ Machine.run Node.step (Node.new ⟨1⟩ ⟨0x90⟩ : Node 256 1) (frames.map .frame) = .ok (tr, n')
      ∧ ∃ m, tr.filterMap (fun e => e.out.passed) = [m]
        ∧ parse m.data = .ok ⟨[0, 1, 2, 3, 4, 5, 6, 7, 8, 9], by decide⟩ := by
  obtain ⟨-, o, frames, o', tr, n', hnew, hdrain, hrun, m, hm, -, -, hparse⟩ :=
    data_survives_the_trip (n := (Node.new ⟨1⟩ ⟨0x90⟩ : Node 256 1)) ⟨[], [], rfl⟩ (by decide)
      ⟨[0, 1, 2, 3, 4, 5, 6, 7, 8, 9], by decide⟩ (by decide) ⟨0x80⟩
      (show _ ≤ (List.replicate 11 (0 : UInt8)).length by decide)
  exact ⟨o, frames, o', tr, n', hnew, hdrain, hrun, m, hm, hparse⟩

end Dm16

end SaeJ1939.Diagnostics
