/-
  SaeJ1939.Tp.Message — the messages of the transport protocol (`tp.rs`):
  connection management (TP.CM) and data transfer (TP.DT).

  Main results:
    * `packetCount_eq`, `packetCount_bounds` — the number of seven-byte
      packets a message of a given size needs.
    * `TpCm.decode_encode`, `TpDt.decode_encode` — every message whose
      fields fit their widths survives the wire.
-/
import SaeJ1939.Core.Frame
import SaeJ1939.Lib.Chunks

namespace SaeJ1939.Tp

/-! ## §1. Sizes. -/

/-- Payload bytes carried by one TP.DT frame. -/
def bytesPerPacket : Nat := 7

/-- The smallest message the transport protocol carries. -/
def minMessageSize : Nat := 9

/-- The largest message the transport protocol can carry. -/
def maxMessageSize : Nat := 1785

/-- `T1`: the longest gap between the packets of a transfer, in ms. -/
def t1TimeoutMs : Nat := 750

/-- How long a sender waits for a CTS or an acknowledgement, in ms. -/
def t3TimeoutMs : Nat := 1250

/-- The number of TP.DT packets needed to carry `size` bytes; saturates
above the largest message. -/
def packetCount (size : Nat) : Nat :=
  if size > maxMessageSize then 255
  else ((size + bytesPerPacket - 1) / bytesPerPacket) % 256

theorem packetCount_eq {size : Nat} (h : size ≤ maxMessageSize) :
    packetCount size = (size + 6) / 7 := by
  unfold packetCount maxMessageSize bytesPerPacket at *
  rw [if_neg (by omega)]
  omega

/-- The last of a message's packets is the first one to reach its end. -/
theorem packetCount_bounds {size : Nat} (h₁ : minMessageSize ≤ size) (h₂ : size ≤ maxMessageSize) :
    2 ≤ packetCount size ∧ packetCount size ≤ 255
      ∧ 7 * (packetCount size - 1) < size ∧ size ≤ 7 * packetCount size := by
  rw [packetCount_eq h₂]
  unfold minMessageSize maxMessageSize at *
  omega

theorem packetCount_lt (size : Nat) : packetCount size < 256 := by
  unfold packetCount
  split <;> omega

/-! ## §2. Abort reasons. -/

/-- Why a transport-protocol session was aborted. -/
inductive AbortReason where
  | alreadyInSession
  | resourcesUnavailable
  | timeout
  | unexpectedCts
  | retransmitLimit
  | unexpectedDataPacket
  | badSequenceNumber
  | duplicateSequenceNumber
  | other (raw : UInt8)
  deriving Repr, DecidableEq

namespace AbortReason

/-- The wire byte for a reason. -/
def asU8 : AbortReason → UInt8
  | alreadyInSession => 1
  | resourcesUnavailable => 2
  | timeout => 3
  | unexpectedCts => 4
  | retransmitLimit => 5
  | unexpectedDataPacket => 6
  | badSequenceNumber => 7
  | duplicateSequenceNumber => 8
  | other raw => raw

/-- Decode a wire byte. -/
def fromU8 (raw : UInt8) : AbortReason :=
  if raw = 1 then alreadyInSession
  else if raw = 2 then resourcesUnavailable
  else if raw = 3 then timeout
  else if raw = 4 then unexpectedCts
  else if raw = 5 then retransmitLimit
  else if raw = 6 then unexpectedDataPacket
  else if raw = 7 then badSequenceNumber
  else if raw = 8 then duplicateSequenceNumber
  else other raw

end AbortReason

/-! ## §3. Connection management. -/

/-- A connection management message (PGN `0x00EC00`). -/
inductive TpCm where
  /-- Request To Send: the sender offers a destination-specific transfer. -/
  | rts (size packets maxPacketsPerCts : Nat) (pgn : Pgn)
  /-- Clear To Send: the receiver grants a window of packets. -/
  | cts (packets nextPacket : Nat) (pgn : Pgn)
  /-- End Of Message Acknowledgement: the receiver has the whole message. -/
  | endOfMsgAck (size packets : Nat) (pgn : Pgn)
  /-- Broadcast Announce Message: the sender announces a broadcast. -/
  | bam (size packets : Nat) (pgn : Pgn)
  /-- Connection Abort: either side tearing the session down. -/
  | abort (reason : AbortReason) (pgn : Pgn)
  deriving DecidableEq

namespace TpCm

/-- The parameter group being transported. -/
def pgn : TpCm → Pgn
  | rts _ _ _ pgn | cts _ _ pgn | endOfMsgAck _ _ pgn | bam _ _ pgn | abort _ pgn => pgn

/-- The control byte identifying this message on the wire. -/
def controlByte : TpCm → UInt8
  | rts .. => 0x10
  | cts .. => 0x11
  | endOfMsgAck .. => 0x13
  | bam .. => 0x20
  | abort .. => 0xFF

/-- Bytes 1 to 4 of the payload. -/
def body : TpCm → UInt8 × UInt8 × UInt8 × UInt8
  | rts size packets maxPacketsPerCts _ =>
      (byteAt size 0, byteAt size 1, UInt8.ofNat packets, UInt8.ofNat maxPacketsPerCts)
  | cts packets nextPacket _ => (UInt8.ofNat packets, UInt8.ofNat nextPacket, fill, fill)
  | endOfMsgAck size packets _ | bam size packets _ =>
      (byteAt size 0, byteAt size 1, UInt8.ofNat packets, fill)
  | abort reason _ => (reason.asU8, fill, fill, fill)

/-- Encode to the eight-byte TP.CM payload. -/
def encode (cm : TpCm) : Payload :=
  let (b1, b2, b3, b4) := cm.body
  ![cm.controlByte, b1, b2, b3, b4,
    byteAt cm.pgn.raw 0, byteAt cm.pgn.raw 1, byteAt cm.pgn.raw 2]

/-- Decode an eight-byte TP.CM payload. -/
def decode (data : Payload) : Result TpCm :=
  let pgn := Pgn.newMasked (le24 (data 5) (data 6) (data 7))
  let size := le16 (data 1) (data 2)
  if data 0 = 0x10 then .ok (rts size (data 3).toNat (data 4).toNat pgn)
  else if data 0 = 0x11 then .ok (cts (data 1).toNat (data 2).toNat pgn)
  else if data 0 = 0x13 then .ok (endOfMsgAck size (data 3).toNat pgn)
  else if data 0 = 0x20 then .ok (bam size (data 3).toNat pgn)
  else if data 0 = 0xFF then .ok (abort (AbortReason.fromU8 (data 1)) pgn)
  else .error (.unknownControlByte (data 0))

/-- The fields fit the widths the wire format gives them. -/
def InRange : TpCm → Prop
  | rts size packets maxPacketsPerCts _ => size < 2 ^ 16 ∧ packets < 256 ∧ maxPacketsPerCts < 256
  | cts packets nextPacket _ => packets < 256 ∧ nextPacket < 256
  | endOfMsgAck size packets _ | bam size packets _ => size < 2 ^ 16 ∧ packets < 256
  | abort reason _ => AbortReason.fromU8 reason.asU8 = reason

/-- The group of an encoded message, read back. -/
theorem decode_pgn (p : Pgn) :
    Pgn.newMasked (le24 (byteAt p.raw 0) (byteAt p.raw 1) (byteAt p.raw 2)) = p := by
  have := p.raw_lt
  rw [le24_byteAt (by omega), Pgn.newMasked_raw]

/-- **A message whose fields fit survives the wire.** -/
theorem decode_encode (cm : TpCm) (h : cm.InRange) : decode cm.encode = .ok cm := by
  have hp := decode_pgn cm.pgn
  cases cm with
  | rts size packets maxPacketsPerCts pgn =>
    obtain ⟨hs, hk, hm⟩ := h
    simp only [TpCm.pgn] at hp
    simp [decode, encode, body, controlByte, TpCm.pgn, hp, le16_byteAt hs,
      toNat_ofNat_byte hk, toNat_ofNat_byte hm]
  | cts packets nextPacket pgn =>
    obtain ⟨hk, hn⟩ := h
    simp only [TpCm.pgn] at hp
    simp [decode, encode, body, controlByte, TpCm.pgn, hp, toNat_ofNat_byte hk,
      toNat_ofNat_byte hn]
  | endOfMsgAck size packets pgn =>
    obtain ⟨hs, hk⟩ := h
    simp only [TpCm.pgn] at hp
    simp [decode, encode, body, controlByte, TpCm.pgn, hp, le16_byteAt hs, toNat_ofNat_byte hk]
  | bam size packets pgn =>
    obtain ⟨hs, hk⟩ := h
    simp only [TpCm.pgn] at hp
    simp [decode, encode, body, controlByte, TpCm.pgn, hp, le16_byteAt hs, toNat_ofNat_byte hk]
  | abort reason pgn =>
    simp only [InRange] at h
    simp only [TpCm.pgn] at hp
    simp [decode, encode, body, controlByte, TpCm.pgn, hp, h]

end TpCm

/-! ## §4. Data transfer. -/

/-- A data transfer packet (PGN `0x00EB00`): a 1-based sequence number
and seven payload bytes. -/
structure TpDt where
  sequence : Nat
  data : Fin 7 → UInt8
  deriving DecidableEq

namespace TpDt

/-- Build a packet, padding `data` to seven bytes with `0xFF` and
ignoring anything beyond the seventh byte. -/
def new (sequence : Nat) (data : List UInt8) : TpDt :=
  ⟨sequence, fun i => data.getD i.val fill⟩

/-- Encode to the eight-byte TP.DT payload. -/
def encode (dt : TpDt) : Payload :=
  ![UInt8.ofNat dt.sequence, dt.data 0, dt.data 1, dt.data 2, dt.data 3, dt.data 4, dt.data 5,
    dt.data 6]

/-- Decode an eight-byte TP.DT payload. -/
def decode (data : Payload) : TpDt :=
  ⟨(data 0).toNat, ![data 1, data 2, data 3, data 4, data 5, data 6, data 7]⟩

/-- The seven payload bytes as a list. -/
def bytes (dt : TpDt) : List UInt8 := List.ofFn dt.data

@[simp] theorem bytes_length (dt : TpDt) : dt.bytes.length = 7 := List.length_ofFn

/-- **A packet whose number fits a byte survives the wire.** -/
theorem decode_encode {dt : TpDt} (h : dt.sequence < 256) : decode dt.encode = dt := by
  obtain ⟨sequence, data⟩ := dt
  simp only [decode, encode, TpDt.mk.injEq]
  refine ⟨toNat_ofNat_byte h, ?_⟩
  funext i
  fin_cases i <;> rfl

/-- The payload bytes of a new packet. -/
theorem bytes_new (sequence : Nat) (data : List UInt8) :
    (new sequence data).bytes = Chunks.pad 7 fill data := rfl

end TpDt

end SaeJ1939.Tp
