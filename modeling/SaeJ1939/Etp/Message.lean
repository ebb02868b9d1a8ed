/-
  SaeJ1939.Etp.Message — the messages of the extended transport protocol
  (`etp.rs`): connection management (ETP.CM) and data transfer (ETP.DT).

  Main results:
    * `packetCount_bounds` — the number of seven-byte packets a message of
      a given size needs.
    * `EtpCm.decode_encode`, `EtpDt.decode_encode` — every message whose
      fields fit their widths survives the wire.
-/
import SaeJ1939.Tp.Message

namespace SaeJ1939.Etp

open Tp (AbortReason bytesPerPacket)

/-! ## §1. Sizes. -/

/-- The smallest message ETP carries. -/
def minMessageSize : Nat := 1786

/-- The largest message ETP can carry: `0xFFFFFF` packets of seven bytes. -/
def maxMessageSize : Nat := 0x00FFFFFF * bytesPerPacket

/-- The most packets one block can hold, because a data packet's sequence
number is a single byte. -/
def maxPacketsPerBlock : Nat := 255

/-- The number of packets needed to carry `size` bytes; saturates above the
largest message. -/
def packetCount (size : Nat) : Nat :=
  if size > maxMessageSize then 0x00FFFFFF
  else (size + bytesPerPacket - 1) / bytesPerPacket % 2 ^ 32

theorem maxMessageSize_eq : maxMessageSize = 117440505 := rfl

/-- The last of a message's packets is the first one to reach its end. -/
theorem packetCount_bounds {size : Nat} (h₁ : minMessageSize ≤ size) (h₂ : size ≤ maxMessageSize) :
    256 ≤ packetCount size ∧ packetCount size ≤ 0x00FFFFFF
      ∧ 7 * (packetCount size - 1) < size ∧ size ≤ 7 * packetCount size := by
  unfold packetCount
  rw [if_neg (by omega)]
  rw [maxMessageSize_eq] at h₂
  unfold minMessageSize at h₁
  unfold bytesPerPacket
  omega

/-! ## §2. Connection management. -/

/-- An ETP connection-management message (PGN `0x00C800`). -/
inductive EtpCm where
  /-- Request To Send: the sender offers a transfer of `size` bytes. -/
  | rts (size : Nat) (pgn : Pgn)
  /-- Clear To Send: the receiver grants a block, starting at an absolute
  packet number. -/
  | cts (packets nextPacket : Nat) (pgn : Pgn)
  /-- Data Packet Offset: what the sequence numbers in the next block are
  relative to. -/
  | dpo (packets offset : Nat) (pgn : Pgn)
  /-- End Of Message Acknowledgement. -/
  | eoma (size : Nat) (pgn : Pgn)
  /-- Connection Abort. -/
  | abort (reason : AbortReason) (pgn : Pgn)
  deriving DecidableEq

namespace EtpCm

/-- The parameter group being transported. -/
def pgn : EtpCm → Pgn
  | rts _ pgn | cts _ _ pgn | dpo _ _ pgn | eoma _ pgn | abort _ pgn => pgn

/-- The control byte identifying this message on the wire. -/
def controlByte : EtpCm → UInt8
  | rts .. => 20
  | cts .. => 21
  | dpo .. => 22
  | eoma .. => 23
  | abort .. => 255

/-- Bytes 1 to 4 of the payload. -/
def body : EtpCm → UInt8 × UInt8 × UInt8 × UInt8
  | rts size _ | eoma size _ => (byteAt size 0, byteAt size 1, byteAt size 2, byteAt size 3)
  | cts packets nextPacket _ =>
      (UInt8.ofNat packets, byteAt nextPacket 0, byteAt nextPacket 1, byteAt nextPacket 2)
  | dpo packets offset _ =>
      (UInt8.ofNat packets, byteAt offset 0, byteAt offset 1, byteAt offset 2)
  | abort reason _ => (reason.asU8, fill, fill, fill)

/-- Encode to the eight-byte payload. -/
def encode (cm : EtpCm) : Payload :=
  let (b1, b2, b3, b4) := cm.body
  ![cm.controlByte, b1, b2, b3, b4,
    byteAt cm.pgn.raw 0, byteAt cm.pgn.raw 1, byteAt cm.pgn.raw 2]

/-- Decode an eight-byte payload. -/
def decode (data : Payload) : Result EtpCm :=
  let pgn := Pgn.newMasked (le24 (data 5) (data 6) (data 7))
  let four := le32 (data 1) (data 2) (data 3) (data 4)
  let three := le24 (data 2) (data 3) (data 4)
  if data 0 = 20 then .ok (rts four pgn)
  else if data 0 = 21 then .ok (cts (data 1).toNat three pgn)
  else if data 0 = 22 then .ok (dpo (data 1).toNat three pgn)
  else if data 0 = 23 then .ok (eoma four pgn)
  else if data 0 = 255 then .ok (abort (AbortReason.fromU8 (data 1)) pgn)
  else .error (.unknownControlByte (data 0))

/-- The fields fit the widths the wire format gives them. -/
def InRange : EtpCm → Prop
  | rts size _ | eoma size _ => size < 2 ^ 32
  | cts packets nextPacket _ => packets < 256 ∧ nextPacket < 2 ^ 24
  | dpo packets offset _ => packets < 256 ∧ offset < 2 ^ 24
  | abort reason _ => AbortReason.fromU8 reason.asU8 = reason

/-- **A message whose fields fit survives the wire.** -/
theorem decode_encode (cm : EtpCm) (h : cm.InRange) : decode cm.encode = .ok cm := by
  have hp := Tp.TpCm.decode_pgn cm.pgn
  cases cm with
  | rts size pgn =>
    unfold InRange at h
    unfold EtpCm.pgn at hp
    simp [decode, encode, body, controlByte, EtpCm.pgn, hp, le32_byteAt h]
  | cts packets nextPacket pgn =>
    obtain ⟨hk, hn⟩ := h
    unfold EtpCm.pgn at hp
    simp [decode, encode, body, controlByte, EtpCm.pgn, hp, toNat_ofNat_byte hk, le24_byteAt hn]
  | dpo packets offset pgn =>
    obtain ⟨hk, hn⟩ := h
    unfold EtpCm.pgn at hp
    simp [decode, encode, body, controlByte, EtpCm.pgn, hp, toNat_ofNat_byte hk, le24_byteAt hn]
  | eoma size pgn =>
    unfold InRange at h
    unfold EtpCm.pgn at hp
    simp [decode, encode, body, controlByte, EtpCm.pgn, hp, le32_byteAt h]
  | abort reason pgn =>
    unfold InRange at h
    unfold EtpCm.pgn at hp
    simp [decode, encode, body, controlByte, EtpCm.pgn, hp, h]

end EtpCm

/-! ## §3. Data transfer. -/

/-- An ETP data packet (PGN `0x00C700`): a sequence number relative to the
last offset, and seven payload bytes. -/
structure EtpDt where
  sequence : Nat
  data : Fin 7 → UInt8
  deriving DecidableEq

namespace EtpDt

/-- Build a packet, padding `data` to seven bytes with `0xFF`. -/
def new (sequence : Nat) (data : List UInt8) : EtpDt :=
  ⟨sequence, fun i => data.getD i.val fill⟩

/-- Encode to the eight-byte payload. -/
def encode (dt : EtpDt) : Payload :=
  ![UInt8.ofNat dt.sequence, dt.data 0, dt.data 1, dt.data 2, dt.data 3, dt.data 4, dt.data 5,
    dt.data 6]

/-- Decode an eight-byte payload. -/
def decode (data : Payload) : EtpDt :=
  ⟨(data 0).toNat, ![data 1, data 2, data 3, data 4, data 5, data 6, data 7]⟩

/-- The seven payload bytes as a list. -/
def bytes (dt : EtpDt) : List UInt8 := List.ofFn dt.data

@[simp] theorem bytes_length (dt : EtpDt) : dt.bytes.length = 7 := List.length_ofFn

/-- **A packet whose number fits a byte survives the wire.** -/
theorem decode_encode {dt : EtpDt} (h : dt.sequence < 256) : decode dt.encode = dt := by
  obtain ⟨sequence, data⟩ := dt
  simp only [decode, encode, EtpDt.mk.injEq]
  refine ⟨toNat_ofNat_byte h, ?_⟩
  funext i
  fin_cases i <;> rfl

/-- The payload bytes of a new packet. -/
theorem bytes_new (sequence : Nat) (data : List UInt8) :
    (new sequence data).bytes = Chunks.pad 7 fill data := rfl

end EtpDt

end SaeJ1939.Etp
