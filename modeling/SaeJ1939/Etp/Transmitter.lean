/-
  SaeJ1939.Etp.Transmitter — the send side of the extended transport
  protocol (`etp.rs`, `Transmitter`).

  A transmitter sends a block at a time: the receiver grants a block, the
  transmitter declares the offset of the block, and then sends its packets
  under sequence numbers that start over at one.

  Main results:
    * `onEtpCm_total`, `offset_total`, `nextPacket_total` — no call on a
      well-formed transmitter panics, and each leaves it well formed.
    * `drain_block` — a granted block is drained into exactly its packets.
-/
import SaeJ1939.Etp.Reassembler

namespace SaeJ1939.Etp

open Checked Chunks
open Tp (AbortReason bytesPerPacket)

/-- What a transmitter wants the caller to do next. -/
inductive Tx where
  /-- Nothing to do; wait for the peer. -/
  | idle
  /-- The peer granted a block: pull packets with `nextPacket`. -/
  | sendData
  /-- The receiver acknowledged the whole message. -/
  | complete
  /-- The peer aborted the transfer. -/
  | aborted (reason : AbortReason)
  deriving DecidableEq

/-- The send side of the extended transport protocol. -/
structure Transmitter where
  pgn : Pgn
  data : List UInt8
  packets : Nat
  /-- The absolute packet number the current block starts at. -/
  blockStart : Nat
  /-- Packets granted in the current block. -/
  blockPackets : Nat
  /-- Whether the offset for the current block has been emitted. -/
  offsetSent : Bool
  /-- The next sequence number within the block. -/
  nextSequence : Nat
  complete : Bool
  size_ge : minMessageSize ≤ data.length
  size_le : data.length ≤ maxMessageSize
  packets_eq : packets = packetCount data.length
  deriving DecidableEq

namespace Transmitter

/-! ## §1. Construction. -/

/-- Prepare `data` for transmission as parameter group `pgn`. -/
def new (pgn : Pgn) (data : List UInt8) : Result Transmitter :=
  if h : data.length < minMessageSize ∨ data.length > maxMessageSize then
    .error (.invalidMessageSize (if data.length > 0xFFFF then 0xFFFF else data.length))
  else
    .ok
      { pgn, data
        packets := packetCount data.length
        blockStart := 1
        blockPackets := 0
        offsetSent := false
        nextSequence := 1
        complete := false
        size_ge := by omega
        size_le := by omega
        packets_eq := rfl }

/-- The announcement to send first. -/
def start (tx : Transmitter) : EtpCm := .rts (tx.data.length % 2 ^ 32) tx.pgn

/-- Whether the message has been sent and acknowledged. -/
def isComplete (tx : Transmitter) : Bool := tx.complete

/-! ## §2. Connection management. -/

/-- The Data Packet Offset for the current block, if it has not been sent. -/
def offset (tx : Transmitter) : Exec (Option EtpCm × Transmitter) :=
  if tx.offsetSent ∨ tx.blockPackets = 0 then .ok (none, tx)
  else do
    let offset ← subU tx.blockStart 1
    return (some (.dpo tx.blockPackets offset tx.pgn), { tx with offsetSent := true })

/-- Handle an ETP.CM from the receiver. -/
def onEtpCm (tx : Transmitter) (cm : EtpCm) : Exec (Tx × Transmitter) :=
  if cm.pgn ≠ tx.pgn then .ok (.idle, tx)
  else
    match cm with
    | .cts packets nextPacket _ =>
        if packets = 0 ∨ nextPacket = 0 ∨ nextPacket > tx.packets then .ok (.idle, tx)
        else do
          let remaining ← addU 32 (← subU tx.packets nextPacket) 1
          return (.sendData,
            { tx with
              blockStart := nextPacket
              blockPackets := min (blockSize remaining nextPacket) packets
              offsetSent := false
              nextSequence := 1 })
    | .eoma .. => .ok (.complete, { tx with complete := true })
    | .abort reason _ => .ok (.aborted reason, tx)
    | .rts .. | .dpo .. => .ok (.idle, tx)

/-! ## §3. Data packets. -/

/-- The next data packet in the current block; `none` means the block is
finished. -/
def nextPacket (tx : Transmitter) : Exec (Option EtpDt × Transmitter) :=
  if tx.blockPackets = 0 ∨ tx.nextSequence > tx.blockPackets then .ok (none, tx)
  else do
    let absolute ← subU (← addU 32 tx.blockStart tx.nextSequence) 1
    if absolute > tx.packets then return (none, tx)
    else do
      let start := (← subU absolute 1) * bytesPerPacket
      let stop := min (start + bytesPerPacket) tx.data.length
      let packet := EtpDt.new (tx.nextSequence % 256) (← slice tx.data start stop)
      let nextSequence ← addU 16 tx.nextSequence 1
      return (some packet, { tx with nextSequence })

/-- `while let Some(dt) = tx.next_packet()`: pull packets until there are
none, for at most `fuel` packets. -/
def drain : Nat → Transmitter → Exec (List EtpDt × Transmitter)
  | 0, tx => .ok ([], tx)
  | fuel + 1, tx => do
      match ← tx.nextPacket with
      | (none, tx) => return ([], tx)
      | (some dt, tx) => do
          let (dts, tx) ← drain fuel tx
          return (dt :: dts, tx)

/-- Packet `i` of the block that starts at the absolute packet `start`. -/
def packetOf (data : List UInt8) (start i : Nat) : EtpDt :=
  EtpDt.new i (chunk 7 data (start + i - 2))

/-- What holds of a transmitter between two calls: the block granted last
lies within the message. -/
structure WF (tx : Transmitter) : Prop where
  start_pos : 1 ≤ tx.blockStart
  start_le : tx.blockStart ≤ tx.packets
  block_le : tx.blockPackets ≤ maxPacketsPerBlock
  block_end : tx.blockStart + tx.blockPackets ≤ tx.packets + 1
  next_pos : 1 ≤ tx.nextSequence

variable {tx : Transmitter}

/-- What a transmitter is built from. -/
theorem new_eq_ok {pgn : Pgn} {data : List UInt8} (h : new pgn data = .ok tx) :
    tx.pgn = pgn ∧ tx.data = data := by
  unfold new at h
  split at h
  next => cases h
  next =>
    injection h with h
    subst h
    exact ⟨rfl, rfl⟩

/-- **Exactly the payloads the protocol can carry are accepted.** -/
theorem new_ok_iff (pgn : Pgn) (data : List UInt8) :
    (∃ tx, new pgn data = .ok tx) ↔
      minMessageSize ≤ data.length ∧ data.length ≤ maxMessageSize := by
  constructor
  · rintro ⟨tx, h⟩
    obtain ⟨-, hdata⟩ := new_eq_ok h
    exact hdata ▸ ⟨tx.size_ge, tx.size_le⟩
  · intro h
    unfold new
    rw [dif_neg (by omega)]
    exact ⟨_, rfl⟩

/-! ## §4. No panics. -/

theorem packets_bounds (tx : Transmitter) : 256 ≤ tx.packets ∧ tx.packets ≤ 0x00FFFFFF := by
  have hb := packetCount_bounds tx.size_ge tx.size_le
  rw [tx.packets_eq]
  exact ⟨hb.1, hb.2.1⟩

theorem new_wf {pgn : Pgn} {data : List UInt8} (h : new pgn data = .ok tx) : tx.WF := by
  have hb := tx.packets_bounds
  unfold new at h
  split at h
  next => cases h
  next =>
    injection h with h
    subst h
    exact ⟨Nat.le_refl 1, show 1 ≤ packetCount data.length from le_trans (by decide) hb.1,
      Nat.zero_le _, Nat.le_add_left 1 _, Nat.le_refl 1⟩

/-- A CTS that the transmitter acts on. -/
theorem onEtpCm_cts {packets nextPacket : Nat} (hp : 1 ≤ packets) (hn : 1 ≤ nextPacket)
    (hn' : nextPacket ≤ tx.packets) :
    tx.onEtpCm (.cts packets nextPacket tx.pgn) = .ok (.sendData, { tx with
      blockStart := nextPacket
      blockPackets := min (blockSize (tx.packets - nextPacket + 1) nextPacket) packets
      offsetSent := false
      nextSequence := 1 }) := by
  have hle := tx.packets_bounds.2
  have hadd : addU 32 (tx.packets - nextPacket) 1 = .ok (tx.packets - nextPacket + 1) :=
    addU_ok (by omega)
  have hact : ¬ (packets = 0 ∨ nextPacket = 0 ∨ nextPacket > tx.packets) := by omega
  unfold onEtpCm
  simp only [EtpCm.pgn, ne_eq, not_true_eq_false, if_false, hact, subU_ok hn', ok_bind, hadd,
    pure_eq_ok]

/-- **Connection management never makes the transmitter panic**, whatever
the receiver sends. -/
theorem onEtpCm_total (h : tx.WF) (cm : EtpCm) :
    ∃ told tx', tx.onEtpCm cm = .ok (told, tx') ∧ tx'.WF := by
  by_cases hpgn : cm.pgn = tx.pgn
  · have hown : ¬ cm.pgn ≠ tx.pgn := not_not_intro hpgn
    cases cm with
    | cts packets nextPacket pgn =>
      by_cases hp : packets = 0 ∨ nextPacket = 0 ∨ nextPacket > tx.packets
      · refine ⟨.idle, tx, ?_, h⟩
        unfold onEtpCm
        rw [if_neg hown]
        exact if_pos hp
      · -- the block granted is within the message
        push Not at hp
        obtain ⟨hpackets, hnext, hle⟩ := hp
        obtain ⟨-, hmax, hfit, -⟩ := blockSize_bounds nextPacket
          (Nat.le_add_left 1 (tx.packets - nextPacket))
        have hgrant : min (blockSize (tx.packets - nextPacket + 1) nextPacket) packets
            ≤ blockSize (tx.packets - nextPacket + 1) nextPacket := Nat.min_le_left _ _
        unfold EtpCm.pgn at hpgn
        subst hpgn
        refine ⟨_, _, onEtpCm_cts (by omega) (by omega) hle, ?_⟩
        exact ⟨by show 1 ≤ nextPacket; omega, hle, le_trans hgrant hmax,
          by show nextPacket + min _ _ ≤ tx.packets + 1; omega, Nat.le_refl 1⟩
    | eoma size pgn =>
      unfold onEtpCm
      rw [if_neg hown]
      exact ⟨_, _, rfl, ⟨h.start_pos, h.start_le, h.block_le, h.block_end, h.next_pos⟩⟩
    | abort | rts | dpo =>
      unfold onEtpCm
      rw [if_neg hown]
      exact ⟨_, _, rfl, h⟩
  · exact ⟨.idle, tx, if_pos hpgn, h⟩

/-- The offset of a block that has just been granted. -/
theorem offset_some (hsent : tx.offsetSent = false) (hblock : 1 ≤ tx.blockPackets)
    (hstart : 1 ≤ tx.blockStart) :
    tx.offset = .ok (some (.dpo tx.blockPackets (tx.blockStart - 1) tx.pgn),
      { tx with offsetSent := true }) := by
  have hopen : ¬ (tx.offsetSent = true ∨ tx.blockPackets = 0) := by
    rw [hsent]
    simp only [Bool.false_eq_true, false_or]
    omega
  unfold offset
  simp only [hopen, if_false, subU_ok hstart, ok_bind, pure_eq_ok]

/-- **Asking for the offset never panics.** -/
theorem offset_total (h : tx.WF) : ∃ cm tx', tx.offset = .ok (cm, tx') ∧ tx'.WF := by
  by_cases hshut : tx.offsetSent = true ∨ tx.blockPackets = 0
  · exact ⟨none, tx, if_pos hshut, h⟩
  · push Not at hshut
    obtain ⟨hsent, hblock⟩ := hshut
    exact ⟨_, _, offset_some (Bool.not_eq_true _ ▸ hsent) (by omega) h.start_pos,
      ⟨h.start_pos, h.start_le, h.block_le, h.block_end, h.next_pos⟩⟩

/-- Where a packet starts. -/
theorem chunk_start_le (tx : Transmitter) {k : Nat} (hk : k < tx.packets) :
    7 * k ≤ tx.data.length := by
  have hb := packetCount_bounds tx.size_ge tx.size_le
  have hp := tx.packets_eq
  omega

/-- The packet a granted block yields. -/
theorem nextPacket_some (h : tx.WF) (hn : tx.nextSequence ≤ tx.blockPackets) :
    tx.nextPacket = .ok (some (packetOf tx.data tx.blockStart tx.nextSequence),
      { tx with nextSequence := tx.nextSequence + 1 }) := by
  have hpos := h.next_pos
  have hstart := h.start_pos
  have hend := h.block_end
  have hblock := h.block_le
  have hle := tx.packets_bounds.2
  unfold maxPacketsPerBlock at hblock
  have hopen : ¬ (tx.blockPackets = 0 ∨ tx.nextSequence > tx.blockPackets) := by omega
  have habs : addU 32 tx.blockStart tx.nextSequence = .ok (tx.blockStart + tx.nextSequence) :=
    addU_ok (by omega)
  have hinside : ¬ tx.blockStart + tx.nextSequence - 1 > tx.packets := by omega
  -- two positions back: both counts start at one
  have hslice := slice_chunk (w := 7)
    (tx.chunk_start_le (show tx.blockStart + tx.nextSequence - 2 < tx.packets by omega))
  rw [Nat.mul_comm] at hslice
  have hnext : addU 16 tx.nextSequence 1 = .ok (tx.nextSequence + 1) := addU_ok (by omega)
  have hmod : tx.nextSequence % 256 = tx.nextSequence := Nat.mod_eq_of_lt (by omega)
  unfold nextPacket
  simp only [hopen, if_false, habs, ok_bind, hinside, bytesPerPacket, hmod, hnext, pure_eq_ok,
    subU_ok (show 1 ≤ tx.blockStart + tx.nextSequence by omega),
    subU_ok (show 1 ≤ tx.blockStart + tx.nextSequence - 1 by omega), Nat.sub_sub]
  simp only [show 1 + 1 = 2 from rfl, hslice, ok_bind]
  rfl

/-- **Pulling packets never makes the transmitter panic.** -/
theorem nextPacket_total (h : tx.WF) : ∃ dt tx', tx.nextPacket = .ok (dt, tx') ∧ tx'.WF := by
  by_cases hshut : tx.blockPackets = 0 ∨ tx.nextSequence > tx.blockPackets
  · exact ⟨none, tx, if_pos hshut, h⟩
  · refine ⟨_, _, nextPacket_some h (by omega), ?_⟩
    exact ⟨h.start_pos, h.start_le, h.block_le, h.block_end, Nat.le_add_left 1 _⟩

/-! ## §5. Draining a block. -/

/-- **A granted block is drained into exactly its packets**, and with more
fuel than packets the transmitter is left waiting. -/
theorem drain_block {tx : Transmitter} (h : tx.WF) {left fuel : Nat} (hfuel : left < fuel)
    (hleft : tx.nextSequence + left = tx.blockPackets + 1) :
    drain fuel tx = .ok
      ((List.range' tx.nextSequence left).map (packetOf tx.data tx.blockStart),
        { tx with nextSequence := tx.blockPackets + 1 }) := by
  induction fuel generalizing tx left with
  | zero => omega
  | succ fuel ih =>
    cases left with
    | zero =>
      -- the block is used up
      have hstop : tx.blockPackets = 0 ∨ tx.nextSequence > tx.blockPackets := by omega
      have hnext : tx.nextPacket = .ok (none, tx) := if_pos hstop
      unfold drain
      simp only [hnext, ok_bind, pure_eq_ok, List.range'_zero, List.map_nil]
      rw [← hleft, Nat.add_zero]
    | succ left =>
      have hnext := nextPacket_some h (by omega)
      have hwf : WF { tx with nextSequence := tx.nextSequence + 1 } :=
        ⟨h.start_pos, h.start_le, h.block_le, h.block_end, Nat.le_add_left 1 _⟩
      have hrest := ih hwf (show left < fuel by omega)
        (show tx.nextSequence + 1 + left = tx.blockPackets + 1 by omega)
      unfold drain
      simp only [hnext, ok_bind, hrest, pure_eq_ok, List.range'_succ, List.map_cons]

end Transmitter

end SaeJ1939.Etp
