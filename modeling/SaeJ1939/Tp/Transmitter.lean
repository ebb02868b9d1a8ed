/-
  SaeJ1939.Tp.Transmitter — the send side of the transport protocol
  (`tp.rs`, `Transmitter`).

  A transmitter cuts its payload into packets and sends them as windows
  are granted.  What never changes after construction (the payload's size
  and its packet count) is carried as fields.

  Main results:
    * `onTpCm_total`, `nextPacket_total` — the transmitter's arithmetic and
      slicing never panic.
    * `drain_window` — a granted window is drained into exactly its
      packets.
-/
import SaeJ1939.Tp.Message

namespace SaeJ1939.Tp

open Checked Chunks

/-- What a transmitter wants the caller to do next. -/
inductive Tx where
  /-- Nothing to do; wait for the peer. -/
  | idle
  /-- The peer granted a window: pull packets with `nextPacket`. -/
  | sendData
  /-- The receiver acknowledged the whole message. -/
  | complete
  /-- The peer aborted the transfer. -/
  | aborted (reason : AbortReason)
  deriving DecidableEq

/-- The send side of the transport protocol. -/
structure Transmitter where
  pgn : Pgn
  data : List UInt8
  packets : Nat
  /-- The 1-based sequence number to send next. -/
  nextSequence : Nat
  /-- Packets still allowed in the current window. -/
  windowRemaining : Nat
  broadcast : Bool
  complete : Bool
  /-- The per-CTS limit advertised in the RTS. -/
  maxPacketsPerCts : Nat
  size_ge : minMessageSize ≤ data.length
  size_le : data.length ≤ maxMessageSize
  packets_eq : packets = packetCount data.length
  deriving DecidableEq

namespace Transmitter

/-! ## §1. Construction. -/

def build (pgn : Pgn) (data : List UInt8) (broadcast : Bool) : Result Transmitter :=
  if h : data.length < minMessageSize ∨ data.length > maxMessageSize then
    .error (.invalidMessageSize (min data.length 0xFFFF))
  else
    .ok
      { pgn, data
        packets := packetCount data.length
        nextSequence := 1
        -- a BAM is sent without waiting for permission
        windowRemaining := if broadcast then packetCount data.length else 0
        broadcast
        complete := false
        maxPacketsPerCts := 0xFF
        size_ge := by omega
        size_le := by omega
        packets_eq := rfl }

/-- Prepare a BAM broadcast of `data`. -/
def broadcastOf (pgn : Pgn) (data : List UInt8) : Result Transmitter := build pgn data true

/-- Prepare a destination-specific RTS/CTS transfer of `data`. -/
def addressed (pgn : Pgn) (data : List UInt8) : Result Transmitter := build pgn data false

/-- Limit how many packets the receiver may ask for in a single CTS. -/
def withMaxPacketsPerCts (tx : Transmitter) (max : Nat) : Transmitter :=
  { tx with maxPacketsPerCts := max }

/-- The announcement to send first: a BAM, or an RTS awaiting a CTS. -/
def start (tx : Transmitter) : TpCm :=
  if tx.broadcast then .bam tx.data.length tx.packets tx.pgn
  else .rts tx.data.length tx.packets tx.maxPacketsPerCts tx.pgn

/-- Whether every packet has been produced and (for RTS/CTS) acknowledged. -/
def isComplete (tx : Transmitter) : Bool := tx.complete

/-! ## §2. The peer's connection management. -/

/-- Handle a TP.CM from the receiver. -/
def onTpCm (tx : Transmitter) (cm : TpCm) : Exec (Tx × Transmitter) :=
  if cm.pgn ≠ tx.pgn then .ok (.idle, tx)
  else
    match cm with
    | .cts packets nextPacket _ =>
        -- a zero-packet CTS is the receiver asking us to hold
        if packets = 0 then .ok (.idle, tx)
        else if nextPacket = 0 ∨ nextPacket > tx.packets then .ok (.idle, tx)
        else do
          let left ← addU 8 (← subU tx.packets nextPacket) 1
          return (.sendData,
            { tx with nextSequence := nextPacket, windowRemaining := min packets left })
    | .endOfMsgAck .. => .ok (.complete, { tx with complete := true })
    | .abort reason _ => .ok (.aborted reason, tx)
    | .rts .. | .bam .. => .ok (.idle, tx)

/-! ## §3. Data packets. -/

/-- The next TP.DT packet to send, or `none` when the current window is
exhausted or the message is fully sent. -/
def nextPacket (tx : Transmitter) : Exec (Option TpDt × Transmitter) :=
  if tx.windowRemaining = 0 ∨ tx.nextSequence > tx.packets then .ok (none, tx)
  else do
    let sequence := tx.nextSequence
    let offset := (← subU sequence 1) * bytesPerPacket
    let stop := min (offset + bytesPerPacket) tx.data.length
    let packet := TpDt.new (sequence % 256) (← slice tx.data offset stop)
    let nextSequence ← addU 16 tx.nextSequence 1
    let windowRemaining ← subU tx.windowRemaining 1
    -- a broadcast is finished the moment the last packet is out
    let complete := tx.complete || (tx.broadcast && nextSequence > tx.packets)
    return (some packet, { tx with nextSequence, windowRemaining, complete })

/-- `while let Some(dt) = tx.next_packet()`: pull packets until there are
none, for at most `fuel` packets. -/
def drain : Nat → Transmitter → Exec (List TpDt × Transmitter)
  | 0, tx => .ok ([], tx)
  | fuel + 1, tx => do
      match ← tx.nextPacket with
      | (none, tx) => return ([], tx)
      | (some dt, tx) => do
          let (dts, tx) ← drain fuel tx
          return (dt :: dts, tx)

/-- The packet with sequence number `i` of a payload. -/
def packetOf (data : List UInt8) (i : Nat) : TpDt := TpDt.new i (chunk 7 data (i - 1))

variable {tx : Transmitter}

/-- What an addressed transmitter is built from. -/
theorem addressed_eq_ok {pgn : Pgn} {data : List UInt8} (h : addressed pgn data = .ok tx) :
    tx.pgn = pgn ∧ tx.data = data ∧ tx.broadcast = false := by
  unfold addressed build at h
  split at h
  next => cases h
  next =>
    injection h with h
    subst h
    exact ⟨rfl, rfl, rfl⟩

/-- Every payload the protocol can carry is accepted. -/
theorem addressed_ok (pgn : Pgn) {data : List UInt8} (h₁ : minMessageSize ≤ data.length)
    (h₂ : data.length ≤ maxMessageSize) : ∃ tx, addressed pgn data = .ok tx := by
  unfold addressed build
  rw [dif_neg (by omega)]
  exact ⟨_, rfl⟩

/-! ## §4. No panics. -/

theorem packets_le (tx : Transmitter) : tx.packets ≤ 255 := by
  rw [tx.packets_eq]
  exact (packetCount_bounds tx.size_ge tx.size_le).2.1

theorem packets_pos (tx : Transmitter) : 2 ≤ tx.packets := by
  rw [tx.packets_eq]
  exact (packetCount_bounds tx.size_ge tx.size_le).1

/-- Where a packet starts, and whether it is full. -/
theorem chunk_bounds (tx : Transmitter) {i : Nat} (h₁ : 1 ≤ i) (h₂ : i ≤ tx.packets) :
    7 * (i - 1) ≤ tx.data.length ∧ (i < tx.packets → 7 * i ≤ tx.data.length)
      ∧ (i = tx.packets → tx.data.length ≤ 7 * i) := by
  have hb := packetCount_bounds tx.size_ge tx.size_le
  have hp := tx.packets_eq
  refine ⟨by omega, by omega, by omega⟩

/-- A CTS that the transmitter acts on. -/
theorem onTpCm_cts {packets nextPacket : Nat} (hp : 1 ≤ packets) (hn : 1 ≤ nextPacket)
    (hn' : nextPacket ≤ tx.packets) :
    tx.onTpCm (.cts packets nextPacket tx.pgn) = .ok (.sendData, { tx with
      nextSequence := nextPacket
      windowRemaining := min packets (tx.packets - nextPacket + 1) }) := by
  have hle := tx.packets_le
  have hadd : addU 8 (tx.packets - nextPacket) 1 = .ok (tx.packets - nextPacket + 1) :=
    addU_ok (by omega)
  have hn0 : ¬ (nextPacket = 0 ∨ nextPacket > tx.packets) := by omega
  simp only [onTpCm, TpCm.pgn, ne_eq, not_true_eq_false, if_false,
    Nat.pos_iff_ne_zero.mp hp, hn0, subU_ok hn', ok_bind, hadd, pure_eq_ok]

/-- **Connection management never makes the transmitter panic.** -/
theorem onTpCm_total (tx : Transmitter) (cm : TpCm) : ∃ a tx', tx.onTpCm cm = .ok (a, tx') := by
  by_cases hpgn : cm.pgn = tx.pgn
  · cases cm with
    | cts packets nextPacket pgn =>
      simp only [TpCm.pgn] at hpgn
      subst hpgn
      by_cases hp : packets = 0
      · simp [onTpCm, TpCm.pgn, hp]
      · by_cases hn : nextPacket = 0 ∨ nextPacket > tx.packets
        · simp [onTpCm, TpCm.pgn, hp, hn]
        · exact ⟨_, _, onTpCm_cts (by omega) (by omega) (by omega)⟩
    | endOfMsgAck | abort | rts | bam => simp [onTpCm, hpgn]
  · exact ⟨_, _, if_pos hpgn⟩

/-- The packet a granted window yields. -/
theorem nextPacket_some (hn : 1 ≤ tx.nextSequence) (hn' : tx.nextSequence ≤ tx.packets)
    (hw : 1 ≤ tx.windowRemaining) :
    tx.nextPacket = .ok (some (packetOf tx.data tx.nextSequence), { tx with
      nextSequence := tx.nextSequence + 1
      windowRemaining := tx.windowRemaining - 1
      complete := tx.complete || (tx.broadcast && tx.nextSequence + 1 > tx.packets) }) := by
  have hle := tx.packets_le
  have hsend : ¬ (tx.windowRemaining = 0 ∨ tx.nextSequence > tx.packets) := by omega
  have hslice := slice_chunk (tx.chunk_bounds hn hn').1
  have hadd : addU 16 tx.nextSequence 1 = .ok (tx.nextSequence + 1) := addU_ok (by omega)
  have hmod : tx.nextSequence % 256 = tx.nextSequence := Nat.mod_eq_of_lt (by omega)
  rw [Nat.mul_comm] at hslice
  simp only [nextPacket, hsend, if_false, subU_ok hn, ok_bind, bytesPerPacket, hslice, hadd,
    subU_ok hw, pure_eq_ok, hmod, packetOf]

/-- **Pulling packets never makes the transmitter panic.** -/
theorem nextPacket_total (hn : 1 ≤ tx.nextSequence) :
    ∃ dt tx', tx.nextPacket = .ok (dt, tx') ∧ 1 ≤ tx'.nextSequence := by
  by_cases hstop : tx.windowRemaining = 0 ∨ tx.nextSequence > tx.packets
  · exact ⟨none, tx, if_pos hstop, hn⟩
  · exact ⟨_, _, nextPacket_some hn (by omega) (by omega), Nat.le_add_left 1 _⟩

/-! ## §5. Draining a window. -/

/-- **A granted window is drained into exactly its packets**, and with
more fuel than packets the transmitter is left waiting. -/
theorem drain_window (tx : Transmitter) {w : Nat} (fuel : Nat) (hbc : tx.broadcast = false)
    (hn : 1 ≤ tx.nextSequence)
    (hw : tx.windowRemaining = w) (hw' : tx.nextSequence + w ≤ tx.packets + 1) (hfuel : w < fuel) :
    drain fuel tx = .ok ((List.range' tx.nextSequence w).map (packetOf tx.data), { tx with
      nextSequence := tx.nextSequence + w
      windowRemaining := 0 }) := by
  induction fuel generalizing tx w with
  | zero => omega
  | succ fuel ih =>
    cases w with
    | zero =>
      have hstop : tx.windowRemaining = 0 ∨ tx.nextSequence > tx.packets := Or.inl hw
      simp only [drain, nextPacket, hstop, if_true, ok_bind, pure_eq_ok, List.range'_zero,
        List.map_nil, Nat.add_zero]
      rw [← hw]
    | succ w =>
      have hpacket := nextPacket_some hn (by omega) (by omega : 1 ≤ tx.windowRemaining)
      have hopen : (tx.complete || (tx.broadcast && decide (tx.nextSequence + 1 > tx.packets)))
          = tx.complete := by simp [hbc]
      rw [hopen] at hpacket
      have hrest := @ih
        { tx with
          nextSequence := tx.nextSequence + 1
          windowRemaining := tx.windowRemaining - 1 }
        w hbc (Nat.le_add_left 1 _) (by simp only [hw]; omega)
        (by simp only; omega) (by omega)
      simp only [drain, hpacket, ok_bind, hrest, pure_eq_ok, List.range'_succ, List.map_cons]
      rw [Nat.add_assoc, Nat.add_comm 1 w]

end Transmitter

end SaeJ1939.Tp
