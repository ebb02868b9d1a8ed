/-
  SaeJ1939.Etp.Handshake — an extended transfer from end to end.

  A `Link` is a transmitter and a reassembler with the messages on their
  way between them, each as its eight bytes.  Every CTS is answered by the
  offset of the block it grants and then by the packets of that block.

  The absolute packet number never crosses the wire in one piece: the
  offset carries 24 bits of it, and the sequence number of a data packet
  one byte.  `Sending` says how the two ends keep agreeing on their sum.

  Main results:
    * `Sending` — the invariant: `b` blocks and `j` packets of the next one
      have arrived, the rest of that block is on its way, and both sides
      agree on it.
    * `sending_open`, `sending_offset`, `sending_packet` — the handshake
      establishes the invariant, and each message moves it on or finishes
      the transfer.
    * `extended_transfer_delivers` — every extended transfer is delivered
      once and unchanged, in the blocks its size calls for.
-/
import SaeJ1939.Etp.Transfer
import SaeJ1939.Etp.Transmitter

namespace SaeJ1939.Etp

open Checked Chunks Reassembler

/-! ## §1. The link. -/

/-- A message from the sender on its way: its parameter group tells the
receiver which of the two it is. -/
inductive Message where
  | cm (payload : Payload)
  | dt (payload : Payload)

/-- A sender and a receiver, what is on the wire between them, and what
has been observed so far. -/
structure Link (N SESSIONS : Nat) where
  tx : Transmitter
  rx : Reassembler N SESSIONS
  /-- The messages on their way to the receiver. -/
  wire : List Message
  /-- The blocks granted so far: packets, and the first of them. -/
  grants : List (Nat × Nat)
  /-- The connection management that reached the receiver after the
  announcement, and what it answered. -/
  answers : List (EtpCm × Rx)
  /-- Every message delivered so far. -/
  delivered : List (Pgn × Address × List UInt8)
  /-- What the transmitter made of each answer. -/
  told : List Tx

namespace Link

variable {N SESSIONS : Nat}

/-- The block a message grants. -/
def grantOf : EtpCm → List (Nat × Nat)
  | .cts packets nextPacket _ => [(packets, nextPacket)]
  | _ => []

/-- The receiver's connection management reaches the sender.  A granted
block is declared, and then drained: it has at most 255 packets. -/
def answer (l : Link N SESSIONS) (cm : EtpCm) : Exec (Link N SESSIONS) :=
  match EtpCm.decode cm.encode with
  | .error _ => .ok l
  | .ok cm => do
      let (told, tx) ← l.tx.onEtpCm cm
      let l := { l with tx, told := l.told ++ [told], grants := l.grants ++ grantOf cm }
      match told with
      | .sendData => do
          let (dpo, tx) ← tx.offset
          let (dts, tx) ← Transmitter.drain 256 tx
          return { l with
            tx
            wire := l.wire ++ (dpo.toList.map fun cm => .cm cm.encode)
              ++ dts.map fun dt => .dt dt.encode }
      | _ => return l

/-- Act on what the receiver wants done. -/
def react (l : Link N SESSIONS) : Rx → Exec (Link N SESSIONS)
  | .idle => .ok l
  | .send cm => l.answer cm
  | .message pgn source data ack =>
      { l with delivered := l.delivered ++ [(pgn, source, data)] }.answer ack

/-- The sender announces its transfer. -/
def start (source : Address) (tx : Transmitter) (rx : Reassembler N SESSIONS) :
    Exec (Link N SESSIONS) :=
  let l : Link N SESSIONS := ⟨tx, rx, [], [], [], [], []⟩
  match EtpCm.decode tx.start.encode with
  | .error _ => .ok l
  | .ok cm => do
      let (reply, rx) ← rx.onEtpCm source cm
      { l with rx }.react reply

/-- The next message on the wire reaches the receiver. -/
def deliver (source : Address) (l : Link N SESSIONS) : Exec (Link N SESSIONS) :=
  match l.wire with
  | [] => .ok l
  | .cm p :: wire =>
      match EtpCm.decode p with
      | .error _ => .ok { l with wire }
      | .ok cm => do
          let (reply, rx) ← l.rx.onEtpCm source cm
          { l with rx, wire, answers := l.answers ++ [(cm, reply)] }.react reply
  | .dt p :: wire => do
      let (reply, rx) ← l.rx.onEtpDt source (EtpDt.decode p)
      { l with rx, wire }.react reply

/-- Deliver up to `fuel` messages, in the order they were sent. -/
def drive (source : Address) : Nat → Link N SESSIONS → Exec (Link N SESSIONS)
  | 0, l => .ok l
  | fuel + 1, l => do
      let l ← l.deliver source
      drive source fuel l

/-- A link with nothing on the wire has come to rest. -/
theorem drive_of_wire_nil {l : Link N SESSIONS} (source : Address) (h : l.wire = [])
    (fuel : Nat) : drive source fuel l = .ok l := by
  induction fuel with
  | zero => rfl
  | succ fuel ih =>
    have hrest : l.deliver source = .ok l := by
      unfold deliver
      rw [h]
    unfold drive
    rw [hrest, ok_bind]
    exact ih

end Link

/-! ## §2. Blocks. -/

/-- How many packets block `b` of a message has. -/
def blockOf (size b : Nat) : Nat := min 255 (packetCount size - 255 * b)

/-- How many blocks a message takes: `⌈packets / 255⌉`. -/
def blockCount (size : Nat) : Nat := (packetCount size + 254) / 255

/-- Block `b` has packets exactly if it is one of those. -/
theorem lt_blockCount {size b : Nat} : b < blockCount size ↔ 255 * b < packetCount size := by
  unfold blockCount
  omega

/-- The receiver's session: `b` blocks are in, and packet `next` of the
next one is expected, if the sender has `declared` its offset. -/
def sessionAt (source : Address) (pgn : Pgn) (data : List UInt8) (b : Nat) (declared : Bool)
    (next : Nat) : Session where
  source := source
  pgn := pgn
  size := data.length
  packets := packetCount data.length
  blockStart := 255 * b + 1
  blockPackets := blockOf data.length b
  offset := if declared then some (255 * b) else none
  nextSequence := next
  idleMs := 0

/-- The offset of block `b`. -/
def offsetOf (pgn : Pgn) (data : List UInt8) (b : Nat) : EtpCm :=
  .dpo (blockOf data.length b) (255 * b) pgn

/-- Packet `i` of block `b`, as its eight bytes. -/
def packetAt (data : List UInt8) (b i : Nat) : EtpDt :=
  Transmitter.packetOf data (255 * b + 1) i

variable {source : Address} {pgn : Pgn} {data : List UInt8} {b j : Nat}

/-- What a receiver grants after `b` blocks is block `b`. -/
theorem blockSize_eq (hb : 255 * b < packetCount data.length) (start : Nat) :
    blockSize (packetCount data.length - 255 * b) start = blockOf data.length b := by
  obtain ⟨-, -, -, heq⟩ := blockSize_bounds start
    (show 1 ≤ packetCount data.length - 255 * b by omega)
  rw [heq, Nat.min_comm]
  rfl

/-- A packet that is not the last one of its message is followed by one of
the same block, or ends a block of 255. -/
theorem blockOf_cases (hj : j < blockOf data.length b) :
    255 * b + j < packetCount data.length ∧
      (255 * b + j + 1 < packetCount data.length →
        j + 1 < blockOf data.length b ∨ blockOf data.length b = 255 ∧ j = 254) := by
  unfold blockOf at *
  omega

/-- **The next data packet is the one the receiver expects**, and it makes
of it the same as the sender. -/
theorem onDt_packetAt (hmin : minMessageSize ≤ data.length)
    (hmax : data.length ≤ maxMessageSize) (hj : j < blockOf data.length b) :
    Transfer.onDt (some ⟨sessionAt source pgn data b true (j + 1), data.take (7 * (255 * b + j))⟩)
        (packetAt data b (j + 1))
      = if 255 * b + j + 1 = packetCount data.length then
          (.message pgn source data (.eoma data.length pgn), none)
        else if j + 1 = blockOf data.length b then
          (.send (.cts (blockOf data.length (b + 1)) (255 * (b + 1) + 1) pgn),
            some ⟨sessionAt source pgn data (b + 1) false 1, data.take (7 * (255 * (b + 1)))⟩)
        else
          (.idle, some ⟨sessionAt source pgn data b true (j + 2),
            data.take (7 * (255 * b + (j + 1)))⟩) := by
  have hb := packetCount_bounds hmin hmax
  obtain ⟨hlt, hcases⟩ := blockOf_cases hj
  have hbytes : (packetAt data b (j + 1)).bytes = pad 7 fill (chunk 7 data (255 * b + j)) := by
    show pad 7 fill (chunk 7 data (255 * b + 1 + (j + 1) - 2)) = _
    rw [show 255 * b + 1 + (j + 1) - 2 = 255 * b + j by omega]
  have hsequence : (packetAt data b (j + 1)).sequence = j + 1 := rfl
  unfold Transfer.onDt
  simp only [sessionAt, if_true, hbytes, hsequence, ne_eq, not_true_eq_false, if_false, ge_iff_le]
  by_cases hlast : 255 * b + j + 1 = packetCount data.length
  · -- the last packet completes the payload
    rw [if_pos (by omega), if_pos hlast, take_append_pad (by omega) (by omega)]
  · -- an earlier one is full
    rw [if_neg (by omega), if_neg hlast, take_append_full (by omega)]
    rcases hcases (by omega) with hmore | ⟨hfull, rfl⟩
    · rw [if_neg (by omega), if_neg (by omega)]
      rfl
    · -- it ends its block, and opens the next
      have hnext : 255 * (b + 1) < packetCount data.length := by omega
      have hstart : 255 * b + 1 + blockOf data.length b = 255 * (b + 1) + 1 := by omega
      have hrest : packetCount data.length - (255 * (b + 1) + 1) + 1
          = packetCount data.length - 255 * (b + 1) := by omega
      have hsession : Transfer.nextBlock (sessionAt source pgn data b true (254 + 1))
          = sessionAt source pgn data (b + 1) false 1 := by
        simp only [Transfer.nextBlock, sessionAt, hstart, hrest, blockSize_eq hnext,
          Bool.false_eq_true, if_false]
      simp only [sessionAt, if_true] at hsession
      rw [if_pos (by omega), if_pos (by omega), hsession,
        show 255 * b + 254 + 1 = 255 * (b + 1) by omega]

/-- The offset of the block the receiver granted is accepted. -/
theorem onCm_offsetOf (N : Nat) (room : Bool) :
    Transfer.onCm N room source
        (some ⟨sessionAt source pgn data b false 1, data.take (7 * (255 * b))⟩)
        (offsetOf pgn data b)
      = (.idle, some ⟨sessionAt source pgn data b true 1, data.take (7 * (255 * b))⟩) := by
  have hmatch : ¬ (255 * b + 1 ≠ 255 * b + 1
      ∨ blockOf data.length b ≠ blockOf data.length b) := by simp
  show (if 255 * b + 1 ≠ 255 * b + 1 ∨ blockOf data.length b ≠ blockOf data.length b then _
    else _) = _
  rw [if_neg hmatch]
  simp only [sessionAt, Nat.add_sub_cancel, List.take_take, Nat.min_self, if_true]

/-! ## §3. One answer. -/

namespace Link

variable {N SESSIONS : Nat} {l : Link N SESSIONS}

/-- **A CTS is answered by its offset and exactly the packets it grants.** -/
theorem answer_cts (hdata : l.tx.data = data) (hpgn : l.tx.pgn = pgn)
    (hb : 255 * b < packetCount data.length) :
    ∃ tx, l.answer (.cts (blockOf data.length b) (255 * b + 1) pgn) = .ok { l with
        tx
        told := l.told ++ [.sendData]
        grants := l.grants ++ [(blockOf data.length b, 255 * b + 1)]
        wire := l.wire ++ [.cm (offsetOf pgn data b).encode]
          ++ (List.range' 1 (blockOf data.length b)).map fun i => .dt (packetAt data b i).encode }
      ∧ tx.data = data ∧ tx.pgn = pgn := by
  subst hdata hpgn
  have hpackets := l.tx.packets_eq
  have hbound := l.tx.packets_bounds
  have hblock : 1 ≤ blockOf l.tx.data.length b ∧ blockOf l.tx.data.length b ≤ 255
      ∧ 255 * b + blockOf l.tx.data.length b ≤ packetCount l.tx.data.length := by
    unfold blockOf
    omega
  obtain ⟨hpos, hle, hend⟩ := hblock
  have hdecode := EtpCm.decode_encode
    (.cts (blockOf l.tx.data.length b) (255 * b + 1) l.tx.pgn)
    (show blockOf l.tx.data.length b < 256 ∧ 255 * b + 1 < 2 ^ 24 by omega)
  -- both sides compute the same block
  have hcts := l.tx.onEtpCm_cts hpos (Nat.le_add_left 1 (255 * b)) (by omega)
  have hgrant : min (blockSize (l.tx.packets - (255 * b + 1) + 1) (255 * b + 1))
      (blockOf l.tx.data.length b) = blockOf l.tx.data.length b := by
    rw [hpackets, show packetCount l.tx.data.length - (255 * b + 1) + 1
      = packetCount l.tx.data.length - 255 * b by omega, blockSize_eq hb, Nat.min_self]
  rw [hgrant] at hcts
  have hoffset := @Transmitter.offset_some
    { l.tx with
      blockStart := 255 * b + 1
      blockPackets := blockOf l.tx.data.length b
      offsetSent := false
      nextSequence := 1 } rfl hpos (Nat.le_add_left 1 _)
  have hwf : Transmitter.WF { l.tx with
      blockStart := 255 * b + 1
      blockPackets := blockOf l.tx.data.length b
      offsetSent := true
      nextSequence := 1 } :=
    ⟨Nat.le_add_left 1 _, show 255 * b + 1 ≤ l.tx.packets by omega, hle,
      show 255 * b + 1 + blockOf l.tx.data.length b ≤ l.tx.packets + 1 by omega, Nat.le_refl 1⟩
  have hdrain := Transmitter.drain_block hwf
    (show blockOf l.tx.data.length b < 256 by omega) (Nat.add_comm 1 _)
  unfold answer
  simp only [hdecode, hcts, ok_bind, hoffset, hdrain, pure_eq_ok, grantOf, List.map_map]
  exact ⟨_, rfl, rfl, rfl⟩

/-- The acknowledgement of the whole message completes the sender. -/
theorem answer_eoma (l : Link N SESSIONS) {size : Nat} (h : size < 2 ^ 32) :
    l.answer (.eoma size l.tx.pgn) = .ok { l with
      tx := { l.tx with complete := true }
      told := l.told ++ [.complete] } := by
  have hdecode := EtpCm.decode_encode (.eoma size l.tx.pgn) h
  have hcm : l.tx.onEtpCm (.eoma size l.tx.pgn)
      = .ok (.complete, { l.tx with complete := true }) := if_neg (not_not_intro rfl)
  unfold answer
  simp only [hdecode, hcm, ok_bind, pure_eq_ok, grantOf, List.append_nil]

/-! ## §4. The invariant of a transfer. -/

/-- What has been observed of a transfer of which `granted` blocks have
been granted and `declared` declared. -/
structure Transcript (pgn : Pgn) (data : List UInt8) (granted declared : Nat)
    (l : Link N SESSIONS) : Prop where
  grants : l.grants = (List.range granted).map fun b => (blockOf data.length b, 255 * b + 1)
  answers : l.answers = (List.range declared).map fun b => (offsetOf pgn data b, .idle)

/-- `b` blocks have arrived, and `j` packets of the next one if it is
`declared`; the rest of that block is on its way. -/
structure Sending (source : Address) (pgn : Pgn) (data : List UInt8)
    (r : Reassembler N SESSIONS) (b : Nat) (declared : Bool) (j : Nat) (l : Link N SESSIONS) :
    Prop where
  tx_pgn : l.tx.pgn = pgn
  tx_data : l.tx.data = data
  rx_wf : l.rx.WF
  rx_transfer : l.rx.transferOf source
    = some ⟨sessionAt source pgn data b declared (j + 1), data.take (7 * (255 * b + j))⟩
  /-- The transfers of other peers are as they were at the start. -/
  rx_others : ∀ a, a ≠ source → l.rx.transferOf a = r.transferOf a
  packet_left : j < blockOf data.length b
  undeclared : declared = false → j = 0
  wire : l.wire = (if declared then [] else [.cm (offsetOf pgn data b).encode])
    ++ (List.range' (j + 1) (blockOf data.length b - j)).map fun i => .dt (packetAt data b i).encode
  transcript : Transcript pgn data (b + 1) (if declared then b + 1 else b) l
  delivered : l.delivered = []
  told : l.told = List.replicate (b + 1) .sendData

/-- The transfer is over: delivered once, acknowledged, and gone from the
receiver. -/
structure Finished (source : Address) (pgn : Pgn) (data : List UInt8)
    (r : Reassembler N SESSIONS) (l : Link N SESSIONS) : Prop where
  rx_transfer : l.rx.transferOf source = none
  rx_others : ∀ a, a ≠ source → l.rx.transferOf a = r.transferOf a
  wire : l.wire = []
  transcript : Transcript pgn data (blockCount data.length) (blockCount data.length) l
  delivered : l.delivered = [(pgn, source, data)]
  told : l.told = List.replicate (blockCount data.length) .sendData ++ [.complete]
  complete : l.tx.isComplete = true

variable {r : Reassembler N SESSIONS} {declared : Bool}

/-- Granting block `b`, once the blocks before it have arrived and nothing
is on its way, establishes the invariant. -/
theorem sending_grant (hdata : l.tx.data = data) (hpgn : l.tx.pgn = pgn) (hwf : l.rx.WF)
    (hb : 255 * b < packetCount data.length)
    (htransfer : l.rx.transferOf source
      = some ⟨sessionAt source pgn data b false 1, data.take (7 * (255 * b))⟩)
    (hothers : ∀ a, a ≠ source → l.rx.transferOf a = r.transferOf a) (hwire : l.wire = [])
    (hlog : Transcript pgn data b b l) (hdelivered : l.delivered = [])
    (htold : l.told = List.replicate b .sendData) :
    ∃ l', l.answer (.cts (blockOf data.length b) (255 * b + 1) pgn) = .ok l'
      ∧ Sending source pgn data r b false 0 l' := by
  obtain ⟨tx, hanswer, hdata', hpgn'⟩ := answer_cts hdata hpgn hb
  refine ⟨_, hanswer, ⟨hpgn', hdata', hwf, htransfer, hothers, ?_, fun _ => rfl, ?_, ⟨?_, ?_⟩,
    hdelivered, ?_⟩⟩
  · unfold blockOf
    omega
  · simp only [hwire, List.nil_append, Bool.false_eq_true, if_false, Nat.sub_zero, Nat.zero_add]
  · simp only [hlog.grants, List.range_succ, List.map_append, List.map_cons, List.map_nil]
  · simp only [hlog.answers, Bool.false_eq_true, if_false]
  · simp only [htold, List.replicate_succ']

/-! ## §5. The steps of a transfer. -/

/-- **The handshake opens the transfer**: the RTS finds the free slot and
is answered with the first block. -/
theorem sending_open {tx : Transmitter} (hr : r.WF) (hnew : Transmitter.new pgn data = .ok tx)
    (hfits : data.length ≤ N) (hroom : r.room = true) (hidle : r.transferOf source = none) :
    ∃ l, start source tx r = .ok l ∧ Sending source pgn data r 0 false 0 l := by
  obtain ⟨hpgn, hdata⟩ := Transmitter.new_eq_ok hnew
  have hmin := tx.size_ge
  have hmax := tx.size_le
  rw [hdata] at hmin hmax
  have hb := packetCount_bounds hmin hmax
  have hfirst : blockSize (packetCount data.length) 1 = blockOf data.length 0 :=
    blockSize_eq (b := 0) (by omega) 1
  -- the RTS crosses the wire
  have hwide : data.length < 2 ^ 32 := by
    rw [maxMessageSize_eq] at hmax
    omega
  have hstart : tx.start = .rts data.length pgn := by
    unfold Transmitter.start
    rw [hdata, hpgn, Nat.mod_eq_of_lt hwide]
  have hdecode := EtpCm.decode_encode (.rts data.length pgn) hwide
  -- and is granted
  have hcm : Transfer.onCm N r.room source (r.transferOf source) (.rts data.length pgn)
      = (.send (.cts (blockOf data.length 0) (255 * 0 + 1) pgn),
        some ⟨sessionAt source pgn data 0 false 1, data.take (7 * (255 * 0))⟩) := by
    unfold Transfer.onCm
    rw [hroom, hidle]
    simp only [Option.isSome_none, Bool.false_eq_true, if_false, if_true, hfirst, Transfer.start,
      if_neg (show ¬ (data.length < minMessageSize ∨ data.length > maxMessageSize) by omega),
      if_neg (show ¬ data.length > N by omega)]
    rfl
  rcases onEtpCm_refines hr source (.rts data.length pgn)
    with ⟨r', hok, hfocus⟩ | ⟨-, _, _, _, h, -⟩
  · rw [hcm] at hok hfocus
    obtain ⟨l, hanswer, hsending⟩ := sending_grant (b := 0) (r := r)
      (l := ⟨tx, r', [], [], [], [], []⟩) hdata hpgn hfocus.wf (by omega) hfocus.self
      hfocus.others rfl ⟨rfl, rfl⟩ rfl rfl
    refine ⟨l, ?_, hsending⟩
    unfold start
    simp only [hstart, hdecode, hok, ok_bind]
    exact hanswer
  · cases h

/-- **The offset of a block is accepted.** -/
theorem sending_offset (h : Sending source pgn data r b false j l) :
    ∃ l', l.deliver source = .ok l' ∧ Sending source pgn data r b true 0 l' := by
  obtain rfl : j = 0 := h.undeclared rfl
  have hleft := h.packet_left
  have hmin := l.tx.size_ge
  have hmax := l.tx.size_le
  rw [h.tx_data] at hmin hmax
  have hb := packetCount_bounds hmin hmax
  -- the offset fits its 24 bits
  have hdecode := EtpCm.decode_encode (offsetOf pgn data b)
    (show blockOf data.length b < 256 ∧ 255 * b < 2 ^ 24 by
      unfold blockOf at *
      omega)
  have hwire := h.wire
  simp only [Bool.false_eq_true, if_false, List.cons_append, List.nil_append] at hwire
  rcases onEtpCm_refines h.rx_wf source (offsetOf pgn data b) with
    ⟨r', hok, hfocus⟩ | ⟨-, _, _, _, hcm, hover⟩
  · have htransfer : l.rx.transferOf source
        = some ⟨sessionAt source pgn data b false 1, data.take (7 * (255 * b))⟩ := h.rx_transfer
    rw [htransfer, onCm_offsetOf] at hok hfocus
    refine ⟨{ l with
      rx := r'
      wire := (List.range' 1 (blockOf data.length b)).map fun i => .dt (packetAt data b i).encode
      answers := l.answers ++ [(offsetOf pgn data b, .idle)] }, ?_, ?_⟩
    · unfold deliver
      simp only [hwire, hdecode, hok, ok_bind]
      rfl
    · refine ⟨h.tx_pgn, h.tx_data, hfocus.wf, hfocus.self,
        fun a ha => (hfocus.others a ha).trans (h.rx_others a ha), hleft, fun _ => rfl, rfl,
        ⟨h.transcript.grants, ?_⟩, h.delivered, h.told⟩
      simp only [h.transcript.answers, Bool.false_eq_true, if_false, if_true, List.range_succ,
        List.map_append, List.map_cons, List.map_nil]
  · -- an offset of 32 bits is out of reach
    unfold offsetOf at hcm
    injection hcm with _ hoffset
    unfold blockOf at hleft
    omega

/-- **One packet moves the invariant on, or finishes the transfer.** -/
theorem sending_packet (h : Sending source pgn data r b true j l) :
    ∃ l', l.deliver source = .ok l'
      ∧ (255 * b + j + 1 = packetCount data.length ∧ Finished source pgn data r l'
        ∨ 255 * b + j + 1 < packetCount data.length
          ∧ (j + 1 = 255 ∧ Sending source pgn data r (b + 1) false 0 l'
            ∨ Sending source pgn data r b true (j + 1) l')) := by
  have hmin := l.tx.size_ge
  have hmax := l.tx.size_le
  rw [h.tx_data] at hmin hmax
  obtain ⟨hlt, hcases⟩ := blockOf_cases h.packet_left
  have hbyte : blockOf data.length b ≤ 255 := Nat.min_le_left _ _
  -- the packet on the wire is the one the receiver expects
  obtain ⟨n, hn⟩ : ∃ n, blockOf data.length b - j = n + 1 :=
    ⟨blockOf data.length b - j - 1, by have := h.packet_left; omega⟩
  have hwire := h.wire
  rw [hn, List.range'_succ, List.map_cons] at hwire
  simp only [if_true, List.nil_append] at hwire
  have hdecode : EtpDt.decode (packetAt data b (j + 1)).encode = packetAt data b (j + 1) :=
    EtpDt.decode_encode (show j + 1 < 256 by have := h.packet_left; omega)
  obtain ⟨r', hok, hfocus⟩ := onEtpDt_refines h.rx_wf source (packetAt data b (j + 1))
  rw [h.rx_transfer, onDt_packetAt hmin hmax h.packet_left] at hok hfocus
  have hothers : ∀ a, a ≠ source → r'.transferOf a = r.transferOf a :=
    fun a ha => (hfocus.others a ha).trans (h.rx_others a ha)
  have hgrants := h.transcript.grants
  have hanswers := h.transcript.answers
  rw [if_pos rfl] at hanswers
  unfold deliver
  simp only [hwire, hdecode, hok, ok_bind]
  by_cases hlast : 255 * b + j + 1 = packetCount data.length
  · -- the last packet: the message is delivered and acknowledged
    have hblocks : blockCount data.length = b + 1 := by
      unfold blockCount
      have := h.packet_left
      omega
    obtain rfl : n = 0 := by
      unfold blockOf at hn
      omega
    rw [if_pos hlast] at hfocus ⊢
    simp only [react, List.range'_zero, List.map_nil]
    have hanswer := answer_eoma
      { l with rx := r', wire := [], delivered := l.delivered ++ [(pgn, source, data)] }
      (show data.length < 2 ^ 32 by rw [maxMessageSize_eq] at hmax; omega)
    simp only [h.tx_pgn] at hanswer
    refine ⟨_, hanswer, Or.inl ⟨hlast, hfocus.self, hothers, rfl, ?_, ?_, ?_, rfl⟩⟩
    · exact hblocks ▸ ⟨hgrants, hanswers⟩
    · simp only [h.delivered, List.nil_append]
    · simp only [h.told, hblocks]
  · have hmore : 255 * b + j + 1 < packetCount data.length := by omega
    rw [if_neg hlast] at hfocus ⊢
    by_cases hend : j + 1 = blockOf data.length b
    · -- the block is in, and the next one granted
      obtain ⟨hfull, rfl⟩ : blockOf data.length b = 255 ∧ j = 254 := by
        rcases hcases hmore with hleft | hfull
        · omega
        · exact hfull
      obtain rfl : n = 0 := by omega
      rw [if_pos hend] at hfocus ⊢
      simp only [react, List.range'_zero, List.map_nil]
      obtain ⟨l', hanswer, hsending⟩ := sending_grant (b := b + 1)
        (l := { l with rx := r', wire := [] }) h.tx_data h.tx_pgn hfocus.wf (by omega)
        hfocus.self hothers rfl ⟨hgrants, hanswers⟩ h.delivered h.told
      exact ⟨l', hanswer, Or.inr ⟨hmore, Or.inl ⟨trivial, hsending⟩⟩⟩
    · -- more of the block is on its way
      have hleft : j + 1 < blockOf data.length b := by
        have := h.packet_left
        omega
      obtain rfl : n = blockOf data.length b - (j + 1) := by omega
      rw [if_neg hend] at hfocus ⊢
      have hopen : true = false → j + 1 = 0 := by
        intro hd
        cases hd
      refine ⟨_, rfl, Or.inr ⟨hmore, Or.inr ?_⟩⟩
      exact ⟨h.tx_pgn, h.tx_data, hfocus.wf, hfocus.self, hothers, hleft, hopen,
        rfl, ⟨hgrants, by rw [if_pos rfl]; exact hanswers⟩, h.delivered, h.told⟩

/-- How many messages of a transfer are still to arrive: its packets, and
the offsets of its blocks. -/
def left (size b : Nat) (declared : Bool) (j : Nat) : Nat :=
  packetCount size - (255 * b + j) + (blockCount size - (b + if declared then 1 else 0))

/-- **From any point of the transfer, delivering the messages left
finishes it**, and nothing happens after that. -/
theorem sending_drive {n : Nat} (h : Sending source pgn data r b declared j l)
    (hn : left data.length b declared j = n) :
    ∃ l', (∀ fuel, n ≤ fuel → drive source fuel l = .ok l') ∧ Finished source pgn data r l' := by
  induction n generalizing l b declared j with
  | zero =>
    -- some packet is left
    have hlt := (blockOf_cases h.packet_left).1
    unfold left at hn
    omega
  | succ n ih =>
    -- one delivery, and then the rest
    have hfirst : ∀ {l₁ l' : Link N SESSIONS}, l.deliver source = .ok l₁ →
        (∀ fuel, n ≤ fuel → drive source fuel l₁ = .ok l') →
        ∀ fuel, n + 1 ≤ fuel → drive source fuel l = .ok l' := by
      intro l₁ l' hdeliver hrest fuel hfuel
      obtain ⟨fuel, rfl⟩ : ∃ k, fuel = k + 1 := ⟨fuel - 1, by omega⟩
      unfold drive
      rw [hdeliver, ok_bind]
      exact hrest fuel (by omega)
    have hblock := lt_blockCount.mpr (show 255 * b < packetCount data.length by
      have := (blockOf_cases h.packet_left).1
      omega)
    unfold left at hn
    cases declared with
    | false =>
      obtain ⟨l₁, hdeliver, h₁⟩ := sending_offset h
      have hj : j = 0 := h.undeclared rfl
      simp only [Bool.false_eq_true, if_false] at hn
      obtain ⟨l', hdrive, hfin⟩ := ih h₁ (by unfold left; rw [if_pos rfl]; omega)
      exact ⟨l', hfirst hdeliver hdrive, hfin⟩
    | true =>
      obtain ⟨l₁, hdeliver, h₁⟩ := sending_packet h
      rw [if_pos rfl] at hn
      rcases h₁ with ⟨-, hfin⟩ | ⟨hmore, ⟨hend, h₁⟩ | h₁⟩
      · -- that was the last packet
        exact ⟨l₁, hfirst hdeliver fun fuel _ => drive_of_wire_nil source hfin.wire fuel, hfin⟩
      · have hcount : left data.length (b + 1) false 0 = n := by
          unfold left
          simp only [Bool.false_eq_true, if_false]
          omega
        obtain ⟨l', hdrive, hfin⟩ := ih h₁ hcount
        exact ⟨l', hfirst hdeliver hdrive, hfin⟩
      · have hcount : left data.length b true (j + 1) = n := by
          unfold left
          rw [if_pos rfl]
          omega
        obtain ⟨l', hdrive, hfin⟩ := ih h₁ hcount
        exact ⟨l', hfirst hdeliver hdrive, hfin⟩

end Link

/-! ## §6. Whole transfers. -/

/-- **ETP end to end.**  A payload the protocol can carry and the receiver
can hold is delivered exactly once and unchanged, in `⌈packets / 255⌉`
blocks that start at packets 1, 256, 511 and so on.  The receiver accepts
the offset of every block; the sender ends complete, and the receiver's
table is what it was before.  No call panics, and it takes no more than one
delivery for each packet and each block. -/
theorem extended_transfer_delivers {N SESSIONS : Nat} {source : Address} (pgn : Pgn)
    (data : List UInt8) {r : Reassembler N SESSIONS} (hmin : 1786 ≤ data.length)
    (hmax : data.length ≤ 117440505) (hfits : data.length ≤ N) (hr : Reachable r)
    (hfree : ∃ i, (r.slots i).session = none) (hidle : r.isReceivingFrom source = false) :
    ∃ tx l₀, ∃ l : Link N SESSIONS, Transmitter.new pgn data = .ok tx
      ∧ Link.start source tx r = .ok l₀
      ∧ (∀ fuel, packetCount data.length + (packetCount data.length + 254) / 255 ≤ fuel →
        Link.drive source fuel l₀ = .ok l)
      ∧ l.delivered = [(pgn, source, data)]
      ∧ l.grants.map Prod.snd
        = (List.range ((packetCount data.length + 254) / 255)).map (fun b => 255 * b + 1)
      ∧ l.answers = (List.range ((packetCount data.length + 254) / 255)).map (fun b =>
        (.dpo (min 255 (packetCount data.length - 255 * b)) (255 * b) pgn, .idle))
      ∧ l.told = List.replicate ((packetCount data.length + 254) / 255) .sendData ++ [.complete]
      ∧ l.tx.isComplete = true ∧ l.wire = []
      ∧ l.rx.isReceivingFrom source = false ∧ ∀ a, l.rx.transferOf a = r.transferOf a := by
  obtain ⟨tx, hnew⟩ := (Transmitter.new_ok_iff pgn data).mpr ⟨hmin, hmax⟩
  have hwf := Reachable.wf hr
  have hnone : r.transferOf source = none := by
    rcases r.slotOf_cases source with ⟨-, hnone, -⟩ | ⟨i, s, hslot, -⟩
    · exact hnone
    · rw [isReceivingFrom, hslot] at hidle
      cases hidle
  have hroom : r.room = true := by
    obtain ⟨i, hi⟩ := hfree
    unfold room freeSlot
    rw [isSome_position]
    exact ⟨i, by rw [hi, Option.isNone_none]⟩
  obtain ⟨l₀, hstart, hsending⟩ := Link.sending_open hwf hnew hfits hroom hnone
  obtain ⟨l, hdrive, hfin⟩ := Link.sending_drive hsending rfl
  refine ⟨tx, l₀, l, hnew, hstart, fun fuel hfuel => hdrive fuel ?_, hfin.delivered, ?_,
    hfin.transcript.answers, hfin.told, hfin.complete, hfin.wire, ?_, fun a => ?_⟩
  · exact hfuel
  · rw [hfin.transcript.grants, List.map_map]
    rfl
  · rcases l.rx.slotOf_cases source with ⟨hslot, -⟩ | ⟨i, s, -, -, -, -, ht⟩
    · rw [isReceivingFrom, hslot, Option.isSome_none]
    · rw [hfin.rx_transfer] at ht
      cases ht
  · by_cases ha : a = source
    · rw [ha, hfin.rx_transfer, hnone]
    · exact hfin.rx_others a ha

/-- The smallest extended message, which takes a block of 255 packets and
one of a single packet. -/
theorem extended_transfer_delivers_smallest :
    ∃ tx l₀, ∃ l : Link 1786 1, Transmitter.new .dm1 (List.replicate 1786 7) = .ok tx
      ∧ Link.start ⟨0x80⟩ tx new = .ok l₀
      ∧ Link.drive ⟨0x80⟩ 258 l₀ = .ok l
      ∧ l.delivered = [(.dm1, ⟨0x80⟩, List.replicate 1786 7)]
      ∧ l.grants.map Prod.snd = [1, 256] := by
  have hlen : (List.replicate 1786 (7 : UInt8)).length = 1786 := List.length_replicate
  obtain ⟨tx, l₀, l, hnew, hstart, hdrive, hdelivered, hgrants, -⟩ :=
    @extended_transfer_delivers 1786 1 ⟨0x80⟩ .dm1 (List.replicate 1786 7)
      new (le_of_eq hlen.symm) (by rw [hlen]; decide) (le_of_eq hlen) ⟨[], [], rfl⟩ ⟨0, rfl⟩ rfl
  rw [hlen] at hdrive hgrants
  exact ⟨tx, l₀, l, hnew, hstart, hdrive 258 (by decide), hdelivered, hgrants⟩

end SaeJ1939.Etp
