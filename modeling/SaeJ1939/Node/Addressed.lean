/-
  SaeJ1939.Node.Addressed — a long message to one ECU, move by move
  (`node.rs`, `Outgoing` and `Node::on_frame`).

  A transfer between two ECUs is a request to send, one grant for all of
  its packets, the packets, and an acknowledgement.  Each end moves on by
  exactly the frames of the other; frames of a transfer the other way
  leave the sending end alone.

  Main results:
    * `Outgoing.Sends.announce`, `Sends.grant`, `Sends.acknowledge` — the
      moves of the sender.
    * `Outgoing.onFrame_request`, `onFrame_packetTo` — a sender does not
      heed the frames of a transfer the other way.
    * `Node.receives_request`, `receives_packet` — the moves of the
      receiver.
-/
import SaeJ1939.Node.Delivery
import SaeJ1939.Tp.Handshake

namespace SaeJ1939

open Checked Chunks Tp

/-! ## §1. The frames of a transfer. -/

/-- A transport-protocol frame from one ECU to another. -/
def tpFrame (group : Pgn) (source destination : Address) (payload : Payload) : Frame :=
  Frame.fromPayload ⟨Id.assemble .lowest group destination source, Id.assemble_le ..⟩ payload

variable {group : Pgn} {source destination : Address} {payload : Payload}

theorem fromParts_tpFrame (h : group.isPdu1 = true) :
    Id.fromParts .lowest group destination source
      = .ok (tpFrame group source destination payload).id :=
  Id.fromParts_of_pdu1 h

theorem pgn_tpFrame (h : group.isPdu1 = true) :
    (tpFrame group source destination payload).pgn = group :=
  Id.pgn_fromParts (fromParts_tpFrame h)

theorem sourceAddress_tpFrame (h : group.isPdu1 = true) :
    (tpFrame group source destination payload).sourceAddress = source :=
  Id.sourceAddress_fromParts (fromParts_tpFrame h)

theorem destinationAddress_tpFrame (h : group.isPdu1 = true) :
    (tpFrame group source destination payload).id.destinationAddress = some destination :=
  Id.destinationAddress_fromParts (fromParts_tpFrame h) h

theorem isPdu1_tpCm : Pgn.tpCm.isPdu1 = true := rfl

theorem isPdu1_tpDt : Pgn.tpDt.isPdu1 = true := rfl

/-- The identifier an outgoing message gives such a frame. -/
theorem tpId_tpFrame (h : group.isPdu1 = true) (payload : Payload) :
    (tpId group destination source).map (fun id => Frame.fromPayload id payload)
      = some (tpFrame group source destination payload) := by
  unfold tpId
  rw [Id.fromParts_of_pdu1 h]
  rfl

theorem isAddressedTo_tpFrame (h : group.isPdu1 = true) :
    (tpFrame group source destination payload).id.isAddressedTo destination = true := by
  unfold Id.isAddressedTo
  rw [destinationAddress_tpFrame h]
  simp only [beq_self_eq_true, Bool.or_true]

namespace Sent

/-- The request to send a message. -/
def request (m : Sent) (destination : Address) : Frame :=
  tpFrame .tpCm m.source destination
    (TpCm.rts m.data.length (packetCount m.data.length) 0xFF m.pgn).encode

/-- The grant of all its packets. -/
def grant (m : Sent) (destination : Address) : Frame :=
  tpFrame .tpCm destination m.source (TpCm.cts (packetCount m.data.length) 1 m.pgn).encode

/-- The packet with sequence number `i`. -/
def packetTo (m : Sent) (destination : Address) (i : Nat) : Frame :=
  tpFrame .tpDt m.source destination (Transmitter.packetOf m.data i).encode

/-- The acknowledgement of the whole message. -/
def acknowledgement (m : Sent) (destination : Address) : Frame :=
  tpFrame .tpCm destination m.source
    (TpCm.endOfMsgAck m.data.length (packetCount m.data.length) m.pgn).encode

/-- A message the transport protocol carries. -/
structure Long (m : Sent) : Prop where
  size_ge : minMessageSize ≤ m.data.length
  size_le : m.data.length ≤ maxMessageSize

variable {m : Sent}

/-- How many packets a message has. -/
abbrev packets (m : Sent) : Nat := packetCount m.data.length

theorem Long.packets_bounds (h : m.Long) :
    2 ≤ m.packets ∧ m.packets ≤ 255 ∧ 7 * (m.packets - 1) < m.data.length
      ∧ m.data.length ≤ 7 * m.packets :=
  packetCount_bounds h.size_ge h.size_le

theorem Long.length_lt (h : m.Long) : m.data.length < 2 ^ 16 := by
  have hle := h.size_le
  unfold maxMessageSize at hle
  omega

theorem Long.decode_request (h : m.Long) : TpCm.decode (m.request destination).payload
    = .ok (.rts m.data.length m.packets 0xFF m.pgn) :=
  TpCm.decode_encode (.rts ..) ⟨h.length_lt, packetCount_lt _, by decide⟩

theorem decode_grant (m : Sent) : TpCm.decode (m.grant destination).payload
    = .ok (.cts m.packets 1 m.pgn) :=
  TpCm.decode_encode (.cts ..) ⟨packetCount_lt _, by decide⟩

theorem Long.decode_acknowledgement (h : m.Long) :
    TpCm.decode (m.acknowledgement destination).payload
      = .ok (.endOfMsgAck m.data.length m.packets m.pgn) :=
  TpCm.decode_encode (.endOfMsgAck ..) ⟨h.length_lt, packetCount_lt _⟩

theorem decode_packetTo (m : Sent) {i : Nat} (h : i < 256) :
    TpDt.decode (m.packetTo destination i).payload = Transmitter.packetOf m.data i :=
  TpDt.decode_encode h

end Sent

/-! ## §2. The sender. -/

/-- `o` is a transfer of the message `m`, about to send the packet `next`
with `window` of them granted. -/
structure Outgoing.Sends (o : Outgoing) (m : Sent) (destination : Address) (announced : Bool)
    (next window : Nat) (complete : Bool) : Prop where
  source : o.source = m.source
  destination : o.destination = destination
  multi : ∃ tx, o.state = .multi tx announced ∧ tx.pgn = m.pgn ∧ tx.data = m.data
    ∧ tx.broadcast = false ∧ tx.maxPacketsPerCts = 0xFF ∧ tx.nextSequence = next
    ∧ tx.windowRemaining = window ∧ tx.complete = complete

namespace Outgoing

variable {o : Outgoing} {m : Sent} {announced complete : Bool} {next window : Nat}

/-- A long message to one ECU is a transfer that has not begun. -/
theorem sends_new (hm : m.Long) (hdest : destination.isBroadcast = false) :
    ∃ o, new m.pgn m.source destination m.data = .ok o
      ∧ o.Sends m destination false 1 0 false := by
  have hmin := hm.size_ge
  have hmax := hm.size_le
  have hlong : ¬ m.data.length ≤ Frame.maxPayload := by
    unfold minMessageSize at hmin
    unfold Frame.maxPayload
    omega
  have hbad : ¬ (m.data.length < minMessageSize ∨ m.data.length > maxMessageSize) := by omega
  unfold new Transmitter.addressed Transmitter.build
  rw [if_neg hlong, hdest, if_neg Bool.false_ne_true, dif_neg hbad]
  exact ⟨_, rfl, rfl, rfl, _, rfl, rfl, rfl, rfl, rfl, rfl, rfl, rfl⟩

theorem Sends.isComplete (h : o.Sends m destination announced next window complete) :
    o.isComplete = complete := by
  obtain ⟨tx, hstate, -, -, -, -, -, -, hcomplete⟩ := h.multi
  unfold Outgoing.isComplete
  rw [hstate]
  exact hcomplete

/-- Nothing comes out of a closed window. -/
theorem Sends.nextFrame_closed (h : o.Sends m destination true next 0 complete) :
    o.nextFrame = .ok (none, o) := by
  obtain ⟨tx, hstate, -, -, -, -, -, hwindow, -⟩ := h.multi
  have hnone : tx.nextPacket = .ok (none, tx) := if_pos (Or.inl hwindow)
  unfold Outgoing.nextFrame
  simp only [hstate, Bool.not_true, Bool.false_eq_true, if_false, hnone, ok_bind, pure_eq_ok,
    Option.bind_none]
  rw [← hstate]

/-- The announcement is a request to send. -/
theorem Sends.nextFrame_request (h : o.Sends m destination false next window complete) :
    ∃ o', o.nextFrame = .ok (some (m.request destination), o')
      ∧ o'.Sends m destination true next window complete := by
  obtain ⟨tx, hstate, hpgn, hdata, hbc, hlimit, hnext, hwindow, hcomplete⟩ := h.multi
  have hpackets := tx.packets_eq
  rw [hdata] at hpackets
  have hstart : tx.start = .rts m.data.length m.packets 0xFF m.pgn := by
    unfold Transmitter.start
    rw [if_neg (by rw [hbc]; exact Bool.false_ne_true), hdata, hpackets, hlimit, hpgn]
  unfold Outgoing.nextFrame
  simp only [hstate, Bool.not_false, if_true, hstart, tpId_tpFrame isPdu1_tpCm, h.source,
    h.destination]
  exact ⟨_, rfl, rfl, rfl, tx, rfl, hpgn, hdata, hbc, hlimit, hnext, hwindow, hcomplete⟩

/-- A packet that is granted is the next frame. -/
theorem Sends.nextFrame_packet (h : o.Sends m destination true next (window + 1) complete)
    (hnext₁ : 1 ≤ next) (hnext₂ : next ≤ m.packets) :
    ∃ o', o.nextFrame = .ok (some (m.packetTo destination next), o')
      ∧ o'.Sends m destination true (next + 1) window complete := by
  obtain ⟨tx, hstate, hpgn, hdata, hbc, hlimit, rfl, hwindow, hcomplete⟩ := h.multi
  have hpackets := tx.packets_eq
  rw [hdata] at hpackets
  have hpacket := Transmitter.nextPacket_some hnext₁ (hpackets ▸ hnext₂) (by omega)
  unfold Outgoing.nextFrame
  simp only [hstate, Bool.not_true, Bool.false_eq_true, if_false, hpacket, ok_bind, pure_eq_ok,
    Option.bind_some, tpId_tpFrame isPdu1_tpDt, h.source, h.destination, hdata]
  refine ⟨_, rfl, rfl, rfl, _, rfl, hpgn, rfl, hbc, hlimit, rfl, ?_, ?_⟩
  · show tx.windowRemaining - 1 = window
    omega
  · -- an addressed transfer waits for its acknowledgement
    show (tx.complete || (tx.broadcast && decide (tx.nextSequence + 1 > tx.packets))) = complete
    rw [hbc, Bool.false_and, Bool.or_false, hcomplete]

/-- **Announcing a transfer** puts its request to send on the bus, and
nothing else. -/
theorem Sends.announce {fuel : Nat} (h : o.Sends m destination false next 0 complete)
    (hfuel : 1 < fuel) :
    ∃ o', drain fuel o = .ok ([m.request destination], o')
      ∧ o'.Sends m destination true next 0 complete := by
  obtain ⟨fuel, rfl⟩ : ∃ k, fuel = k + 2 := Nat.exists_eq_add_of_le' hfuel
  obtain ⟨o', hframe, h'⟩ := h.nextFrame_request
  exact ⟨o', drain_some hframe (drain_none h'.nextFrame_closed), h'⟩

/-- **A granted window is drained** into exactly its packets. -/
theorem Sends.drain {fuel : Nat} (h : o.Sends m destination true next window complete)
    (hnext : 1 ≤ next) (hfit : next + window ≤ m.packets + 1) (hfuel : window < fuel) :
    ∃ o', Outgoing.drain fuel o = .ok ((List.range' next window).map (m.packetTo destination), o')
      ∧ o'.Sends m destination true (next + window) 0 complete := by
  induction window generalizing o next fuel with
  | zero =>
    obtain ⟨fuel, rfl⟩ := Nat.exists_eq_succ_of_ne_zero (Nat.ne_of_gt hfuel)
    exact ⟨o, drain_none h.nextFrame_closed, h⟩
  | succ window ih =>
    obtain ⟨fuel, rfl⟩ := Nat.exists_eq_succ_of_ne_zero (Nat.ne_zero_of_lt hfuel)
    obtain ⟨o₁, hframe, h₁⟩ := h.nextFrame_packet hnext (by omega)
    obtain ⟨o', hrest, h'⟩ := ih h₁ (by omega) (by omega) (Nat.lt_of_succ_lt_succ hfuel)
    refine ⟨o', ?_, ?_⟩
    · rw [List.range'_succ, List.map_cons]
      exact drain_some hframe hrest
    · rw [Nat.add_comm window 1, ← Nat.add_assoc]
      exact h'

/-- Connection management of the destination reaches the transmitter. -/
theorem Sends.onFrame {cm : TpCm} {frame : Frame} (told : Tx)
    (h : o.Sends m destination announced next window complete) (hpgn : frame.pgn = .tpCm)
    (hsrc : frame.sourceAddress = destination) (hdecode : TpCm.decode frame.payload = .ok cm)
    {next' window' : Nat} {complete' : Bool}
    (hcm : ∀ tx : Transmitter, tx.pgn = m.pgn → tx.data = m.data → tx.broadcast = false →
      tx.maxPacketsPerCts = 0xFF → tx.nextSequence = next → tx.windowRemaining = window →
      tx.complete = complete → ∃ tx', tx.onTpCm cm = .ok (told, tx') ∧ tx'.pgn = m.pgn
        ∧ tx'.data = m.data ∧ tx'.broadcast = false ∧ tx'.maxPacketsPerCts = 0xFF
        ∧ tx'.nextSequence = next' ∧ tx'.windowRemaining = window' ∧ tx'.complete = complete') :
    ∃ o', o.onFrame frame = .ok (progressOf told, o')
      ∧ o'.Sends m destination announced next' window' complete' := by
  obtain ⟨tx, hstate, h₁, h₂, h₃, h₄, h₅, h₆, h₇⟩ := h.multi
  obtain ⟨tx', hok, htx'⟩ := hcm tx h₁ h₂ h₃ h₄ h₅ h₆ h₇
  have hheed : ¬ (frame.pgn ≠ .tpCm ∨ frame.sourceAddress ≠ o.destination) := by
    rw [hpgn, hsrc, h.destination]
    simp
  unfold Outgoing.onFrame
  simp only [hstate, if_neg hheed, hdecode, hok, ok_bind, pure_eq_ok]
  exact ⟨_, rfl, h.source, h.destination, tx', rfl, htx'⟩

/-- **The grant opens the window** for the whole message. -/
theorem Sends.grant (h : o.Sends m destination true 1 0 false) (hm : m.Long) :
    ∃ o', o.onFrame (m.grant destination) = .ok (.ready, o')
      ∧ o'.Sends m destination true 1 m.packets false := by
  have hb := hm.packets_bounds
  refine h.onFrame .sendData (pgn_tpFrame isPdu1_tpCm) (sourceAddress_tpFrame isPdu1_tpCm)
    m.decode_grant ?_
  intro tx hpgn hdata hbc hlimit _ _ hcomplete
  have hpackets : tx.packets = m.packets := by rw [tx.packets_eq, hdata]
  have hcts : tx.onTpCm (.cts m.packets 1 tx.pgn) = _ :=
    tx.onTpCm_cts (by omega) (Nat.le_refl 1) (by omega)
  rw [hpgn] at hcts
  refine ⟨_, hcts, rfl, hdata, hbc, hlimit, rfl, ?_, hcomplete⟩
  show min m.packets (tx.packets - 1 + 1) = m.packets
  omega

/-- **The acknowledgement completes the transfer.** -/
theorem Sends.acknowledge (h : o.Sends m destination true next window complete) (hm : m.Long) :
    ∃ o', o.onFrame (m.acknowledgement destination) = .ok (.complete, o')
      ∧ o'.Sends m destination true next window true := by
  refine h.onFrame .complete (pgn_tpFrame isPdu1_tpCm) (sourceAddress_tpFrame isPdu1_tpCm)
    hm.decode_acknowledgement ?_
  intro tx hpgn hdata hbc hlimit hnext hwindow _
  refine ⟨{ tx with complete := true }, ?_, hpgn, hdata, hbc, hlimit, hnext, hwindow, rfl⟩
  unfold Transmitter.onTpCm
  rw [if_neg (by rw [hpgn]; exact fun h => h rfl)]

/-- **A sender does not heed a request** of a transfer the other way, even
for the same group. -/
theorem onFrame_request {m' : Sent} (o : Outgoing) (hm : m'.Long) (destination : Address) :
    o.onFrame (m'.request destination) = .ok (.idle, o) := by
  apply onFrame_not_heeded
  unfold heeds
  cases o.state with
  | single => rfl
  | multi tx announced =>
    simp only [hm.decode_request, Transmitter.isDrivenBy, Bool.and_false]

/-- Nor a packet. -/
theorem onFrame_packetTo {m' : Sent} (o : Outgoing) (destination : Address) (i : Nat) :
    o.onFrame (m'.packetTo destination i) = .ok (.idle, o) := by
  apply onFrame_not_heeded
  unfold heeds
  cases o.state with
  | single => rfl
  | multi tx announced =>
    have hpgn : ((m'.packetTo destination i).pgn == .tpCm) = false := by
      rw [Sent.packetTo, pgn_tpFrame isPdu1_tpDt]
      decide
    simp only [hpgn, Bool.false_and]

end Outgoing

/-! ## §3. The receiver. -/

namespace Node

variable {BUF SESSIONS : Nat} {n : Node BUF SESSIONS} {m : Sent} {k : Nat}

/-- The receiver holds the first `k` packets of a message, and all of its
packets are granted. -/
def Receiving (n : Node BUF SESSIONS) (m : Sent) (k : Nat) : Prop :=
  n.reassembler.transferOf m.source
    = some ⟨Link.sessionAt m.source m.pgn m.data 0xFF k (m.packets - k) 0, m.data.take (7 * k)⟩

/-- `n'` is `n` with another transfer, at most, of the peer `source`. -/
structure MovesFor (n n' : Node BUF SESSIONS) (source : Address) : Prop where
  wf : n'.WF
  claimer : n'.claimer = n.claimer
  others : ∀ a, a ≠ source → n'.reassembler.transferOf a = n.reassembler.transferOf a

/-- **A request to send is granted**, when there is room for it. -/
theorem receives_request (h : n.WF) (hm : m.Long) (hfits : m.data.length ≤ BUF)
    (hglobal : n.address.isBroadcast = false) (hroom : n.reassembler.room m.source = true)
    (hnone : n.reassembler.transferOf m.source = none) :
    ∃ n', n.onFrame (m.request n.address) = .ok (.transmit (m.grant n.address), n')
      ∧ n.MovesFor n' m.source ∧ n'.Receiving m 0 := by
  have hb := hm.packets_bounds
  have hrts : isBroadcastRts (m.request n.address)
      (.rts m.data.length m.packets 0xFF m.pgn) = false := by
    show Id.isBroadcast _ = false
    unfold Id.isBroadcast
    rw [Sent.request, destinationAddress_tpFrame isPdu1_tpCm]
    exact hglobal
  have hroute : n.route (m.request n.address)
      = .connection (.rts m.data.length m.packets 0xFF m.pgn) :=
    route_connection (isAddressedTo_tpFrame isPdu1_tpCm) (pgn_tpFrame isPdu1_tpCm)
      hm.decode_request hrts
  have hvalid : validAnnouncement m.data.length m.packets = true :=
    Reassembler.validAnnouncement_iff.mpr ⟨hm.size_ge, hm.size_le, rfl⟩
  obtain ⟨n', hok, hwf, hclaimer, hfocus⟩ := onFrame_connection h hroute
  have hsrc : (m.request n.address).sourceAddress = m.source :=
    sourceAddress_tpFrame isPdu1_tpCm
  rw [hsrc, hnone] at hok hfocus
  simp only [Transfer.onCm, hvalid, Bool.not_true, Bool.false_eq_true, if_false,
    not_lt.mpr hfits, Option.any_none, hroom, if_true] at hok hfocus
  -- the sender states no limit, so all packets are granted at once
  have hwindow : grantWindow m.packets 0xFF = m.packets := rfl
  rw [hwindow] at hok hfocus
  simp only [lift] at hok
  refine ⟨n', hok, ⟨hwf, hclaimer, hfocus.others⟩, ?_⟩
  unfold Receiving
  rw [hfocus.self, Nat.sub_zero]
  rfl

/-- **A packet extends what is held**, and the last one delivers the
message and is acknowledged. -/
theorem receives_packet (h : n.WF) (hm : m.Long) (hk : k < m.packets) (hrec : n.Receiving m k) :
    ∃ n', n.MovesFor n' m.source
      ∧ (k + 1 < m.packets →
        n.onFrame (m.packetTo n.address (k + 1)) = .ok (.idle, n') ∧ n'.Receiving m (k + 1))
      ∧ (k + 1 = m.packets →
        n.onFrame (m.packetTo n.address (k + 1))
            = .ok (.message m.pgn m.source m.data (some (m.acknowledgement n.address)), n')
          ∧ n'.reassembler.transferOf m.source = none) := by
  have hb := hm.packets_bounds
  have hroute : n.route (m.packetTo n.address (k + 1))
      = .data (TpDt.decode (m.packetTo n.address (k + 1)).payload) :=
    route_data (isAddressedTo_tpFrame isPdu1_tpDt) (pgn_tpFrame isPdu1_tpDt)
  rw [m.decode_packetTo (by omega)] at hroute
  obtain ⟨n', hok, hwf, hclaimer, hfocus⟩ := onFrame_data h hroute
  have hsrc : (m.packetTo n.address (k + 1)).sourceAddress = m.source :=
    sourceAddress_tpFrame isPdu1_tpDt
  rw [hsrc, hrec, Link.onDt_packetOf hk hm.size_ge hm.size_le] at hok hfocus
  refine ⟨n', ⟨hwf, hclaimer, hfocus.others⟩, ?_, ?_⟩
  · intro hmore
    have hopen : ¬ m.packets - k - 1 = 0 := by omega
    rw [if_neg (Nat.ne_of_lt hmore), if_neg hopen] at hok hfocus
    exact ⟨hok, hfocus.self⟩
  · intro hlast
    rw [if_pos hlast] at hok hfocus
    simp only [lift, Option.bind_some] at hok
    exact ⟨hok, hfocus.self⟩

end Node

end SaeJ1939
