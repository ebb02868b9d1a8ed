/-
  SaeJ1939.Node.Delivery — a message to everybody, from its sender to the
  application of a receiver (`node.rs`, `Outgoing` and `Node::on_frame`).

  A short message is one frame.  A long one is an announcement and its
  packets, in order; the receiver holds the beginning of the message after
  every packet but the last, and delivers it with that one.

  Main results:
    * `Outgoing.Broadcasts.drain` — pulling frames yields exactly the
      packets that are left.
    * `Node.Hearing.run` — hearing them delivers the message.
    * `outgoing_delivers` — every message to everybody that the protocol
      can carry and the receiver can hold is delivered once and unchanged.
-/
import SaeJ1939.Node.Outgoing

namespace SaeJ1939

open Checked Chunks Tp

/-! ## §1. Pulling frames. -/

namespace Outgoing

/-- How many frames this message will take in total. -/
def frameCount (o : Outgoing) : Nat :=
  match o.state with
  | .single .. => 1
  -- the announcement plus one frame per packet
  | .multi transmitter _ => 1 + transmitter.packets

/-- `while let Some(frame) = o.next_frame()`: pull frames until there are
none, for at most `fuel` frames. -/
def drain : Nat → Outgoing → Exec (List Frame × Outgoing)
  | 0, o => .ok ([], o)
  | fuel + 1, o => do
      match ← o.nextFrame with
      | (none, o) => return ([], o)
      | (some frame, o) => do
          let (frames, o) ← drain fuel o
          return (frame :: frames, o)

variable {o o' : Outgoing} {fuel : Nat}

theorem drain_none (h : o.nextFrame = .ok (none, o')) : drain (fuel + 1) o = .ok ([], o') := by
  simp only [drain, h, ok_bind, pure_eq_ok]

theorem drain_some {frame : Frame} (h : o.nextFrame = .ok (some frame, o'))
    {frames : List Frame} {o'' : Outgoing} (hrest : drain fuel o' = .ok (frames, o'')) :
    drain (fuel + 1) o = .ok (frame :: frames, o'') := by
  simp only [drain, h, ok_bind, hrest, pure_eq_ok]

end Outgoing

/-! ## §2. What goes out. -/

/-- The announcement of a message to everybody. -/
def Sent.announcement (m : Sent) : Frame :=
  Frame.fromPayload (Id.broadcast .lowest .tpCm m.source)
    (TpCm.bam m.data.length (packetCount m.data.length) m.pgn).encode

/-- The packet with sequence number `i` of a message to everybody. -/
def Sent.packet (m : Sent) (i : Nat) : Frame :=
  Frame.fromPayload (Id.broadcast .lowest .tpDt m.source) (Transmitter.packetOf m.data i).encode

/-- `o` is a broadcast of the message `m` that was announced, and has sent
the first `k` packets. -/
structure Outgoing.Broadcasts (o : Outgoing) (m : Sent) (k : Nat) : Prop where
  source : o.source = m.source
  destination : o.destination = Address.global
  multi : ∃ tx, o.state = .multi tx true ∧ tx.pgn = m.pgn ∧ tx.data = m.data
    ∧ tx.broadcast = true ∧ tx.nextSequence = k + 1 ∧ tx.windowRemaining = tx.packets - k
    ∧ tx.complete = decide (k = tx.packets)

namespace Outgoing

variable {o : Outgoing} {m : Sent} {k : Nat}

/-- A transport-protocol frame to everybody. -/
theorem tpId_global (group : Pgn) (source : Address) :
    tpId group Address.global source = some (Id.broadcast .lowest group source) := by
  unfold tpId
  rw [Id.fromParts_global]

/-- A packet that is left is the next frame. -/
theorem Broadcasts.nextFrame (h : o.Broadcasts m k) (hk : k < packetCount m.data.length) :
    ∃ o', o.nextFrame = .ok (some (m.packet (k + 1)), o') ∧ o'.Broadcasts m (k + 1) := by
  obtain ⟨tx, hstate, hpgn, hdata, hbc, hnext, hwindow, hcomplete⟩ := h.multi
  have hpackets := tx.packets_eq
  rw [hdata] at hpackets
  have hsequence : 1 ≤ tx.nextSequence := by omega
  have hpacket := Transmitter.nextPacket_some hsequence (by omega) (by omega)
  rw [hnext] at hpacket
  unfold Outgoing.nextFrame
  simp only [hstate, Bool.not_true, Bool.false_eq_true, if_false, hpacket, ok_bind, pure_eq_ok,
    h.destination, tpId_global, Option.bind_some, Option.map_some, h.source, hdata]
  refine ⟨_, rfl, ⟨rfl, rfl, _, rfl, hpgn, rfl, hbc, rfl, ?_, ?_⟩⟩
  · show tx.windowRemaining - 1 = tx.packets - (k + 1)
    omega
  · -- the flag goes up with the last packet
    show (tx.complete || (tx.broadcast && decide (k + 1 + 1 > tx.packets)))
      = decide (k + 1 = tx.packets)
    rw [hcomplete, hbc, Bool.true_and, decide_eq_false (by omega), Bool.false_or]
    exact decide_eq_decide.mpr (by omega)

/-- After the last packet there is nothing left, and the message is
complete. -/
theorem Broadcasts.done (h : o.Broadcasts m (packetCount m.data.length)) :
    o.nextFrame = .ok (none, o) ∧ o.isComplete = true := by
  obtain ⟨tx, hstate, -, hdata, -, hnext, hwindow, hcomplete⟩ := h.multi
  have hpackets := tx.packets_eq
  rw [hdata] at hpackets
  have hnone : tx.nextPacket = .ok (none, tx) := if_pos (Or.inl (by omega))
  constructor
  · unfold Outgoing.nextFrame
    simp only [hstate, Bool.not_true, Bool.false_eq_true, if_false, hnone, ok_bind, pure_eq_ok,
      Option.bind_none]
    rw [← hstate]
  · rw [isComplete, hstate]
    show tx.complete = true
    rw [hcomplete, hpackets, decide_eq_true rfl]

/-- **Pulling frames yields exactly the packets that are left.** -/
theorem Broadcasts.drain {left : Nat} (h : o.Broadcasts m k)
    (hleft : k + left = packetCount m.data.length) :
    ∃ o', (∀ fuel, left < fuel →
        Outgoing.drain fuel o = .ok ((List.range' (k + 1) left).map m.packet, o'))
      ∧ o'.nextFrame = .ok (none, o') ∧ o'.isComplete = true := by
  induction left generalizing o k with
  | zero =>
    subst hleft
    refine ⟨o, fun fuel hfuel => ?_, h.done⟩
    obtain ⟨fuel, rfl⟩ := Nat.exists_eq_succ_of_ne_zero (Nat.ne_of_gt hfuel)
    exact drain_none h.done.1
  | succ left ih =>
    obtain ⟨o₁, hframe, h₁⟩ := h.nextFrame (by omega)
    obtain ⟨o', hdrain, hdone⟩ := ih h₁ (by omega)
    refine ⟨o', fun fuel hfuel => ?_, hdone⟩
    obtain ⟨fuel, rfl⟩ := Nat.exists_eq_succ_of_ne_zero (Nat.ne_zero_of_lt hfuel)
    rw [List.range'_succ, List.map_cons]
    exact drain_some hframe (hdrain fuel (Nat.lt_of_succ_lt_succ hfuel))

/-- **A long message to everybody** goes out as its announcement and its
packets. -/
theorem drain_broadcast (m : Sent) (hmin : minMessageSize ≤ m.data.length)
    (hmax : m.data.length ≤ maxMessageSize) :
    ∃ o, new m.pgn m.source Address.global m.data = .ok o
      ∧ o.frameCount = 1 + packetCount m.data.length
      ∧ ∃ o', (∀ fuel, o.frameCount < fuel → Outgoing.drain fuel o
          = .ok (m.announcement :: (List.range' 1 (packetCount m.data.length)).map m.packet, o'))
        ∧ o'.nextFrame = .ok (none, o') ∧ o'.isComplete = true := by
  obtain ⟨tx, htx, hpgn, hdata, hbc, hnext, hwindow, hcomplete⟩ :
      ∃ tx, Transmitter.broadcastOf m.pgn m.data = .ok tx ∧ tx.pgn = m.pgn ∧ tx.data = m.data
        ∧ tx.broadcast = true ∧ tx.nextSequence = 1 ∧ tx.windowRemaining = tx.packets
        ∧ tx.complete = false := by
    unfold Transmitter.broadcastOf Transmitter.build
    rw [dif_neg (by omega)]
    exact ⟨_, rfl, rfl, rfl, rfl, rfl, rfl, rfl⟩
  have hpackets := tx.packets_eq
  have hpos := tx.packets_pos
  rw [hdata] at hpackets
  have hlong : ¬ m.data.length ≤ Frame.maxPayload := by
    unfold minMessageSize at hmin
    unfold Frame.maxPayload
    omega
  have hnew : new m.pgn m.source Address.global m.data
      = .ok ⟨m.pgn, .default, m.source, Address.global, .multi tx false⟩ := by
    unfold new
    rw [if_neg hlong, if_pos (Address.isBroadcast_iff.mpr rfl), htx]
    rfl
  have hcount : frameCount ⟨m.pgn, .default, m.source, Address.global, .multi tx false⟩
      = 1 + packetCount m.data.length := by
    rw [← hpackets]
    rfl
  -- the announcement, and the state it leaves behind
  have hstart : tx.start = .bam m.data.length (packetCount m.data.length) m.pgn := by
    unfold Transmitter.start
    rw [if_pos hbc, hdata, hpackets, hpgn]
  have hannounce : nextFrame ⟨m.pgn, .default, m.source, Address.global, .multi tx false⟩
      = .ok (some m.announcement, ⟨m.pgn, .default, m.source, Address.global, .multi tx true⟩) := by
    simp only [Outgoing.nextFrame, Bool.not_false, if_true, tpId_global, Option.map_some, hstart]
    rfl
  have hbroadcasts :
      Broadcasts ⟨m.pgn, .default, m.source, Address.global, .multi tx true⟩ m 0 := by
    refine ⟨rfl, rfl, tx, rfl, hpgn, hdata, hbc, hnext, hwindow, ?_⟩
    rw [hcomplete, decide_eq_false (by omega)]
  obtain ⟨o', hdrain, hdone⟩ := hbroadcasts.drain (Nat.zero_add _)
  refine ⟨_, hnew, hcount, o', fun fuel hfuel => ?_, hdone⟩
  rw [hcount] at hfuel
  obtain ⟨fuel, rfl⟩ := Nat.exists_eq_succ_of_ne_zero (Nat.ne_zero_of_lt hfuel)
  exact drain_some hannounce (hdrain fuel (by omega))

/-- **A short message to everybody** goes out as one frame. -/
theorem drain_single (m : Sent) (hshort : m.data.length ≤ Frame.maxPayload) :
    ∃ o f, new m.pgn m.source Address.global m.data = .ok o ∧ o.frameCount = 1
      ∧ Frame.new (Id.broadcast .default m.pgn m.source) m.data = .ok f
      ∧ ∃ o', (∀ fuel, o.frameCount < fuel → Outgoing.drain fuel o = .ok ([f], o'))
        ∧ o'.nextFrame = .ok (none, o') ∧ o'.isComplete = true := by
  obtain ⟨f, hf⟩ := Frame.new_ok (Id.broadcast .default m.pgn m.source) hshort
  have hnew : new m.pgn m.source Address.global m.data
      = .ok ⟨m.pgn, .default, m.source, Address.global, .single m.data false⟩ := by
    simp only [new, if_pos hshort, Id.fromParts_global, bind, Except.bind, hf]
    rfl
  have hframe : nextFrame ⟨m.pgn, .default, m.source, Address.global, .single m.data false⟩
      = .ok (some f, ⟨m.pgn, .default, m.source, Address.global, .single m.data true⟩) := by
    simp only [Outgoing.nextFrame, Bool.false_eq_true, if_false, Id.fromParts_global, hf]
  refine ⟨_, f, hnew, rfl, hf, ⟨m.pgn, .default, m.source, Address.global, .single m.data true⟩,
    fun fuel hfuel => ?_, rfl, rfl⟩
  obtain ⟨fuel, rfl⟩ : ∃ k, fuel = k + 2 := Nat.exists_eq_add_of_le' hfuel
  exact drain_some hframe (drain_none rfl)

end Outgoing

/-! ## §3. What comes in. -/

namespace Node

variable {BUF SESSIONS : Nat} {n : Node BUF SESSIONS} {m : Sent} {k : Nat}

/-- The receiver's session of a message to everybody, after `k` packets. -/
def hearingSession (m : Sent) (k : Nat) : Session where
  source := m.source
  pgn := m.pgn
  size := m.data.length
  packets := packetCount m.data.length
  nextSequence := k + 1
  windowRemaining := packetCount m.data.length - k
  maxPacketsPerCts := 0
  broadcast := true
  idleMs := 0

/-- **The node has heard the first `k` packets** of a message to
everybody. -/
structure Hearing (n : Node BUF SESSIONS) (m : Sent) (k : Nat) : Prop where
  wf : n.WF
  transfer : n.reassembler.transferOf m.source = some ⟨hearingSession m k, m.data.take (7 * k)⟩

theorem source_announcement (m : Sent) : m.announcement.sourceAddress = m.source :=
  Id.sourceAddress_broadcast ..

theorem source_packet (m : Sent) (i : Nat) : (m.packet i).sourceAddress = m.source :=
  Id.sourceAddress_broadcast ..

/-- The announcement opens the transfer. -/
theorem hearing_announcement (h : n.WF) (hmin : minMessageSize ≤ m.data.length)
    (hmax : m.data.length ≤ maxMessageSize) (hfits : m.data.length ≤ BUF)
    (hroom : n.reassembler.room m.source = true) :
    ∃ n', n.onFrame m.announcement = .ok (.idle, n') ∧ n'.Hearing m 0 := by
  have hdecode : TpCm.decode m.announcement.payload
      = .ok (.bam m.data.length (packetCount m.data.length) m.pgn) := by
    refine TpCm.decode_encode (.bam ..) ⟨?_, packetCount_lt _⟩
    unfold maxMessageSize at hmax
    omega
  have hroute : n.route m.announcement
      = .connection (.bam m.data.length (packetCount m.data.length) m.pgn) :=
    route_connection (Id.isAddressedTo_broadcast ..) (Id.pgn_broadcast ..) hdecode rfl
  have hvalid : validAnnouncement m.data.length (packetCount m.data.length) = true :=
    Reassembler.validAnnouncement_iff.mpr ⟨hmin, hmax, rfl⟩
  have hgood : (!validAnnouncement m.data.length (packetCount m.data.length)
      || decide (m.data.length > BUF)) = false := by
    rw [hvalid, decide_eq_false (Nat.not_lt.mpr hfits)]
    rfl
  obtain ⟨n', hok, hwf, -, hfocus⟩ := onFrame_connection h hroute
  rw [source_announcement] at hok hfocus
  simp only [Transfer.onCm, hgood, Bool.false_eq_true, if_false, hroom, if_true, lift] at hok hfocus
  exact ⟨n', hok, hwf, hfocus.self⟩

/-- **One more packet is heard**, and the last one delivers the message. -/
theorem Hearing.packet (h : n.Hearing m k) (hk : k < packetCount m.data.length)
    (hmin : minMessageSize ≤ m.data.length) (hmax : m.data.length ≤ maxMessageSize) :
    (k + 1 < packetCount m.data.length →
      ∃ n', n.onFrame (m.packet (k + 1)) = .ok (.idle, n') ∧ n'.Hearing m (k + 1))
    ∧ (k + 1 = packetCount m.data.length →
      ∃ n', n.onFrame (m.packet (k + 1)) = .ok (.message m.pgn m.source m.data none, n')) := by
  have hb := packetCount_bounds hmin hmax
  have hdecode : TpDt.decode (m.packet (k + 1)).payload = Transmitter.packetOf m.data (k + 1) :=
    TpDt.decode_encode (show k + 1 < 256 by omega)
  have hroute : n.route (m.packet (k + 1)) = .data (TpDt.decode (m.packet (k + 1)).payload) :=
    route_data (Id.isAddressedTo_broadcast ..) (Id.pgn_broadcast ..)
  rw [hdecode] at hroute
  obtain ⟨n', hok, hwf, -, hfocus⟩ := onFrame_data h.wf hroute
  rw [source_packet, h.transfer] at hok hfocus
  simp only [Transfer.onDt, hearingSession, Transmitter.packetOf, TpDt.bytes_new,
    Nat.add_sub_cancel] at hok hfocus
  simp only [TpDt.new, ne_eq, not_true_eq_false, if_false, Bool.not_true, Bool.false_eq_true]
    at hok hfocus
  constructor
  · intro hmore
    -- a packet before the last one is full
    rw [if_neg (Nat.ne_of_lt hmore)] at hok hfocus
    rw [take_append_full (by omega)] at hok hfocus
    exact ⟨n', hok, hwf, hfocus.self⟩
  · intro hlast
    -- the last one completes the message
    rw [if_pos hlast, take_append_pad (by omega) (by omega)] at hok
    exact ⟨n', hok⟩

/-- **Hearing the packets that are left delivers the message**, and nothing
before the last one. -/
theorem Hearing.run {left : Nat} (h : n.Hearing m k)
    (hleft : k + (left + 1) = packetCount m.data.length)
    (hmin : minMessageSize ≤ m.data.length) (hmax : m.data.length ≤ maxMessageSize) :
    ∃ tr n', Machine.run Node.step n
        ((List.range' (k + 1) (left + 1)).map fun i => .frame (m.packet i)) = .ok (tr, n')
      ∧ tr.map Machine.Entry.out = List.replicate left (.event .idle)
        ++ [.event (.message m.pgn m.source m.data none)] := by
  induction left generalizing n k with
  | zero =>
    obtain ⟨n', hok⟩ := (h.packet (by omega) hmin hmax).2 hleft
    refine ⟨[⟨n, .frame (m.packet (k + 1)), _, n'⟩], n', ?_, rfl⟩
    simp only [List.range'_succ, List.range'_zero, List.map_cons, List.map_nil, Machine.run,
      Node.step, hok, ok_bind, pure_eq_ok]
  | succ left ih =>
    obtain ⟨n₁, hok, h₁⟩ := (h.packet (by omega) hmin hmax).1 (by omega)
    obtain ⟨tr, n', hrun, hout⟩ := ih h₁ (by omega)
    refine ⟨⟨n, .frame (m.packet (k + 1)), .event .idle, n₁⟩ :: tr, n', ?_, ?_⟩
    · rw [List.range'_succ, List.map_cons]
      simp only [Machine.run, Node.step, hok, ok_bind, pure_eq_ok, hrun]
    · rw [List.map_cons, hout, List.replicate_succ, List.cons_append]

/-- A message of one frame that the node does not consume itself is
delivered at once. -/
theorem onFrame_single {f : Frame} {priority : Priority}
    (hf : Frame.new (Id.broadcast priority m.pgn m.source) m.data = .ok f)
    (hclaim : m.pgn ≠ .addressClaimed) (hcm : m.pgn ≠ .tpCm) (hdt : m.pgn ≠ .tpDt)
    (hrequest : ¬ (m.pgn = .request ∧ Request.decode m.data = .ok ⟨.addressClaimed⟩)) :
    n.onFrame f = .ok (.message m.pgn m.source m.data none, n) := by
  obtain ⟨hid, hdata⟩ := Frame.data_new hf
  have hpgn : f.pgn = m.pgn := by
    rw [Frame.pgn, hid]
    exact Id.pgn_broadcast ..
  have hsrc : f.sourceAddress = m.source := by
    rw [Frame.sourceAddress, hid]
    exact Id.sourceAddress_broadcast ..
  have haddr : f.id.isAddressedTo n.address = true := by
    rw [hid]
    exact Id.isAddressedTo_broadcast ..
  rw [← hpgn] at hclaim hcm hdt hrequest
  rw [← hdata] at hrequest
  rw [onFrame_eq, route_application haddr hclaim hcm hdt hrequest]
  simp only [hpgn, hsrc, hdata]

end Node

/-! ## §4. From end to end. -/

/-- **Every message to everybody is delivered once and unchanged.**  The
payload is any that the protocol can carry and the node can hold; a
payload of at most eight bytes must not be of a group the node consumes
itself.  Pulling frames yields exactly `frameCount` of them and leaves the
message complete; the node passes the message on with the last frame, with
no reply, and nothing before it. -/
theorem outgoing_delivers {BUF SESSIONS : Nat} {name : Name} {preferred : Address}
    {n : Node BUF SESSIONS} (hreach : n.Reachable name preferred) (pgn : Pgn) (source : Address)
    {data : List UInt8} (hlen : data.length ≤ 1785) (hfits : data.length ≤ BUF)
    (hfree : ∃ i, (n.reassembler.slots i).session = none)
    (hown : data.length ≤ 8 → pgn ≠ .addressClaimed ∧ pgn ≠ .tpCm ∧ pgn ≠ .tpDt
      ∧ ¬ (pgn = .request ∧ Request.decode data = .ok ⟨.addressClaimed⟩)) :
    ∃ o, Outgoing.new pgn source Address.global data = .ok o
      ∧ ∃ frames o', (∀ fuel, o.frameCount < fuel → Outgoing.drain fuel o = .ok (frames, o'))
        ∧ frames.length = o.frameCount
        ∧ o'.nextFrame = .ok (none, o') ∧ o'.isComplete = true
        ∧ ∃ tr n', Machine.run Node.step n (frames.map .frame) = .ok (tr, n')
          ∧ tr.map Machine.Entry.out = List.replicate (o.frameCount - 1) (.event .idle)
            ++ [.event (.message pgn source data none)] := by
  let m : Sent := ⟨pgn, source, data⟩
  by_cases hshort : data.length ≤ Frame.maxPayload
  · -- one frame
    obtain ⟨hclaim, hcm, hdt, hrequest⟩ := hown hshort
    obtain ⟨o, f, hnew, hcount, hf, o', hdrain, hnone, hcomplete⟩ := Outgoing.drain_single m hshort
    have hok := Node.onFrame_single (n := n) hf hclaim hcm hdt hrequest
    refine ⟨o, hnew, [f], o', hdrain, hcount.symm, hnone, hcomplete,
      [⟨n, .frame f, .event (.message pgn source data none), n⟩], n, ?_, ?_⟩
    · simp only [List.map_cons, List.map_nil, Machine.run, Node.step, hok, ok_bind, pure_eq_ok]
      rfl
    · rw [hcount]
      rfl
  · -- an announcement and its packets
    have hmin : minMessageSize ≤ data.length := by
      unfold Frame.maxPayload at hshort
      unfold minMessageSize
      omega
    obtain ⟨o, hnew, hcount, o', hdrain, hnone, hcomplete⟩ := Outgoing.drain_broadcast m hmin hlen
    have hb := packetCount_bounds hmin hlen
    obtain ⟨left, hleft⟩ : ∃ left, packetCount data.length = left + 1 :=
      Nat.exists_eq_succ_of_ne_zero (by omega)
    obtain ⟨n₁, hannounce, hhearing⟩ := Node.hearing_announcement (m := m) hreach.wf hmin hlen hfits
      (Reassembler.room_eq_true.mpr (Or.inr hfree))
    have hcount₀ : 0 + (left + 1) = packetCount m.data.length :=
      (Nat.zero_add _).trans hleft.symm
    obtain ⟨tr, n', hrun, hout⟩ := hhearing.run hcount₀ hmin hlen
    refine ⟨o, hnew, _, o', hdrain, ?_, hnone, hcomplete,
      ⟨n, .frame m.announcement, .event .idle, n₁⟩ :: tr, n', ?_, ?_⟩
    · rw [List.length_cons, List.length_map, List.length_range', hcount, Nat.add_comm]
    · have hpackets : packetCount m.data.length = left + 1 := hleft
      rw [List.map_cons, List.map_map, hpackets]
      simp only [Machine.run, Node.step, hannounce, ok_bind, pure_eq_ok]
      rw [show (Node.Input.frame ∘ m.packet) = fun i => .frame (m.packet i) from rfl, hrun]
      rfl
    · have hpackets : packetCount m.data.length = left + 1 := hleft
      rw [List.map_cons, hout, hcount, hpackets, Nat.add_sub_cancel_left, List.replicate_succ,
        List.cons_append]

/-- Nine bytes to everybody, for a node that has just been made. -/
theorem outgoing_delivers_nine_bytes :
    let data : List UInt8 := [1, 2, 3, 4, 5, 6, 7, 8, 9]
    ∃ o, Outgoing.new .dm1 ⟨0x80⟩ Address.global data = .ok o
      ∧ ∃ frames o', Outgoing.drain 4 o = .ok (frames, o') ∧ frames.length = 3
        ∧ ∃ tr n', Machine.run Node.step (Node.new ⟨1⟩ ⟨0x90⟩ : Node 16 1) (frames.map .frame)
            = .ok (tr, n')
          ∧ tr.map Machine.Entry.out
            = [.event .idle, .event .idle, .event (.message .dm1 ⟨0x80⟩ data none)] := by
  intro data
  have hreach : (Node.new ⟨1⟩ ⟨0x90⟩ : Node 16 1).Reachable ⟨1⟩ ⟨0x90⟩ := ⟨[], [], rfl⟩
  have hlen : data.length ≤ 1785 := by decide
  obtain ⟨o, hnew, frames, o', hdrain, hcount, -, -, tr, n', hrun, hout⟩ :=
    outgoing_delivers hreach .dm1 ⟨0x80⟩ hlen (by decide) ⟨0, rfl⟩ (fun h => absurd h (by decide))
  have hthree : o.frameCount = 3 := by
    have hof : (Outgoing.new .dm1 ⟨0x80⟩ Address.global data).map Outgoing.frameCount = .ok 3 := by
      decide +kernel
    rw [hnew] at hof
    exact Except.ok.inj hof
  rw [hthree] at hdrain hcount hout
  exact ⟨o, hnew, frames, o', hdrain 4 (by decide), hcount, tr, n', hrun, hout⟩

end SaeJ1939
