/-
  SaeJ1939.Node.Outgoing — a message on its way out (`node.rs`,
  `Outgoing`).

  A short message is one frame.  A longer one is a transmitter, together
  with whether its announcement has been sent; replies are fed back frame
  by frame.

  Main results:
    * `onFrame_eq_idle` — exactly the frames an outgoing message does not
      heed leave it as it is.
    * `Transfers.onFrame`, `Transfers.nextFrame` — an addressed transfer
      never panics, completes only on an acknowledgement naming its group,
      and puts only its own announcement and packets on the bus.
    * `nextFrame_emits`, `emits_global` — everything that comes out of an
      outgoing message.
-/
import SaeJ1939.Tp.Transmitter
import SaeJ1939.Node.Node

namespace SaeJ1939

open Checked Tp

/-- What an outgoing message wants next. -/
inductive Progress where
  /-- Nothing to do: wait for the peer, or for the pacing interval. -/
  | idle
  /-- More frames are ready. -/
  | ready
  /-- The whole message has been sent, and acknowledged if it needed to be. -/
  | complete
  /-- The peer aborted the transfer. -/
  | aborted (reason : AbortReason)
  deriving DecidableEq

inductive OutgoingState where
  /-- A message that fits one frame. -/
  | single (data : List UInt8) (sent : Bool)
  /-- A message crossing the transport protocol. -/
  | multi (transmitter : Transmitter) (announced : Bool)
  deriving DecidableEq

/-- A message on its way out, however many frames that takes. -/
structure Outgoing where
  pgn : Pgn
  priority : Priority
  source : Address
  destination : Address
  state : OutgoingState
  deriving DecidableEq

/-- Transport-protocol frames are of the lowest priority, so that bulk
transfers yield to control traffic. -/
def tpId (group : Pgn) (destination source : Address) : Option Id :=
  match Id.fromParts .lowest group destination source with
  | .ok id => some id
  | .error _ => none

namespace Outgoing

/-! ## §1. The methods. -/

/-- Prepare `data` for transmission: a single frame if it fits, a BAM if it
does not and goes to everybody, and an RTS/CTS handshake otherwise. -/
def new (pgn : Pgn) (source destination : Address) (data : List UInt8) : Result Outgoing :=
  if data.length ≤ Frame.maxPayload then do
    let id ← Id.fromParts .default pgn destination source
    let _ ← Frame.new id data
    return ⟨pgn, .default, source, destination, .single data false⟩
  else if destination.isBroadcast then do
    let transmitter ← Transmitter.broadcastOf pgn data
    return ⟨pgn, .default, source, destination, .multi transmitter false⟩
  else do
    let transmitter ← Transmitter.addressed pgn data
    return ⟨pgn, .default, source, destination, .multi transmitter false⟩

/-- Send the single-frame case at another priority. -/
def withPriority (o : Outgoing) (priority : Priority) : Outgoing := { o with priority }

/-- Whether the frames must be spaced out: only those of a BAM. -/
def needsPacing (o : Outgoing) : Bool :=
  match o.state with
  | .single .. => false
  | .multi transmitter _ => o.destination.isBroadcast && decide (transmitter.packets > 0)

/-- Whether everything has been sent, and acknowledged if it had to be. -/
def isComplete (o : Outgoing) : Bool :=
  match o.state with
  | .single _ sent => sent
  | .multi transmitter _ => transmitter.isComplete

/-- The next frame to put on the bus. -/
def nextFrame (o : Outgoing) : Exec (Option Frame × Outgoing) :=
  match o.state with
  | .single data sent =>
      if sent then .ok (none, o)
      else
        let o := { o with state := .single data true }
        match Id.fromParts o.priority o.pgn o.destination o.source with
        | .error _ => .ok (none, o)
        | .ok id =>
            match Frame.new id data with
            | .ok frame => .ok (some frame, o)
            | .error _ => .ok (none, o)
  | .multi transmitter announced =>
      if !announced then
        .ok ((tpId .tpCm o.destination o.source).map fun id =>
            Frame.fromPayload id transmitter.start.encode,
          { o with state := .multi transmitter true })
      else do
        let (packet, transmitter) ← transmitter.nextPacket
        return (packet.bind fun packet =>
            (tpId .tpDt o.destination o.source).map fun id => Frame.fromPayload id packet.encode,
          { o with state := .multi transmitter announced })

/-- What a transmitter wants, as progress of the message. -/
def progressOf : Tx → Progress
  | .sendData => .ready
  | .complete => .complete
  | .aborted reason => .aborted reason
  | .idle => .idle

/-- Feed back a frame received from the peer. -/
def onFrame (o : Outgoing) (frame : Frame) : Exec (Progress × Outgoing) :=
  match o.state with
  | .single .. => .ok (.idle, o)
  | .multi transmitter announced =>
      if frame.pgn ≠ .tpCm ∨ frame.sourceAddress ≠ o.destination then .ok (.idle, o)
      else
        match TpCm.decode frame.payload with
        | .error _ => .ok (.idle, o)
        | .ok cm => do
            let (told, transmitter) ← transmitter.onTpCm cm
            return (progressOf told, { o with state := .multi transmitter announced })

end Outgoing

/-! ## §2. The frames an outgoing message heeds. -/

/-- Whether a message of the receiver drives the transfer: it names the
transfer's group, and grants packets the transfer has, acknowledges the
message or aborts it. -/
def Tp.Transmitter.isDrivenBy (tx : Transmitter) (cm : TpCm) : Bool :=
  cm.pgn == tx.pgn && match cm with
    | .cts packets nextPacket _ => packets != 0 && nextPacket != 0 && nextPacket ≤ tx.packets
    | .endOfMsgAck .. | .abort .. => true
    | .rts .. | .bam .. => false

/-- A message that does not drive the transfer leaves it alone. -/
theorem Tp.Transmitter.onTpCm_not_driven {tx : Transmitter} {cm : TpCm}
    (h : tx.isDrivenBy cm = false) : tx.onTpCm cm = .ok (.idle, tx) := by
  unfold Transmitter.onTpCm
  by_cases hpgn : cm.pgn = tx.pgn
  · rw [if_neg (not_not_intro hpgn)]
    cases cm with
    | cts packets nextPacket pgn =>
      simp only [Transmitter.isDrivenBy, hpgn, beq_self_eq_true, Bool.true_and,
        Bool.and_eq_false_iff, bne_eq_false_iff_eq, decide_eq_false_iff_not] at h
      by_cases hp : packets = 0
      · simp [hp]
      · have hn : nextPacket = 0 ∨ nextPacket > tx.packets := by omega
        simp [hp, hn]
    | endOfMsgAck | abort => simp [Transmitter.isDrivenBy, hpgn] at h
    | rts | bam => rfl
  · rw [if_pos hpgn]

/-- `tx'` is a later state of the transmitter `tx`. -/
structure Tp.Transmitter.Continues (tx tx' : Transmitter) : Prop where
  pgn : tx'.pgn = tx.pgn
  data : tx'.data = tx.data
  broadcast : tx'.broadcast = tx.broadcast
  limit : tx'.maxPacketsPerCts = tx.maxPacketsPerCts
  next : 1 ≤ tx.nextSequence → 1 ≤ tx'.nextSequence

theorem Tp.Transmitter.Continues.refl (tx : Transmitter) : tx.Continues tx :=
  ⟨rfl, rfl, rfl, rfl, id⟩

/-- What a message that drives the transfer does to it: only an
acknowledgement completes it. -/
theorem Tp.Transmitter.onTpCm_driven {tx : Transmitter} {cm : TpCm}
    (h : tx.isDrivenBy cm = true) :
    ∃ told tx', tx.onTpCm cm = .ok (told, tx') ∧ told ≠ .idle ∧ tx.Continues tx'
      ∧ (tx'.complete = true →
        tx.complete = true ∨ ∃ size packets, cm = .endOfMsgAck size packets tx.pgn)
      ∧ (tx'.windowRemaining = tx.windowRemaining
        ∨ ∃ window next pgn, cm = .cts window next pgn) := by
  simp only [Transmitter.isDrivenBy, Bool.and_eq_true, beq_iff_eq] at h
  obtain ⟨hpgn, h⟩ := h
  cases cm with
  | cts packets nextPacket pgn =>
    simp only [Bool.and_eq_true, bne_iff_ne, decide_eq_true_eq] at h
    obtain ⟨⟨hp, hn⟩, hle⟩ := h
    simp only [TpCm.pgn] at hpgn
    subst hpgn
    have hn' : 1 ≤ nextPacket := by omega
    exact ⟨_, _, Transmitter.onTpCm_cts (by omega) hn' hle, by simp,
      ⟨rfl, rfl, rfl, rfl, fun _ => hn'⟩, Or.inl, Or.inr ⟨_, _, _, rfl⟩⟩
  | endOfMsgAck size packets pgn =>
    simp only [TpCm.pgn] at hpgn
    subst hpgn
    exact ⟨.complete, { tx with complete := true }, by simp [Transmitter.onTpCm, TpCm.pgn],
      by simp, ⟨rfl, rfl, rfl, rfl, id⟩, fun _ => Or.inr ⟨size, packets, rfl⟩, Or.inl rfl⟩
  | abort reason pgn =>
    exact ⟨.aborted reason, tx, by simp [Transmitter.onTpCm, hpgn], by simp, .refl tx, Or.inl,
      Or.inl rfl⟩
  | rts | bam => cases h

/-- Pulling a packet of an addressed transfer never completes it, and a
packet that comes out is one of the payload's. -/
theorem Tp.Transmitter.nextPacket_addressed {tx : Transmitter} (hn : 1 ≤ tx.nextSequence)
    (hbc : tx.broadcast = false) :
    ∃ packet tx', tx.nextPacket = .ok (packet, tx') ∧ tx.Continues tx' ∧ tx'.complete = tx.complete
      ∧ (∀ dt ∈ packet, ∃ i, 1 ≤ i ∧ i ≤ tx.packets ∧ dt = Transmitter.packetOf tx.data i)
      ∧ (tx.windowRemaining = 0 → packet = none ∧ tx' = tx) := by
  by_cases hstop : tx.windowRemaining = 0 ∨ tx.nextSequence > tx.packets
  · exact ⟨none, tx, if_pos hstop, .refl tx, rfl, fun dt hdt => (by cases hdt),
      fun _ => ⟨rfl, rfl⟩⟩
  · have hle : tx.nextSequence ≤ tx.packets := by omega
    refine ⟨_, _, Transmitter.nextPacket_some hn hle (by omega),
      ⟨rfl, rfl, rfl, rfl, fun _ => Nat.le_add_left 1 _⟩, by simp [hbc], fun dt hdt => ?_,
      fun hw => absurd (Or.inl hw) hstop⟩
    exact ⟨tx.nextSequence, hn, hle, (Option.mem_some.mp hdt).symm⟩

namespace Outgoing

/-- Whether a frame makes an outgoing message do anything. -/
def heeds (o : Outgoing) (frame : Frame) : Bool :=
  match o.state with
  | .single .. => false
  | .multi transmitter _ =>
      frame.pgn == .tpCm && frame.sourceAddress == o.destination &&
        match TpCm.decode frame.payload with
        | .error _ => false
        | .ok cm => transmitter.isDrivenBy cm

variable {o : Outgoing} {frame : Frame}

/-- A frame that is not heeded changes nothing. -/
theorem onFrame_not_heeded (h : o.heeds frame = false) : o.onFrame frame = .ok (.idle, o) := by
  unfold onFrame
  obtain ⟨pgn, priority, source, destination, state⟩ := o
  cases state with
  | single data sent => rfl
  | multi tx announced =>
    dsimp only
    by_cases hskip : frame.pgn ≠ .tpCm ∨ frame.sourceAddress ≠ destination
    · rw [if_pos hskip]
    · rw [if_neg hskip]
      push Not at hskip
      cases hcm : TpCm.decode frame.payload with
      | error e => rfl
      | ok cm =>
        have hnot : tx.isDrivenBy cm = false := by
          simpa [heeds, hskip.1, hskip.2, hcm] using h
        simp only [Transmitter.onTpCm_not_driven hnot, ok_bind, pure_eq_ok, progressOf]

/-- A frame that is heeded: connection management from the destination,
acted on by the transmitter. -/
theorem onFrame_heeded (h : o.heeds frame = true) : ∃ tx announced cm told tx',
    o.state = .multi tx announced ∧ frame.pgn = .tpCm ∧ frame.sourceAddress = o.destination
      ∧ TpCm.decode frame.payload = .ok cm ∧ tx.isDrivenBy cm = true
      ∧ tx.onTpCm cm = .ok (told, tx') ∧ told ≠ .idle
      ∧ o.onFrame frame = .ok (progressOf told, { o with state := .multi tx' announced }) := by
  obtain ⟨pgn, priority, source, destination, state⟩ := o
  cases state with
  | single data sent => cases h
  | multi tx announced =>
    simp only [heeds, Bool.and_eq_true, beq_iff_eq] at h
    obtain ⟨⟨hgroup, hsrc⟩, h⟩ := h
    cases hcm : TpCm.decode frame.payload with
    | error e => simp [hcm] at h
    | ok cm =>
      rw [hcm] at h
      obtain ⟨told, tx', htx, htold, -, -, -⟩ := Transmitter.onTpCm_driven h
      refine ⟨tx, announced, cm, told, tx', rfl, hgroup, hsrc, rfl, h, htx, htold, ?_⟩
      simp only [onFrame, hgroup, hsrc, ne_eq, not_true_eq_false, or_self, if_false, hcm, htx,
        ok_bind, pure_eq_ok]

/-- **Exactly the frames that are not heeded leave an outgoing message as
it is.** -/
theorem onFrame_eq_idle : o.onFrame frame = .ok (.idle, o) ↔ o.heeds frame = false := by
  refine ⟨fun h => ?_, onFrame_not_heeded⟩
  by_contra hheeds
  obtain ⟨tx, announced, cm, told, tx', -, -, -, -, -, -, htold, hon⟩ :=
    onFrame_heeded (by simpa using hheeds)
  rw [hon] at h
  have hidle : progressOf told = .idle := by
    injection h with h
    exact congrArg Prod.fst h
  cases told <;> simp_all [progressOf]

end Outgoing

/-! ## §3. An addressed transfer on its way. -/

/-- A message an ECU sends. -/
structure Sent where
  pgn : Pgn
  source : Address
  data : List UInt8

/-- `o` is an addressed transfer of the message `m` to `destination`. -/
structure Outgoing.Transfers (o : Outgoing) (m : Sent) (destination : Address) : Prop where
  source : o.source = m.source
  destination : o.destination = destination
  multi : ∃ tx announced, o.state = .multi tx announced ∧ tx.pgn = m.pgn ∧ tx.data = m.data
    ∧ tx.broadcast = false ∧ tx.maxPacketsPerCts = 0xFF ∧ 1 ≤ tx.nextSequence

/-- The transfer has no packets to send until it is granted some. -/
def Outgoing.WindowClosed (o : Outgoing) : Prop :=
  ∀ tx announced, o.state = .multi tx announced → tx.windowRemaining = 0

/-- `f` is a frame by which the message `m` is sent to `destination`: its
announcement or one of its packets. -/
structure Sent.By (m : Sent) (destination : Address) (f : Frame) : Prop where
  source : f.sourceAddress = m.source
  destination : f.id.destinationAddress = some destination
  content : (f.pgn = .tpCm ∧ TpCm.decode f.payload
        = .ok (.rts m.data.length (packetCount m.data.length) 0xFF m.pgn))
    ∨ f.pgn = .tpDt ∧ ∃ i, 1 ≤ i ∧ i ≤ packetCount m.data.length
        ∧ TpDt.decode f.payload = Transmitter.packetOf m.data i

/-- `f` is a Clear To Send that moves the transfer of `m` to `destination`
on. -/
def Sent.GrantedBy (m : Sent) (destination : Address) (f : Frame) : Prop :=
  f.pgn = .tpCm ∧ f.sourceAddress = destination
    ∧ ∃ packets next, TpCm.decode f.payload = .ok (.cts packets next m.pgn)
      ∧ packets ≠ 0 ∧ 1 ≤ next ∧ next ≤ packetCount m.data.length

/-- `f` is a message by which a receiver ends a transfer. -/
def Frame.EndsTransfer (f : Frame) : Prop :=
  f.pgn = .tpCm ∧ ((∃ size packets pgn, TpCm.decode f.payload = .ok (.endOfMsgAck size packets pgn))
    ∨ ∃ reason pgn, TpCm.decode f.payload = .ok (.abort reason pgn))

namespace Outgoing

variable {o o' : Outgoing} {m : Sent} {destination : Address}

/-- A transport-protocol frame can always be built. -/
theorem tpId_eq {group : Pgn} (destination source : Address) (h : group.isPdu1 = true) :
    ∃ id, tpId group destination source = some id ∧ id.pgn = group ∧ id.sourceAddress = source
      ∧ id.destinationAddress = some destination := by
  have hid : Id.fromParts .lowest group destination source
      = .ok ⟨Id.assemble .lowest group destination source, Id.assemble_le ..⟩ :=
    Id.fromParts_of_pdu1 h
  refine ⟨⟨Id.assemble .lowest group destination source, Id.assemble_le ..⟩, ?_,
    Id.pgn_fromParts hid, Id.sourceAddress_fromParts hid, Id.destinationAddress_fromParts hid h⟩
  unfold tpId
  rw [hid]

/-- **What a new message is made of**; if it is short, it is one frame. -/
theorem new_fields {pgn : Pgn} {source : Address} {data : List UInt8}
    (h : new pgn source destination data = .ok o) :
    o.priority = .default ∧ o.source = source
      ∧ (data.length ≤ Frame.maxPayload → o.state = .single data false) := by
  unfold new at h
  split at h
  next hshort =>
    cases hid : Id.fromParts .default pgn destination source with
    | error e =>
      rw [hid] at h
      cases h
    | ok id =>
      rw [hid] at h
      cases hframe : Frame.new id data with
      | error e =>
        simp only [bind, Except.bind, hframe] at h
        cases h
      | ok f =>
        simp only [bind, Except.bind, hframe] at h
        cases h
        exact ⟨rfl, rfl, fun _ => rfl⟩
  next hlong =>
  split at h
  · cases htx : Transmitter.broadcastOf pgn data with
    | error e =>
      rw [htx] at h
      cases h
    | ok tx =>
      rw [htx] at h
      cases h
      exact ⟨rfl, rfl, fun hshort => absurd hshort hlong⟩
  · cases htx : Transmitter.addressed pgn data with
    | error e =>
      rw [htx] at h
      cases h
    | ok tx =>
      rw [htx] at h
      cases h
      exact ⟨rfl, rfl, fun hshort => absurd hshort hlong⟩

/-- A long message to everybody is one the protocol can carry. -/
theorem length_of_new_global {pgn : Pgn} {source : Address} {data : List UInt8}
    (hlong : ¬ data.length ≤ Frame.maxPayload)
    (h : new pgn source Address.global data = .ok o) :
    minMessageSize ≤ data.length ∧ data.length ≤ maxMessageSize := by
  unfold new at h
  rw [if_neg hlong, if_pos (Address.isBroadcast_iff.mpr rfl)] at h
  by_cases hrange : data.length < minMessageSize ∨ data.length > maxMessageSize
  · unfold Transmitter.broadcastOf Transmitter.build at h
    rw [dif_pos hrange] at h
    cases h
  · omega

/-- **A message for one ECU or for all of them** can be sent exactly if the
transport protocol can carry it. -/
theorem new_ok_iff {pgn : Pgn} (hpdu1 : pgn.isPdu1 = true) (source destination : Address)
    (data : List UInt8) :
    (∃ o, new pgn source destination data = .ok o) ↔ data.length ≤ maxMessageSize := by
  unfold new
  by_cases hshort : data.length ≤ Frame.maxPayload
  · rw [if_pos hshort]
    obtain ⟨id, hid⟩ := Id.exists_fromParts .default destination source hpdu1
    obtain ⟨f, hframe⟩ := Frame.new_ok id hshort
    refine iff_of_true ?_ (hshort.trans (by decide))
    rw [hid]
    dsimp only [bind, Except.bind]
    rw [hframe]
    exact ⟨_, rfl⟩
  · rw [if_neg hshort]
    have hbuild : ∀ broadcast, (∃ tx, Transmitter.build pgn data broadcast = .ok tx)
        ↔ data.length ≤ maxMessageSize := by
      intro broadcast
      have hlong : ¬ data.length < minMessageSize := fun h => hshort (Nat.le_of_lt_succ h)
      unfold Transmitter.build
      by_cases hlarge : data.length > maxMessageSize
      · rw [dif_pos (.inr hlarge)]
        refine iff_of_false ?_ (Nat.not_le.mpr hlarge)
        intro h
        obtain ⟨tx, h⟩ := h
        cases h
      · rw [dif_neg (not_or.mpr ⟨hlong, hlarge⟩)]
        exact iff_of_true ⟨_, rfl⟩ (Nat.not_lt.mp hlarge)
    have hmulti : ∀ {build : Result Transmitter},
        (∃ o, (do
          let transmitter ← build
          return (⟨pgn, .default, source, destination, .multi transmitter false⟩ : Outgoing)) = .ok o)
        ↔ ∃ tx, build = .ok tx := by
      intro build
      cases build with
      | ok tx => exact iff_of_true ⟨_, rfl⟩ ⟨_, rfl⟩
      | error e =>
        refine iff_of_false ?_ ?_
        · intro h
          obtain ⟨o, h⟩ := h
          cases h
        · intro h
          obtain ⟨tx, h⟩ := h
          cases h
    split
    · exact hmulti.trans (hbuild true)
    · exact hmulti.trans (hbuild false)

/-- A long message to one ECU becomes an addressed transfer. -/
theorem transfers_new (hlong : Frame.maxPayload < m.data.length)
    (hdest : destination.isBroadcast = false) (h : new m.pgn m.source destination m.data = .ok o) :
    o.Transfers m destination ∧ o.isComplete = false ∧ o.WindowClosed := by
  unfold new at h
  rw [if_neg (by omega), if_neg (by simp [hdest])] at h
  cases htx : Transmitter.addressed m.pgn m.data with
  | error e =>
    rw [htx] at h
    cases h
  | ok tx =>
    rw [htx] at h
    have ho : o = ⟨m.pgn, .default, m.source, destination, .multi tx false⟩ := by
      injection h with h
      exact h.symm
    obtain ⟨hpgn, hdata, hbc⟩ := Transmitter.addressed_eq_ok htx
    unfold Transmitter.addressed Transmitter.build at htx
    split at htx
    next => cases htx
    next =>
      injection htx with htx
      subst ho htx
      refine ⟨⟨rfl, rfl, _, _, rfl, rfl, rfl, rfl, rfl, Nat.le_refl 1⟩, rfl,
        fun tx announced h => ?_⟩
      cases h
      rfl

/-- **Feeding a frame back keeps the transfer**; only an acknowledgement
naming its group completes it, and only a CTS opens a window. -/
theorem Transfers.onFrame (h : o.Transfers m destination) (frame : Frame) :
    ∃ progress o', o.onFrame frame = .ok (progress, o') ∧ o'.Transfers m destination
      ∧ (o'.isComplete = true → o.isComplete = true ∨ o.heeds frame = true
        ∧ ∃ size packets, TpCm.decode frame.payload = .ok (.endOfMsgAck size packets m.pgn))
      ∧ (o.WindowClosed → o'.WindowClosed ∨ o.heeds frame = true
        ∧ ∃ window next pgn, TpCm.decode frame.payload = .ok (.cts window next pgn)) := by
  cases hheeds : o.heeds frame with
  | false => exact ⟨_, _, onFrame_not_heeded hheeds, h, Or.inl, Or.inl⟩
  | true =>
    obtain ⟨tx, announced, cm, told, tx', hstate, -, -, hcm, hdriven, htx, -, hon⟩ :=
      onFrame_heeded hheeds
    obtain ⟨tx₀, announced₀, hstate₀, hpgn, hdata, hbc, hlimit, hnext⟩ := h.multi
    obtain ⟨rfl, rfl⟩ : tx = tx₀ ∧ announced = announced₀ := by
      rw [hstate] at hstate₀
      injection hstate₀ with h₁ h₂
      exact ⟨h₁, h₂⟩
    obtain ⟨told', tx'', htx', -, hcont, hcomplete, hwindow⟩ := Transmitter.onTpCm_driven hdriven
    rw [htx, Except.ok.injEq, Prod.mk.injEq] at htx'
    obtain ⟨rfl, rfl⟩ := htx'
    refine ⟨_, _, hon, ⟨h.source, h.destination, tx', announced, rfl, ?_, ?_, ?_, ?_,
      hcont.next hnext⟩, fun hc => ?_, fun hclosed => ?_⟩
    · exact hcont.pgn.trans hpgn
    · exact hcont.data.trans hdata
    · exact hcont.broadcast.trans hbc
    · exact hcont.limit.trans hlimit
    · rcases hcomplete hc with hc | ⟨size, packets, rfl⟩
      · exact Or.inl (by rw [isComplete, hstate]; exact hc)
      · exact Or.inr ⟨rfl, size, packets, by rw [hcm, hpgn]⟩
    · rcases hwindow with hsame | ⟨window, next, pgn, rfl⟩
      · left
        intro tx₁ announced₁ h₁
        cases h₁
        exact hsame.trans (hclosed tx announced hstate)
      · exact Or.inr ⟨rfl, window, next, pgn, hcm⟩

/-- **Pulling a frame keeps the transfer and never completes it**; the
frame is one of the message's own, and no packet before any is granted. -/
theorem Transfers.nextFrame (h : o.Transfers m destination) :
    ∃ frame o', o.nextFrame = .ok (frame, o') ∧ o'.Transfers m destination
      ∧ o'.isComplete = o.isComplete ∧ (∀ f ∈ frame, m.By destination f)
      ∧ (o.WindowClosed → o'.WindowClosed ∧ ∀ f ∈ frame, f.pgn = .tpCm) := by
  obtain ⟨tx, announced, hstate, hpgn, hdata, hbc, hlimit, hnext⟩ := h.multi
  have hmin := tx.size_ge
  have hmax := tx.size_le
  have hpackets := tx.packets_eq
  have hb := packetCount_bounds hmin hmax
  unfold Outgoing.nextFrame
  simp only [hstate]
  cases announced with
  | false =>
    obtain ⟨id, hid, hgroup, hsrc, hdst⟩ :=
      tpId_eq o.destination o.source (show Pgn.tpCm.isPdu1 = true from rfl)
    have hstart : tx.start = .rts tx.data.length (packetCount tx.data.length) 0xFF tx.pgn := by
      simp [Transmitter.start, hbc, hpackets, hlimit]
    refine ⟨_, _, rfl, ⟨h.source, h.destination, tx, true, rfl, hpgn, hdata, hbc, hlimit, hnext⟩,
      ?_, fun f hf => ?_, fun hclosed => ⟨fun tx₁ announced₁ h₁ => ?_, fun f hf => ?_⟩⟩
    · simp [isComplete, hstate]
    · rw [hid, Option.map_some, Option.mem_some] at hf
      subst hf
      refine ⟨hsrc.trans h.source, hdst.trans (congrArg some h.destination), Or.inl ⟨hgroup, ?_⟩⟩
      rw [Frame.payload_fromPayload, hstart, ← hdata, ← hpgn]
      refine TpCm.decode_encode _ (show tx.data.length < 2 ^ 16
        ∧ packetCount tx.data.length < 256 ∧ 0xFF < 256 from ?_)
      unfold maxMessageSize at hmax
      omega
    · cases h₁
      exact hclosed tx false hstate
    · rw [hid, Option.map_some, Option.mem_some] at hf
      subst hf
      exact hgroup
  | true =>
    obtain ⟨packet, tx', hok, hcont, hcomplete, hpacket, hnone⟩ :=
      Transmitter.nextPacket_addressed hnext hbc
    obtain ⟨id, hid, hgroup, hsrc, hdst⟩ :=
      tpId_eq o.destination o.source (show Pgn.tpDt.isPdu1 = true from rfl)
    simp only [hok, ok_bind, pure_eq_ok, Bool.not_true, Bool.false_eq_true, if_false]
    refine ⟨_, _, rfl, ⟨h.source, h.destination, tx', true, rfl, ?_, ?_, ?_, ?_,
      hcont.next hnext⟩, ?_, fun f hf => ?_, fun hclosed => ?_⟩
    · exact hcont.pgn.trans hpgn
    · exact hcont.data.trans hdata
    · exact hcont.broadcast.trans hbc
    · exact hcont.limit.trans hlimit
    · simp [isComplete, hstate, Transmitter.isComplete, hcomplete]
    · obtain ⟨dt, hdt, hf⟩ := Option.mem_bind_iff.mp hf
      obtain ⟨i, hi, hi', rfl⟩ := hpacket dt hdt
      rw [hid, Option.map_some, Option.mem_some] at hf
      subst hf
      refine ⟨hsrc.trans h.source, hdst.trans (congrArg some h.destination),
        Or.inr ⟨hgroup, i, hi, ?_, ?_⟩⟩
      · rw [← hdata, ← hpackets]
        exact hi'
      · rw [Frame.payload_fromPayload, ← hdata]
        exact TpDt.decode_encode (show i < 256 by omega)
    · -- nothing comes out of a closed window
      obtain ⟨rfl, rfl⟩ := hnone (hclosed tx true hstate)
      refine ⟨fun tx₁ announced₁ h₁ => ?_, fun f hf => by cases hf⟩
      cases h₁
      exact hclosed tx' true hstate

/-- With packets granted, or the announcement still to come, a frame comes
out. -/
theorem nextFrame_granted {o : Outgoing} (tx : Tp.Transmitter) {announced : Bool}
    (hstate : o.state = .multi tx announced) (hn : 1 ≤ tx.nextSequence)
    (hle : tx.nextSequence ≤ tx.packets) (hw : 1 ≤ tx.windowRemaining) :
    ∃ g o', o.nextFrame = .ok (some g, o') := by
  unfold Outgoing.nextFrame
  cases announced with
  | false =>
    obtain ⟨id, hid, -⟩ :=
      tpId_eq o.destination o.source (show Pgn.tpCm.isPdu1 = true from rfl)
    simp only [hstate, Bool.not_false, if_true, hid, Option.map_some]
    exact ⟨_, _, rfl⟩
  | true =>
    obtain ⟨id, hid, -⟩ :=
      tpId_eq o.destination o.source (show Pgn.tpDt.isPdu1 = true from rfl)
    simp only [hstate, Bool.not_true, Bool.false_eq_true, if_false,
      Transmitter.nextPacket_some hn hle hw, ok_bind, pure_eq_ok, Option.bind_some, hid,
      Option.map_some]
    exact ⟨_, _, rfl⟩

/-- **A frame moves a transfer on**, so that a packet is ready, **or ends
it, or is none of its business**. -/
theorem Transfers.onFrame_cases (h : o.Transfers m destination) (f : Frame) :
    (m.GrantedBy destination f ∧ ∃ o' g o'', o.onFrame f = .ok (.ready, o')
        ∧ o'.Transfers m destination ∧ o'.nextFrame = .ok (some g, o''))
      ∨ (¬ m.GrantedBy destination f ∧ f.EndsTransfer ∧ ∃ progress o', o.onFrame f = .ok (progress, o')
        ∧ (progress = .complete ∨ ∃ reason, progress = .aborted reason))
      ∨ ¬ m.GrantedBy destination f ∧ o.onFrame f = .ok (.idle, o) := by
  obtain ⟨tx, announced, hstate, hpgn, hdata, hbc, hlimit, hnext⟩ := h.multi
  have hpackets : tx.packets = packetCount m.data.length := by
    rw [tx.packets_eq, hdata]
  cases hheeds : o.heeds f with
  | false =>
    refine Or.inr (Or.inr ⟨?_, onFrame_not_heeded hheeds⟩)
    rintro ⟨hcm, hsource, packets, next, hdecode, hsome, hpos, hle⟩
    have hdriven : tx.isDrivenBy (.cts packets next m.pgn) = true := by
      simp only [Transmitter.isDrivenBy, TpCm.pgn, hpgn, beq_self_eq_true, Bool.true_and,
        Bool.and_eq_true, bne_iff_ne, ne_eq, decide_eq_true_eq, hpackets]
      exact ⟨⟨hsome, Nat.ne_of_gt hpos⟩, hle⟩
    have hheeded : o.heeds f = true := by
      unfold heeds
      simp only [hstate, hcm, hsource, h.destination, hdecode, hdriven, beq_self_eq_true,
        Bool.and_self]
    rw [hheeds] at hheeded
    cases hheeded
  | true =>
    obtain ⟨tx₁, announced₁, cm, told, tx', hstate₁, hcm, hsource, hdecode, hdriven, htx, -, hon⟩ :=
      onFrame_heeded hheeds
    obtain ⟨rfl, rfl⟩ : tx = tx₁ ∧ announced = announced₁ := by
      rw [hstate] at hstate₁
      injection hstate₁ with h₁ h₂
      exact ⟨h₁, h₂⟩
    simp only [Transmitter.isDrivenBy, Bool.and_eq_true, beq_iff_eq] at hdriven
    obtain ⟨hgroup, hdriven⟩ := hdriven
    cases cm with
    | cts packets next pgn =>
      left
      simp only [Bool.and_eq_true, bne_iff_ne, decide_eq_true_eq] at hdriven
      obtain ⟨⟨hsome, hpos⟩, hle⟩ := hdriven
      have hpgn' : pgn = tx.pgn := hgroup
      subst hpgn'
      rw [Transmitter.onTpCm_cts (by omega) (by omega) hle] at htx
      injection htx with htx
      injection htx with htold htx'
      subst htold htx'
      refine ⟨⟨hcm, hsource.trans h.destination, packets, next, ?_, hsome, by omega, ?_⟩, ?_⟩
      · rw [hdecode, hpgn]
      · rwa [← hpackets]
      obtain ⟨progress, o₁, hon₁, htransfers, -⟩ := h.onFrame f
      rw [hon] at hon₁
      injection hon₁ with hon₁
      injection hon₁ with hprogress ho₁
      subst hprogress ho₁
      let granted : Tp.Transmitter := { tx with
        nextSequence := next
        windowRemaining := min packets (tx.packets - next + 1) }
      have hopen : 1 ≤ granted.windowRemaining := by
        show 1 ≤ min packets (tx.packets - next + 1)
        omega
      obtain ⟨g, o₂, hframe⟩ := nextFrame_granted (o := { o with state := .multi granted announced })
        granted rfl (show 1 ≤ next by omega) hle hopen
      exact ⟨_, g, o₂, hon, htransfers, hframe⟩
    | endOfMsgAck size packets pgn =>
      have htold : told = .complete := by
        have hpgn' : pgn = tx.pgn := hgroup
        subst hpgn'
        simp only [Transmitter.onTpCm, TpCm.pgn, ne_eq, not_true_eq_false, if_false] at htx
        injection htx with htx
        exact (congrArg Prod.fst htx).symm
      subst htold
      refine Or.inr (Or.inl ⟨?_, ⟨hcm, Or.inl ⟨size, packets, pgn, hdecode⟩⟩, _, _, hon, Or.inl rfl⟩)
      rintro ⟨-, -, _, _, hcts, -⟩
      rw [hdecode] at hcts
      cases hcts
    | abort reason pgn =>
      have htold : told = .aborted reason := by
        have hpgn' : pgn = tx.pgn := hgroup
        subst hpgn'
        simp only [Transmitter.onTpCm, TpCm.pgn, ne_eq, not_true_eq_false, if_false] at htx
        injection htx with htx
        exact (congrArg Prod.fst htx).symm
      subst htold
      refine Or.inr (Or.inl ⟨?_, ⟨hcm, Or.inr ⟨reason, pgn, hdecode⟩⟩, _, _, hon,
        Or.inr ⟨reason, rfl⟩⟩)
      rintro ⟨-, -, _, _, hcts, -⟩
      rw [hdecode] at hcts
      cases hcts
    | rts | bam => cases hdriven

end Outgoing

/-! ## §4. Everything that goes out. -/

/-- Pulling a packet changes neither the announcement nor the count. -/
theorem Tp.Transmitter.start_nextPacket {tx tx' : Transmitter} {packet : Option TpDt}
    (h : tx.nextPacket = .ok (packet, tx')) : tx'.start = tx.start ∧ tx'.packets = tx.packets := by
  unfold nextPacket at h
  split at h
  next =>
    cases h
    exact ⟨rfl, rfl⟩
  next =>
    simp only [bind_eq_ok, pure_eq_ok] at h
    obtain ⟨_, -, _, -, _, -, _, -, h⟩ := h
    cases h
    exact ⟨rfl, rfl⟩

namespace Outgoing

/-- `f` is a frame the message `o` may put on the bus: from its source, and
of its group, or its announcement or a data packet. -/
def Emits (o : Outgoing) (f : Frame) : Prop :=
  f.sourceAddress = o.source ∧ match o.state with
    | .single .. => f.pgn = o.pgn
    | .multi tx _ => f.pgn = .tpDt ∨ f.pgn = .tpCm ∧ f.payload = tx.start.encode

/-- **What comes out of an outgoing message**, whatever its state. -/
theorem nextFrame_emits {o o' : Outgoing} {frame : Option Frame}
    (h : o.nextFrame = .ok (frame, o')) :
    (∀ f ∈ frame, o.Emits f) ∧ ∀ f, o'.Emits f → o.Emits f := by
  obtain ⟨pgn, priority, source, destination, state⟩ := o
  cases state with
  | single data sent =>
    unfold nextFrame at h
    cases sent with
    | true =>
      cases h
      exact ⟨fun f hf => (by cases hf), fun f hf => hf⟩
    | false =>
      simp only [Bool.false_eq_true, if_false] at h
      cases hid : Id.fromParts priority pgn destination source with
      | error e =>
        rw [hid] at h
        cases h
        exact ⟨fun f hf => (by cases hf), fun f hf => hf⟩
      | ok id =>
        rw [hid] at h
        dsimp only at h
        cases hf : Frame.new id data with
        | error e =>
          rw [hf] at h
          cases h
          exact ⟨fun f hf => (by cases hf), fun f hf => hf⟩
        | ok f =>
          rw [hf] at h
          cases h
          obtain ⟨rfl, -⟩ := Frame.data_new hf
          refine ⟨fun g hg => ?_, fun f hf => hf⟩
          cases hg
          exact ⟨Id.sourceAddress_fromParts hid, Id.pgn_fromParts hid⟩
  | multi tx announced =>
    unfold nextFrame at h
    cases announced with
    | false =>
      obtain ⟨id, hid, hgroup, hsource, -⟩ :=
        tpId_eq destination source (show Pgn.tpCm.isPdu1 = true from rfl)
      simp only [Bool.not_false, if_true, hid, Option.map_some] at h
      cases h
      refine ⟨fun g hg => ?_, fun f hf => hf⟩
      cases hg
      exact ⟨hsource, Or.inr ⟨hgroup, rfl⟩⟩
    | true =>
      simp only [Bool.not_true, Bool.false_eq_true, if_false, bind_eq_ok, pure_eq_ok,
        Prod.exists] at h
      obtain ⟨packet, tx', hpacket, h⟩ := h
      cases h
      have hstart := (Transmitter.start_nextPacket hpacket).1
      constructor
      · intro f hf
        obtain ⟨dt, -, hf⟩ := Option.mem_bind_iff.mp hf
        obtain ⟨id, hid, hgroup, hsource, -⟩ :=
          tpId_eq destination source (show Pgn.tpDt.isPdu1 = true from rfl)
        rw [hid, Option.map_some, Option.mem_some] at hf
        subst hf
        exact ⟨hsource, Or.inl hgroup⟩
      · intro f hf
        refine ⟨hf.1, ?_⟩
        have h2 := hf.2
        dsimp only at h2 ⊢
        rw [hstart] at h2
        exact h2

/-- What a message to everybody puts out: its own group, the announcement
of a broadcast or data packets. -/
theorem emits_global {pgn : Pgn} {source : Address} {data : List UInt8} {o : Outgoing} {f : Frame}
    (h : new pgn source Address.global data = .ok o) (hf : o.Emits f) :
    f.sourceAddress = source ∧ (f.pgn = pgn ∨ f.pgn = .tpDt
      ∨ f.pgn = .tpCm ∧ ∃ size packets pgn, TpCm.decode f.payload = .ok (.bam size packets pgn)) := by
  unfold new at h
  by_cases hlen : data.length ≤ Frame.maxPayload
  · rw [if_pos hlen, Id.fromParts_global] at h
    obtain ⟨f', hframe⟩ := Frame.new_ok (Id.broadcast .default pgn source) hlen
    simp only [bind, Except.bind, hframe] at h
    cases h
    exact ⟨hf.1, Or.inl hf.2⟩
  · rw [if_neg hlen, if_pos (show Address.global.isBroadcast = true from rfl)] at h
    cases htx : Transmitter.broadcastOf pgn data with
    | error e =>
      rw [htx] at h
      cases h
    | ok tx =>
      rw [htx] at h
      cases h
      refine ⟨hf.1, Or.inr ?_⟩
      rcases hf.2 with hdt | ⟨hcm, hpayload⟩
      · exact Or.inl hdt
      · have hmax := tx.size_le
        have hpackets := tx.packets_eq
        have hlt := packetCount_lt tx.data.length
        have hstart : tx.start = .bam tx.data.length tx.packets tx.pgn := by
          have hbc : tx.broadcast = true := by
            unfold Transmitter.broadcastOf Transmitter.build at htx
            split at htx
            next => cases htx
            next =>
              cases htx
              rfl
          rw [Transmitter.start, if_pos hbc]
        refine Or.inr ⟨hcm, tx.data.length, tx.packets, tx.pgn, ?_⟩
        rw [hpayload, hstart]
        refine TpCm.decode_encode _ (show tx.data.length < 2 ^ 16 ∧ tx.packets < 256 from ?_)
        unfold maxMessageSize at hmax
        omega

end Outgoing

end SaeJ1939
