/-
  SaeJ1939.Host.GlobalRts — what a frame sent to everybody draws from an
  ECU.

  The node drops a Request To Send that is addressed to everybody; the ECU
  hands frames of the extended protocol to their reassembler after no more
  than the receive filter, which lets every global frame through.

  Main results:
    * `reassembles_grants`, `onFrame_grants` — the frames the extended
      reassembler and the node grant something to.
    * `unanswered_iff` — a global frame draws no grant and opens no session
      unless it is an extended RTS the table takes on, or the packet that
      fills a block or a window of a transfer.
    * `answered_etpRts` — an ECU that has claimed its address answers a
      global extended RTS.
-/
import SaeJ1939.Host.Running

namespace SaeJ1939.Host

open AddressClaim Checked Diagnostics Fallible
open Tp (TpCm TpDt)
open Etp (EtpCm EtpDt)

/-! ## §1. Clear To Send, on the wire. -/

/-- A Request To Send, of either transport protocol. -/
def IsRts (f : Frame) : Prop :=
  (f.pgn = .tpCm ∧ ∃ size packets max pgn, TpCm.decode f.payload = .ok (.rts size packets max pgn))
    ∨ f.pgn = .etpCm ∧ ∃ size pgn, EtpCm.decode f.payload = .ok (.rts size pgn)

/-- The control byte alone says that a message is a Clear To Send. -/
theorem tp_cts_iff (data : Payload) :
    (∃ packets next pgn, TpCm.decode data = .ok (.cts packets next pgn)) ↔ data 0 = 0x11 := by
  constructor
  · rintro ⟨packets, next, pgn, h⟩
    unfold TpCm.decode at h
    dsimp only at h
    split at h
    · cases h
    split at h
    · assumption
    split at h
    · cases h
    split at h
    · cases h
    split at h <;> cases h
  · intro h
    have hne : (0x11 : UInt8) ≠ 0x10 := by decide
    unfold TpCm.decode
    dsimp only
    rw [h, if_neg hne, if_pos rfl]
    exact ⟨_, _, _, rfl⟩

theorem etp_cts_iff (data : Payload) :
    (∃ packets next pgn, EtpCm.decode data = .ok (.cts packets next pgn)) ↔ data 0 = 21 := by
  constructor
  · rintro ⟨packets, next, pgn, h⟩
    unfold EtpCm.decode at h
    dsimp only at h
    split at h
    · cases h
    split at h
    · assumption
    split at h
    · cases h
    split at h
    · cases h
    split at h <;> cases h
  · intro h
    have hne : (21 : UInt8) ≠ 20 := by decide
    unfold EtpCm.decode
    dsimp only
    rw [h, if_neg hne, if_pos rfl]
    exact ⟨_, _, _, rfl⟩

/-- The frame of a message of the extended protocol grants if the message
does. -/
theorem isCts_etpCm {f : Frame} {cm : EtpCm} (hpgn : f.pgn = .etpCm)
    (hpayload : f.payload = cm.encode) :
    IsCts f ↔ ∃ packets next pgn, cm = .cts packets next pgn := by
  have hcontrol : cm.encode 0 = cm.controlByte := rfl
  have htp : Pgn.etpCm ≠ Pgn.tpCm := by decide
  rw [IsCts, hpgn, hpayload, etp_cts_iff, hcontrol]
  constructor
  · rintro (⟨h, -⟩ | ⟨-, h⟩)
    · exact absurd h htp
    · cases cm with
      | cts packets next pgn => exact ⟨packets, next, pgn, rfl⟩
      | rts | dpo | eoma | abort => simp [EtpCm.controlByte] at h
  · rintro ⟨packets, next, pgn, rfl⟩
    exact Or.inr ⟨rfl, rfl⟩

/-- So does the frame of a message of the transport protocol. -/
theorem isCts_tpCm {f : Frame} {source destination : Address} {cm : TpCm}
    (h : tpCmFrame source destination cm = some f) :
    IsCts f ↔ ∃ packets next pgn, cm = .cts packets next pgn := by
  have hcontrol : cm.encode 0 = cm.controlByte := rfl
  have hetp : Pgn.tpCm ≠ Pgn.etpCm := by decide
  have hf : f.pgn = .tpCm ∧ f.payload = cm.encode := by
    unfold tpCmFrame at h
    split at h
    next id hid =>
      cases h
      exact ⟨Id.pgn_fromParts hid, Frame.payload_fromPayload ..⟩
    next => cases h
  rw [IsCts, hf.1, hf.2, tp_cts_iff, hcontrol]
  constructor
  · rintro (⟨-, h⟩ | ⟨h, -⟩)
    · cases cm with
      | cts packets next pgn => exact ⟨packets, next, pgn, rfl⟩
      | rts | endOfMsgAck | bam | abort => simp [TpCm.controlByte] at h
    · exact absurd h hetp
  · rintro ⟨packets, next, pgn, rfl⟩
    exact Or.inl ⟨rfl, rfl⟩

/-! ## §2. When a transfer is granted more. -/

/-- An extended RTS that the table takes on. -/
def TakesOn (r : Etp.Reassembler etpBuffer 2) (f : Frame) : Prop :=
  f.pgn = .etpCm ∧ ∃ size pgn, EtpCm.decode f.payload = .ok (.rts size pgn)
    ∧ Etp.minMessageSize ≤ size ∧ size ≤ etpBuffer
    ∧ r.transferOf f.sourceAddress = none ∧ r.room = true

/-- A data packet that fills a block of an extended transfer, not the
last one. -/
def FillsBlock (r : Etp.Reassembler etpBuffer 2) (f : Frame) : Prop :=
  f.pgn = .etpDt ∧ ∃ s received offset, r.transferOf f.sourceAddress = some ⟨s, received⟩
    ∧ s.offset = some offset ∧ (EtpDt.decode f.payload).sequence = s.nextSequence
    ∧ s.blockPackets ≤ s.nextSequence ∧ offset + s.nextSequence < s.packets

/-- A data packet that fills a window of a connection-managed transfer,
not the last one. -/
def FillsWindow {BUF SESSIONS : Nat} (r : Tp.Reassembler BUF SESSIONS) (f : Frame) : Prop :=
  f.pgn = .tpDt ∧ ∃ s received, r.transferOf f.sourceAddress = some ⟨s, received⟩
    ∧ s.broadcast = false ∧ (TpDt.decode f.payload).sequence = s.nextSequence
    ∧ s.nextSequence ≠ s.packets ∧ s.windowRemaining ≤ 1

/-- Connection management is granted something only if it is an RTS that
is taken on. -/
theorem etp_onCm_grants {N : Nat} {room : Bool} {source : Address} {t : Option Etp.Transfer}
    {cm : EtpCm} :
    (∃ packets next pgn, (Etp.Transfer.onCm N room source t cm).1 = .send (.cts packets next pgn))
      ↔ ∃ size pgn, cm = .rts size pgn ∧ Etp.minMessageSize ≤ size ∧ size ≤ Etp.maxMessageSize
          ∧ size ≤ N ∧ t = none ∧ room = true := by
  cases cm with
  | rts size pgn =>
    unfold Etp.Transfer.onCm
    simp only [EtpCm.rts.injEq]
    constructor
    · rintro ⟨packets, next, g, h⟩
      refine ⟨size, pgn, ⟨rfl, rfl⟩, ?_⟩
      split at h
      · cases h
      split at h
      · cases h
      split at h
      · cases h
      next hsize hfits hbusy =>
      have hnone : t = none := by
        cases t with
        | none => rfl
        | some t => exact absurd rfl hbusy
      split at h
      next hroom => exact ⟨by omega, by omega, by omega, hnone, hroom⟩
      next => cases h
    · rintro ⟨size', pgn', ⟨rfl, rfl⟩, hmin, hmax, hfits, rfl, rfl⟩
      have hsize : ¬ (size < Etp.minMessageSize ∨ size > Etp.maxMessageSize) := by omega
      rw [if_neg hsize, if_neg (by omega), if_neg (by decide), if_pos rfl]
      exact ⟨_, _, _, rfl⟩
  | dpo packets offset pgn =>
    constructor
    · rintro ⟨_, _, _, h⟩
      unfold Etp.Transfer.onCm at h
      dsimp only at h
      split at h
      · cases h
      split at h <;> cases h
    · rintro ⟨_, _, h, -⟩
      cases h
  | cts | eoma | abort =>
    constructor
    · rintro ⟨_, _, _, h⟩
      cases h
    · rintro ⟨_, _, h, -⟩
      cases h

/-- Connection management completes no message. -/
theorem etp_onCm_ne_message {N : Nat} {room : Bool} {source peer : Address}
    {t : Option Etp.Transfer} {cm ack : EtpCm} {pgn : Pgn} {data : List UInt8} :
    (Etp.Transfer.onCm N room source t cm).1 ≠ .message pgn peer data ack := by
  intro h
  cases cm with
  | rts size g =>
    unfold Etp.Transfer.onCm at h
    dsimp only at h
    split at h
    · cases h
    split at h
    · cases h
    split at h
    · cases h
    split at h <;> cases h
  | dpo packets offset g =>
    unfold Etp.Transfer.onCm at h
    dsimp only at h
    split at h
    · cases h
    split at h <;> cases h
  | cts | eoma | abort => cases h

/-- An RTS that is not taken on is refused, and changes nothing. -/
theorem etp_onCm_refuses {N : Nat} {room : Bool} {source : Address} {t : Option Etp.Transfer}
    {size : Nat} {pgn : Pgn}
    (h : ¬ ∃ packets next g,
      (Etp.Transfer.onCm N room source t (.rts size pgn)).1 = .send (.cts packets next g)) :
    ∃ reason, Etp.Transfer.onCm N room source t (.rts size pgn)
      = (.send (.abort reason pgn), t) := by
  unfold Etp.Transfer.onCm at h ⊢
  dsimp only at h ⊢
  split
  · exact ⟨_, rfl⟩
  split
  · exact ⟨_, rfl⟩
  split
  · exact ⟨_, rfl⟩
  next hsize hfits hbusy =>
  split
  next hroom =>
    rw [if_neg hsize, if_neg hfits, if_neg hbusy, if_pos hroom] at h
    exact absurd ⟨_, _, _, rfl⟩ h
  next => exact ⟨_, rfl⟩

/-- A data packet, only if it fills a block. -/
theorem etp_onDt_grants {t : Option Etp.Transfer} {dt : EtpDt} :
    (∃ packets next pgn, (Etp.Transfer.onDt t dt).1 = .send (.cts packets next pgn))
      ↔ ∃ s received offset, t = some ⟨s, received⟩ ∧ s.offset = some offset
          ∧ dt.sequence = s.nextSequence ∧ s.blockPackets ≤ s.nextSequence
          ∧ offset + s.nextSequence < s.packets := by
  unfold Etp.Transfer.onDt
  constructor
  · rintro ⟨packets, next, pgn, h⟩
    split at h
    · cases h
    next s received =>
    split at h
    · cases h
    next offset hoffset =>
    split at h
    · cases h
    next hseq =>
    rw [Decidable.not_not] at hseq
    split at h
    · cases h
    next hlast =>
    split at h
    next hfull => exact ⟨s, received, offset, rfl, hoffset, hseq, by omega, by omega⟩
    next => cases h
  · rintro ⟨s, received, offset, rfl, hoffset, hseq, hfull, hlast⟩
    have hne : ¬ dt.sequence ≠ s.nextSequence := fun h => h hseq
    have hlast' : ¬ offset + dt.sequence ≥ s.packets := by omega
    have hfull' : dt.sequence ≥ s.blockPackets := by omega
    simp only [hoffset, if_neg hne, if_neg hlast', if_pos hfull']
    exact ⟨_, _, _, rfl⟩

/-- A message that is complete is acknowledged, not granted more. -/
theorem etp_onDt_ack {t : Option Etp.Transfer} {dt : EtpDt} {pgn : Pgn} {source : Address}
    {data : List UInt8} {ack : EtpCm}
    (h : (Etp.Transfer.onDt t dt).1 = .message pgn source data ack) :
    ∃ size pgn, ack = .eoma size pgn := by
  unfold Etp.Transfer.onDt at h
  split at h
  · cases h
  split at h
  · cases h
  split at h
  · cases h
  split at h
  · cases h
    exact ⟨_, _, rfl⟩
  split at h <;> cases h

/-- A data packet of the transport protocol, only if it fills a window. -/
theorem tp_onDt_grants {t : Option Tp.Transfer} {dt : TpDt} :
    (∃ packets next pgn, (Tp.Transfer.onDt t dt).1 = .send (.cts packets next pgn))
      ↔ ∃ s received, t = some ⟨s, received⟩ ∧ s.broadcast = false
          ∧ dt.sequence = s.nextSequence ∧ s.nextSequence ≠ s.packets ∧ s.windowRemaining ≤ 1 := by
  unfold Tp.Transfer.onDt
  constructor
  · rintro ⟨packets, next, pgn, h⟩
    split at h
    · cases h
    next s received =>
    split at h
    · split at h
      · cases h
      split at h <;> cases h
    next hseq =>
    rw [Decidable.not_not] at hseq
    split at h
    · cases h
    next hlast =>
    dsimp only at h
    split at h
    next hfull =>
      rw [Bool.and_eq_true, Bool.not_eq_true', beq_iff_eq] at hfull
      obtain ⟨hconnection, hwindow⟩ := hfull
      have hwindow : s.windowRemaining - 1 = 0 := hwindow
      exact ⟨s, received, rfl, hconnection, hseq, by rwa [← hseq], by omega⟩
    next => cases h
  · rintro ⟨s, received, rfl, hconnection, hseq, hlast, hwindow⟩
    have hne : ¬ dt.sequence ≠ s.nextSequence := fun h => h hseq
    have hlast' : ¬ dt.sequence = s.packets := by rwa [hseq]
    have hfull : (!(Tp.Transfer.advance s).broadcast
        && (Tp.Transfer.advance s).windowRemaining == 0) = true := by
      rw [Bool.and_eq_true, Bool.not_eq_true', beq_iff_eq]
      refine ⟨hconnection, ?_⟩
      show s.windowRemaining - 1 = 0
      omega
    simp only [if_neg hne, if_neg hlast', if_pos hfull]
    exact ⟨_, _, _, rfl⟩

theorem tp_onDt_ack {t : Option Tp.Transfer} {dt : TpDt} {pgn : Pgn} {source : Address}
    {data : List UInt8} {ack : TpCm}
    (h : (Tp.Transfer.onDt t dt).1 = .message pgn source data (some ack)) :
    ∃ size packets pgn, ack = .endOfMsgAck size packets pgn := by
  unfold Tp.Transfer.onDt at h
  split at h
  · cases h
  split at h
  · split at h
    · cases h
    split at h <;> cases h
  split at h
  · injection h with _ _ _ hack
    split at hack
    · exact ⟨_, _, _, (Option.some.inj hack).symm⟩
    · cases hack
  dsimp only at h
  split at h <;> cases h

/-- The message an outcome of the node's reassembler asks to have sent. -/
def cmOf : Tp.Rx → Option TpCm
  | .idle => none
  | .send cm => some cm
  | .message _ _ _ ack => ack

/-- Connection management other than an RTS is granted nothing. -/
theorem tp_onCm_grants {N : Nat} {room : Bool} {source : Address} {t : Option Tp.Transfer}
    {cm : TpCm} {packets next : Nat} {pgn : Pgn}
    (h : cmOf (Tp.Transfer.onCm N room source t cm).1 = some (.cts packets next pgn)) :
    ∃ size packets max pgn, cm = .rts size packets max pgn := by
  cases cm with
  | rts size packets max pgn => exact ⟨size, packets, max, pgn, rfl⟩
  | bam size packets pgn =>
    unfold Tp.Transfer.onCm at h
    dsimp only at h
    split at h
    · cases h
    split at h <;> cases h
  | abort | cts | endOfMsgAck => cases h

namespace Ecu

variable {β : Type} {BUF SESSIONS : Nat} {w w' w'' : Watched β BUF SESSIONS} {f g : Frame}

/-! ## §3. Who sends a Clear To Send. -/

/-- A Clear To Send is handed to the bus between two states. -/
def SentCts (w w' : Watched β BUF SESSIONS) : Prop :=
  ∃ g a, .sent g a ∈ happened w w' ∧ IsCts g

/-- From `w` to `w'` the log only grows, and by no Clear To Send. -/
def Quiet (w w' : Watched β BUF SESSIONS) : Prop :=
  ∃ done, w'.log = w.log ++ done ∧ ∀ g a, .sent g a ∈ done → ¬ IsCts g

instance : IsPreorder (Watched β BUF SESSIONS) Quiet where
  refl w := ⟨[], (List.append_nil _).symm, fun _ _ h => (nomatch h)⟩
  trans _ _ _ h h' := by
    obtain ⟨done, hlog, hdone⟩ := h
    obtain ⟨done', hlog', hdone'⟩ := h'
    refine ⟨done ++ done', by rw [hlog', hlog, List.append_assoc], fun g a hg => ?_⟩
    exact (List.mem_append.mp hg).elim (hdone g a) (hdone' g a)

theorem Quiet.not_sentCts (h : Quiet w w') : ¬ SentCts w w' := by
  obtain ⟨done, hlog, hdone⟩ := h
  rintro ⟨g, a, hg, hcts⟩
  rw [happened_eq hlog] at hg
  exact hdone g a hg hcts

theorem Obeys.quiet (h : Obeys w w') : Quiet w w' := by
  obtain ⟨done, hlog, hdone⟩ := h.log
  refine ⟨done, hlog, fun g a hg => ?_⟩
  have hplain : Plain a g := hdone _ hg
  exact hplain.not_cts

theorem Sends.quiet {P : Option Address → Frame → Prop} (h : Sends P w w')
    (hP : ∀ a f, P a f → ¬ IsCts f) : Quiet w w' := by
  obtain ⟨done, hlog, hdone⟩ := h.log
  refine ⟨done, hlog, fun g a hg => ?_⟩
  rcases hdone _ hg with ⟨g', heq, hg'⟩ | ⟨e, heq⟩
  · cases heq
    exact hP _ _ hg'
  · cases heq

theorem quiet_record {h : Happening BUF SESSIONS} (hsent : ∀ g a, h ≠ .sent g a) :
    Moves Quiet (record h : Prog β BUF SESSIONS Unit) := by
  refine fun w => ⟨[h], rfl, fun g a hg => ?_⟩
  exact absurd (List.mem_singleton.mp hg).symm (hsent g a)

variable [Bus β]

theorem quiet_sendFrame (hg : ¬ IsCts g) : Moves Quiet (sendFrame g : Prog β BUF SESSIONS Unit) :=
  fun _ => (sends_frame (P := fun _ f => ¬ IsCts f) hg).quiet fun _ _ h => h

/-- Handing over a Clear To Send counts, whether or not the bus takes
it. -/
theorem sentCts_sendFrame (hg : IsCts g) : SentCts w (after (sendFrame g w)) := by
  refine ⟨g, held w.node, ?_, hg⟩
  obtain ⟨done, hlog⟩ := log_sendFrame g w
  rw [happened_eq hlog]
  exact List.mem_cons_self

/-- A message of the extended protocol goes out as one frame. -/
theorem sendEtpCm_run (destination : Address) (cm : EtpCm) (w : Watched β BUF SESSIONS) :
    ∃ g, g.pgn = .etpCm ∧ g.payload = cm.encode ∧ sendEtpCm destination cm w = sendFrame g w := by
  obtain ⟨id, hid⟩ := Id.exists_fromParts .lowest destination w.node.address
    (show Pgn.etpCm.isPdu1 = true by decide)
  refine ⟨Frame.fromPayload id cm.encode, Id.pgn_fromParts hid, Frame.payload_fromPayload .., ?_⟩
  have hrun : sendEtpCm destination cm w
      = (valid (Id.fromParts .lowest .etpCm destination w.node.address) >>= fun id =>
          sendFrame (Frame.fromPayload id cm.encode)) w := rfl
  rw [hrun, hid]
  rfl

/-- Answering with one message is sending it. -/
theorem after_actOnEtp_send (source : Address) (cm : EtpCm) (w : Watched β BUF SESSIONS) :
    after (actOnEtp source (.send cm) w) = after (sendEtpCm source cm w) := by
  have hact : actOnEtp source (.send cm) w = ((sendEtpCm source cm >>= fun _ => pure PUnit.unit)
      >>= fun _ => pure none) w := rfl
  rw [hact, bind_run, bind_run]
  cases sendEtpCm source cm w <;> rfl

/-- **What the extended reassembler asks for is sent**: a Clear To Send if
it grants one, nothing of the kind otherwise. -/
theorem sentCts_actOnEtp {source : Address} {outcome : Etp.Rx} :
    (∃ packets next pgn, outcome = .send (.cts packets next pgn)) →
      SentCts w (after (actOnEtp source outcome w)) := by
  rintro ⟨packets, next, pgn, rfl⟩
  obtain ⟨g, hpgn, hpayload, hrun⟩ := sendEtpCm_run source (.cts packets next pgn) w
  rw [after_actOnEtp_send, hrun]
  exact sentCts_sendFrame ((isCts_etpCm hpgn hpayload).mpr ⟨packets, next, pgn, rfl⟩)

theorem quiet_actOnEtp {source : Address} {outcome : Etp.Rx}
    (h : ¬ ∃ packets next pgn, replyOf outcome = some (.cts packets next pgn)) :
    Moves Quiet (actOnEtp source outcome : Prog β BUF SESSIONS (Option Message)) := by
  refine (Moves.forM fun m _ => quiet_record fun _ _ h => (by cases h)).bind fun _ => ?_
  refine (Moves.forM fun cm hcm w => ?_).bind fun _ => Moves.pure _
  obtain ⟨g, hpgn, hpayload, hrun⟩ := sendEtpCm_run source cm w
  rw [hrun]
  refine quiet_sendFrame (fun hcts => h ?_) w
  rw [Option.mem_toList.mp hcm]
  obtain ⟨packets, next, pgn, rfl⟩ := (isCts_etpCm hpgn hpayload).mp hcts
  exact ⟨packets, next, pgn, rfl⟩

/-- The frame an event asks to have sent. -/
def frameOf : Event → Option Frame
  | .idle => none
  | .transmit reply => some reply
  | .message _ _ _ reply => reply

/-- **What the node asks for is sent**, and what acting on a message adds
is no Clear To Send. -/
theorem quiet_actOnEvent {event : Event} (h : ∀ g, frameOf event = some g → ¬ IsCts g) :
    Moves Quiet (actOnEvent event : Prog β BUF SESSIONS (Option Message)) := by
  cases event with
  | idle => exact Moves.pure _
  | transmit reply => exact (quiet_sendFrame (h reply rfl)).bind fun _ => Moves.pure _
  | message pgn source data reply =>
    refine (quiet_record fun _ _ h => (by cases h)).bind fun _ => ?_
    refine (Moves.forM fun g hg => quiet_sendFrame (h g (Option.mem_toList.mp hg))).bind fun _ => ?_
    refine ((obeys_commandedAddress _).weaken fun _ _ h => h.quiet).bind fun _ => ?_
    refine ((obeys_dm13 _).weaken fun _ _ h => h.quiet).bind fun _ => ?_
    exact ((obeys_request _).weaken fun _ _ h => h.quiet).bind fun _ => Moves.pure _

theorem sentCts_actOnEvent (hg : IsCts g) : SentCts w (after (actOnEvent (.transmit g) w)) := by
  have hact : actOnEvent (.transmit g) w = (sendFrame g >>= fun _ => pure none) w := rfl
  have hafter : after (actOnEvent (.transmit g) w) = after (sendFrame g w) := by
    rw [hact, bind_run]
    cases sendFrame g w <;> rfl
  rw [hafter]
  exact sentCts_sendFrame hg

/-! ## §4. Global frames. -/

/-- The receive filter lets every global frame through. -/
theorem isAddressedTo_of_isBroadcast {id : Id} (h : id.isBroadcast = true) (a : Address) :
    id.isAddressedTo a = true := by
  unfold Id.isBroadcast at h
  unfold Id.isAddressedTo
  cases hd : id.destinationAddress with
  | none => rfl
  | some d =>
    rw [hd] at h
    show (d.isBroadcast || d == a) = true
    rw [show d.isBroadcast = true from h, Bool.true_or]

/-- What the reassembler answers, read off the peer's transfer. -/
theorem Reassembles.cases {r r' : Etp.Reassembler etpBuffer 2} {outcome : Etp.Rx} (hr : r.WF)
    (h : Reassembles f r outcome r') :
    (f.pgn = .etpCm ∧ ∃ cm, EtpCm.decode f.payload = .ok cm
        ∧ outcome = (Etp.Transfer.onCm etpBuffer r.room f.sourceAddress
            (r.transferOf f.sourceAddress) cm).1
        ∧ Etp.Reassembler.Focused r r' f.sourceAddress (Etp.Transfer.onCm etpBuffer r.room
            f.sourceAddress (r.transferOf f.sourceAddress) cm).2)
      ∨ f.pgn = .etpDt ∧ outcome = (Etp.Transfer.onDt (r.transferOf f.sourceAddress)
          (EtpDt.decode f.payload)).1 := by
  rcases h with ⟨hcm, cm, hdecode, hcall⟩ | ⟨hdt, hcall⟩
  · rcases Etp.Reassembler.onEtpCm_refines hr f.sourceAddress cm with
      ⟨r'', hok, hfocus⟩ | ⟨herr, -⟩
    · rw [hok] at hcall
      cases hcall
      exact Or.inl ⟨hcm, cm, hdecode, rfl, hfocus⟩
    · rw [herr] at hcall
      cases hcall
  · obtain ⟨r'', hok, -⟩ := Etp.Reassembler.onEtpDt_refines hr f.sourceAddress
      (EtpDt.decode f.payload)
    rw [hok] at hcall
    cases hcall
    exact Or.inr ⟨hdt, rfl⟩

/-- The extended reassembler grants exactly the RTS it takes on and the
packet that fills a block. -/
theorem reassembles_grants {r r' : Etp.Reassembler etpBuffer 2} {outcome : Etp.Rx} (hr : r.WF)
    (h : Reassembles f r outcome r') :
    (∃ packets next pgn, outcome = .send (.cts packets next pgn))
      ↔ TakesOn r f ∨ FillsBlock r f := by
  have hne : Pgn.etpCm ≠ Pgn.etpDt := by decide
  rcases h.cases hr with ⟨hcm, cm, hdecode, rfl, -⟩ | ⟨hdt, rfl⟩
  · rw [etp_onCm_grants]
    constructor
    · rintro ⟨size, pgn, rfl, hmin, -, hfits, hnone, hroom⟩
      exact Or.inl ⟨hcm, size, pgn, hdecode, hmin, hfits, hnone, hroom⟩
    · rintro (⟨-, size, pgn, hrts, hmin, hfits, hnone, hroom⟩ | ⟨hdt, -⟩)
      · rw [hdecode] at hrts
        cases hrts
        have hmax : size ≤ Etp.maxMessageSize := by
          rw [Etp.maxMessageSize_eq]
          unfold etpBuffer at hfits
          omega
        exact ⟨size, pgn, rfl, hmin, hmax, hfits, hnone, hroom⟩
      · exact absurd (hcm.symm.trans hdt) hne
  · rw [etp_onDt_grants]
    constructor
    · exact fun hfills => Or.inr ⟨hdt, hfills⟩
    · rintro (⟨hcm, -⟩ | ⟨-, hfills⟩)
      · exact absurd (hcm.symm.trans hdt) hne
      · exact hfills

/-- A Clear To Send is all there is to an outcome that has one. -/
theorem reassembles_reply {r r' : Etp.Reassembler etpBuffer 2} {outcome : Etp.Rx} (hr : r.WF)
    (h : Reassembles f r outcome r') {packets next : Nat} {pgn : Pgn}
    (hreply : replyOf outcome = some (.cts packets next pgn)) :
    outcome = .send (.cts packets next pgn) := by
  cases outcome with
  | idle => cases hreply
  | send cm => exact congrArg _ (Option.some.inj hreply)
  | message g source data ack =>
    rcases h.cases hr with ⟨-, cm, -, hout, -⟩ | ⟨-, hout⟩
    · exact absurd hout.symm etp_onCm_ne_message
    · obtain ⟨_, _, rfl⟩ := etp_onDt_ack hout.symm
      cases hreply

/-- A claim is of its own group. -/
theorem pgn_of_claim {n : Node BUF SESSIONS} {action : ClaimAction}
    (h : frameOf (n.actOnClaim action).1 = some g) : g.pgn = .addressClaimed := by
  cases action with
  | idle => cases h
  | announce claim =>
    have hg : addressClaimFrame claim.source claim.name = g := Option.some.inj h
    rw [← hg]
    exact Id.pgn_broadcast ..

/-- So it is no Clear To Send. -/
theorem not_isCts_claim {n : Node BUF SESSIONS} {action : ClaimAction}
    (h : frameOf (n.actOnClaim action).1 = some g) : ¬ IsCts g := by
  rw [IsCts, pgn_of_claim h]
  rintro (⟨hcm, -⟩ | ⟨hcm, -⟩) <;> exact absurd hcm (by decide)

/-- The frame of an event is that of the message its outcome sends. -/
theorem frameOf_lift {outcome : Tp.Rx} {a peer : Address}
    (h : frameOf (Node.lift outcome a peer) = some g) :
    ∃ cm, cmOf outcome = some cm ∧ tpCmFrame a peer cm = some g := by
  cases outcome with
  | idle => cases h
  | send cm =>
    refine ⟨cm, rfl, ?_⟩
    unfold Node.lift at h
    dsimp only at h
    cases hframe : tpCmFrame a peer cm with
    | none =>
      rw [hframe] at h
      cases h
    | some g' =>
      rw [hframe] at h
      exact h
  | message pgn source data ack =>
    cases ack with
    | none => cases h
    | some cm => exact ⟨cm, rfl, h⟩

/-- The event of an outcome sends a Clear To Send if the outcome grants
one. -/
theorem lift_grants {a peer : Address} {packets next : Nat} {pgn : Pgn} :
    ∃ g, Node.lift (.send (.cts packets next pgn)) a peer = .transmit g ∧ IsCts g := by
  obtain ⟨id, hid⟩ := Id.exists_fromParts .lowest peer a
    (show Pgn.tpCm.isPdu1 = true by decide)
  have hframe : ∃ g, tpCmFrame a peer (.cts packets next pgn) = some g := by
    unfold tpCmFrame
    rw [hid]
    exact ⟨_, rfl⟩
  obtain ⟨g, hg⟩ := hframe
  refine ⟨g, ?_, (isCts_tpCm hg).mpr ⟨packets, next, pgn, rfl⟩⟩
  unfold Node.lift
  dsimp only
  rw [hg]

theorem not_isCts_lift {outcome : Tp.Rx} {a peer : Address}
    (h : ¬ ∃ packets next pgn, cmOf outcome = some (.cts packets next pgn))
    (hg : frameOf (Node.lift outcome a peer) = some g) : ¬ IsCts g := by
  obtain ⟨cm, hout, hframe⟩ := frameOf_lift hg
  intro hcts
  obtain ⟨packets, next, pgn, rfl⟩ := (isCts_tpCm hframe).mp hcts
  exact h ⟨packets, next, pgn, hout⟩

/-- **Of the global frames the node grants more to one only**: the data
packet that fills a window. -/
theorem onFrame_grants {n n' : Node BUF SESSIONS} {event : Event} (hn : n.WF)
    (hf : f.id.isBroadcast = true) (h : n.onFrame f = .ok (event, n')) :
    (FillsWindow n.reassembler f → ∃ g, event = .transmit g ∧ IsCts g)
      ∧ (¬ FillsWindow n.reassembler f → ∀ g, frameOf event = some g → ¬ IsCts g) := by
  have haddr : f.id.isAddressedTo n.address = true := isAddressedTo_of_isBroadcast hf _
  by_cases hdt : f.pgn = .tpDt
  · -- a data packet
    have hroute := Node.route_data haddr hdt
    obtain ⟨n'', hok, -⟩ := Node.onFrame_data hn hroute
    rw [hok] at h
    injection h with h
    have hevent := (congrArg Prod.fst h).symm
    dsimp only at hevent
    constructor
    · rintro ⟨-, hfills⟩
      obtain ⟨packets, next, pgn, hout⟩ := tp_onDt_grants.mpr hfills
      rw [hevent, hout]
      exact lift_grants
    · intro hfills g hg
      rw [hevent] at hg
      refine not_isCts_lift ?_ hg
      rintro ⟨packets, next, pgn, hcm⟩
      refine hfills ⟨hdt, tp_onDt_grants.mp ⟨packets, next, pgn, ?_⟩⟩
      -- a completed message is acknowledged, not granted more
      generalize n.reassembler.transferOf f.sourceAddress = t at hcm ⊢
      cases hout : (Tp.Transfer.onDt t (TpDt.decode f.payload)).1 with
      | idle =>
        rw [hout] at hcm
        cases hcm
      | send cm =>
        rw [hout] at hcm
        exact congrArg _ (Option.some.inj hcm)
      | message pgn' source data ack =>
        have hack : ack = some (.cts packets next pgn) := by rwa [hout] at hcm
        rw [hack] at hout
        obtain ⟨_, _, _, hend⟩ := tp_onDt_ack hout
        cases hend
  · refine ⟨fun hfills => absurd hfills.1 hdt, fun _ g hg => ?_⟩
    rw [Node.onFrame_eq] at h
    cases hroute : n.route f with
    | ignore =>
      rw [hroute] at h
      cases h
      cases hg
    | addressClaimed name =>
      rw [hroute] at h
      injection h with h
      have hevent := congrArg Prod.fst h
      dsimp only at hevent
      rw [← hevent] at hg
      exact not_isCts_claim hg
    | claimRequest =>
      rw [hroute] at h
      injection h with h
      have hevent := congrArg Prod.fst h
      dsimp only at hevent
      rw [← hevent] at hg
      exact not_isCts_claim hg
    | connection cm =>
      rw [hroute] at h
      injection h with h
      have hevent := congrArg Prod.fst h
      dsimp only at hevent
      rw [← hevent, (Tp.Reassembler.onTpCm_refines hn.receiver _ _).1] at hg
      refine not_isCts_lift ?_ hg
      rintro ⟨packets, next, pgn, hcm⟩
      obtain ⟨size, k, max, pgn', rfl⟩ := tp_onCm_grants hcm
      exact absurd hf (by rw [Node.not_isBroadcast_of_route hroute]; exact Bool.false_ne_true)
    | data dt => exact absurd (Node.pgn_of_route_data hroute) hdt
    | application =>
      rw [hroute] at h
      cases h
      cases hg

/-! ## §5. No answer to a global frame. -/

/-- Dispatching `f` sends no Clear To Send, and if `f` is an RTS every
session there is afterwards was there before. -/
structure Unanswered (w : Watched β BUF SESSIONS) (f : Frame) : Prop where
  no_cts : ¬ SentCts w (after (dispatch f w))
  no_tp_session : IsRts f → ∀ peer t,
    (after (dispatch f w)).node.reassembler.transferOf peer = some t →
      w.node.reassembler.transferOf peer = some t
  no_etp_session : IsRts f → ∀ peer t,
    (after (dispatch f w)).etp.transferOf peer = some t → w.etp.transferOf peer = some t

/-- What answers an RTS that is not taken on. -/
theorem reassembles_rts {r r' : Etp.Reassembler etpBuffer 2} {outcome : Etp.Rx} (hr : r.WF)
    (h : Reassembles f r outcome r') (hrts : IsRts f)
    (hcts : ¬ ∃ packets next pgn, outcome = .send (.cts packets next pgn)) :
    (∃ cm, outcome = .send cm) ∧ ∀ a, r'.transferOf a = r.transferOf a := by
  have h₁ : Pgn.tpCm ≠ Pgn.etpCm := by decide
  have h₂ : Pgn.tpCm ≠ Pgn.etpDt := by decide
  have h₃ : Pgn.etpCm ≠ Pgn.etpDt := by decide
  have hpgn : f.pgn = .tpCm ∨ f.pgn = .etpCm := hrts.imp (fun h => h.1) fun h => h.1
  rcases h.cases hr with ⟨hcm, cm, hdecode, rfl, hfocus⟩ | ⟨hdt, -⟩
  · obtain ⟨-, size, pgn, hrts⟩ := hrts.resolve_left fun h => h₁ (h.1.symm.trans hcm)
    rw [hdecode] at hrts
    cases hrts
    obtain ⟨reason, heq⟩ := etp_onCm_refuses hcts
    rw [heq] at hfocus ⊢
    refine ⟨⟨_, rfl⟩, fun a => ?_⟩
    by_cases ha : a = f.sourceAddress
    · rw [ha]
      exact hfocus.self
    · exact hfocus.others a ha
  · rw [hdt] at hpgn
    exact absurd hpgn (by decide)

/-- A frame with an outcome of the extended reassembler. -/
theorem unanswered_reassembled (hwf : w.toEcu.WF) (hf : f.id.isBroadcast = true)
    {outcome : Etp.Rx} {r : Etp.Reassembler etpBuffer 2} (h : Reassembles f w.etp outcome r) :
    Unanswered w f ↔ ¬ TakesOn w.etp f ∧ ¬ FillsBlock w.etp f := by
  have hrun : dispatch f w = actOnEtp f.sourceAddress outcome { w with etp := r } :=
    dispatch_reassembles (isAddressedTo_of_isBroadcast hf _) h
  rw [← not_or, ← reassembles_grants hwf.etp h]
  constructor
  · intro hun hcts
    refine hun.no_cts ?_
    rw [hrun]
    exact sentCts_actOnEtp (w := { w with etp := r }) hcts
  · intro hcts
    have hquiet : Quiet w (after (dispatch f w)) := by
      rw [hrun]
      refine quiet_actOnEtp (fun ⟨packets, next, pgn, hreply⟩ => hcts ?_) { w with etp := r }
      exact ⟨packets, next, pgn, reassembles_reply hwf.etp h hreply⟩
    have hsame : IsRts f → (after (dispatch f w)).node = w.node
        ∧ ∀ a, (after (dispatch f w)).etp.transferOf a = w.etp.transferOf a := by
      intro hrts
      obtain ⟨⟨cm, rfl⟩, hall⟩ := reassembles_rts hwf.etp h hrts hcts
      have hsends := sends_etpCm f.sourceAddress cm ({ w with etp := r } : Watched β BUF SESSIONS)
      rw [hrun, after_actOnEtp_send, hsends.same]
      exact ⟨rfl, hall⟩
    refine ⟨hquiet.not_sentCts, fun hrts peer t ht => ?_, fun hrts peer t ht => ?_⟩
    · rwa [(hsame hrts).1] at ht
    · rwa [(hsame hrts).2] at ht

/-- A frame that is not of the extended protocol. -/
theorem unanswered_node (hwf : w.toEcu.WF) (hf : f.id.isBroadcast = true) (hext : ¬ IsExtended f) :
    Unanswered w f ↔ ¬ FillsWindow w.node.reassembler f := by
  obtain ⟨event, n', hok⟩ := Node.onFrame_total hwf.node f
  have hrun := dispatch_node hext hok
  have hlog : (noted f w).log = w.log := by rw [(recordClaim_run f w).2]
  obtain ⟨hfills, hquiet⟩ := onFrame_grants hwf.node hf hok
  constructor
  · intro hun hwindow
    obtain ⟨g, rfl, hcts⟩ := hfills hwindow
    obtain ⟨g', a, hsent, hcts'⟩ :=
      sentCts_actOnEvent (w := { noted f w with node := n' }) hcts
    refine hun.no_cts ⟨g', a, ?_, hcts'⟩
    rw [hrun]
    unfold happened at hsent ⊢
    rwa [← hlog]
  · intro hwindow
    have hquiet : Quiet w (after (dispatch f w)) := by
      rw [hrun]
      obtain ⟨done, hdone, hsent⟩ := quiet_actOnEvent (hquiet hwindow) { noted f w with node := n' }
      exact ⟨done, by rw [hdone, hlog], hsent⟩
    have hsame : IsRts f → (after (dispatch f w)).node.reassembler = w.node.reassembler
        ∧ (after (dispatch f w)).etp = w.etp := by
      intro hrts
      obtain ⟨hcm, size, packets, max, pgn, hdecode⟩ :=
        hrts.resolve_right fun h => hext (Or.inl h.1)
      have hignore := Node.route_broadcastRts (n := w.node) hcm hdecode hf
      rw [Node.onFrame_eq, hignore] at hok
      cases hok
      rw [hrun]
      refine ⟨rfl, ?_⟩
      show (noted f w).etp = w.etp
      rw [(recordClaim_run f w).2]
    refine ⟨hquiet.not_sentCts, fun hrts peer t ht => ?_, fun hrts peer t ht => ?_⟩
    · rwa [(hsame hrts).1] at ht
    · rwa [(hsame hrts).2] at ht

/-- **A global frame draws no answer** unless it is an extended RTS that
the table takes on, or fills a block or a window. -/
theorem unanswered_iff {name : Name} {preferred : Address} (h : Reachable name preferred w)
    (hf : f.id.isBroadcast = true) :
    Unanswered w f ↔ ¬ TakesOn w.etp f ∧ ¬ FillsBlock w.etp f
      ∧ ¬ FillsWindow w.node.reassembler f := by
  have hwf := h.wf
  have h₁ : ¬ IsExtended f → ¬ TakesOn w.etp f ∧ ¬ FillsBlock w.etp f :=
    fun hext => ⟨fun h => hext (Or.inl h.1), fun h => hext (Or.inr h.1)⟩
  have h₂ : IsExtended f → ¬ FillsWindow w.node.reassembler f := by
    rintro hext ⟨hdt, -⟩
    rw [IsExtended, hdt] at hext
    exact absurd hext (by decide)
  by_cases hext : IsExtended f
  · rcases ignores_or_reassembles hwf.etp hext with hignored | ⟨-, outcome, r, hr, -⟩
    · have hrun := dispatch_ignored hext hignored
      have hsame : Unanswered w f := by
        refine ⟨?_, fun _ _ _ ht => ?_, fun _ _ _ ht => ?_⟩
        · rw [hrun]
          exact (refl_of Quiet w).not_sentCts
        · rwa [hrun] at ht
        · rwa [hrun] at ht
      obtain ⟨hcm, e, hdecode⟩ := hignored.resolve_left (by
        rw [isAddressedTo_of_isBroadcast hf]
        exact Bool.noConfusion)
      have htakes : ¬ TakesOn w.etp f := by
        rintro ⟨-, size, pgn, hrts, -⟩
        rw [hdecode] at hrts
        cases hrts
      have hblock : ¬ FillsBlock w.etp f := by
        rintro ⟨hdt, -⟩
        rw [hcm] at hdt
        exact absurd hdt (by decide)
      exact ⟨fun _ => ⟨htakes, hblock, h₂ hext⟩, fun _ => hsame⟩
    · rw [unanswered_reassembled hwf hf hr]
      constructor
      · intro h
        exact ⟨h.1, h.2, h₂ hext⟩
      · intro h
        exact ⟨h.1, h.2.1⟩
  · rw [unanswered_node hwf hf hext]
    exact ⟨fun hwindow => ⟨(h₁ hext).1, (h₁ hext).2, hwindow⟩, fun h => h.2.2⟩

/-! ## §6. An ECU that answers. -/

/-- An ECU that has claimed address `0x80`. -/
def claimed : Watched FakeBus 64 2 :=
  after (call 4 .claimAddress ⟨Ecu.new ⟨[], [], 0, 300000⟩ ⟨1⟩ (Address.ofNat 0x80), []⟩)

/-- An RTS of the transport protocol to everybody: 20 bytes in 3 packets. -/
def tpRtsToAll : Frame :=
  Frame.fromPayload ⟨0x1CECFF11, by decide⟩ ![0x10, 20, 0, 3, 0xFF, 0x00, 0xEF, 0x00]

/-- An RTS of the extended protocol to everybody: 10000 bytes. -/
def etpRtsToAll : Frame :=
  Frame.fromPayload ⟨0x1CC8FF11, by decide⟩ ![20, 0x10, 0x27, 0, 0, 0x00, 0xEF, 0x00]

theorem claimed_reachable : Reachable ⟨1⟩ (Address.ofNat 0x80) claimed :=
  (Reachable.new _).call 4 .claimAddress

/-- The RTS of the transport protocol is dropped. -/
theorem unanswered_tpRts : Unanswered claimed tpRtsToAll := by
  refine (unanswered_iff claimed_reachable (by decide)).mpr ⟨?_, ?_, ?_⟩
  · rintro ⟨h, -⟩
    exact absurd h (by decide)
  · rintro ⟨h, -⟩
    exact absurd h (by decide)
  · rintro ⟨h, -⟩
    exact absurd h (by decide)

/-- An entry of the log that a Clear To Send of the extended protocol was
handed over. -/
def grantsEtp : Happening BUF SESSIONS → Bool
  | .sent g _ => g.pgn = .etpCm && g.payload 0 == 21
  | _ => false

/-- **The RTS of the extended protocol is answered**, from an address that
is held. -/
theorem answered_etpRts : Reachable ⟨1⟩ (Address.ofNat 0x80) claimed
    ∧ held claimed.node = some (Address.ofNat 0x80) ∧ etpRtsToAll.id.isBroadcast = true
    ∧ ¬ Unanswered claimed etpRtsToAll := by
  refine ⟨claimed_reachable, by decide +kernel, by decide, fun h => h.no_cts ?_⟩
  have hany : (happened claimed (after (dispatch etpRtsToAll claimed))).any grantsEtp = true := by
    decide +kernel
  obtain ⟨entry, hmem, hgrants⟩ := List.any_eq_true.mp hany
  cases entry with
  | sent g a =>
    have hg : g.pgn = .etpCm ∧ g.payload 0 = 21 := by
      simpa [grantsEtp] using hgrants
    exact ⟨g, a, hmem, Or.inr ⟨hg.1, (etp_cts_iff g.payload).mpr hg.2⟩⟩
  | received | completed | queued | failed | taken | passed => cases hgrants

end Ecu

end SaeJ1939.Host
