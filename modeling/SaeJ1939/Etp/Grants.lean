/-
  SaeJ1939.Etp.Grants — what an extended transmitter sends, by what it was
  granted.

  An extended transmitter works two windows: that of the packets of its
  block, and that of the one offset that declares the block.  A CTS of its
  group that grants at least one of its packets opens both; an abort and an
  acknowledgement close neither.

  Main results:
    * `works`, `declares` — every call moves the two windows.
    * `terminal_is_final_iff` — when nothing is sent after the transfer
      was aborted or completed.
    * `terminal_outcomes_are_final_iff` — the same, for both protocols.
-/
import SaeJ1939.Etp.Completion
import SaeJ1939.Tp.Grants

namespace SaeJ1939.Etp.Transmitter

open Checked Machine Grants Chunks

/-! ## §1. Calls as moves. -/

/-- The packets of its block that a transmitter may still send, by their
absolute numbers. -/
def window (tx : Transmitter) : Window :=
  ⟨tx.blockStart + tx.nextSequence - 1, tx.blockPackets + 1 - tx.nextSequence⟩

/-- The offset a transmitter may still declare, if it has a block. -/
def offer (tx : Transmitter) : Window :=
  if tx.offsetSent then ⟨tx.blockStart + 1, 0⟩ else ⟨tx.blockStart, min 1 tx.blockPackets⟩

/-- What a call does to the packets of the block, in a transfer of
`packets` packets. -/
def moveOf (pgn : Pgn) (packets : Nat) : Call → Move
  | .etpCm (.cts granted nextPacket named) =>
      if named = pgn ∧ 1 ≤ granted ∧ 1 ≤ nextPacket ∧ nextPacket ≤ packets then
        .grant ⟨nextPacket, min (blockSize (packets - nextPacket + 1) nextPacket) granted⟩
      else .other
  | .etpCm _ | .offset => .other
  | .nextPacket => .take

/-- What a call does to the offset of the block. -/
def offerOf (pgn : Pgn) (packets : Nat) : Call → Move
  | .etpCm (.cts granted nextPacket named) =>
      if named = pgn ∧ 1 ≤ granted ∧ 1 ≤ nextPacket ∧ nextPacket ≤ packets then
        .grant ⟨nextPacket, 1⟩
      else .other
  | .etpCm _ | .nextPacket => .other
  | .offset => .take

/-- The packet a reply carries. -/
def Reply.dt : Reply → Option EtpDt
  | .packet dt => dt
  | .told _ | .offset _ => none

/-- The offset a reply carries. -/
def Reply.declared : Reply → Option EtpCm
  | .offset cm => cm
  | .told _ | .packet _ => none

/-- The payload bytes a reply carries. -/
def Reply.payload (reply : Reply) : Option (List UInt8) := reply.dt.map EtpDt.bytes

/-- Whether a reply declares an offset. -/
def Reply.declares (reply : Reply) : Option Unit := reply.declared.map fun _ => ()

/-- A reply that ends the transfer. -/
def Reply.ends : Reply → Bool
  | .told .complete | .told (.aborted _) => true
  | .told .idle | .told .sendData | .offset _ | .packet _ => false

/-- A message that ends the transfer: an acknowledgement or an abort that
names its group. -/
def Call.ends (pgn : Pgn) : Call → Bool
  | .etpCm (.eoma _ named) | .etpCm (.abort _ named) => named == pgn
  | .etpCm (.cts ..) | .etpCm (.rts ..) | .etpCm (.dpo ..) | .offset | .nextPacket => false

/-- A transmitter of `data` under `pgn`, at any time. -/
structure Sends (pgn : Pgn) (data : List UInt8) (tx : Transmitter) : Prop where
  wf : tx.WF
  pgn_eq : tx.pgn = pgn
  data_eq : tx.data = data

/-! ## §2. One call. -/

variable {pgn : Pgn} {data : List UInt8} {tx tx' : Transmitter}

theorem Sends.packets (h : tx.Sends pgn data) : tx.packets = packetCount data.length := by
  rw [tx.packets_eq, h.data_eq]

/-- Connection management neither sends nor declares. -/
theorem yield_etpCm (w : Window) (pgn : Pgn) (packets : Nat) (cm : EtpCm) :
    w.yield (moveOf pgn packets (.etpCm cm)) = none
      ∧ w.yield (offerOf pgn packets (.etpCm cm)) = none := by
  cases cm with
  | cts granted nextPacket named =>
    constructor
    · show w.yield (if _ then _ else _) = none
      split <;> rfl
    · show w.yield (if _ then _ else _) = none
      split <;> rfl
  | rts | dpo | eoma | abort => exact ⟨rfl, rfl⟩

/-- Connection management, as a move of both windows. -/
theorem onEtpCm_works (h : tx.Sends pgn data) (cm : EtpCm) :
    ∃ told tx', tx.onEtpCm cm = .ok (told, tx') ∧ tx'.Sends pgn data
      ∧ tx'.window = tx.window.move (moveOf pgn (packetCount data.length) (.etpCm cm))
      ∧ tx'.offer = tx.offer.move (offerOf pgn (packetCount data.length) (.etpCm cm))
      ∧ (Reply.told told).ends = (Call.etpCm cm).ends pgn := by
  obtain ⟨told, tx', hok, hwf⟩ := onEtpCm_total h.wf cm
  have hpackets := h.packets
  by_cases hpgn : cm.pgn = tx.pgn
  · have hown : ¬ cm.pgn ≠ tx.pgn := not_not_intro hpgn
    rw [h.pgn_eq] at hpgn
    cases cm with
    | cts granted nextPacket named =>
      replace hpgn : named = pgn := hpgn
      by_cases hgrant : 1 ≤ granted ∧ 1 ≤ nextPacket ∧ nextPacket ≤ tx.packets
      · obtain ⟨hp, hn, hn'⟩ := hgrant
        have hheeded : named = pgn ∧ 1 ≤ granted ∧ 1 ≤ nextPacket
            ∧ nextPacket ≤ packetCount data.length := ⟨hpgn, hp, hn, hpackets ▸ hn'⟩
        have hcts := tx.onEtpCm_cts hp hn hn'
        rw [h.pgn_eq, ← hpgn, hok, Except.ok.injEq, Prod.mk.injEq] at hcts
        obtain ⟨rfl, rfl⟩ := hcts
        obtain ⟨hpos, -⟩ := blockSize_bounds nextPacket
          (Nat.le_add_left 1 (tx.packets - nextPacket))
        refine ⟨_, _, hok, ⟨hwf, hpgn, h.data_eq⟩, ?_, ?_, rfl⟩
        · show _ = Window.move _ (if _ then _ else _)
          rw [if_pos hheeded, ← hpackets]
          rfl
        · show _ = Window.move _ (if _ then _ else _)
          rw [if_pos hheeded]
          show Window.mk nextPacket (min 1 (min _ granted)) = ⟨nextPacket, 1⟩
          congr 1
          omega
      · -- a hold, or a block that is not there
        have hignored : ¬ (named = pgn ∧ 1 ≤ granted ∧ 1 ≤ nextPacket
            ∧ nextPacket ≤ packetCount data.length) :=
          fun hall => hgrant (hpackets ▸ hall.2)
        refine ⟨.idle, tx, ?_, h, ?_, ?_, rfl⟩
        · unfold onEtpCm
          rw [if_neg hown]
          exact if_pos (by omega)
        · show _ = Window.move _ (if _ then _ else _)
          rw [if_neg hignored]
          rfl
        · show _ = Window.move _ (if _ then _ else _)
          rw [if_neg hignored]
          rfl
    | eoma size named =>
      replace hpgn : named = pgn := hpgn
      have hcomplete : tx.onEtpCm (.eoma size named)
          = .ok (.complete, { tx with complete := true }) :=
        if_neg hown
      refine ⟨_, _, hcomplete, ⟨⟨h.wf.start_pos, h.wf.start_le, h.wf.block_le, h.wf.block_end,
        h.wf.next_pos⟩, h.pgn_eq, h.data_eq⟩, rfl, rfl, ?_⟩
      show true = (named == pgn)
      rw [hpgn, beq_self_eq_true]
    | abort reason named =>
      replace hpgn : named = pgn := hpgn
      have haborted : tx.onEtpCm (.abort reason named) = .ok (.aborted reason, tx) := if_neg hown
      refine ⟨_, _, haborted, h, rfl, rfl, ?_⟩
      show true = (named == pgn)
      rw [hpgn, beq_self_eq_true]
    | rts size named =>
      have hidle : tx.onEtpCm (.rts size named) = .ok (.idle, tx) := if_neg hown
      exact ⟨_, _, hidle, h, rfl, rfl, rfl⟩
    | dpo packets offset named =>
      have hidle : tx.onEtpCm (.dpo packets offset named) = .ok (.idle, tx) := if_neg hown
      exact ⟨_, _, hidle, h, rfl, rfl, rfl⟩
  · -- another group
    have hidle : tx.onEtpCm cm = .ok (.idle, tx) := if_pos hpgn
    rw [h.pgn_eq] at hpgn
    cases cm with
    | cts granted nextPacket named =>
      have hignored : ¬ (named = pgn ∧ 1 ≤ granted ∧ 1 ≤ nextPacket
          ∧ nextPacket ≤ packetCount data.length) := fun hall => hpgn hall.1
      refine ⟨_, _, hidle, h, ?_, ?_, rfl⟩
      · show _ = Window.move _ (if _ then _ else _)
        rw [if_neg hignored]
        rfl
      · show _ = Window.move _ (if _ then _ else _)
        rw [if_neg hignored]
        rfl
    | eoma size named | abort reason named =>
      have hother : (named == pgn) = false := beq_eq_false_iff_ne.mpr hpgn
      exact ⟨_, _, hidle, h, rfl, rfl, hother.symm⟩
    | rts | dpo => exact ⟨_, _, hidle, h, rfl, rfl, rfl⟩

/-- Declaring the offset, as a move of the offer. -/
theorem offset_works (h : tx.Sends pgn data) :
    ∃ cm tx', tx.offset = .ok (cm, tx') ∧ tx'.Sends pgn data ∧ tx'.window = tx.window
      ∧ tx'.offer = tx.offer.move .take
      ∧ cm.map (fun _ => ()) = (tx.offer.yield .take).map fun _ => () := by
  by_cases hshut : tx.offsetSent = true ∨ tx.blockPackets = 0
  · have hzero : tx.offer.left = 0 := by
      unfold offer
      rcases hshut with hsent | hblock
      · rw [if_pos hsent]
      · split
        · rfl
        · show min 1 tx.blockPackets = 0
          omega
    refine ⟨none, tx, if_pos hshut, h, rfl, (if_pos hzero).symm, ?_⟩
    show none = Option.map _ (if tx.offer.left = 0 then none else _)
    rw [if_pos hzero, Option.map_none]
  · push Not at hshut
    obtain ⟨hsent, hblock⟩ := hshut
    replace hsent : tx.offsetSent = false := Bool.eq_false_iff.mpr hsent
    have hoffer : tx.offer = ⟨tx.blockStart, 1⟩ := by
      unfold offer
      rw [if_neg (by rw [hsent]; exact Bool.false_ne_true)]
      congr 1
      omega
    refine ⟨_, _, offset_some hsent (by omega) h.wf.start_pos,
      ⟨⟨h.wf.start_pos, h.wf.start_le, h.wf.block_le, h.wf.block_end, h.wf.next_pos⟩, h.pgn_eq,
        h.data_eq⟩, rfl, ?_, ?_⟩
    · rw [hoffer]
      rfl
    · rw [hoffer]
      rfl

/-- The payload of the packet with the absolute number `k`. -/
def payloadOf (data : List UInt8) (k : Nat) : List UInt8 := pad 7 fill (chunk 7 data (k - 1))

/-- Pulling a packet, as a move of the window. -/
theorem nextPacket_works (h : tx.Sends pgn data) :
    ∃ dt tx', tx.nextPacket = .ok (dt, tx') ∧ tx'.Sends pgn data
      ∧ tx'.window = tx.window.move .take ∧ tx'.offer = tx.offer
      ∧ dt.map EtpDt.bytes = (tx.window.yield .take).map (payloadOf data) := by
  have hnext := h.wf.next_pos
  have hstart := h.wf.start_pos
  by_cases hshut : tx.blockPackets = 0 ∨ tx.nextSequence > tx.blockPackets
  · have hzero : tx.window.left = 0 := by
      show tx.blockPackets + 1 - tx.nextSequence = 0
      omega
    refine ⟨none, tx, if_pos hshut, h, (if_pos hzero).symm, rfl, ?_⟩
    show none = Option.map _ (if tx.window.left = 0 then none else _)
    rw [if_pos hzero, Option.map_none]
  · have hopen : ¬ tx.window.left = 0 := by
      show ¬ tx.blockPackets + 1 - tx.nextSequence = 0
      omega
    refine ⟨_, _, nextPacket_some h.wf (by omega), ⟨⟨h.wf.start_pos, h.wf.start_le, h.wf.block_le,
      h.wf.block_end, Nat.le_add_left 1 _⟩, h.pgn_eq, h.data_eq⟩, ?_, rfl, ?_⟩
    · show _ = if tx.window.left = 0 then _ else _
      rw [if_neg hopen]
      show Window.mk (tx.blockStart + (tx.nextSequence + 1) - 1) _ = ⟨_, _⟩
      rw [Window.mk.injEq]
      show _ = tx.blockStart + tx.nextSequence - 1 + 1
        ∧ tx.blockPackets + 1 - (tx.nextSequence + 1) = tx.blockPackets + 1 - tx.nextSequence - 1
      omega
    · show some (pad 7 fill (chunk 7 tx.data (tx.blockStart + tx.nextSequence - 2)))
        = Option.map _ (if tx.window.left = 0 then none else some tx.window.next)
      rw [if_neg hopen, h.data_eq]
      rfl

/-- **Every call moves the window of the block.** -/
theorem works (pgn : Pgn) (data : List UInt8) :
    Works step (Sends pgn data) window (moveOf pgn (packetCount data.length)) Reply.payload
      (payloadOf data) where
  step_ok tx c h := by
    cases c with
    | etpCm cm =>
      obtain ⟨told, tx', hok, h', hwindow, -⟩ := onEtpCm_works h cm
      refine ⟨.told told, tx', by simp only [step, hok, ok_bind, pure_eq_ok], h', hwindow, ?_⟩
      rw [(yield_etpCm tx.window pgn (packetCount data.length) cm).1]
      rfl
    | offset =>
      obtain ⟨cm, tx', hok, h', hwindow, -⟩ := offset_works h
      exact ⟨.offset cm, tx', by simp only [step, hok, ok_bind, pure_eq_ok], h', hwindow, rfl⟩
    | nextPacket =>
      obtain ⟨dt, tx', hok, h', hwindow, -, hdt⟩ := nextPacket_works h
      exact ⟨.packet dt, tx', by simp only [step, hok, ok_bind, pure_eq_ok], h', hwindow, hdt⟩

/-- **Every call moves the offer of the block.** -/
theorem declares (pgn : Pgn) (data : List UInt8) :
    Works step (Sends pgn data) offer (offerOf pgn (packetCount data.length)) Reply.declares
      (fun _ => ()) where
  step_ok tx c h := by
    cases c with
    | etpCm cm =>
      obtain ⟨told, tx', hok, h', -, hoffer, -⟩ := onEtpCm_works h cm
      refine ⟨.told told, tx', by simp only [step, hok, ok_bind, pure_eq_ok], h', hoffer, ?_⟩
      rw [(yield_etpCm tx.offer pgn (packetCount data.length) cm).2]
      rfl
    | offset =>
      obtain ⟨cm, tx', hok, h', -, hoffer, hcm⟩ := offset_works h
      exact ⟨.offset cm, tx', by simp only [step, hok, ok_bind, pure_eq_ok], h', hoffer, hcm⟩
    | nextPacket =>
      obtain ⟨dt, tx', hok, h', -, hoffer, -⟩ := nextPacket_works h
      exact ⟨.packet dt, tx', by simp only [step, hok, ok_bind, pure_eq_ok], h', hoffer, rfl⟩

/-- Exactly the messages that end a transfer are told to have ended it. -/
theorem ends_eq (h : tx.Sends pgn data) {c : Call} {reply : Reply}
    (hstep : step tx c = .ok (reply, tx')) : reply.ends = c.ends pgn := by
  cases c with
  | etpCm cm =>
    obtain ⟨told, tx'', hok, -, -, -, hends⟩ := onEtpCm_works h cm
    simp only [step, hok, ok_bind, pure_eq_ok, Except.ok.injEq, Prod.mk.injEq] at hstep
    rw [← hstep.1]
    exact hends
  | offset =>
    obtain ⟨cm, tx'', hok, -⟩ := offset_works h
    simp only [step, hok, ok_bind, pure_eq_ok, Except.ok.injEq, Prod.mk.injEq] at hstep
    rw [← hstep.1]
    rfl
  | nextPacket =>
    obtain ⟨dt, tx'', hok, -⟩ := nextPacket_works h
    simp only [step, hok, ok_bind, pure_eq_ok, Except.ok.injEq, Prod.mk.injEq] at hstep
    rw [← hstep.1]
    rfl

/-- What a transmitter looks like before its first call. -/
theorem new_sends (h : new pgn data = .ok tx) :
    tx.Sends pgn data ∧ tx.window = ⟨1, 0⟩ ∧ tx.offer = ⟨1, 0⟩ := by
  obtain ⟨hpgn, hdata⟩ := new_eq_ok h
  refine ⟨⟨new_wf h, hpgn, hdata⟩, ?_⟩
  unfold new at h
  split at h
  next => cases h
  next =>
    injection h with h
    subst h
    exact ⟨rfl, rfl⟩

/-! ## §3. Terminal outcomes. -/

/-- Once a call has reported the transfer aborted or complete, no packet
is sent and no offset declared any more. -/
def TerminalIsFinal (tr : List Entry) : Prop :=
  ∀ pre e post, tr = pre ++ e :: post → (∃ x ∈ pre, x.out.ends = true) →
    e.out.dt = none ∧ e.out.declared = none

/-- After the end of the transfer, packets and offsets are asked for only
where the block granted last is used up, or declared. -/
def SpentWhenOver (pgn : Pgn) (packets : Nat) (calls : List Call) : Prop :=
  ∀ pre c post, calls = pre ++ c :: post → (∃ x ∈ pre, x.ends pgn = true) →
    (c = .nextPacket → Spent ⟨1, 0⟩ (pre.map (moveOf pgn packets)))
      ∧ (c = .offset → Spent ⟨1, 0⟩ (pre.map (offerOf pgn packets)))

/-- Exactly the pulls take from the block, and exactly the questions for
the offset from the offer. -/
theorem eq_take_iff {packets : Nat} {c : Call} :
    (moveOf pgn packets c = .take ↔ c = .nextPacket)
      ∧ (offerOf pgn packets c = .take ↔ c = .offset) := by
  cases c with
  | nextPacket | offset => simp [moveOf, offerOf]
  | etpCm cm =>
    obtain ⟨hmove, hoffer⟩ := yield_etpCm ⟨0, 1⟩ pgn packets cm
    refine ⟨⟨fun h => ?_, fun h => nomatch h⟩, fun h => ?_, fun h => nomatch h⟩
    · rw [h] at hmove
      cases hmove
    · rw [h] at hoffer
      cases hoffer

/-- **When the end of an extended transfer is final.** -/
theorem terminal_is_final_iff (h : new pgn data = .ok tx) (calls : List Call) :
    ∃ tr tx', Machine.run step tx calls = .ok (tr, tx')
      ∧ (TerminalIsFinal tr ↔ SpentWhenOver pgn (packetCount data.length) calls) := by
  obtain ⟨hsends, hwindow, hoffer⟩ := new_sends h
  obtain ⟨tr, tx', hrun, -⟩ := run_ok (I := Sends pgn data) (fun s c hs => by
    obtain ⟨o, s', hok, hs', -⟩ := (works pgn data).step_ok s c hs
    exact ⟨o, s', hok, hs'⟩) calls hsends
  obtain ⟨htrace, rfl⟩ := run_trace hrun
  refine ⟨tr, tx', hrun, ?_⟩
  -- what ends the transfer is the same for calls and replies
  have hends : ∀ x ∈ tr, x.out.ends = x.event.ends pgn := by
    intro x hx
    obtain ⟨pre, post, rfl⟩ := List.append_of_mem hx
    obtain ⟨hpre, hstep⟩ := htrace.split
    exact ends_eq ((works pgn data).trace hsends hpre).1 hstep
  have hover : ∀ pre e post, tr = pre ++ e :: post → ((∃ x ∈ pre, x.out.ends = true)
      ↔ ∃ x ∈ pre.map Entry.event, x.ends pgn = true) := by
    intro pre e post htr
    constructor
    · rintro ⟨x, hx, hover⟩
      rw [hends x (htr ▸ List.mem_append_left _ hx)] at hover
      exact ⟨x.event, List.mem_map_of_mem hx, hover⟩
    · rintro ⟨c, hc, hover⟩
      obtain ⟨x, hx, rfl⟩ := List.mem_map.mp hc
      exact ⟨x, hx, (hends x (htr ▸ List.mem_append_left _ hx)).trans hover⟩
  have hpackets := (works pgn data).falls_silent_iff hsends htrace
    fun pre => ∃ x ∈ pre, x.out.ends = true
  have hoffers := (declares pgn data).falls_silent_iff hsends htrace
    fun pre => ∃ x ∈ pre, x.out.ends = true
  rw [hwindow] at hpackets
  rw [hoffer] at hoffers
  rw [SpentWhenOver, forall_event_split]
  constructor
  · intro hfinal pre e post htr hended
    rw [List.map_map, List.map_map]
    have hended' := (hover pre e post htr).mpr hended
    refine ⟨fun hc => ?_, fun hc => ?_⟩
    · refine hpackets.mp ?_ pre e post htr hended' (eq_take_iff.1.mpr hc)
      intro pre' e' post' htr' hended''
      exact Option.map_eq_none_iff.mpr (hfinal pre' e' post' htr' hended'').1
    · refine hoffers.mp ?_ pre e post htr hended' (eq_take_iff.2.mpr hc)
      intro pre' e' post' htr' hended''
      exact Option.map_eq_none_iff.mpr (hfinal pre' e' post' htr' hended'').2
  · intro hspent pre e post htr hended
    constructor
    · refine Option.map_eq_none_iff.mp (hpackets.mpr ?_ pre e post htr hended)
      intro pre' e' post' htr' hended' htake
      have hused := (hspent pre' e' post' htr' ((hover pre' e' post' htr').mp hended')).1
        (eq_take_iff.1.mp htake)
      rw [List.map_map] at hused
      exact hused
    · refine Option.map_eq_none_iff.mp (hoffers.mpr ?_ pre e post htr hended)
      intro pre' e' post' htr' hended' htake
      have hused := (hspent pre' e' post' htr' ((hover pre' e' post' htr').mp hended')).2
        (eq_take_iff.2.mp htake)
      rw [List.map_map] at hused
      exact hused

/-- **When the end of a transfer is final**, for the transmitters of both
protocols: exactly in the runs in which nothing is asked for after it,
unless what was granted last is used up. -/
theorem terminal_outcomes_are_final_iff (pgn : Pgn) (data : List UInt8) :
    (∀ tx max calls, Tp.Transmitter.addressed pgn data = .ok tx →
      ∃ tr tx', Machine.run Tp.Transmitter.step (tx.withMaxPacketsPerCts max) calls = .ok (tr, tx')
        ∧ (Tp.Transmitter.TerminalIsFinal tr
          ↔ Tp.Transmitter.SpentWhenOver pgn (Tp.packetCount data.length) ⟨1, 0⟩ calls))
      ∧ ∀ tx calls, new pgn data = .ok tx →
        ∃ tr tx', Machine.run step tx calls = .ok (tr, tx')
          ∧ (TerminalIsFinal tr ↔ SpentWhenOver pgn (packetCount data.length) calls) :=
  ⟨fun _ max calls h => Tp.Transmitter.terminal_is_final_iff h max calls,
    fun _ calls h => terminal_is_final_iff h calls⟩

/-- Nine bytes, aborted after both packets were pulled. -/
theorem terminal_outcomes_are_final_iff_nine_bytes : ∃ tx tr tx',
    Tp.Transmitter.addressed .dm1 [1, 2, 3, 4, 5, 6, 7, 8, 9] = .ok tx
      ∧ Machine.run Tp.Transmitter.step (tx.withMaxPacketsPerCts 255)
          [.tpCm (.cts 2 1 .dm1), .nextPacket, .nextPacket, .tpCm (.abort .timeout .dm1),
            .nextPacket] = .ok (tr, tx')
      ∧ (Tp.Transmitter.TerminalIsFinal tr
        ↔ Tp.Transmitter.SpentWhenOver .dm1 (Tp.packetCount 9) ⟨1, 0⟩
          [.tpCm (.cts 2 1 .dm1), .nextPacket, .nextPacket, .tpCm (.abort .timeout .dm1),
            .nextPacket]) := by
  have htx : Tp.Transmitter.addressed .dm1 [1, 2, 3, 4, 5, 6, 7, 8, 9] = .ok _ := rfl
  obtain ⟨tr, tx', hrun, hiff⟩ :=
    (terminal_outcomes_are_final_iff .dm1 [1, 2, 3, 4, 5, 6, 7, 8, 9]).1 _ 255
      [.tpCm (.cts 2 1 .dm1), .nextPacket, .nextPacket, .tpCm (.abort .timeout .dm1), .nextPacket]
      htx
  exact ⟨_, tr, tx', htx, hrun, hiff⟩

/-- Both transmitters go on after an abort: what is left of the window is
sent, and a later CTS opens the transfer again. -/
theorem sent_after_abort :
    (∃ tx tr tx', Tp.Transmitter.addressed .dm1 [1, 2, 3, 4, 5, 6, 7, 8, 9] = .ok tx
        ∧ Machine.run Tp.Transmitter.step tx
          [.tpCm (.cts 2 1 .dm1), .tpCm (.abort .timeout .dm1), .nextPacket] = .ok (tr, tx')
        ∧ tr.map Entry.out = [.told .sendData, .told (.aborted .timeout),
          .packet (some (Tp.Transmitter.packetOf [1, 2, 3, 4, 5, 6, 7, 8, 9] 1))]
        ∧ ¬ Tp.Transmitter.TerminalIsFinal tr)
      ∧ ∃ tx tr tx', new .dm1 (List.replicate 1786 0) = .ok tx
        ∧ Machine.run step tx [.etpCm (.abort .timeout .dm1), .etpCm (.cts 2 1 .dm1), .offset]
          = .ok (tr, tx')
        ∧ ¬ TerminalIsFinal tr := by
  constructor
  · refine ⟨_, _, _, rfl, rfl, rfl, fun hfinal => ?_⟩
    have hnone := hfinal [_, _] _ [] rfl ⟨_, List.mem_cons_of_mem _ (List.mem_cons_self ..), rfl⟩
    cases hnone
  · have hlen : (List.replicate 1786 (0 : UInt8)).length = 1786 := List.length_replicate
    obtain ⟨tx, htx⟩ := (new_ok_iff .dm1 (List.replicate 1786 0)).mpr
      ⟨hlen.ge, by rw [hlen]; decide⟩
    obtain ⟨tr, tx', hrun, hiff⟩ := terminal_is_final_iff htx
      [.etpCm (.abort .timeout .dm1), .etpCm (.cts 2 1 .dm1), .offset]
    refine ⟨tx, tr, tx', htx, hrun, fun hfinal => ?_⟩
    have hspent := hiff.mp hfinal [_, _] _ [] rfl ⟨_, List.mem_cons_self .., rfl⟩
    rw [hlen] at hspent
    exact absurd (hspent.2 rfl) (by decide)

end SaeJ1939.Etp.Transmitter
