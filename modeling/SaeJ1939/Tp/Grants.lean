/-
  SaeJ1939.Tp.Grants — what a transmitter sends, by what it was granted.

  A transmitter is a machine that works a window: a CTS of its group that
  grants at least one of its packets replaces the window, a packet pulled
  uses one up, and nothing else concerns it.  Neither an abort nor an
  acknowledgement closes the window, a CTS that asks the sender to hold
  leaves it as it is, and a broadcast heeds a CTS as any other transfer.

  Main results:
    * `works` — every call of a transmitter moves its window.
    * `terminal_is_final_iff` — when nothing is sent after the transfer
      was aborted or completed.
    * `within_grant_iff` — when nothing is sent beyond what was granted.
    * `pushed_once_iff` — when a broadcast is pushed exactly once.
-/
import SaeJ1939.Tp.Completion
import SaeJ1939.Lib.Grants

namespace SaeJ1939.Tp.Transmitter

open Checked Machine Grants

/-! ## §1. Calls as moves. -/

/-- The window a transmitter holds. -/
def window (tx : Transmitter) : Window := ⟨tx.nextSequence, tx.windowRemaining⟩

/-- What a call does to the window of a transfer of `packets` packets. -/
def moveOf (pgn : Pgn) (packets : Nat) : Call → Move
  | .tpCm (.cts granted nextPacket named) =>
      if named = pgn ∧ 1 ≤ granted ∧ 1 ≤ nextPacket ∧ nextPacket ≤ packets then
        .grant ⟨nextPacket, min granted (packets - nextPacket + 1)⟩
      else .other
  | .tpCm _ => .other
  | .nextPacket => .take

/-- The packet a reply carries. -/
def Reply.dt : Reply → Option TpDt
  | .packet dt => dt
  | .told _ => none

/-- A reply that ends the transfer. -/
def Reply.ends : Reply → Bool
  | .told .complete | .told (.aborted _) => true
  | .told .idle | .told .sendData | .packet _ => false

/-- A message that ends the transfer: an acknowledgement or an abort that
names its group. -/
def Call.ends (pgn : Pgn) : Call → Bool
  | .tpCm (.endOfMsgAck _ _ named) | .tpCm (.abort _ named) => named == pgn
  | .tpCm (.cts ..) | .tpCm (.rts ..) | .tpCm (.bam ..) | .nextPacket => false

/-- A transmitter of `data` under `pgn`, at any time. -/
structure Sends (pgn : Pgn) (data : List UInt8) (broadcast : Bool) (tx : Transmitter) : Prop where
  pgn_eq : tx.pgn = pgn
  data_eq : tx.data = data
  broadcast_eq : tx.broadcast = broadcast
  next_pos : 1 ≤ tx.nextSequence
  window_le : tx.nextSequence + tx.windowRemaining ≤ tx.packets + 1

/-! ## §2. One call. -/

variable {pgn : Pgn} {data : List UInt8} {broadcast : Bool} {tx tx' : Transmitter}

theorem Sends.packets (h : tx.Sends pgn data broadcast) : tx.packets = packetCount data.length := by
  rw [tx.packets_eq, h.data_eq]

/-- Connection management, as a move of the window. -/
theorem onTpCm_works (h : tx.Sends pgn data broadcast) (cm : TpCm) :
    ∃ told tx', tx.onTpCm cm = .ok (told, tx') ∧ tx'.Sends pgn data broadcast
      ∧ tx'.window = tx.window.move (moveOf pgn (packetCount data.length) (.tpCm cm))
      ∧ (Reply.told told).ends = (Call.tpCm cm).ends pgn
      ∧ tx'.isComplete = (tx.isComplete || tx.acknowledges (.tpCm cm)) := by
  have hpackets := h.packets
  by_cases hpgn : cm.pgn = tx.pgn
  · have hown : ¬ cm.pgn ≠ tx.pgn := not_not_intro hpgn
    rw [h.pgn_eq] at hpgn
    cases cm with
    | cts granted nextPacket named =>
      replace hpgn : named = pgn := hpgn
      by_cases hgrant : 1 ≤ granted ∧ 1 ≤ nextPacket ∧ nextPacket ≤ tx.packets
      · obtain ⟨hp, hn, hn'⟩ := hgrant
        have hmove : moveOf pgn (packetCount data.length) (.tpCm (.cts granted nextPacket named))
            = .grant ⟨nextPacket, min granted (tx.packets - nextPacket + 1)⟩ := by
          rw [← hpackets]
          exact if_pos ⟨hpgn, hp, hn, hn'⟩
        have hcts := tx.onTpCm_cts hp hn hn'
        rw [h.pgn_eq, ← hpgn] at hcts
        rw [hmove]
        exact ⟨_, _, hcts, ⟨hpgn, h.data_eq, h.broadcast_eq, hn,
          show nextPacket + min granted (tx.packets - nextPacket + 1) ≤ tx.packets + 1 by omega⟩,
          rfl, rfl, (Bool.or_false _).symm⟩
      · -- a hold, or a window that is not there
        have hmove : moveOf pgn (packetCount data.length) (.tpCm (.cts granted nextPacket named))
            = .other := by
          rw [← hpackets]
          exact if_neg fun hall => hgrant hall.2
        refine ⟨.idle, tx, ?_, h, by rw [hmove]; rfl, rfl, (Bool.or_false _).symm⟩
        unfold onTpCm
        rw [if_neg hown]
        dsimp only
        by_cases hp : granted = 0
        · rw [if_pos hp]
        · rw [if_neg hp, if_pos (by omega)]
    | endOfMsgAck size packets named =>
      replace hpgn : named = pgn := hpgn
      refine ⟨.complete, { tx with complete := true }, ?_,
        ⟨h.pgn_eq, h.data_eq, h.broadcast_eq, h.next_pos, h.window_le⟩, rfl, ?_, ?_⟩
      · unfold onTpCm
        rw [if_neg hown]
      · show true = (named == pgn)
        rw [hpgn, beq_self_eq_true]
      · show true = (tx.complete || (named == tx.pgn))
        rw [hpgn, h.pgn_eq, beq_self_eq_true, Bool.or_true]
    | abort reason named =>
      replace hpgn : named = pgn := hpgn
      refine ⟨.aborted reason, tx, if_neg hown, h, rfl, ?_, (Bool.or_false _).symm⟩
      show true = (named == pgn)
      rw [hpgn, beq_self_eq_true]
    | rts | bam => exact ⟨.idle, tx, if_neg hown, h, rfl, rfl, (Bool.or_false _).symm⟩
  · -- another group
    have hidle : tx.onTpCm cm = .ok (.idle, tx) := if_pos hpgn
    rw [h.pgn_eq] at hpgn
    cases cm with
    | cts granted nextPacket named =>
      have hmove : moveOf pgn (packetCount data.length) (.tpCm (.cts granted nextPacket named))
          = .other := if_neg fun hall => hpgn hall.1
      exact ⟨.idle, tx, hidle, h, by rw [hmove]; rfl, rfl, (Bool.or_false _).symm⟩
    | endOfMsgAck size packets named =>
      have hother : (named == pgn) = false := beq_eq_false_iff_ne.mpr hpgn
      refine ⟨.idle, tx, hidle, h, rfl, hother.symm, ?_⟩
      show tx.complete = (tx.complete || (named == tx.pgn))
      rw [h.pgn_eq, hother, Bool.or_false]
    | abort reason named =>
      have hother : (named == pgn) = false := beq_eq_false_iff_ne.mpr hpgn
      exact ⟨.idle, tx, hidle, h, rfl, hother.symm, (Bool.or_false _).symm⟩
    | rts | bam => exact ⟨.idle, tx, hidle, h, rfl, rfl, (Bool.or_false _).symm⟩

/-- Pulling a packet, as a move of the window. -/
theorem nextPacket_works (h : tx.Sends pgn data broadcast) :
    ∃ dt tx', tx.nextPacket = .ok (dt, tx') ∧ tx'.Sends pgn data broadcast
      ∧ tx'.window = tx.window.move .take
      ∧ dt = (tx.window.yield .take).map (packetOf data)
      ∧ tx'.isComplete = (tx.isComplete || (broadcast && dt.isSome
          && decide (packetCount data.length < tx.nextSequence + 1))) := by
  have hnext := h.next_pos
  have hle := h.window_le
  by_cases hshut : tx.windowRemaining = 0
  · refine ⟨none, tx, if_pos (Or.inl hshut), h, ?_, ?_, ?_⟩
    · exact (if_pos hshut).symm
    · show none = Option.map _ (if tx.windowRemaining = 0 then none else _)
      rw [if_pos hshut, Option.map_none]
    · rw [Option.isSome_none, Bool.and_false, Bool.false_and, Bool.or_false]
  · refine ⟨_, _, nextPacket_some hnext (by omega) (by omega),
      ⟨h.pgn_eq, h.data_eq, h.broadcast_eq, Nat.le_add_left 1 tx.nextSequence,
        show tx.nextSequence + 1 + (tx.windowRemaining - 1) ≤ tx.packets + 1 by omega⟩, ?_, ?_, ?_⟩
    · exact (if_neg hshut).symm
    · show _ = Option.map _ (if tx.windowRemaining = 0 then none else _)
      rw [if_neg hshut, h.data_eq]
      rfl
    · show (tx.complete || (tx.broadcast && decide (tx.packets < tx.nextSequence + 1))) = _
      rw [h.packets, h.broadcast_eq, Option.isSome_some, Bool.and_true]
      rfl

/-- Connection management yields no packet. -/
theorem yield_tpCm (w : Window) (pgn : Pgn) (packets : Nat) (cm : TpCm) :
    w.yield (moveOf pgn packets (.tpCm cm)) = none := by
  cases cm with
  | cts granted nextPacket named =>
    show w.yield (if _ then _ else _) = none
    split <;> rfl
  | rts | bam | endOfMsgAck | abort => rfl

/-- **Every call of a transmitter moves its window**, and gives out the
packet the move yields. -/
theorem works (pgn : Pgn) (data : List UInt8) (broadcast : Bool) :
    Works step (Sends pgn data broadcast) window (moveOf pgn (packetCount data.length)) Reply.dt
      (packetOf data) where
  step_ok tx c h := by
    cases c with
    | tpCm cm =>
      obtain ⟨told, tx', hok, h', hwindow, -⟩ := onTpCm_works h cm
      refine ⟨.told told, tx', by simp only [step, hok, ok_bind, pure_eq_ok], h', hwindow, ?_⟩
      rw [yield_tpCm]
      rfl
    | nextPacket =>
      obtain ⟨dt, tx', hok, h', hwindow, hdt, -⟩ := nextPacket_works h
      exact ⟨.packet dt, tx', by simp only [step, hok, ok_bind, pure_eq_ok], h', hwindow, hdt⟩

/-- Exactly the messages that end a transfer are told to have ended it. -/
theorem ends_eq (h : tx.Sends pgn data broadcast) {c : Call} {reply : Reply}
    (hstep : step tx c = .ok (reply, tx')) : reply.ends = c.ends pgn := by
  cases c with
  | tpCm cm =>
    obtain ⟨told, tx'', hok, -, -, hends, -⟩ := onTpCm_works h cm
    simp only [step, hok, ok_bind, pure_eq_ok, Except.ok.injEq, Prod.mk.injEq] at hstep
    rw [← hstep.1]
    exact hends
  | nextPacket =>
    obtain ⟨dt, tx'', hok, -⟩ := nextPacket_works h
    simp only [step, hok, ok_bind, pure_eq_ok, Except.ok.injEq, Prod.mk.injEq] at hstep
    rw [← hstep.1]
    rfl

/-- What a transmitter looks like before its first call. -/
theorem build_sends (h : build pgn data broadcast = .ok tx) (max : Nat) :
    (tx.withMaxPacketsPerCts max).Sends pgn data broadcast
      ∧ (tx.withMaxPacketsPerCts max).isComplete = false
      ∧ (tx.withMaxPacketsPerCts max).window
        = ⟨1, if broadcast then packetCount data.length else 0⟩ := by
  unfold build at h
  split at h
  next => cases h
  next =>
    injection h with h
    subst h
    refine ⟨⟨rfl, rfl, rfl, Nat.le_refl 1, ?_⟩, rfl, rfl⟩
    show 1 + (if broadcast then packetCount data.length else 0) ≤ packetCount data.length + 1
    split <;> omega

/-- Every run of a transmitter returns, and is a trace of its calls. -/
theorem run_sends (h : tx.Sends pgn data broadcast) (calls : List Call) :
    ∃ tr tx', Machine.run step tx calls = .ok (tr, tx') ∧ Trace step tx tr tx'
      ∧ tr.map Entry.event = calls := by
  obtain ⟨tr, tx', hrun, -⟩ := run_ok (I := Sends pgn data broadcast) (fun s c hs => by
    obtain ⟨o, s', hok, hs', -⟩ := (works pgn data broadcast).step_ok s c hs
    exact ⟨o, s', hok, hs'⟩) calls h
  exact ⟨tr, tx', hrun, run_trace hrun⟩

/-! ## §3. Terminal outcomes. -/

/-- Once a call has reported the transfer aborted or complete, no packet
is sent any more. -/
def TerminalIsFinal (tr : List Entry) : Prop :=
  ∀ pre e post, tr = pre ++ e :: post → (∃ x ∈ pre, x.out.ends = true) → e.out.dt = none

/-- Packets are asked for after the end of the transfer only where the
window granted last is used up. -/
def SpentWhenOver (pgn : Pgn) (packets : Nat) (start : Window) (calls : List Call) : Prop :=
  ∀ pre c post, calls = pre ++ c :: post → c = .nextPacket → (∃ x ∈ pre, x.ends pgn = true) →
    Spent start (pre.map (moveOf pgn packets))

/-- A call takes from the window exactly if it asks for a packet. -/
theorem moveOf_eq_take {packets : Nat} {c : Call} :
    moveOf pgn packets c = .take ↔ c = .nextPacket := by
  cases c with
  | nextPacket => exact ⟨fun _ => rfl, fun _ => rfl⟩
  | tpCm cm =>
    refine ⟨fun h => ?_, fun h => nomatch h⟩
    have hyield := yield_tpCm ⟨0, 1⟩ pgn packets cm
    rw [h] at hyield
    cases hyield

/-- **When the end of a transfer is final**: exactly if no packet is asked
for after it while the window granted last has packets left. -/
theorem terminal_is_final_iff (h : addressed pgn data = .ok tx) (max : Nat) (calls : List Call) :
    ∃ tr tx', Machine.run step (tx.withMaxPacketsPerCts max) calls = .ok (tr, tx')
      ∧ (TerminalIsFinal tr ↔ SpentWhenOver pgn (packetCount data.length) ⟨1, 0⟩ calls) := by
  obtain ⟨hsends, -, hwindow⟩ := build_sends h max
  obtain ⟨tr, tx', hrun, htrace, rfl⟩ := run_sends hsends calls
  refine ⟨tr, tx', hrun, ?_⟩
  -- what ends the transfer is the same for calls and replies
  have hends : ∀ x ∈ tr, x.out.ends = x.event.ends pgn := by
    intro x hx
    obtain ⟨pre, post, rfl⟩ := List.append_of_mem hx
    obtain ⟨hpre, hstep⟩ := htrace.split
    exact ends_eq ((works pgn data false).trace hsends hpre).1 hstep
  rw [TerminalIsFinal, (works pgn data false).falls_silent_iff hsends htrace, SpentWhenOver,
    forall_event_split]
  refine forall_congr' fun pre => forall_congr' fun e => forall_congr' fun post => ?_
  refine forall_congr' fun htr => ?_
  have hpre : (∃ x ∈ pre, x.out.ends = true)
      ↔ ∃ x ∈ pre.map Entry.event, x.ends pgn = true := by
    constructor
    · rintro ⟨x, hx, hover⟩
      rw [hends x (htr ▸ List.mem_append_left _ hx)] at hover
      exact ⟨x.event, List.mem_map_of_mem hx, hover⟩
    · rintro ⟨c, hc, hover⟩
      obtain ⟨x, hx, rfl⟩ := List.mem_map.mp hc
      exact ⟨x, hx, (hends x (htr ▸ List.mem_append_left _ hx)).trans hover⟩
  rw [hpre, moveOf_eq_take, hwindow, List.map_map]
  exact ⟨fun hspent hc hover => hspent hover hc, fun hspent hover hc => hspent hc hover⟩

/-! ## §4. Nothing beyond the grant. -/

/-- A CTS that names a group. -/
def Call.isCts (pgn : Pgn) : Call → Bool
  | .tpCm (.cts _ _ named) => named == pgn
  | _ => false

/-- A CTS that names a group and grants packets. -/
def Call.isGrant (pgn : Pgn) : Call → Bool
  | .tpCm (.cts packets _ named) => named == pgn && packets != 0
  | _ => false

/-- A CTS that names a group and asks the sender to hold. -/
def Call.isHold (pgn : Pgn) : Call → Bool
  | .tpCm (.cts packets _ named) => named == pgn && packets == 0
  | _ => false

/-- The receiver has asked the sender to hold and granted nothing since. -/
def Held (pgn : Pgn) (calls : List Call) : Prop :=
  ∃ c ∈ since (Call.isGrant pgn) calls, c.isHold pgn = true

/-- A sender stays within what it was granted: between a CTS it heeds and
the next one it sends a prefix of the packets granted; before the first
CTS, and while it is held, nothing. -/
structure WithinGrant (pgn : Pgn) (data : List UInt8) (tr : List Entry) : Prop where
  granted : ∀ pre (e : Entry) mid post, tr = pre ++ e :: (mid ++ post) →
    ∀ p n, e.event = .tpCm (.cts p n pgn) → 0 < p → 1 ≤ n → n ≤ packetCount data.length →
    (∀ x ∈ mid, x.event.isCts pgn = false) →
    outs Reply.dt mid <+:
      (List.range' n (min (n + p - 1) (packetCount data.length) + 1 - n)).map (packetOf data)
  before : ∀ pre (e : Entry) post, tr = pre ++ e :: post →
    (∀ x ∈ pre, x.event.isCts pgn = false) → e.out.dt = none
  held : ∀ pre (e : Entry) post, tr = pre ++ e :: post →
    Held pgn (pre.map Entry.event) → e.out.dt = none

/-- Packets are asked for while the sender is held only where the window
granted last is used up. -/
def SpentWhenHeld (pgn : Pgn) (packets : Nat) (start : Window) (calls : List Call) : Prop :=
  ∀ pre c post, calls = pre ++ c :: post → c = .nextPacket → Held pgn pre →
    Spent start (pre.map (moveOf pgn packets))

/-- Only a CTS grants. -/
theorem moveOf_of_not_isCts {packets : Nat} {c : Call} (h : c.isCts pgn = false) :
    (moveOf pgn packets c).isGrant = false := by
  cases c with
  | nextPacket => rfl
  | tpCm cm =>
    cases cm with
    | cts granted nextPacket named =>
      have hother : ¬ (named = pgn ∧ 1 ≤ granted ∧ 1 ≤ nextPacket ∧ nextPacket ≤ packets) :=
        fun hall => beq_eq_false_iff_ne.mp h hall.1
      show Move.isGrant (if _ then _ else _) = false
      rw [if_neg hother]
      rfl
    | rts | bam | endOfMsgAck | abort => rfl

/-- **When a sender stays within its grant**: exactly if no packet is
asked for during a hold while the window granted last has packets left. -/
theorem within_grant_iff (h : addressed pgn data = .ok tx) (max : Nat) (calls : List Call) :
    ∃ tr tx', Machine.run step (tx.withMaxPacketsPerCts max) calls = .ok (tr, tx')
      ∧ (WithinGrant pgn data tr
        ↔ SpentWhenHeld pgn (packetCount data.length) ⟨1, 0⟩ calls) := by
  obtain ⟨hsends, -, hwindow⟩ := build_sends h max
  obtain ⟨tr, tx', hrun, htrace, rfl⟩ := run_sends hsends calls
  refine ⟨tr, tx', hrun, ?_⟩
  have hworks := works pgn data false
  have hheld : (∀ pre (e : Entry) post, tr = pre ++ e :: post →
        Held pgn (pre.map Entry.event) → e.out.dt = none)
      ↔ SpentWhenHeld pgn (packetCount data.length) ⟨1, 0⟩ (tr.map Entry.event) := by
    rw [hworks.falls_silent_iff hsends htrace, SpentWhenHeld, forall_event_split, hwindow]
    refine forall_congr' fun pre => forall_congr' fun e => forall_congr' fun post => ?_
    refine forall_congr' fun _ => ?_
    rw [moveOf_eq_take, List.map_map]
    exact ⟨fun hspent hc hover => hspent hover hc, fun hspent hover hc => hspent hc hover⟩
  refine ⟨fun hwithin => hheld.mp hwithin.held, fun hspent => ⟨?_, ?_, hheld.mpr hspent⟩⟩
  · -- between two CTS the window is worked off
    intro pre e mid post htr p n hev hp hn hn' hmid
    rw [← List.singleton_append, ← List.append_assoc] at htr
    subst htr
    have houts := hworks.outs_eq hsends htrace fun x hx => moveOf_of_not_isCts (hmid x hx)
    have hmove : moveOf pgn (packetCount data.length) e.event
        = .grant ⟨n, min p (packetCount data.length - n + 1)⟩ := by
      rw [hev]
      exact if_pos ⟨rfl, hp, hn, hn'⟩
    have hafter : (window (tx.withMaxPacketsPerCts max)).after
        (moves (moveOf pgn (packetCount data.length)) (pre ++ [e]))
          = ⟨n, min p (packetCount data.length - n + 1)⟩ := by
      rw [moves_append]
      show Window.after _ (_ ++ [moveOf pgn (packetCount data.length) e.event]) = _
      rw [after_snoc, hmove]
      rfl
    rw [houts, hafter]
    refine List.IsPrefix.map _ (range_isPrefix_range n ?_)
    show min _ (min p (packetCount data.length - n + 1)) ≤ _
    omega
  · -- before the first CTS there is no window
    intro pre e post htr hpre
    by_cases htake : moveOf pgn (packetCount data.length) e.event = .take
    · subst htr
      rw [hworks.out_eq_none_iff hsends htrace htake, hwindow]
      have hnone : ∀ m ∈ moves (moveOf pgn (packetCount data.length)) pre, m.isGrant = false := by
        intro m hm
        obtain ⟨x, hx, rfl⟩ := List.mem_map.mp hm
        exact moveOf_of_not_isCts (hpre x hx)
      show Window.left _ ≤ _
      rw [granted_of_no_grant hnone]
      exact Nat.zero_le _
    · subst htr
      exact hworks.out_eq_none hsends htrace htake

/-- Nine bytes, held after the window was used up. -/
theorem within_grant_iff_nine_bytes :
    let data : List UInt8 := [1, 2, 3, 4, 5, 6, 7, 8, 9]
    let calls : List Call := [.tpCm (.cts 1 1 .dm1), .nextPacket, .tpCm (.cts 0 2 .dm1), .nextPacket]
    ∃ tx tr tx', addressed .dm1 data = .ok tx
      ∧ Machine.run step (tx.withMaxPacketsPerCts 255) calls = .ok (tr, tx')
      ∧ (WithinGrant .dm1 data tr ↔ SpentWhenHeld .dm1 (packetCount data.length) ⟨1, 0⟩ calls) := by
  intro data calls
  obtain ⟨tx, htx⟩ := addressed_ok .dm1 (show 9 ≤ data.length by decide)
    (show data.length ≤ 1785 by decide)
  obtain ⟨tr, tx', hrun, hiff⟩ := within_grant_iff htx 255 calls
  exact ⟨tx, tr, tx', htx, hrun, hiff⟩

/-- A receiver that grants both packets and then asks the sender to hold
is sent both. -/
theorem sent_while_held : ∃ tx tr tx',
    addressed .dm1 [1, 2, 3, 4, 5, 6, 7, 8, 9] = .ok tx
      ∧ Machine.run step tx [.tpCm (.cts 2 1 .dm1), .tpCm (.cts 0 1 .dm1), .nextPacket]
        = .ok (tr, tx')
      ∧ tr.map (fun e => e.out.dt) = [none, none, some (packetOf [1, 2, 3, 4, 5, 6, 7, 8, 9] 1)]
      ∧ ¬ WithinGrant .dm1 [1, 2, 3, 4, 5, 6, 7, 8, 9] tr := by
  refine ⟨_, _, _, rfl, rfl, rfl, fun hwithin => ?_⟩
  have hnone := hwithin.held [_, _] _ [] rfl ⟨.tpCm (.cts 0 1 .dm1), by decide, by decide⟩
  cases hnone

/-! ## §5. Broadcasts. -/

/-- How often a packet was asked for. -/
def pulls (calls : List Call) : Nat := calls.count .nextPacket

/-- A broadcast is pushed exactly once: what is pulled are its packets in
order, and it is complete exactly when the last one is out. -/
structure PushedOnce (data : List UInt8) (tr : List Entry) : Prop where
  packets : ∀ pre post, tr = pre ++ post →
    outs Reply.dt pre = (List.range' 1
      (min (pulls (pre.map Entry.event)) (packetCount data.length))).map (packetOf data)
  complete : ∀ pre (e : Entry) post, tr = pre ++ e :: post →
    (e.after.isComplete = true
      ↔ packetCount data.length ≤ pulls ((pre ++ [e]).map Entry.event))

/-- Wherever a packet is asked for, the window granted last stands at the
first packet that is not out, or is used up when all are. -/
def OnCourse (pgn : Pgn) (packets : Nat) (calls : List Call) : Prop :=
  ∀ pre c post, calls = pre ++ c :: post → c = .nextPacket →
    if pulls pre < packets then
      ¬ Spent ⟨1, packets⟩ (pre.map (moveOf pgn packets))
        ∧ (Window.granted ⟨1, packets⟩ (pre.map (moveOf pgn packets))).next
            + taken (pre.map (moveOf pgn packets)) = pulls pre + 1
    else Spent ⟨1, packets⟩ (pre.map (moveOf pgn packets))

/-- An acknowledgement that names the group comes after every packet was
asked for. -/
def AckedWhenSent (pgn : Pgn) (packets : Nat) (calls : List Call) : Prop :=
  ∀ pre c post, calls = pre ++ c :: post → (∃ size count, c = .tpCm (.endOfMsgAck size count pgn)) →
    packets ≤ pulls pre

theorem pulls_snoc (calls : List Call) (c : Call) :
    pulls (calls ++ [c]) = pulls calls + if c = .nextPacket then 1 else 0 := by
  unfold pulls
  rw [List.count_append, List.count_singleton, beq_eq_decide]
  simp only [decide_eq_true_eq]

/-- What a call does to a broadcast's completion. -/
theorem step_complete (h : tx.Sends pgn data true) {c : Call} {reply : Reply}
    (hstep : step tx c = .ok (reply, tx')) :
    tx'.isComplete = (tx.isComplete || tx.acknowledges c
      || (reply.dt.isSome && decide (packetCount data.length < tx.nextSequence + 1))) := by
  cases c with
  | tpCm cm =>
    obtain ⟨told, tx'', hok, -, -, -, hcomplete⟩ := onTpCm_works h cm
    simp only [step, hok, ok_bind, pure_eq_ok, Except.ok.injEq, Prod.mk.injEq] at hstep
    rw [← hstep.1, ← hstep.2, hcomplete]
    exact (Bool.or_false _).symm
  | nextPacket =>
    obtain ⟨dt, tx'', hok, -, -, -, hcomplete⟩ := nextPacket_works h
    simp only [step, hok, ok_bind, pure_eq_ok, Except.ok.injEq, Prod.mk.injEq] at hstep
    rw [← hstep.1, ← hstep.2, hcomplete]
    show (tx.isComplete || _) = (tx.isComplete || false || _)
    rw [Bool.or_false]
    rfl

/-- A broadcast before its first call: everything is granted. -/
theorem broadcast_start (h : broadcastOf pgn data = .ok tx) (max : Nat) :
    (tx.withMaxPacketsPerCts max).Sends pgn data true
      ∧ (tx.withMaxPacketsPerCts max).isComplete = false
      ∧ (tx.withMaxPacketsPerCts max).window = ⟨1, packetCount data.length⟩ :=
  build_sends h max

/-- The packets of a broadcast that is on its course, one call further. -/
theorem packets_snoc {n m : Nat} (h : m < n) :
    (List.range' 1 (min (m + 1) n)).map (packetOf data)
      = (List.range' 1 (min m n)).map (packetOf data) ++ [packetOf data (m + 1)] := by
  rw [Nat.min_eq_left (show m + 1 ≤ n from h), Nat.min_eq_left (Nat.le_of_lt h),
    List.range'_1_concat, List.map_append, Nat.add_comm 1 m]
  rfl

/-- What the next pull of a broadcast yields, by the window granted last. -/
theorem pull_yields (h : tx.Sends pgn data true) {start : Window} {ms : List Move}
    (hwindow : tx.window = start.after ms) {reply : Reply}
    (hstep : step tx .nextPacket = .ok (reply, tx')) :
    (Spent start ms → reply.dt = none)
      ∧ (¬ Spent start ms → tx.nextSequence = (start.granted ms).next + taken ms
        ∧ reply.dt = some (packetOf data tx.nextSequence)) := by
  obtain ⟨-, -, hout⟩ := (works pgn data true).step_of h hstep
  have hzero : tx.windowRemaining = 0 ↔ Spent start ms := by
    rw [← after_left_eq_zero_iff, ← hwindow]
    rfl
  have hout' : reply.dt
      = Option.map (packetOf data)
          (if tx.windowRemaining = 0 then none else some tx.nextSequence) :=
    hout
  constructor
  · intro hspent
    rw [hout', if_pos (hzero.mpr hspent), Option.map_none]
  · intro hopen
    have hnext : tx.nextSequence = (start.after ms).next := by
      rw [← hwindow]
      rfl
    rw [after_eq] at hnext
    unfold Spent at hopen
    refine ⟨?_, ?_⟩
    · rw [hnext]
      show (start.granted ms).next + min (taken ms) (start.granted ms).left = _
      omega
    · rw [hout', if_neg (fun h0 => hopen (hzero.mp h0)), Option.map_some]

/-- **A broadcast on its course is pushed**: after any of its calls it has
sent its packets in order, one for each pull, and is complete when all are
out. -/
theorem pushed_of_on_course (hstart : tx.Sends pgn data true) (hopen : tx.isComplete = false)
    (hwindow : tx.window = ⟨1, packetCount data.length⟩) {tr : List Entry}
    (ht : Trace step tx tr tx')
    (hcourse : OnCourse pgn (packetCount data.length) (tr.map Entry.event))
    (hacked : AckedWhenSent pgn (packetCount data.length) (tr.map Entry.event)) :
    outs Reply.dt tr = (List.range' 1 (min (pulls (tr.map Entry.event))
        (packetCount data.length))).map (packetOf data)
      ∧ (tx'.isComplete = true ↔ packetCount data.length ≤ pulls (tr.map Entry.event)) := by
  rw [OnCourse, forall_event_split] at hcourse
  rw [AckedWhenSent, forall_event_split] at hacked
  have hpos : 2 ≤ packetCount data.length := hstart.packets ▸ tx.packets_pos
  induction ht with
  | nil =>
    refine ⟨rfl, ?_⟩
    rw [hopen]
    show false = true ↔ packetCount data.length ≤ 0
    simp only [Bool.false_eq_true, false_iff]
    omega
  | @snoc tr s s' c reply ht hstep ih =>
    obtain ⟨hs, hmoves, -⟩ := (works pgn data true).trace hstart ht
    obtain ⟨houts, hcomplete⟩ := ih
      (fun pre e post htr => hcourse pre e (post ++ [⟨s, c, reply, s'⟩]) (by rw [htr]; simp))
      (fun pre e post htr => hacked pre e (post ++ [⟨s, c, reply, s'⟩]) (by rw [htr]; simp))
    have hlast := hcourse tr ⟨s, c, reply, s'⟩ [] rfl
    have hack := hacked tr ⟨s, c, reply, s'⟩ [] rfl
    have hfinish := step_complete hs hstep
    rw [hwindow] at hmoves
    have houts' : outs Reply.dt (tr ++ [⟨s, c, reply, s'⟩])
        = outs Reply.dt tr ++ reply.dt.toList := by
      unfold outs
      rw [List.filterMap_append]
      congr 1
    rw [houts', houts, List.map_append]
    show _ = List.map _ (List.range' 1 (min (pulls (_ ++ [c])) _))
      ∧ (_ ↔ _ ≤ pulls (_ ++ [c]))
    rw [pulls_snoc]
    cases c with
    | nextPacket =>
      obtain ⟨hnone, hsome⟩ := pull_yields hs hmoves hstep
      specialize hlast rfl
      rw [List.map_map] at hlast
      rw [if_pos rfl]
      by_cases hmore : pulls (tr.map Entry.event) < packetCount data.length
      · -- the next packet goes out
        rw [if_pos hmore] at hlast
        obtain ⟨hnext, hdt⟩ := hsome hlast.1
        have hseq : s.nextSequence = pulls (tr.map Entry.event) + 1 := hnext.trans hlast.2
        rw [hdt, hseq, packets_snoc hmore]
        refine ⟨rfl, ?_⟩
        have hbefore : s.isComplete = false := by
          rw [← Bool.not_eq_true, hcomplete]
          omega
        rw [hfinish, hbefore, hdt, hseq]
        show (false || false || (true && _)) = true ↔ _
        simp only [Bool.or_self, Bool.false_or, Bool.true_and, decide_eq_true_eq]
        omega
      · -- everything is out
        rw [if_neg hmore] at hlast
        rw [hnone hlast]
        refine ⟨?_, ?_⟩
        · rw [Nat.min_eq_right (by omega), Nat.min_eq_right (by omega)]
          exact List.append_nil _
        · have hbefore : s.isComplete = true := hcomplete.mpr (Nat.le_of_not_lt hmore)
          rw [hfinish, hbefore, Bool.true_or, Bool.true_or]
          exact iff_of_true rfl (by omega)
    | tpCm cm =>
      have hdt : reply.dt = none := by
        obtain ⟨-, -, hout⟩ := (works pgn data true).step_of hs hstep
        rw [hout, yield_tpCm]
        rfl
      rw [hfinish, hdt, if_neg (by simp), Nat.add_zero]
      refine ⟨List.append_nil _, ?_⟩
      rw [Option.isSome_none, Bool.false_and, Bool.or_false]
      cases hacks : s.acknowledges (.tpCm cm) with
      | false => rw [Bool.or_false, hcomplete]
      | true =>
        rw [Bool.or_true]
        refine iff_of_true rfl (hack ?_)
        cases cm with
        | endOfMsgAck size count named =>
          have hnamed : named = pgn := (beq_iff_eq.mp hacks).trans hs.pgn_eq
          exact ⟨size, count, by rw [← hnamed]⟩
        | rts | cts | bam | abort => cases hacks

/-- **A broadcast that is pushed exactly once is on its course**, and
acknowledged only when everything is out. -/
theorem on_course_of_pushed (hstart : tx.Sends pgn data true)
    (hwindow : tx.window = ⟨1, packetCount data.length⟩) {tr : List Entry}
    (ht : Trace step tx tr tx') (hpushed : PushedOnce data tr) :
    OnCourse pgn (packetCount data.length) (tr.map Entry.event)
      ∧ AckedWhenSent pgn (packetCount data.length) (tr.map Entry.event) := by
  constructor
  · rw [OnCourse, forall_event_split]
    intro pre e post htr hpull
    subst htr
    obtain ⟨hpre, hstep⟩ := ht.split
    obtain ⟨hs, hmoves, -⟩ := (works pgn data true).trace hstart hpre
    rw [hwindow] at hmoves
    rw [hpull] at hstep
    obtain ⟨hnone, hsome⟩ := pull_yields hs hmoves hstep
    -- what the run had sent before the pull, and with it
    have hbefore := hpushed.packets pre (e :: post) rfl
    have hafter := hpushed.packets (pre ++ [e]) post (by simp)
    have houts : outs Reply.dt (pre ++ [e]) = outs Reply.dt pre ++ e.out.dt.toList := by
      unfold outs
      rw [List.filterMap_append]
      congr 1
    have hcount : pulls ((pre ++ [e]).map Entry.event) = pulls (pre.map Entry.event) + 1 := by
      rw [List.map_append]
      show pulls (_ ++ [e.event]) = _
      rw [pulls_snoc, if_pos hpull]
    rw [houts, hbefore, hcount] at hafter
    rw [List.map_map]
    by_cases hmore : pulls (pre.map Entry.event) < packetCount data.length
    · rw [packets_snoc hmore] at hafter
      have hdt := List.append_cancel_left hafter
      have hopen : ¬ Spent ⟨1, packetCount data.length⟩
          (pre.map (moveOf pgn (packetCount data.length) ∘ Entry.event)) := by
        intro hspent
        rw [hnone hspent] at hdt
        cases hdt
      obtain ⟨hnext, hdt'⟩ := hsome hopen
      rw [hdt', Option.toList_some, List.cons.injEq] at hdt
      rw [if_pos hmore]
      exact ⟨hopen, hnext.symm.trans (congrArg TpDt.sequence hdt.1)⟩
    · rw [if_neg hmore]
      rw [Nat.min_eq_right (by omega), Nat.min_eq_right (by omega)] at hafter
      by_contra hopen
      obtain ⟨-, hdt'⟩ := hsome hopen
      rw [hdt'] at hafter
      have hlen := congrArg List.length hafter
      rw [List.length_append] at hlen
      simp at hlen
  · rw [AckedWhenSent, forall_event_split]
    intro pre e post htr hack
    obtain ⟨size, count, hev⟩ := hack
    have hdone := hpushed.complete pre e post htr
    subst htr
    obtain ⟨hpre, hstep⟩ := ht.split
    obtain ⟨hs, -⟩ := (works pgn data true).trace hstart hpre
    have hacks : e.before.acknowledges e.event = true := by
      rw [hev]
      show (pgn == e.before.pgn) = true
      rw [hs.pgn_eq, beq_self_eq_true]
    have hcomplete : e.after.isComplete = true := by
      rw [step_complete hs hstep, hacks, Bool.or_true, Bool.true_or]
    have hcount := hdone.mp hcomplete
    rw [List.map_append] at hcount
    replace hcount : packetCount data.length ≤ pulls (pre.map Entry.event ++ [e.event]) := hcount
    rw [pulls_snoc, if_neg (by rw [hev]; simp)] at hcount
    exact hcount

/-- **When a broadcast is pushed exactly once**: exactly if, wherever a
packet is asked for, the window granted last stands at the first packet
that is not out, or is used up when all are; and no acknowledgement that
names its group comes before all are asked for. -/
theorem pushed_once_iff (h : broadcastOf pgn data = .ok tx) (max : Nat) (calls : List Call) :
    ∃ tr tx', Machine.run step (tx.withMaxPacketsPerCts max) calls = .ok (tr, tx')
      ∧ (PushedOnce data tr ↔ OnCourse pgn (packetCount data.length) calls
        ∧ AckedWhenSent pgn (packetCount data.length) calls) := by
  obtain ⟨hsends, hopen, hwindow⟩ := broadcast_start h max
  obtain ⟨tr, tx', hrun, htrace, rfl⟩ := run_sends hsends calls
  refine ⟨tr, tx', hrun, fun hpushed => on_course_of_pushed hsends hwindow htrace hpushed, ?_⟩
  rintro ⟨hcourse, hacked⟩
  -- both conditions hold of every beginning of the run
  have hprefix : ∀ pre post, tr = pre ++ post →
      OnCourse pgn (packetCount data.length) (pre.map Entry.event)
        ∧ AckedWhenSent pgn (packetCount data.length) (pre.map Entry.event) := by
    intro pre post htr
    have hev : tr.map Entry.event = pre.map Entry.event ++ post.map Entry.event := by
      rw [htr, List.map_append]
    rw [hev] at hcourse hacked
    constructor
    · intro pre' c post' hpre
      refine hcourse pre' c (post' ++ post.map Entry.event) ?_
      rw [hpre, List.append_assoc, List.cons_append]
    · intro pre' c post' hpre
      refine hacked pre' c (post' ++ post.map Entry.event) ?_
      rw [hpre, List.append_assoc, List.cons_append]
  constructor
  · intro pre post htr
    obtain ⟨hcourse', hacked'⟩ := hprefix pre post htr
    subst htr
    obtain ⟨s, hpre⟩ := htrace.of_append
    exact (pushed_of_on_course hsends hopen hwindow hpre hcourse' hacked').1
  · intro pre e post htr
    obtain ⟨hcourse', hacked'⟩ := hprefix (pre ++ [e]) post (by simp [htr])
    subst htr
    obtain ⟨hpre, hstep⟩ := htrace.split
    exact (pushed_of_on_course hsends hopen hwindow (hpre.snoc hstep) hcourse' hacked').2

/-- Nine bytes, among messages that do not concern them. -/
theorem pushed_once_iff_nine_bytes : ∃ tx tr tx',
    broadcastOf .dm1 [1, 2, 3, 4, 5, 6, 7, 8, 9] = .ok tx
      ∧ Machine.run step (tx.withMaxPacketsPerCts 255)
          [.nextPacket, .tpCm (.abort .timeout .dm1), .nextPacket, .tpCm (.cts 1 1 .dm2)]
        = .ok (tr, tx')
      ∧ (PushedOnce [1, 2, 3, 4, 5, 6, 7, 8, 9] tr ↔
          OnCourse .dm1 (packetCount 9)
              [.nextPacket, .tpCm (.abort .timeout .dm1), .nextPacket, .tpCm (.cts 1 1 .dm2)]
            ∧ AckedWhenSent .dm1 (packetCount 9)
              [.nextPacket, .tpCm (.abort .timeout .dm1), .nextPacket, .tpCm (.cts 1 1 .dm2)]) := by
  have htx : broadcastOf .dm1 [1, 2, 3, 4, 5, 6, 7, 8, 9] = .ok _ := rfl
  obtain ⟨tr, tx', hrun, hiff⟩ := pushed_once_iff htx 255
    [.nextPacket, .tpCm (.abort .timeout .dm1), .nextPacket, .tpCm (.cts 1 1 .dm2)]
  exact ⟨_, tr, tx', htx, hrun, hiff⟩

/-- A CTS that nobody sends in answer to a broadcast winds it back to its
first packet, and an acknowledgement completes it before it is out. -/
theorem broadcast_rewound :
    (∃ tx tr tx', broadcastOf .dm1 [1, 2, 3, 4, 5, 6, 7, 8, 9] = .ok tx
        ∧ Machine.run step tx [.nextPacket, .tpCm (.cts 1 1 .dm1), .nextPacket] = .ok (tr, tx')
        ∧ outs Reply.dt tr = [packetOf [1, 2, 3, 4, 5, 6, 7, 8, 9] 1,
          packetOf [1, 2, 3, 4, 5, 6, 7, 8, 9] 1]
        ∧ ¬ PushedOnce [1, 2, 3, 4, 5, 6, 7, 8, 9] tr)
      ∧ ∃ tx tr tx', broadcastOf .dm1 [1, 2, 3, 4, 5, 6, 7, 8, 9] = .ok tx
        ∧ Machine.run step tx [.tpCm (.endOfMsgAck 9 2 .dm1)] = .ok (tr, tx')
        ∧ tx'.isComplete = true ∧ outs Reply.dt tr = []
        ∧ ¬ PushedOnce [1, 2, 3, 4, 5, 6, 7, 8, 9] tr := by
  constructor
  · refine ⟨_, _, _, rfl, rfl, rfl, fun hpushed => ?_⟩
    have hpackets := hpushed.packets _ [] (List.append_nil _).symm
    exact absurd hpackets (by decide)
  · refine ⟨_, _, _, rfl, rfl, rfl, rfl, fun hpushed => ?_⟩
    have hcomplete := (hpushed.complete [] _ [] rfl).mp rfl
    exact absurd hcomplete (by decide)

end SaeJ1939.Tp.Transmitter
