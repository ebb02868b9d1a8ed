/-
  SaeJ1939.Etp.Completion — when an extended transmitter counts as
  complete.

  As the transmitter of the transport protocol, this one believes an
  acknowledgement that names its group, whatever has been sent and
  whatever size it states.

  Main results:
    * `step_wf` — no call on a well-formed transmitter panics, and exactly
      the acknowledgements of its group complete it.
    * `complete_means_sent_iff` — as for the transport protocol.
    * `completion_means_sent` — the two together.
-/
import SaeJ1939.Etp.Transmitter
import SaeJ1939.Tp.Completion

namespace SaeJ1939.Etp.Transmitter

open Checked Machine

/-! ## §1. The transmitter as a machine. -/

/-- A call on a transmitter. -/
inductive Call where
  | etpCm (cm : EtpCm)
  | offset
  | nextPacket
  deriving DecidableEq

/-- What a call returns. -/
inductive Reply where
  | told (told : Tx)
  | offset (cm : Option EtpCm)
  | packet (dt : Option EtpDt)
  deriving DecidableEq

/-- One call. -/
def step : Machine.Step Transmitter Call Reply
  | tx, .etpCm cm => do
      let (told, tx) ← tx.onEtpCm cm
      return (.told told, tx)
  | tx, .offset => do
      let (cm, tx) ← tx.offset
      return (.offset cm, tx)
  | tx, .nextPacket => do
      let (dt, tx) ← tx.nextPacket
      return (.packet dt, tx)

/-- One call of a run. -/
abbrev Entry := Machine.Entry Transmitter Call Reply

/-- Whether a call brings an acknowledgement that names the transfer's
group. -/
def acknowledges (tx : Transmitter) : Call → Bool
  | .etpCm (.eoma _ pgn) => pgn == tx.pgn
  | _ => false

/-- The acknowledgement of a call states this size. -/
def Call.States (size : Nat) : Call → Prop
  | .etpCm (.eoma stated _) => stated = size
  | _ => False

/-! ## §2. What has been sent. -/

/-- The packet with the absolute number `k` has been pulled. -/
def Produced (tr : List Entry) (k : Nat) : Prop :=
  ∃ e ∈ tr, ∃ dt, e.out = .packet (some dt) ∧ e.before.blockStart + dt.sequence = k + 1

/-- Every packet of the payload has been pulled. -/
def AllProduced (data : List UInt8) (tr : List Entry) : Prop :=
  ∀ k, 1 ≤ k → k ≤ packetCount data.length → Produced tr k

/-- The transmitter is complete only after every packet was pulled; an
acknowledgement that comes before that, or states another size, does not
complete it. -/
def CompleteMeansSent (data : List UInt8) (tr : List Entry) : Prop :=
  (∀ pre e post, tr = pre ++ e :: post → e.after.isComplete = true → AllProduced data (pre ++ [e]))
    ∧ ∀ pre e post, tr = pre ++ e :: post → e.before.acknowledges e.event = true →
      ¬ (AllProduced data pre ∧ e.event.States data.length) →
      e.after.isComplete = e.before.isComplete

/-- No acknowledgement of the transfer arrives before every packet was
pulled, or states another size, while the transfer is incomplete. -/
def AcknowledgedInTime (data : List UInt8) (tr : List Entry) : Prop :=
  ∀ pre e post, tr = pre ++ e :: post → e.before.acknowledges e.event = true →
    e.before.isComplete = false → AllProduced data pre ∧ e.event.States data.length

theorem AllProduced.append {data : List UInt8} {pre : List Entry} (h : AllProduced data pre)
    (post : List Entry) : AllProduced data (pre ++ post) := by
  intro k hk hle
  obtain ⟨e, he, hdt⟩ := h k hk hle
  exact ⟨e, List.mem_append_left _ he, hdt⟩

/-! ## §3. One call. -/

variable {tx : Transmitter}

/-- Connection management: exactly the acknowledgements of the transfer's
group complete it. -/
theorem onEtpCm_complete {cm : EtpCm} {told : Tx} {tx' : Transmitter}
    (h : tx.onEtpCm cm = .ok (told, tx')) :
    tx'.isComplete = (tx.isComplete || tx.acknowledges (.etpCm cm)) := by
  unfold onEtpCm at h
  by_cases hpgn : cm.pgn = tx.pgn
  · rw [if_neg (not_not_intro hpgn)] at h
    cases cm with
    | cts packets nextPacket pgn =>
      have hsame : tx'.complete = tx.complete := by
        dsimp only at h
        split at h
        next =>
          injection h with h
          injection h with _ h
          rw [h]
        next =>
          simp only [bind_eq_ok] at h
          obtain ⟨_, _, _, _, h⟩ := h
          injection h with h
          injection h with _ h
          rw [← h]
      exact hsame.trans (Bool.or_false _).symm
    | eoma size pgn =>
      have hown : (pgn == tx.pgn) = true := beq_iff_eq.mpr hpgn
      injection h with h
      injection h with _ h
      subst h
      show true = (tx.complete || (pgn == tx.pgn))
      rw [hown, Bool.or_true]
    | abort | rts | dpo =>
      injection h with h
      injection h with _ h
      subst h
      exact (Bool.or_false _).symm
  · -- another group
    rw [if_pos hpgn] at h
    injection h with h
    injection h with _ h
    subst h
    cases cm with
    | eoma size pgn =>
      have hother : (pgn == tx.pgn) = false := beq_eq_false_iff_ne.mpr hpgn
      show tx.complete = (tx.complete || (pgn == tx.pgn))
      rw [hother, Bool.or_false]
    | cts | abort | rts | dpo => exact (Bool.or_false _).symm

/-- Declaring an offset completes nothing. -/
theorem offset_complete {cm : Option EtpCm} {tx' : Transmitter}
    (h : tx.offset = .ok (cm, tx')) : tx'.isComplete = tx.isComplete := by
  unfold offset at h
  split at h
  next =>
    injection h with h
    injection h with _ h
    rw [h]
  next =>
    simp only [bind_eq_ok] at h
    obtain ⟨_, _, h⟩ := h
    injection h with h
    injection h with _ h
    rw [← h]
    rfl

/-- Pulling a packet completes nothing. -/
theorem nextPacket_complete (h : tx.WF) :
    ∃ dt tx', tx.nextPacket = .ok (dt, tx') ∧ tx'.WF ∧ tx'.isComplete = tx.isComplete := by
  by_cases hshut : tx.blockPackets = 0 ∨ tx.nextSequence > tx.blockPackets
  · exact ⟨none, tx, if_pos hshut, h, rfl⟩
  · exact ⟨_, _, nextPacket_some h (by omega),
      ⟨h.start_pos, h.start_le, h.block_le, h.block_end, Nat.le_add_left 1 tx.nextSequence⟩, rfl⟩

/-- **No call on a well-formed transmitter panics**, and exactly the
acknowledgements of its group complete it. -/
theorem step_wf (h : tx.WF) (c : Call) :
    ∃ reply tx', step tx c = .ok (reply, tx') ∧ tx'.WF
      ∧ tx'.isComplete = (tx.isComplete || tx.acknowledges c) := by
  cases c with
  | etpCm cm =>
    obtain ⟨told, tx', hok, h'⟩ := onEtpCm_total h cm
    refine ⟨.told told, tx', ?_, h', onEtpCm_complete hok⟩
    simp only [step, hok, ok_bind, pure_eq_ok]
  | offset =>
    obtain ⟨cm, tx', hok, h'⟩ := offset_total h
    refine ⟨.offset cm, tx', ?_, h', (offset_complete hok).trans (Bool.or_false _).symm⟩
    simp only [step, hok, ok_bind, pure_eq_ok]
  | nextPacket =>
    obtain ⟨dt, tx', hok, h', hcomplete⟩ := nextPacket_complete h
    refine ⟨.packet dt, tx', ?_, h', hcomplete.trans (Bool.or_false _).symm⟩
    simp only [step, hok, ok_bind, pure_eq_ok]

/-! ## §4. Whole runs. -/

/-- **Complete means sent, exactly if acknowledged in time.** -/
theorem complete_means_sent_iff {pgn : Pgn} {data : List UInt8} (h : new pgn data = .ok tx)
    (calls : List Call) :
    ∃ tr tx', Machine.run step tx calls = .ok (tr, tx')
      ∧ (CompleteMeansSent data tr ↔ AcknowledgedInTime data tr) := by
  have hwf := new_wf h
  have hopen : tx.isComplete = false := by
    unfold new at h
    split at h
    next => cases h
    next =>
      injection h with h
      subst h
      rfl
  exact run_latch_iff (fun _ c hs => step_wf hs c) (fun _ post hpre => hpre.append post) calls
    hwf hopen

/-- **When completion means that everything was sent**, for the
transmitters of both protocols: exactly in the runs in which every
acknowledgement of the transfer that arrives before it is complete arrives
after the last packet was pulled, and states the size of the message. -/
theorem completion_means_sent (pgn : Pgn) (data : List UInt8) :
    (∀ tx max calls, Tp.Transmitter.addressed pgn data = .ok tx →
      ∃ tr tx', Machine.run Tp.Transmitter.step (tx.withMaxPacketsPerCts max) calls = .ok (tr, tx')
        ∧ (Tp.Transmitter.CompleteMeansSent data tr ↔ Tp.Transmitter.AcknowledgedInTime data tr))
      ∧ ∀ tx calls, new pgn data = .ok tx →
        ∃ tr tx', Machine.run step tx calls = .ok (tr, tx')
          ∧ (CompleteMeansSent data tr ↔ AcknowledgedInTime data tr) :=
  ⟨fun _ max calls h => Tp.Transmitter.complete_means_sent_iff h max calls,
    fun _ calls h => complete_means_sent_iff h calls⟩

/-- Nine bytes, acknowledged after both packets were pulled. -/
theorem completion_means_sent_nine_bytes :
    let data : List UInt8 := [1, 2, 3, 4, 5, 6, 7, 8, 9]
    let calls : List Tp.Transmitter.Call :=
      [.tpCm (.cts 2 1 .dm1), .nextPacket, .nextPacket, .tpCm (.endOfMsgAck 9 2 .dm1)]
    ∃ tx tr tx', Tp.Transmitter.addressed .dm1 data = .ok tx
      ∧ Machine.run Tp.Transmitter.step (tx.withMaxPacketsPerCts 255) calls = .ok (tr, tx')
      ∧ (Tp.Transmitter.CompleteMeansSent data tr ↔ Tp.Transmitter.AcknowledgedInTime data tr) := by
  intro data calls
  obtain ⟨tx, htx⟩ := Tp.Transmitter.addressed_ok .dm1 (show 9 ≤ data.length by decide)
    (show data.length ≤ 1785 by decide)
  obtain ⟨tr, tx', hrun, hiff⟩ := (completion_means_sent .dm1 data).1 tx 255 calls htx
  exact ⟨tx, tr, tx', htx, hrun, hiff⟩

/-- An acknowledgement that answers the announcement completes both
transmitters before they sent anything. -/
theorem completed_before_sent :
    (∃ tx tr tx', Tp.Transmitter.addressed .dm1 [1, 2, 3, 4, 5, 6, 7, 8, 9] = .ok tx
        ∧ Machine.run Tp.Transmitter.step tx [.tpCm (.endOfMsgAck 9 2 .dm1)] = .ok (tr, tx')
        ∧ tx'.isComplete = true
        ∧ ¬ Tp.Transmitter.CompleteMeansSent [1, 2, 3, 4, 5, 6, 7, 8, 9] tr)
      ∧ ∃ tx tr tx', new .dm1 (List.replicate 1786 0) = .ok tx
        ∧ Machine.run step tx [.etpCm (.eoma 1786 .dm1)] = .ok (tr, tx')
        ∧ tx'.isComplete = true ∧ ¬ CompleteMeansSent (List.replicate 1786 0) tr := by
  constructor
  · obtain ⟨tx, htx⟩ := Tp.Transmitter.addressed_ok .dm1
      (show 9 ≤ [1, 2, 3, 4, 5, 6, 7, 8, (9 : UInt8)].length by decide) (by decide)
    have hpgn := (Tp.Transmitter.addressed_eq_ok htx).1
    have hon : tx.onTpCm (.endOfMsgAck 9 2 .dm1) = .ok (.complete, { tx with complete := true }) :=
      if_neg (not_not_intro hpgn.symm)
    have hrun : Machine.run Tp.Transmitter.step tx [.tpCm (.endOfMsgAck 9 2 .dm1)]
        = .ok ([⟨tx, .tpCm (.endOfMsgAck 9 2 .dm1), .told .complete, { tx with complete := true }⟩],
          { tx with complete := true }) := by
      simp only [Machine.run, Tp.Transmitter.step, hon, ok_bind, pure_eq_ok]
    refine ⟨tx, _, _, htx, hrun, rfl, ?_⟩
    rintro ⟨hsent, -⟩
    obtain ⟨e, he, dt, hout, -⟩ := hsent [] _ [] rfl rfl 1 (Nat.le_refl 1) (by decide)
    rw [List.nil_append, List.mem_singleton] at he
    rw [he] at hout
    cases hout
  · have hlen : (List.replicate 1786 (0 : UInt8)).length = 1786 := List.length_replicate
    obtain ⟨tx, htx⟩ := (new_ok_iff .dm1 (List.replicate 1786 0)).mpr
      ⟨hlen.ge, by rw [hlen]; decide⟩
    have hpgn := (new_eq_ok htx).1
    have hon : tx.onEtpCm (.eoma 1786 .dm1) = .ok (.complete, { tx with complete := true }) :=
      if_neg (not_not_intro hpgn.symm)
    have hrun : Machine.run step tx [.etpCm (.eoma 1786 .dm1)]
        = .ok ([⟨tx, .etpCm (.eoma 1786 .dm1), .told .complete, { tx with complete := true }⟩],
          { tx with complete := true }) := by
      simp only [Machine.run, step, hon, ok_bind, pure_eq_ok]
    refine ⟨tx, _, _, htx, hrun, rfl, ?_⟩
    rintro ⟨hsent, -⟩
    obtain ⟨e, he, dt, hout, -⟩ := hsent [] _ [] rfl rfl 1 (Nat.le_refl 1) (by rw [hlen]; decide)
    rw [List.nil_append, List.mem_singleton] at he
    rw [he] at hout
    cases hout

end SaeJ1939.Etp.Transmitter
