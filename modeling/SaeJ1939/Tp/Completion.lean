/-
  SaeJ1939.Tp.Completion — when a transmitter counts as complete.

  A run of a transmitter is a list of entries: the connection management it
  was fed and the packets pulled out of it, in any order.  The transmitter
  believes an acknowledgement that names its group: it compares neither
  the size it states nor the packets sent so far.

  Main results:
    * `step_addressed` — no call on an addressed transmitter panics, and
      exactly the acknowledgements of its group complete it.
    * `complete_means_sent_iff` — in a run, complete means that every
      packet was sent exactly if every acknowledgement was in time.
-/
import SaeJ1939.Tp.Transmitter
import SaeJ1939.Lib.Machine

namespace SaeJ1939.Tp.Transmitter

open Checked Machine

/-! ## §1. The transmitter as a machine. -/

/-- A call on a transmitter. -/
inductive Call where
  | tpCm (cm : TpCm)
  | nextPacket
  deriving DecidableEq

/-- What a call returns. -/
inductive Reply where
  | told (told : Tx)
  | packet (dt : Option TpDt)
  deriving DecidableEq

/-- One call. -/
def step : Machine.Step Transmitter Call Reply
  | tx, .tpCm cm => do
      let (told, tx) ← tx.onTpCm cm
      return (.told told, tx)
  | tx, .nextPacket => do
      let (dt, tx) ← tx.nextPacket
      return (.packet dt, tx)

/-- One call of a run. -/
abbrev Entry := Machine.Entry Transmitter Call Reply

/-- Whether a call brings an acknowledgement that names the transfer's
group. -/
def acknowledges (tx : Transmitter) : Call → Bool
  | .tpCm (.endOfMsgAck _ _ pgn) => pgn == tx.pgn
  | _ => false

/-- The acknowledgement of a call states this size. -/
def Call.States (size : Nat) : Call → Prop
  | .tpCm (.endOfMsgAck stated _ _) => stated = size
  | _ => False

/-! ## §2. What has been sent. -/

/-- Packet `k` has been pulled. -/
def Produced (tr : List Entry) (k : Nat) : Prop :=
  ∃ e ∈ tr, ∃ dt, e.out = .packet (some dt) ∧ dt.sequence = k

/-- Every packet of the payload has been pulled. -/
def AllProduced (data : List UInt8) (tr : List Entry) : Prop :=
  ∀ k, 1 ≤ k → k ≤ packetCount data.length → Produced tr k

/-- The transmitter is complete only after every packet was pulled; an
acknowledgement that comes before that, or states another size, does not
complete it. -/
def CompleteMeansSent (data : List UInt8) (tr : List Entry) : Prop :=
  (∀ pre e post, tr = pre ++ e :: post → e.after.isComplete = true → AllProduced data (pre ++ [e]))
    ∧ ∀ pre e post, tr = pre ++ e :: post → e.before.acknowledges e.event = true →
      ¬ (AllProduced data pre ∧ e.event.States data.length) →
      e.after.isComplete = e.before.isComplete

/-- No acknowledgement of the transfer arrives before every packet was
pulled, or states another size, while the transfer is incomplete. -/
def AcknowledgedInTime (data : List UInt8) (tr : List Entry) : Prop :=
  ∀ pre e post, tr = pre ++ e :: post → e.before.acknowledges e.event = true →
    e.before.isComplete = false → AllProduced data pre ∧ e.event.States data.length

theorem AllProduced.append {data : List UInt8} {pre : List Entry} (h : AllProduced data pre)
    (post : List Entry) : AllProduced data (pre ++ post) := by
  intro k hk hle
  obtain ⟨e, he, hdt⟩ := h k hk hle
  exact ⟨e, List.mem_append_left _ he, hdt⟩

/-! ## §3. One call. -/

/-- A transmitter of an addressed transfer, at any time. -/
structure Addressed (tx : Transmitter) : Prop where
  broadcast : tx.broadcast = false
  next_pos : 1 ≤ tx.nextSequence

variable {tx tx' : Transmitter}

/-- Connection management: exactly the acknowledgements of the transfer's
group complete it. -/
theorem onTpCm_addressed (h : tx.Addressed) (cm : TpCm) :
    ∃ told tx', tx.onTpCm cm = .ok (told, tx') ∧ tx'.Addressed
      ∧ tx'.isComplete = (tx.isComplete || tx.acknowledges (.tpCm cm)) := by
  by_cases hpgn : cm.pgn = tx.pgn
  · have hown : ¬ cm.pgn ≠ tx.pgn := not_not_intro hpgn
    cases cm with
    | cts packets nextPacket pgn =>
      by_cases hidle : packets = 0 ∨ nextPacket = 0 ∨ nextPacket > tx.packets
      · -- a hold, or a window that is not there
        refine ⟨.idle, tx, ?_, h, (Bool.or_false _).symm⟩
        unfold onTpCm
        rw [if_neg hown]
        dsimp only
        by_cases hp : packets = 0
        · rw [if_pos hp]
        · rw [if_neg hp, if_pos (hidle.resolve_left hp)]
      · push Not at hidle
        obtain ⟨hp, hn, hle⟩ := hidle
        have hn' : 1 ≤ nextPacket := by omega
        unfold TpCm.pgn at hpgn
        subst hpgn
        exact ⟨_, _, tx.onTpCm_cts (show 1 ≤ packets by omega) hn' hle, ⟨h.broadcast, hn'⟩,
          (Bool.or_false _).symm⟩
    | endOfMsgAck size packets pgn =>
      unfold TpCm.pgn at hpgn
      subst hpgn
      refine ⟨.complete, { tx with complete := true }, ?_, ⟨h.broadcast, h.next_pos⟩, ?_⟩
      · unfold onTpCm
        rw [if_neg hown]
      · show true = (tx.complete || (tx.pgn == tx.pgn))
        rw [beq_self_eq_true, Bool.or_true]
    | abort reason pgn =>
      exact ⟨.aborted reason, tx, if_neg hown, h, (Bool.or_false _).symm⟩
    | rts | bam => exact ⟨.idle, tx, if_neg hown, h, (Bool.or_false _).symm⟩
  · -- another group
    refine ⟨.idle, tx, if_pos hpgn, h, ?_⟩
    cases cm with
    | endOfMsgAck size packets pgn =>
      have hother : (pgn == tx.pgn) = false := beq_eq_false_iff_ne.mpr hpgn
      show tx.complete = (tx.complete || (pgn == tx.pgn))
      rw [hother, Bool.or_false]
    | cts | abort | rts | bam => exact (Bool.or_false _).symm

/-- Pulling a packet does not complete an addressed transfer. -/
theorem nextPacket_open (h : tx.Addressed) :
    ∃ dt tx', tx.nextPacket = .ok (dt, tx') ∧ tx'.Addressed ∧ tx'.isComplete = tx.isComplete := by
  by_cases hshut : tx.windowRemaining = 0 ∨ tx.nextSequence > tx.packets
  · exact ⟨none, tx, if_pos hshut, h, rfl⟩
  · refine ⟨_, _, nextPacket_some h.next_pos (by omega) (by omega),
      ⟨h.broadcast, Nat.le_add_left 1 tx.nextSequence⟩, ?_⟩
    simp only [isComplete, h.broadcast, Bool.false_and, Bool.or_false]

/-- **No call on an addressed transmitter panics**, and exactly the
acknowledgements of its group complete it. -/
theorem step_addressed (h : tx.Addressed) (c : Call) :
    ∃ reply tx', step tx c = .ok (reply, tx') ∧ tx'.Addressed
      ∧ tx'.isComplete = (tx.isComplete || tx.acknowledges c) := by
  cases c with
  | tpCm cm =>
    obtain ⟨told, tx', hok, h', hcomplete⟩ := onTpCm_addressed h cm
    refine ⟨.told told, tx', ?_, h', hcomplete⟩
    simp only [step, hok, ok_bind, pure_eq_ok]
  | nextPacket =>
    obtain ⟨dt, tx', hok, h', hcomplete⟩ := nextPacket_open h
    refine ⟨.packet dt, tx', ?_, h', hcomplete.trans (Bool.or_false _).symm⟩
    simp only [step, hok, ok_bind, pure_eq_ok]

/-- What an addressed transmitter looks like before its first call. -/
theorem addressed_start {pgn : Pgn} {data : List UInt8} (h : addressed pgn data = .ok tx)
    (max : Nat) :
    (tx.withMaxPacketsPerCts max).Addressed
      ∧ (tx.withMaxPacketsPerCts max).isComplete = false := by
  unfold addressed build at h
  split at h
  next => cases h
  next =>
    injection h with h
    subst h
    exact ⟨⟨rfl, Nat.le_refl 1⟩, rfl⟩

/-! ## §4. Whole runs. -/

/-- **Complete means sent, exactly if acknowledged in time.** -/
theorem complete_means_sent_iff {pgn : Pgn} {data : List UInt8}
    (h : addressed pgn data = .ok tx) (max : Nat) (calls : List Call) :
    ∃ tr tx', Machine.run step (tx.withMaxPacketsPerCts max) calls = .ok (tr, tx')
      ∧ (CompleteMeansSent data tr ↔ AcknowledgedInTime data tr) := by
  obtain ⟨haddressed, hopen⟩ := addressed_start h max
  exact run_latch_iff (fun _ c hs => step_addressed hs c) (fun _ post hpre => hpre.append post)
    calls haddressed hopen

end SaeJ1939.Tp.Transmitter
