/-
  SaeJ1939.Etp.Isolation — connection management that names another
  parameter group.

  A peer that sends us one transfer may have another open in the other
  direction, so its connection management is only about a session whose
  group it names.  An abort is held against that rule and an offset is
  not: it is taken to belong to whatever session the peer has.

  Main results:
    * `onEtpCm_keeps_iff` — which messages leave the session of their
      sender alone.
    * `other_group_iff` — of those that name another group, all but the
      offsets that do not repeat what the session already holds.
-/
import SaeJ1939.Etp.Transfer

namespace SaeJ1939.Etp

open Checked SlotTable

/-- Whether a message asks a receiver to open a session. -/
def EtpCm.isAnnouncement : EtpCm → Bool
  | .rts .. => true
  | _ => false

/-- An offset declares exactly what the session holds already: it is in
force, and neither a packet nor any time has passed since. -/
def Session.Repeats (session : Session) (packets offset : Nat) : Prop :=
  session.offset = some offset ∧ session.blockPackets = packets
    ∧ session.nextSequence = 1 ∧ session.idleMs = 0

namespace Reassembler

variable {N SESSIONS : Nat} {r : Reassembler N SESSIONS} {index : Fin SESSIONS}
  {session : Session}

/-- The message draws no answer and leaves the session in the slot as it
is. -/
def Keeps (r : Reassembler N SESSIONS) (index : Fin SESSIONS) (session : Session) (cm : EtpCm) :
    Prop :=
  ∃ r', r.onEtpCm session.source cm = .ok (.idle, r') ∧ (r'.slots index).session = some session

@[simp] theorem setSession_session (r : Reassembler N SESSIONS) (index : Fin SESSIONS)
    (session : Option Session) : ((r.setSession index session).slots index).session = session := by
  show (Function.update r.slots index _ index).session = session
  rw [Function.update_self]

/-- A peer is found in the slot that holds its session. -/
theorem slotOf_session (hr : r.WF) (hs : (r.slots index).session = some session) :
    r.slotOf session.source = some index := by
  rw [slotOf_eq_find, find_eq_some hr.distinct]
  exact key_eq_some.mpr ⟨session, hs, rfl⟩

/-- **An offset leaves the session alone exactly if it repeats what the
session holds.** -/
theorem dpo_keeps_iff (hr : r.WF) (hs : (r.slots index).session = some session)
    (packets offset : Nat) (pgn : Pgn) :
    r.Keeps index session (.dpo packets offset pgn) ↔ session.Repeats packets offset := by
  have hslot := slotOf_session hr hs
  have hwf : session.WF N := hr.slots index session hs
  constructor
  · rintro ⟨r', hok, hkept⟩
    simp only [onEtpCm, hslot, hs, bind_eq_ok] at hok
    obtain ⟨start, -, hok⟩ := hok
    split at hok
    next =>
      -- the offset does not fit, and the answer is an abort
      injection hok with hok
      injection hok with hok _
      cases hok
    next hfits =>
      push Not at hfits
      injection hok with hok
      injection hok with _ hok
      rw [← hok, setSession_session] at hkept
      injection hkept with hkept
      rw [← hkept] at hfits ⊢
      exact ⟨rfl, hfits.2.symm, rfl, rfl⟩
  · rintro ⟨hoffset, rfl, hnext, hidle⟩
    have hstart := hwf.start_pos
    have hpos := hwf.block_pos
    have hend := hwf.block_end
    have hpackets_eq := hwf.packets_eq
    have hb := packetCount_bounds hwf.size_ge hwf.size_le
    have hoff : offset + 1 = session.blockStart := by
      rw [hwf.offset_of_some hoffset]
      omega
    have hwide : addU 32 offset 1 = .ok session.blockStart := by
      rw [addU_ok (by omega), hoff]
    have hsame : { session with offset := some offset, nextSequence := 1, idleMs := 0 }
        = session := by
      rw [← hoffset, ← hnext, ← hidle]
    refine ⟨r.setSession index (some session), ?_, setSession_session r index _⟩
    simp only [onEtpCm, hslot, hs, hwide, ok_bind, ne_eq, not_true_eq_false, or_self,
      if_false, hsame, pure_eq_ok]

/-- **Which of a peer's messages leave its session alone.** -/
theorem onEtpCm_keeps_iff (hr : r.WF) (hs : (r.slots index).session = some session) {cm : EtpCm}
    (hcm : cm.isAnnouncement = false) :
    r.Keeps index session cm ↔
      (∀ packets offset pgn, cm = .dpo packets offset pgn → session.Repeats packets offset)
        ∧ ∀ reason, cm ≠ .abort reason session.pgn := by
  have hslot := slotOf_session hr hs
  cases cm with
  | rts => cases hcm
  | dpo packets offset pgn =>
    rw [dpo_keeps_iff hr hs]
    constructor
    · intro h
      constructor
      · intro _ _ _ heq
        cases heq
        exact h
      · intro _ heq
        cases heq
    · intro h
      exact h.1 packets offset pgn rfl
  | abort reason pgn =>
    by_cases hpgn : session.pgn = pgn
    · -- the abort ends the session it names
      constructor
      · rintro ⟨r', hok, hkept⟩
        simp only [onEtpCm, hslot, hs, Option.any_some, hpgn, beq_self_eq_true, if_true] at hok
        injection hok with hok
        injection hok with _ hok
        rw [← hok, setSession_session] at hkept
        cases hkept
      · intro h
        exact absurd (hpgn ▸ rfl) (h.2 reason)
    · constructor
      · intro _
        constructor
        · intro _ _ _ heq
          cases heq
        · intro _ heq
          cases heq
          exact hpgn rfl
      · intro _
        refine ⟨r, ?_, hs⟩
        simp only [onEtpCm, hslot, hs, Option.any_some, beq_eq_false_iff_ne.mpr hpgn,
          Bool.false_eq_true, if_false]
  | cts | eoma =>
    constructor
    · intro _
      constructor
      · intro _ _ _ heq
        cases heq
      · intro _ heq
        cases heq
    · intro _
      exact ⟨r, rfl, hs⟩

/-- **Connection management for another group leaves a session alone
exactly if it is not an offset**, or one that repeats what the session
already holds. -/
theorem other_group_iff (hr : Reachable r) (hs : (r.slots index).session = some session)
    {cm : EtpCm} (hcm : cm.isAnnouncement = false) (hpgn : cm.pgn ≠ session.pgn) :
    r.Keeps index session cm ↔
      ∀ packets offset pgn, cm = .dpo packets offset pgn → session.Repeats packets offset := by
  rw [onEtpCm_keeps_iff hr.wf hs hcm]
  refine ⟨fun h => h.1, fun h => ⟨h, ?_⟩⟩
  intro reason heq
  rw [heq] at hpgn
  exact hpgn rfl

/-- The abort of a transfer in the other direction. -/
theorem other_group_iff_abort : ∃ (r : Reassembler 1786 1) (session : Session),
    Reachable r ∧ (r.slots 0).session = some session
      ∧ (r.Keeps 0 session (.abort .timeout .dm2) ↔
          ∀ packets offset pgn, EtpCm.abort .timeout .dm2 = .dpo packets offset pgn →
            session.Repeats packets offset) := by
  have hrun : Machine.run step (new : Reassembler 1786 1) [.etpCm ⟨0x80⟩ (.rts 1786 .dm1)]
      = .ok (_, _) := rfl
  exact ⟨_, _, ⟨_, _, hrun⟩, rfl, other_group_iff ⟨_, _, hrun⟩ rfl rfl (by decide)⟩

/-- An offset for another group ends a transfer that has just been
announced. -/
theorem ended_by_other_group : ∃ (r r' : Reassembler 1786 1) (session : Session),
    Reachable r ∧ (r.slots 0).session = some session ∧ session.source = ⟨0x80⟩
      ∧ session.pgn = .dm1
      ∧ r.onEtpCm ⟨0x80⟩ (.dpo 100 0 .dm2)
        = .ok (.send (.abort .unexpectedDataPacket .dm1), r')
      ∧ (r'.slots 0).session = none ∧ ¬ r.Keeps 0 session (.dpo 100 0 .dm2) := by
  have hrun : Machine.run step (new : Reassembler 1786 1) [.etpCm ⟨0x80⟩ (.rts 1786 .dm1)]
      = .ok (_, _) := rfl
  refine ⟨_, _, _, ⟨_, _, hrun⟩, rfl, rfl, rfl, rfl, rfl, ?_⟩
  rintro ⟨r', hok, -⟩
  cases hok

end Reassembler

end SaeJ1939.Etp
