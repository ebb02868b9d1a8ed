/-
  SaeJ1939.Etp.Timeless — an extended reassembler, but for its clock.

  Only a tick reads how long a session has been idle.  Two reassemblers
  that differ in nothing else answer every frame alike, and still differ in
  nothing else then.

  Main results:
    * `onEtpCm_alike`, `onEtpDt_alike` — calls do not read the idle times.
    * `onEtpCm_inert_iff`, `onEtpDt_inert_iff` — which frames change
      nothing but an idle time.
    * `tick_inert_iff` — a tick changes nothing else exactly if no session
      expires.
-/
import SaeJ1939.Etp.Transfer

namespace SaeJ1939.Etp

open Checked SlotTable

variable {N SESSIONS : Nat}

/-! ## §1. Forgetting the time. -/

/-- A session, but for its idle time. -/
def Session.timeless (s : Session) : Session := { s with idleMs := 0 }

def Slot.timeless (slot : Slot N) : Slot N := ⟨slot.buffer, slot.session.map Session.timeless⟩

def Transfer.timeless (t : Transfer) : Transfer := ⟨t.session.timeless, t.received⟩

namespace Reassembler

/-- A reassembler, but for its idle times. -/
def timeless (r : Reassembler N SESSIONS) : Reassembler N SESSIONS :=
  ⟨fun i => (r.slots i).timeless⟩

/-- Two reassemblers hold the same transfers. -/
def Alike (r r' : Reassembler N SESSIONS) : Prop := r.timeless = r'.timeless

variable {r r' : Reassembler N SESSIONS} {source : Address} {index : Fin SESSIONS}

theorem session_timeless (r : Reassembler N SESSIONS) (i : Fin SESSIONS) :
    (r.timeless.slots i).session = (r.slots i).session.map Session.timeless := rfl

theorem slotOf_timeless (r : Reassembler N SESSIONS) (source : Address) :
    r.timeless.slotOf source = r.slotOf source := by
  unfold slotOf position
  congr 1
  funext i
  dsimp only
  rw [session_timeless]
  cases (r.slots i).session <;> rfl

theorem freeSlot_timeless (r : Reassembler N SESSIONS) : r.timeless.freeSlot = r.freeSlot := by
  unfold freeSlot position
  congr 1
  funext i
  dsimp only
  rw [session_timeless]
  cases (r.slots i).session <;> rfl

/-- Writing a slot. -/
theorem timeless_update (r : Reassembler N SESSIONS) (index : Fin SESSIONS) (slot : Slot N) :
    (⟨Function.update r.slots index slot⟩ : Reassembler N SESSIONS).timeless
      = ⟨Function.update r.timeless.slots index slot.timeless⟩ :=
  congrArg Reassembler.mk (Function.comp_update Slot.timeless r.slots index slot)

theorem timeless_setSession (r : Reassembler N SESSIONS) (index : Fin SESSIONS)
    (session : Option Session) :
    (r.setSession index session).timeless
      = r.timeless.setSession index (session.map Session.timeless) :=
  timeless_update r index _

theorem timeless_setBuffer (r : Reassembler N SESSIONS) (index : Fin SESSIONS)
    (buffer : Fin N → UInt8) :
    (r.setBuffer index buffer).timeless = r.timeless.setBuffer index buffer :=
  timeless_update r index _

/-- The transfer of a peer, but for its idle time. -/
theorem transferOf_timeless (r : Reassembler N SESSIONS) (source : Address) :
    r.timeless.transferOf source = (r.transferOf source).map Transfer.timeless := by
  have hkey : ∀ slot : Slot N, slot.timeless.key = slot.key := by
    intro slot
    unfold Slot.timeless Slot.key
    rw [Option.map_map]
    rfl
  have hfind : find Slot.key r.timeless.slots source = find Slot.key r.slots source := by
    rw [← slotOf_eq_find, ← slotOf_eq_find, slotOf_timeless]
  unfold transferOf SlotTable.get
  rw [hfind]
  cases find Slot.key r.slots source with
  | none => rfl
  | some i =>
    show ((r.slots i).session.map Session.timeless).map _ = ((r.slots i).session.map _).map _
    rw [Option.map_map, Option.map_map]
    rfl

/-! ## §2. Calls. -/

/-- What a call returns, but for the idle times. -/
def shown (x : Exec (Rx × Reassembler N SESSIONS)) : Exec (Rx × Reassembler N SESSIONS) :=
  x.map fun y => (y.1, y.2.timeless)

theorem shown_bind {α : Type} (x : Exec α) (f : α → Exec (Rx × Reassembler N SESSIONS)) :
    shown (x >>= f) = x >>= fun a => shown (f a) := by
  cases x <;> rfl

/-- Connection management does not read the idle times. -/
theorem shown_onEtpCm (r : Reassembler N SESSIONS) (source : Address) (cm : EtpCm) :
    shown (r.onEtpCm source cm) = r.timeless.onEtpCm source cm := by
  cases cm with
  | rts size pgn =>
    unfold onEtpCm
    dsimp only
    rw [slotOf_timeless, freeSlot_timeless]
    split
    · rfl
    split
    · rfl
    split
    · rfl
    cases r.freeSlot with
    | none => rfl
    | some index =>
      show Except.ok (_, (r.setSession index _).timeless) = _
      rw [timeless_setSession]
      rfl
  | dpo packets offset pgn =>
    unfold onEtpCm
    dsimp only
    rw [slotOf_timeless]
    cases r.slotOf source with
    | none => rfl
    | some index =>
      dsimp only
      rw [session_timeless]
      cases (r.slots index).session with
      | none => rfl
      | some session =>
        show shown (addU 32 offset 1 >>= _) = addU 32 offset 1 >>= _
        rw [shown_bind]
        refine congrArg _ (funext fun start => ?_)
        by_cases hbad : start ≠ session.blockStart ∨ packets ≠ session.blockPackets
        · have hbad' : start ≠ session.timeless.blockStart
              ∨ packets ≠ session.timeless.blockPackets := hbad
          rw [if_pos hbad, if_pos hbad']
          show Except.ok (_, (r.setSession index _).timeless) = _
          rw [timeless_setSession]
          rfl
        · have hbad' : ¬ (start ≠ session.timeless.blockStart
              ∨ packets ≠ session.timeless.blockPackets) := hbad
          rw [if_neg hbad, if_neg hbad']
          show Except.ok (_, (r.setSession index _).timeless) = _
          rw [timeless_setSession]
          rfl
  | abort reason pgn =>
    unfold onEtpCm
    dsimp only
    rw [slotOf_timeless]
    cases r.slotOf source with
    | none => rfl
    | some index =>
      dsimp only
      rw [session_timeless]
      have hany : ((r.slots index).session.map Session.timeless).any (fun s => s.pgn == pgn)
          = (r.slots index).session.any fun s => s.pgn == pgn := by
        cases (r.slots index).session <;> rfl
      rw [hany]
      split
      · show Except.ok (_, (r.setSession index _).timeless) = _
        rw [timeless_setSession]
        rfl
      · rfl
  | cts | eoma => rfl

/-- Ending a call with a session written back. -/
theorem shown_write (rx : Rx) (r : Reassembler N SESSIONS) (index : Fin SESSIONS)
    (session : Option Session) :
    shown (return (rx, r.setSession index session))
      = return (rx, r.timeless.setSession index (session.map Session.timeless)) := by
  show Except.ok (rx, (r.setSession index session).timeless) = _
  rw [timeless_setSession]
  rfl

/-- Data transfer does not read the idle times. -/
theorem shown_onEtpDt (r : Reassembler N SESSIONS) (source : Address) (dt : EtpDt) :
    shown (r.onEtpDt source dt) = r.timeless.onEtpDt source dt := by
  unfold onEtpDt
  rw [slotOf_timeless]
  cases r.slotOf source with
  | none => rfl
  | some index =>
    dsimp only
    rw [session_timeless]
    cases (r.slots index).session with
    | none => rfl
    | some session =>
      have hoffset : session.timeless.offset = session.offset := rfl
      dsimp only [Option.map_some]
      rw [hoffset]
      cases session.offset with
      | none => exact shown_write ..
      | some offset =>
        dsimp only
        have hnext : session.timeless.nextSequence = session.nextSequence := rfl
        rw [hnext]
        split
        · exact shown_write ..
        rw [shown_bind]
        refine congrArg _ (funext fun absolute => ?_)
        rw [shown_bind]
        refine congrArg _ (funext fun before => ?_)
        have hsize : session.timeless.size = session.size := rfl
        rw [hsize]
        split
        · exact shown_write ..
        rw [shown_bind]
        refine congrArg _ (funext fun length => ?_)
        rw [shown_bind]
        refine congrArg _ (funext fun piece => ?_)
        rw [shown_bind]
        refine congrArg _ (funext fun buffer => ?_)
        have hbuffer := timeless_setBuffer r index buffer
        rw [← hbuffer]
        have hpackets : session.timeless.packets = session.packets := rfl
        have hblock : session.timeless.blockPackets = session.blockPackets := rfl
        have hstart : session.timeless.blockStart = session.blockStart := rfl
        rw [hpackets, hblock, hstart]
        split
        · rw [shown_bind]
          refine congrArg _ (funext fun data => ?_)
          exact shown_write ..
        split
        · rw [shown_bind]
          refine congrArg _ (funext fun nextStart => ?_)
          rw [shown_bind]
          refine congrArg _ (funext fun left => ?_)
          rw [shown_bind]
          refine congrArg _ (funext fun remaining => ?_)
          exact shown_write ..
        · rw [shown_bind]
          refine congrArg _ (funext fun nextSequence => ?_)
          exact shown_write ..

/-- Calls that show the same return the same, and leave reassemblers that
hold the same. -/
theorem alike_of_shown {x y : Exec (Rx × Reassembler N SESSIONS)} {rx : Rx}
    (h : shown x = shown y) (hx : x = .ok (rx, r)) : ∃ r', y = .ok (rx, r') ∧ r.Alike r' := by
  rw [hx] at h
  cases y with
  | error p => cases h
  | ok y =>
    obtain ⟨rx', r'⟩ := y
    injection h with h
    injection h with hrx hr
    have hout : rx' = rx := hrx.symm
    exact ⟨r', by rw [hout], hr⟩

variable {rx : Rx} {r₁ : Reassembler N SESSIONS}

/-- **Reassemblers that hold the same answer connection management
alike.** -/
theorem onEtpCm_alike (h : r.Alike r') {cm : EtpCm} (hok : r.onEtpCm source cm = .ok (rx, r₁)) :
    ∃ r₁', r'.onEtpCm source cm = .ok (rx, r₁') ∧ r₁.Alike r₁' := by
  refine alike_of_shown ?_ hok
  rw [shown_onEtpCm, shown_onEtpCm, h]

/-- **Reassemblers that hold the same answer data transfer alike.** -/
theorem onEtpDt_alike (h : r.Alike r') {dt : EtpDt} (hok : r.onEtpDt source dt = .ok (rx, r₁)) :
    ∃ r₁', r'.onEtpDt source dt = .ok (rx, r₁') ∧ r₁.Alike r₁' := by
  refine alike_of_shown ?_ hok
  rw [shown_onEtpDt, shown_onEtpDt, h]

end Reassembler

/-! ## §3. Frames that matter. -/

/-- Connection management that opens a transfer, goes on with it, or ends
it. -/
def Transfer.HeedsCm (N : Nat) (room : Bool) (t : Option Transfer) : EtpCm → Prop
  | .rts size _ =>
      minMessageSize ≤ size ∧ size ≤ maxMessageSize ∧ size ≤ N ∧ t = none ∧ room = true
  | .dpo packets offset _ =>
      -- not one that has been accepted and comes again before any data
      ∃ s received, t = some ⟨s, received⟩
        ∧ ¬ (offset + 1 = s.blockStart ∧ packets = s.blockPackets ∧ s.offset = some offset
          ∧ s.nextSequence = 1)
  | .abort _ pgn => ∃ s received, t = some ⟨s, received⟩ ∧ s.pgn = pgn
  | .cts .. | .eoma .. => False

/-- It changes more than an idle time. -/
theorem Transfer.onCm_moves {room : Bool} {source : Address} {t : Option Transfer} {cm : EtpCm}
    (h : HeedsCm N room t cm) :
    (onCm N room source t cm).2.map timeless ≠ t.map timeless := by
  cases cm with
  | rts size pgn =>
    obtain ⟨hmin, hmax, hfits, rfl, rfl⟩ := h
    unfold onCm
    dsimp only
    rw [if_neg (by omega), if_neg (by omega)]
    exact Option.some_ne_none _
  | dpo packets offset pgn =>
    obtain ⟨s, received, rfl, hnew⟩ := h
    unfold onCm
    dsimp only
    split
    · exact (Option.some_ne_none _).symm
    next hmatch =>
      -- it matches the block, so it has not been accepted before
      push Not at hmatch
      intro hsame
      have hsession : Session.timeless { s with
          offset := some offset, nextSequence := 1, idleMs := 0 } = s.timeless :=
        congrArg Transfer.session (Option.some.inj hsame)
      have hoffset : some offset = s.offset := congrArg Session.offset hsession
      have hnext : 1 = s.nextSequence := congrArg Session.nextSequence hsession
      exact hnew ⟨hmatch.1, hmatch.2, hoffset.symm, hnext.symm⟩
  | abort reason pgn =>
    obtain ⟨s, received, rfl, rfl⟩ := h
    have hends : (onCm N room source (some ⟨s, received⟩) (.abort reason s.pgn)).2 = none := by
      unfold onCm
      simp only [Option.filter_some, bne_self_eq_false, Bool.false_eq_true, if_false]
    rw [hends]
    exact (Option.some_ne_none _).symm
  | cts | eoma => exact h.elim

/-- A data packet changes more than an idle time of any transfer. -/
theorem Transfer.onDt_moves {t : Transfer} (hwf : t.session.WF N) (dt : EtpDt) :
    (onDt (some t) dt).2.map timeless ≠ (some t).map timeless := by
  obtain ⟨s, received⟩ := t
  have hends : (none : Option Transfer).map timeless ≠ (some ⟨s, received⟩ : Option Transfer).map
      timeless := (Option.some_ne_none _).symm
  unfold onDt
  dsimp only
  cases s.offset with
  | none => exact hends
  | some offset =>
    dsimp only
    split
    · exact hends
    split
    · exact hends
    split
    · -- the next block starts later
      intro hsame
      have hstart : s.blockStart + s.blockPackets = s.blockStart :=
        congrArg (fun t : Transfer => t.session.blockStart) (Option.some.inj hsame)
      have hpos : 1 ≤ s.blockPackets := hwf.block_pos
      omega
    · intro hsame
      have hnext : s.nextSequence + 1 = s.nextSequence :=
        congrArg (fun t : Transfer => t.session.nextSequence) (Option.some.inj hsame)
      omega

namespace Reassembler

variable {r r' : Reassembler N SESSIONS} {source : Address} {rx : Rx}

theorem Alike.transferOf (h : r.Alike r') (peer : Address) :
    (r.transferOf peer).map Transfer.timeless = (r'.transferOf peer).map Transfer.timeless := by
  rw [← transferOf_timeless, ← transferOf_timeless, h]

/-- A call that leaves the reassembler as it is. -/
theorem alike_of_ok {rx' : Rx} (h : (.ok (rx', r) : Exec (Rx × Reassembler N SESSIONS))
    = .ok (rx, r')) : r'.Alike r := by
  injection h with h
  injection h with _ hr
  rw [← hr]
  rfl

/-- Writing a session back with another idle time. -/
theorem alike_setSession {index : Fin SESSIONS} {s s' : Session}
    (hs : (r.slots index).session = some s) (h : s'.timeless = s.timeless) :
    (r.setSession index (some s')).Alike r := by
  unfold Alike
  rw [timeless_setSession, Option.map_some, h, ← Option.map_some, ← hs]
  exact congrArg Reassembler.mk (Function.update_eq_self index r.timeless.slots)

/-- **Connection management changes only an idle time exactly if the
transfer does not heed it.** -/
theorem onEtpCm_inert_iff (hr : r.WF) {cm : EtpCm} (hok : r.onEtpCm source cm = .ok (rx, r')) :
    r'.Alike r ↔ ¬ Transfer.HeedsCm N r.room (r.transferOf source) cm := by
  constructor
  · intro halike hheeds
    rcases onEtpCm_refines hr source cm with ⟨r'', hok', hfocus⟩ | ⟨herror, -⟩
    · rw [hok] at hok'
      injection hok' with hok'
      injection hok' with _ hr''
      have hself := halike.transferOf source
      rw [hr'', hfocus.self] at hself
      exact Transfer.onCm_moves hheeds hself
    · rw [hok] at herror
      cases herror
  · intro hheeds
    cases cm with
    | rts size pgn =>
      unfold onEtpCm at hok
      dsimp only at hok
      split at hok
      · exact alike_of_ok hok
      split at hok
      · exact alike_of_ok hok
      rcases r.slotOf_cases source with ⟨hslot, hnone, -⟩ | ⟨i, s, hslot, -⟩
      · rw [hslot, Option.isSome_none, if_neg Bool.false_ne_true] at hok
        cases hfree : r.freeSlot with
        | none =>
          rw [hfree] at hok
          exact alike_of_ok hok
        | some i =>
          have hroom : r.room = true := by rw [room, hfree, Option.isSome_some]
          exact absurd ⟨by omega, by omega, by omega, hnone, hroom⟩ hheeds
      · rw [hslot, Option.isSome_some, if_pos rfl] at hok
        exact alike_of_ok hok
    | dpo packets offset pgn =>
      unfold onEtpCm at hok
      dsimp only at hok
      rcases r.slotOf_cases source with ⟨hslot, -⟩ | ⟨i, s, hslot, hs, -, -, ht⟩
      · rw [hslot] at hok
        exact alike_of_ok hok
      simp only [hslot, hs, bind_eq_ok] at hok
      obtain ⟨start, hstart, hok⟩ := hok
      have hoffset : start = offset + 1 := by
        unfold addU at hstart
        split at hstart
        · injection hstart with h
          exact h.symm
        · cases hstart
      rw [hoffset] at hok
      by_cases hrepeat : offset + 1 = s.blockStart ∧ packets = s.blockPackets
          ∧ s.offset = some offset ∧ s.nextSequence = 1
      · obtain ⟨hblock, hpackets, hdeclared, hnext⟩ := hrepeat
        rw [if_neg (by omega)] at hok
        injection hok with hok
        injection hok with _ hr'
        rw [← hr']
        refine alike_setSession hs ?_
        rw [← hdeclared, ← hnext]
        rfl
      · exact absurd ⟨s, _, ht, hrepeat⟩ hheeds
    | abort reason pgn =>
      unfold onEtpCm at hok
      dsimp only at hok
      rcases r.slotOf_cases source with ⟨hslot, -⟩ | ⟨i, s, hslot, hs, -, -, ht⟩
      · rw [hslot] at hok
        exact alike_of_ok hok
      simp only [hslot, hs, Option.any_some, beq_iff_eq] at hok
      by_cases hpgn : s.pgn = pgn
      · exact absurd ⟨s, _, ht, hpgn⟩ hheeds
      · rw [if_neg hpgn] at hok
        exact alike_of_ok hok
    | cts packets nextPacket pgn => exact alike_of_ok hok
    | eoma size pgn => exact alike_of_ok hok

/-- **A data packet changes only an idle time exactly if its peer has no
transfer.** -/
theorem onEtpDt_inert_iff (hr : r.WF) {dt : EtpDt} (hok : r.onEtpDt source dt = .ok (rx, r')) :
    r'.Alike r ↔ r.transferOf source = none := by
  constructor
  · intro halike
    obtain ⟨r'', hok', hfocus⟩ := onEtpDt_refines hr source dt
    rw [hok] at hok'
    injection hok' with hok'
    injection hok' with _ hr''
    have hself := halike.transferOf source
    rw [hr'', hfocus.self] at hself
    cases ht : r.transferOf source with
    | none => rfl
    | some t =>
      rw [ht] at hself
      exact absurd hself (Transfer.onDt_moves (hr.session_of_transferOf ht).1 dt)
  · intro hnone
    rcases r.slotOf_cases source with ⟨hslot, -⟩ | ⟨i, s, -, -, -, -, ht⟩
    · unfold onEtpDt at hok
      rw [hslot] at hok
      injection hok with hok
      injection hok with _ h
      exact h ▸ rfl
    · rw [hnone] at ht
      cases ht

/-! ## §4. Time. -/

/-- A session has made no progress for longer than `timeoutMs` when
`elapsedMs` more have passed. -/
def Stalls (r : Reassembler N SESSIONS) (elapsedMs timeoutMs : Nat) : Prop :=
  ∃ i s, (r.slots i).session = some s ∧ timeoutMs < s.idleMs + elapsedMs

/-- **A tick changes only idle times exactly if no session has stalled.** -/
theorem tick_inert_iff {elapsedMs timeoutMs : Nat} (hcap : timeoutMs < 2 ^ 16 - 1) :
    (r.tick elapsedMs timeoutMs).2.Alike r ↔ ¬ r.Stalls elapsedMs timeoutMs := by
  constructor
  · rintro halike ⟨i, s, hs, hlate⟩
    have hslot : (r.timeless.slots i).session
        = ((r.tick elapsedMs timeoutMs).2.timeless.slots i).session := by rw [halike]
    have hgone : ((r.tick elapsedMs timeoutMs).2.slots i).session = none := by
      show (tickSlot elapsedMs timeoutMs (r.slots i)).2.session = none
      unfold tickSlot
      rw [hs]
      dsimp only
      rw [if_neg]
      unfold saturatingAdd
      omega
    rw [session_timeless, session_timeless, hs, hgone] at hslot
    cases hslot
  · intro hlively
    refine congrArg Reassembler.mk (funext fun i => ?_)
    show (tickSlot elapsedMs timeoutMs (r.slots i)).2.timeless = (r.slots i).timeless
    unfold tickSlot
    cases hs : (r.slots i).session with
    | none => rfl
    | some s =>
      have hidle : ¬ timeoutMs < s.idleMs + elapsedMs := fun h => hlively ⟨i, s, hs, h⟩
      have hsaturated : saturatingAdd 16 s.idleMs elapsedMs ≤ timeoutMs := by
        unfold saturatingAdd
        omega
      dsimp only
      rw [if_pos hsaturated]
      unfold Slot.timeless
      rw [hs]
      rfl

end Reassembler

end SaeJ1939.Etp
