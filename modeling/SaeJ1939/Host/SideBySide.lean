/-
  SaeJ1939.Host.SideBySide — a replay and an ECU that get the same frames.

  Both reassemble extended transfers.  The ECU looks at the address of a
  frame first, and lets time pass for its sessions; the replay does
  neither.

  Main results:
    * `feed_cases`, `dispatch_cases` — what one frame does to either.
    * `round_agrees_iff` — when one frame, and the time before it, leaves
      them with the same messages and the same transfers.
    * `side_by_side_iff` — the same of whole captures.
    * `foreign_transfer_delivered` — a replay delivers a transfer between
      two other ECUs.
-/
import SaeJ1939.Etp.Timeless
import SaeJ1939.Host.Clocks

namespace SaeJ1939.Host

open AddressClaim Checked Diagnostics Fallible
open Etp (EtpCm EtpDt Transfer)
open Etp.Reassembler (Alike)

namespace Ecu

variable {β α : Type} {BUF SESSIONS : Nat} {w w' w'' : Watched β BUF SESSIONS}

/-! ## §1. One frame, fed to a replay. -/

/-- Reassemblers that hold the same answer a frame alike. -/
theorem Reassembles.alike {f : Frame} {r r' r₁ : Etp.Reassembler etpBuffer 2} {outcome : Etp.Rx}
    (h : Reassembles f r outcome r₁) (halike : r.Alike r') :
    ∃ r₁', Reassembles f r' outcome r₁' ∧ r₁.Alike r₁' := by
  rcases h with ⟨hcm, cm, hdecode, hcall⟩ | ⟨hdt, hcall⟩
  · obtain ⟨r₁', hcall', halike'⟩ := Etp.Reassembler.onEtpCm_alike halike hcall
    exact ⟨r₁', Or.inl ⟨hcm, cm, hdecode, hcall'⟩, halike'⟩
  · obtain ⟨r₁', hcall', halike'⟩ := Etp.Reassembler.onEtpDt_alike halike hcall
    exact ⟨r₁', Or.inr ⟨hdt, hcall'⟩, halike'⟩

/-- A frame that a replay's transfers take note of. -/
def Heeds (r : Etp.Reassembler etpBuffer 2) (f : Frame) : Prop :=
  (f.pgn = .etpCm ∧ ∃ cm, EtpCm.decode f.payload = .ok cm
      ∧ Transfer.HeedsCm etpBuffer r.room (r.transferOf f.sourceAddress) cm)
    ∨ f.pgn = .etpDt ∧ r.transferOf f.sourceAddress ≠ none

/-- **A frame changes only an idle time exactly if it is not heeded**; it
completes no message then. -/
theorem inert_iff {f : Frame} {r r' : Etp.Reassembler etpBuffer 2} {outcome : Etp.Rx}
    (hr : r.WF) (h : Reassembles f r outcome r') :
    (Replay.messageOf outcome = none ∧ r'.Alike r) ↔ ¬ Heeds r f := by
  have hne : Pgn.etpDt ≠ Pgn.etpCm := by decide
  rcases h with ⟨hcm, cm, hdecode, hcall⟩ | ⟨hdt, hcall⟩
  · have hnone : Replay.messageOf outcome = none := by
      rcases Etp.Reassembler.onEtpCm_refines hr f.sourceAddress cm with ⟨_, hok, -⟩ | ⟨herror, -⟩
      · rw [hcall] at hok
        injection hok with hok
        injection hok with hout _
        cases outcome with
        | idle | send => rfl
        | message pgn source data ack => exact absurd hout.symm etp_onCm_ne_message
      · rw [hcall] at herror
        cases herror
    have hheeds : Heeds r f
        ↔ Transfer.HeedsCm etpBuffer r.room (r.transferOf f.sourceAddress) cm := by
      constructor
      · rintro (⟨-, cm', hdecode', hheeds⟩ | ⟨hdt, -⟩)
        · rw [hdecode] at hdecode'
          injection hdecode' with hcm'
          rw [hcm']
          exact hheeds
        · exact absurd (hdt.symm.trans hcm) hne
      · exact fun hheeds => Or.inl ⟨hcm, cm, hdecode, hheeds⟩
    rw [hheeds, ← Etp.Reassembler.onEtpCm_inert_iff hr hcall]
    exact ⟨fun h => h.2, fun h => ⟨hnone, h⟩⟩
  · have hheeds : Heeds r f ↔ r.transferOf f.sourceAddress ≠ none := by
      constructor
      · rintro (⟨hcm, -⟩ | ⟨-, hheeds⟩)
        · exact absurd (hdt.symm.trans hcm) hne
        · exact hheeds
      · exact fun hheeds => Or.inr ⟨hdt, hheeds⟩
    rw [hheeds, not_not, ← Etp.Reassembler.onEtpDt_inert_iff hr hcall]
    refine ⟨fun h => h.2, fun halike => ⟨?_, halike⟩⟩
    -- without a transfer there is nothing to complete
    have hnone := (Etp.Reassembler.onEtpDt_inert_iff hr hcall).mp halike
    obtain ⟨_, hok, -⟩ :=
      Etp.Reassembler.onEtpDt_refines hr f.sourceAddress (EtpDt.decode f.payload)
    rw [hcall, hnone] at hok
    injection hok with hok
    injection hok with hout _
    rw [hout]
    rfl

/-- A frame of the extended protocol that makes no sense. -/
def Garbled (f : Frame) : Prop := f.pgn = .etpCm ∧ ∃ e, EtpCm.decode f.payload = .error e

theorem not_heeds_of_garbled {f : Frame} (h : Garbled f) (r : Etp.Reassembler etpBuffer 2) :
    ¬ Heeds r f := by
  obtain ⟨hcm, e, hdecode⟩ := h
  have hne : Pgn.etpCm ≠ Pgn.etpDt := by decide
  rintro (⟨-, cm, hdecode', -⟩ | ⟨hdt, -⟩)
  · rw [hdecode] at hdecode'
    cases hdecode'
  · exact hne (hcm.symm.trans hdt)

/-- The replay once the time before an entry has passed and its claim, if
it is one, has been recorded. -/
theorem etp_before (r : Replay) (entry : Entry) :
    ((r.advance entry).recordClaim entry.frame).etp = r.etp := by
  have hadvance : (r.advance entry).etp = r.etp := by
    unfold Replay.advance
    cases r.ticked entry <;> rfl
  rw [← hadvance]
  unfold Replay.recordClaim
  split <;> rfl

/-- **What a frame does to a replay's extended transfers.** -/
theorem feed_cases {r r' : Replay} {entry : Entry} {out : Option Message}
    (h : r.feed entry = .ok (out, r')) :
    ¬ IsExtended entry.frame ∧ r'.etp = r.etp
      ∨ Garbled entry.frame ∧ out = none ∧ r'.etp = r.etp
      ∨ ∃ outcome, Reassembles entry.frame r.etp outcome r'.etp
        ∧ out = Replay.messageOf outcome := by
  have hetp := etp_before r entry
  unfold Replay.feed at h
  dsimp only at h
  split at h
  next hext =>
    unfold Replay.feedEtp at h
    split at h
    next hcm =>
      cases hdecode : EtpCm.decode entry.frame.payload with
      | error e =>
        rw [hdecode] at h
        injection h with h
        injection h with hout hr'
        exact Or.inr (Or.inl ⟨⟨hcm, e, hdecode⟩, hout.symm, by rw [← hr', hetp]⟩)
      | ok cm =>
        simp only [hdecode, bind_eq_ok, Prod.exists, pure_eq_ok, Except.ok.injEq,
          Prod.mk.injEq] at h
        obtain ⟨outcome, etp, hcall, hout, hr'⟩ := h
        rw [hetp] at hcall
        refine Or.inr (Or.inr ⟨outcome, Or.inl ⟨hcm, cm, hdecode, ?_⟩, hout.symm⟩)
        rw [← hr']
        exact hcall
    next hcm =>
      simp only [bind_eq_ok, Prod.exists, pure_eq_ok, Except.ok.injEq, Prod.mk.injEq] at h
      obtain ⟨outcome, etp, hcall, hout, hr'⟩ := h
      rw [hetp] at hcall
      refine Or.inr (Or.inr ⟨outcome, Or.inr ⟨hext.resolve_left hcm, ?_⟩, hout.symm⟩)
      rw [← hr']
      exact hcall
  next hext =>
    refine Or.inl ⟨hext, ?_⟩
    unfold Replay.feedNode at h
    simp only [bind_eq_ok, Prod.exists, pure_eq_ok] at h
    obtain ⟨event, n, -, h⟩ := h
    cases event <;> (injection h with h; injection h with _ hr'; rw [← hr', ← hetp])

/-! ## §2. One frame, dispatched by an ECU. -/

/-- The extended transfers are the same before and after. -/
def KeepsEtp (w w' : Watched β BUF SESSIONS) : Prop := w'.etp = w.etp

instance : IsPreorder (Watched β BUF SESSIONS) KeepsEtp where
  refl _ := rfl
  trans _ _ _ h h' := Eq.trans h' h

theorem Sends.keepsEtp {P : Option Address → Frame → Prop} (h : Sends P w w') : KeepsEtp w w' := by
  unfold KeepsEtp
  rw [h.same]

theorem keepsEtp_recordClaim (f : Frame) :
    Moves KeepsEtp (recordClaim f : Prog β BUF SESSIONS Unit) := by
  intro w
  obtain ⟨hrun, hsame⟩ := recordClaim_run f w
  rw [hrun, after_ok]
  unfold KeepsEtp
  rw [hsame]

theorem keepsEtp_onNode (f : Node BUF SESSIONS → Exec (α × Node BUF SESSIONS)) :
    Moves KeepsEtp (onNode f : Prog β BUF SESSIONS α) := by
  intro w
  unfold onNode
  cases f w.node with
  | ok x => exact refl_of KeepsEtp w
  | error p => exact (sends_fail (P := fun _ _ => True) _ w).keepsEtp

variable [Bus β]

theorem keepsEtp_sendFrame (f : Frame) : Moves KeepsEtp (sendFrame f : Prog β BUF SESSIONS Unit) :=
  fun _ => (sends_frame (P := fun _ _ => True) trivial).keepsEtp

theorem keepsEtp_actOnEvent (event : Event) :
    Moves KeepsEtp (actOnEvent event : Prog β BUF SESSIONS (Option Message)) := by
  cases event with
  | idle => exact Moves.pure _
  | transmit reply => exact (keepsEtp_sendFrame reply).bind fun _ => Moves.pure _
  | message pgn source data reply =>
    have hcomplete : Moves KeepsEtp (complete ⟨pgn, source, data⟩ : Prog β BUF SESSIONS Unit) :=
      fun w => refl_of KeepsEtp w
    refine hcomplete.bind fun _ => ?_
    refine (Moves.forM fun f _ => keepsEtp_sendFrame f).bind fun _ => ?_
    refine ((obeys_commandedAddress _).weaken fun _ _ h => h.etp).bind fun _ => ?_
    refine ((obeys_dm13 _).weaken fun _ _ h => h.etp).bind fun _ => ?_
    refine ((obeys_request _).weaken fun _ _ h => h.etp).bind fun _ => ?_
    exact Moves.pure _

theorem keepsEtp_actOnEtp (source : Address) (outcome : Etp.Rx) :
    Moves KeepsEtp (actOnEtp source outcome : Prog β BUF SESSIONS (Option Message)) := by
  have hcomplete : ∀ m, Moves KeepsEtp (complete m : Prog β BUF SESSIONS Unit) :=
    fun m w => refl_of KeepsEtp w
  refine (Moves.forM fun m _ => hcomplete m).bind fun _ => ?_
  refine (Moves.forM fun cm _ => (sends_etpCm source cm).weaken fun _ _ h => h.keepsEtp).bind
    fun _ => ?_
  exact Moves.pure _

/-- Acting on an outcome returns its message. -/
theorem returns_actOnEtp (source : Address) (outcome : Etp.Rx) :
    Returns (fun out => out = Replay.messageOf outcome)
      (actOnEtp source outcome : Prog β BUF SESSIONS (Option Message)) :=
  Returns.bind fun _ => Returns.bind fun _ => Returns.pure rfl

/-- A frame of another protocol. -/
theorem keepsEtp_dispatch {f : Frame} (hext : ¬ IsExtended f) :
    Moves KeepsEtp (dispatch f : Prog β BUF SESSIONS (Option Message)) := by
  refine (keepsEtp_recordClaim f).bind fun _ => ?_
  have hgroup : f.pgn ≠ .etpCm ∧ f.pgn ≠ .etpDt :=
    ⟨fun h => hext (Or.inl h), fun h => hext (Or.inr h)⟩
  have hetp : Moves KeepsEtp (dispatchEtp f : Prog β BUF SESSIONS (Option (Option Message))) := by
    unfold dispatchEtp
    rw [if_pos hgroup]
    exact Moves.pure _
  refine hetp.bind fun message => ?_
  cases message with
  | some message => exact Moves.pure _
  | none => exact (keepsEtp_onNode _).bind keepsEtp_actOnEvent

/-- **What a frame does to an ECU's extended transfers.** -/
theorem dispatch_cases {f : Frame} {out : Option Message} (hrun : dispatch f w = .ok out w') :
    (¬ IsExtended f → w'.etp = w.etp)
      ∧ (IsExtended f → f.id.isAddressedTo w.node.address = false ∨ Garbled f →
        out = none ∧ w'.etp = w.etp)
      ∧ ∀ outcome r, f.id.isAddressedTo w.node.address = true → Reassembles f w.etp outcome r →
        out = Replay.messageOf outcome ∧ w'.etp = r := by
  refine ⟨fun hext => ?_, fun hext hignores => ?_, fun outcome r haddr hr => ?_⟩
  · have hkeeps := keepsEtp_dispatch hext w
    rw [hrun] at hkeeps
    exact hkeeps
  · rw [dispatch_ignored hext hignores] at hrun
    injection hrun with hout hw'
    exact ⟨hout.symm, by rw [hw']⟩
  · rw [dispatch_reassembles haddr hr] at hrun
    have hkeeps := keepsEtp_actOnEtp f.sourceAddress outcome { w with etp := r }
    rw [hrun] at hkeeps
    exact ⟨returns_actOnEtp f.sourceAddress outcome _ out w' hrun, hkeeps⟩

/-! ## §3. Time. -/

/-- The extended transfers are the same before and after, unless a frame
comes in between. -/
def Stands (w w' : Watched β BUF SESSIONS) : Prop :=
  ∃ done, w'.log = w.log ++ done
    ∧ ((∀ f n, Happening.received f n ∉ done) → w'.etp = w.etp)

omit [Bus β] in
theorem Stands.trans (h : Stands w w') (h' : Stands w' w'') : Stands w w'' := by
  obtain ⟨done, hlog, hetp⟩ := h
  obtain ⟨done', hlog', hetp'⟩ := h'
  refine ⟨done ++ done', by rw [hlog', hlog, List.append_assoc], fun hquiet => ?_⟩
  have hleft := hetp fun f n hf => hquiet f n (List.mem_append_left _ hf)
  have hright := hetp' fun f n hf => hquiet f n (List.mem_append_right _ hf)
  exact hright.trans hleft

instance : IsPreorder (Watched β BUF SESSIONS) Stands where
  refl _ := ⟨[], (List.append_nil _).symm, fun _ => rfl⟩
  trans _ _ _ := Stands.trans

omit [Bus β] in
theorem Sends.stands {P : Option Address → Frame → Prop} (h : Sends P w w') : Stands w w' := by
  obtain ⟨done, hlog, -⟩ := h.log
  exact ⟨done, hlog, fun _ => h.keepsEtp⟩

omit [Bus β] in
theorem Undisturbed.stands (h : Undisturbed w w') : Stands w w' := by
  obtain ⟨done, hlog, halike⟩ := h
  exact ⟨done, hlog, fun hquiet => (halike hquiet).etp⟩

theorem stands_report (e : Nat) : Moves Stands (report e : Prog β BUF SESSIONS Unit) := by
  refine Moves.get.bind fun w => ?_
  split
  · have htick : Moves Stands (tickFaults e : Prog β BUF SESSIONS Bool) :=
      fun w => ⟨_, rfl, fun _ => rfl⟩
    refine htick.bind fun due => ?_
    split
    · exact fun w => (sends_dm1 w).stands
    · exact Moves.pure _
  · exact Moves.pure _

theorem stands_publish (fuel e : Nat) :
    Moves Stands (publish fuel e : Prog β BUF SESSIONS Unit) := by
  refine Moves.get.bind fun w => ?_
  split
  · have htick : Moves Stands (tickSchedule e : Prog β BUF SESSIONS Unit) :=
      fun w => ⟨_, rfl, fun _ => rfl⟩
    exact htick.bind fun _ => (undisturbed_sendDue fuel _).weaken fun _ _ h => h.stands
  · exact Moves.pure _

/-- **A tick that returns has let the time pass for the extended
sessions**, if no frame has come in meanwhile. -/
theorem etp_of_pass {fuel e : Nat} (hrun : pass fuel e w = .ok () w')
    (hquiet : ∀ f n, Happening.received f n ∉ happened w w') :
    w'.etp = (w.etp.tick e Tp.t3TimeoutMs).2 := by
  rw [pass_run] at hrun
  obtain ⟨u, w₁, hframes, hrest⟩ := of_bind_ok hrun
  have hfirst : Stands (nodeTicked w e) w₁ := by
    have hsend : Moves Stands ((w.node.tick e).1.forM sendFrame : Prog β BUF SESSIONS Unit) :=
      Moves.forM fun f _ _ => (sends_frame (P := fun _ _ => True) trivial).stands
    have hmoves := hsend (nodeTicked w e)
    rw [hframes] at hmoves
    exact hmoves
  have hsecond : Stands (etpTicked w₁ e) w' := by
    have haborts : Moves Stands ((w₁.etp.tick e Tp.t3TimeoutMs).1.forM fun x =>
        sendEtpCm x.1 x.2 : Prog β BUF SESSIONS Unit) :=
      Moves.forM fun x _ => (sends_etpCm x.1 x.2).weaken fun _ _ h => h.stands
    have hmoves := (haborts.bind fun _ => (stands_report e).bind fun _ => stands_publish fuel e)
      (etpTicked w₁ e)
    rw [afterNode_run] at hrest
    rw [hrest] at hmoves
    exact hmoves
  obtain ⟨done₁, hlog₁, hetp₁⟩ := hfirst
  obtain ⟨done₂, hlog₂, hetp₂⟩ := hsecond
  have hlog : w'.log = w.log ++ (.passed .node e :: done₁ ++ .passed .etp e :: done₂) := by
    rw [hlog₂]
    show (w₁.log ++ [.passed .etp e]) ++ done₂ = _
    rw [hlog₁]
    show ((w.log ++ [.passed .node e]) ++ done₁ ++ [.passed .etp e]) ++ done₂ = _
    simp only [List.append_assoc, List.cons_append, List.nil_append]
  rw [happened_eq hlog] at hquiet
  have h₁ := hetp₁ fun f n hf =>
    hquiet f n (List.mem_append_left _ (List.mem_cons_of_mem _ hf))
  have h₂ := hetp₂ fun f n hf =>
    hquiet f n (List.mem_append_right _ (List.mem_cons_of_mem _ hf))
  have h₃ : w₁.etp = w.etp := h₁
  rw [h₂, ← h₃]
  rfl

/-! ## §4. Rounds. -/

/-- A replay and an ECU that are given the same frames. -/
structure Pair (β : Type) (BUF SESSIONS : Nat) where
  replay : Replay
  ecu : Watched β BUF SESSIONS

/-- An entry of a capture, given to both. -/
structure Round (β : Type) (BUF SESSIONS : Nat) where
  before : Pair β BUF SESSIONS
  entry : Entry
  /-- The ECU once the time before the frame has passed. -/
  waited : Watched β BUF SESSIONS
  replayed : Option Message
  received : Option Message
  after : Pair β BUF SESSIONS

/-- Let `elapsedMs` pass, as a tick that takes them off the clock does. -/
def wait (fuel elapsedMs : Nat) : Prog β BUF SESSIONS Unit :=
  if elapsedMs = 0 then return else pass fuel elapsedMs

/-- The milliseconds that the replay lets pass before the frame: none
before the first one. -/
def Round.elapsedMs (x : Round β BUF SESSIONS) : Nat :=
  (x.before.replay.ticked x.entry).getD 0

/-- **Both are fed the entry**, and every call returns.  The ECU lets the
same time pass after the frame before this one, and gets no other frame. -/
structure Round.Fed (fuel : Nat) (x : Round β BUF SESSIONS) : Prop where
  replayed : x.before.replay.feed x.entry = .ok (x.replayed, x.after.replay)
  waited : wait fuel x.elapsedMs x.before.ecu = .ok () x.waited
  alone : ∀ f n, Happening.received f n ∉ happened x.before.ecu x.waited
  received : dispatch x.entry.frame x.waited = .ok x.received x.after.ecu

/-- **They should agree**: the time that passes ends the same extended
transfers in both, and so does the frame, which delivers the same
message if it is of an extended transfer. -/
structure Round.Agrees (x : Round β BUF SESSIONS) : Prop where
  waited : x.before.replay.etp.Alike x.waited.etp
  message : IsExtended x.entry.frame → x.replayed = x.received
  after : x.after.replay.etp.Alike x.after.ecu.etp

/-- No session of the ECU stalls before the frame, and the frame is not of
a transfer of another ECU that the replay takes note of. -/
structure Round.Ordinary (x : Round β BUF SESSIONS) : Prop where
  lively : 0 < x.elapsedMs → ¬ x.before.ecu.etp.Stalls x.elapsedMs Tp.t3TimeoutMs
  ours : x.entry.frame.id.isAddressedTo x.waited.node.address = false →
    ¬ Heeds x.before.replay.etp x.entry.frame

variable {x : Round β BUF SESSIONS} {fuel : Nat}

/-- Time passes alike exactly if no session stalls. -/
theorem waited_alike_iff (h : x.Fed fuel) (halike : x.before.replay.etp.Alike x.before.ecu.etp) :
    x.before.replay.etp.Alike x.waited.etp
      ↔ (0 < x.elapsedMs → ¬ x.before.ecu.etp.Stalls x.elapsedMs Tp.t3TimeoutMs) := by
  have hrun := h.waited
  unfold wait at hrun
  by_cases hzero : x.elapsedMs = 0
  · rw [if_pos hzero] at hrun
    injection hrun with _ hsame
    rw [← hsame]
    exact iff_of_true halike fun hpos => absurd hzero (Nat.pos_iff_ne_zero.mp hpos)
  · rw [if_neg hzero] at hrun
    rw [etp_of_pass hrun h.alone]
    have hinert : (x.before.ecu.etp.tick x.elapsedMs Tp.t3TimeoutMs).2.Alike x.before.ecu.etp
        ↔ ¬ x.before.ecu.etp.Stalls x.elapsedMs Tp.t3TimeoutMs :=
      Etp.Reassembler.tick_inert_iff (by decide)
    constructor
    · exact fun hwaited _ => hinert.mp (hwaited.symm.trans halike)
    · exact fun hlively => halike.trans (hinert.mpr (hlively (Nat.pos_of_ne_zero hzero))).symm

/-- The frame leaves them alike, with the same message, exactly if the
replay heeds no frame that the ECU ignores. -/
theorem frame_alike_iff (h : x.Fed fuel) (hwf : x.before.replay.WF)
    (halike : x.before.replay.etp.Alike x.waited.etp) :
    ((IsExtended x.entry.frame → x.replayed = x.received)
        ∧ x.after.replay.etp.Alike x.after.ecu.etp)
      ↔ (x.entry.frame.id.isAddressedTo x.waited.node.address = false →
        ¬ Heeds x.before.replay.etp x.entry.frame) := by
  obtain ⟨hother, hignored, hreassembled⟩ := dispatch_cases h.received
  rcases feed_cases h.replayed with ⟨hext, hsame⟩ | ⟨hgarbled, hout, hsame⟩ | ⟨outcome, hr, hout⟩
  · -- a frame of another protocol
    rw [hsame, hother hext]
    refine iff_of_true ⟨fun hext' => absurd hext' hext, halike⟩ fun _ hheeds => hext ?_
    exact hheeds.imp (fun h => h.1) fun h => h.1
  · -- one that both fail to decode
    obtain ⟨hnone, hkept⟩ := hignored (Or.inl hgarbled.1) (Or.inr hgarbled)
    rw [hsame, hkept, hout, hnone]
    exact iff_of_true ⟨fun _ => rfl, halike⟩ fun _ => not_heeds_of_garbled hgarbled _
  · have hext : IsExtended x.entry.frame := hr.imp (fun h => h.1) fun h => h.1
    cases haddr : x.entry.frame.id.isAddressedTo x.waited.node.address with
    | true =>
      -- both take it
      obtain ⟨r, hr', halike'⟩ := hr.alike halike
      obtain ⟨hout', hafter⟩ := hreassembled outcome r haddr hr'
      rw [hout, hout', hafter]
      exact iff_of_true ⟨fun _ => rfl, halike'⟩ fun hfalse => absurd hfalse (by decide)
    | false =>
      -- only the replay does
      obtain ⟨hnone, hkept⟩ := hignored hext (Or.inl haddr)
      have hinert := inert_iff hwf.etp hr
      rw [hout, hnone, hkept]
      constructor
      · intro hagree _
        exact hinert.mp ⟨hagree.1 hext, hagree.2.trans halike.symm⟩
      · intro hforeign
        obtain ⟨hmessage, halike'⟩ := hinert.mpr (hforeign rfl)
        exact ⟨fun _ => hmessage, halike'.trans halike⟩

/-- **One round**: they agree on it exactly if it is ordinary. -/
theorem round_agrees_iff (h : x.Fed fuel) (hwf : x.before.replay.WF)
    (halike : x.before.replay.etp.Alike x.before.ecu.etp) : x.Agrees ↔ x.Ordinary := by
  have hwaited := waited_alike_iff h halike
  constructor
  · intro hagrees
    exact ⟨hwaited.mp hagrees.waited,
      (frame_alike_iff h hwf hagrees.waited).mp ⟨hagrees.message, hagrees.after⟩⟩
  · intro hordinary
    have hsame := hwaited.mpr hordinary.lively
    obtain ⟨hmessage, hafter⟩ := (frame_alike_iff h hwf hsame).mpr hordinary.ours
    exact ⟨hsame, hmessage, hafter⟩

/-! ## §5. Captures. -/

/-- A capture, fed to both entry by entry. -/
inductive Run (fuel : Nat) : Pair β BUF SESSIONS → List (Round β BUF SESSIONS) →
    Pair β BUF SESSIONS → Prop where
  | done (p : Pair β BUF SESSIONS) : Run fuel p [] p
  | round {x : Round β BUF SESSIONS} {xs : List (Round β BUF SESSIONS)} {q : Pair β BUF SESSIONS}
      (h : x.Fed fuel) (hrest : Run fuel x.after xs q) : Run fuel x.before (x :: xs) q

/-- An ECU with this NAME that has claimed this address, and receives no
extended message yet. -/
structure Claimed (name : Name) (address : Address) (w : Watched β BUF SESSIONS) : Prop where
  name : w.node.claimer.name = name
  held : held w.node = some address
  etp : w.etp = Etp.Reassembler.new

theorem agrees_iff_from {p q : Pair β BUF SESSIONS} {xs : List (Round β BUF SESSIONS)}
    (hrun : Run fuel p xs q) (hwf : p.replay.WF) (halike : p.replay.etp.Alike p.ecu.etp) :
    (∀ x ∈ xs, x.Agrees) ↔ ∀ x ∈ xs, x.Ordinary := by
  induction hrun with
  | done p => exact iff_of_true (fun _ h => (nomatch h)) fun _ h => (nomatch h)
  | round h hrest ih =>
    have hround := round_agrees_iff h hwf halike
    obtain ⟨_, _, hfeed, hwf', -⟩ := hwf.feed _
    rw [h.replayed] at hfeed
    injection hfeed with hfeed
    injection hfeed with _ hafter
    rw [← hafter] at hwf'
    rw [List.forall_mem_cons, List.forall_mem_cons, hround]
    -- the rest starts from where this round leaves them
    refine and_congr_right fun hordinary => ih hwf' ?_
    exact (hround.mpr hordinary).after

/-- **A replay and an ECU agree on a capture exactly if no session stalls
and the replay heeds no frame for another ECU.** -/
theorem side_by_side_iff {name : Name} {address : Address} (hw : Claimed name address w)
    {xs : List (Round β BUF SESSIONS)} {q : Pair β BUF SESSIONS}
    (hrun : Run fuel ⟨Replay.new name address, w⟩ xs q) :
    (∀ x ∈ xs, x.Agrees) ↔ ∀ x ∈ xs, x.Ordinary := by
  refine agrees_iff_from hrun (Replay.wf_new name address) ?_
  show Alike _ w.etp
  rw [hw.etp]
  rfl

/-- Whether a program returns. -/
def isOk : EStateM.Result Failure (Watched β BUF SESSIONS) α → Bool
  | .ok _ _ => true
  | .error _ _ => false

omit [Bus β] in
theorem of_isOk {x : Prog β BUF SESSIONS α} (h : isOk (x w) = true) :
    ∃ a, x w = .ok a (after (x w)) := by
  cases hx : x w with
  | ok a w' => exact ⟨a, rfl⟩
  | error e w' =>
    rw [hx] at h
    cases h

/-- An ECU whose claim has gone uncontested, on a bus that takes every
frame. -/
def uncontested : Watched FakeBus 64 2 :=
  let ecu : Ecu FakeBus 64 2 := Ecu.new ⟨[], [], 0, 0⟩ ⟨1⟩ (Address.ofNat 0x80)
  ⟨{ ecu with node := (ecu.node.start.2.tick addressClaimWindowMs).2 }, []⟩

theorem claimed_uncontested : Claimed ⟨1⟩ (Address.ofNat 0x80) uncontested :=
  ⟨by decide +kernel, by decide +kernel, rfl⟩

/-- An RTS for 10000 bytes, addressed to this ECU. -/
def rtsHere : Frame :=
  Frame.fromPayload ⟨0x1CC88021, by decide⟩ (EtpCm.rts 10000 (Pgn.newMasked 0xEF00)).encode

/-- The offset of its first block. -/
def dpoHere : Frame :=
  Frame.fromPayload ⟨0x1CC88021, by decide⟩ (EtpCm.dpo 255 0 (Pgn.newMasked 0xEF00)).encode

/-- A transfer to this ECU, whose offset follows a second after its
request. -/
theorem side_by_side_iff_two_frames :
    ∃ xs q, Run 1 ⟨Replay.new ⟨1⟩ (Address.ofNat 0x80), uncontested⟩ xs q
      ∧ xs.map Round.entry = [⟨0, rtsHere⟩, ⟨1000000, dpoHere⟩] ∧ ∀ x ∈ xs, x.Agrees := by
  obtain ⟨out₁, hdispatch₁⟩ := of_isOk (x := dispatch rtsHere) (w := uncontested)
    (by decide +kernel)
  obtain ⟨u, hwait⟩ := of_isOk (x := wait 1 1000) (w := after (dispatch rtsHere uncontested))
    (by decide +kernel)
  let waited := after (wait 1 1000 (after (dispatch rtsHere uncontested)))
  have haddr₁ : rtsHere.id.isAddressedTo uncontested.node.address = true := by decide +kernel
  have haddr₂ : dpoHere.id.isAddressedTo
      (after (wait 1 1000 (after (dispatch rtsHere uncontested)))).node.address = true := by
    decide +kernel
  have htime : (happened (after (dispatch rtsHere uncontested))
      (after (wait 1 1000 (after (dispatch rtsHere uncontested))))).all isTime = true := by
    decide +kernel
  obtain ⟨out₂, hdispatch₂⟩ := of_isOk (x := dispatch dpoHere) (w := waited) (by decide +kernel)
  obtain ⟨replayed₁, r₁, hfeed₁, hr₁, hprevious⟩ :=
    (Replay.wf_new ⟨1⟩ (Address.ofNat 0x80)).feed ⟨0, rtsHere⟩
  obtain ⟨replayed₂, r₂, hfeed₂, -, -⟩ := hr₁.feed ⟨1000000, dpoHere⟩
  let x₁ : Round FakeBus 64 2 := ⟨⟨Replay.new ⟨1⟩ (Address.ofNat 0x80), uncontested⟩, ⟨0, rtsHere⟩,
    uncontested, replayed₁, out₁, ⟨r₁, after (dispatch rtsHere uncontested)⟩⟩
  let x₂ : Round FakeBus 64 2 := ⟨x₁.after, ⟨1000000, dpoHere⟩, waited, replayed₂, out₂,
    ⟨r₂, after (dispatch dpoHere waited)⟩⟩
  have helapsed : x₂.elapsedMs = 1000 := by
    show (r₁.ticked ⟨1000000, dpoHere⟩).getD 0 = 1000
    unfold Replay.ticked
    rw [hprevious]
    decide
  have hfed₁ : x₁.Fed 1 := by
    refine ⟨hfeed₁, rfl, fun f n hf => ?_, hdispatch₁⟩
    rw [happened_eq (List.append_nil uncontested.log).symm] at hf
    cases hf
  have hfed₂ : x₂.Fed 1 := by
    refine ⟨hfeed₂, ?_, fun f n hf => ?_, hdispatch₂⟩
    · rw [helapsed]
      exact hwait
    · -- nothing but ticks is logged
      exact absurd (List.all_eq_true.mp htime _ hf) Bool.false_ne_true
  have hlast : Run 1 x₁.after [x₂] x₂.after := Run.round (x := x₂) hfed₂ (Run.done x₂.after)
  have hrun : Run 1 x₁.before [x₁, x₂] x₂.after :=
    Run.round hfed₁ hlast
  refine ⟨[x₁, x₂], x₂.after, hrun, rfl, (side_by_side_iff claimed_uncontested hrun).mpr ?_⟩
  have hlively : ∀ i : Fin 2, ((after (dispatch rtsHere uncontested)).etp.slots i).session.all
      (fun s => s.idleMs + 1000 ≤ Tp.t3TimeoutMs) = true := by decide +kernel
  rw [List.forall_mem_cons, List.forall_mem_singleton]
  constructor
  · exact ⟨fun hpos => absurd hpos (Nat.lt_irrefl 0), fun h => absurd (haddr₁.symm.trans h)
      (by decide)⟩
  · refine ⟨fun _ => ?_, fun h => absurd (haddr₂.symm.trans h) (by decide)⟩
    rw [helapsed]
    rintro ⟨i, s, hs, hlate⟩
    have hidle := hlively i
    have hs' : ((after (dispatch rtsHere uncontested)).etp.slots i).session = some s := hs
    rw [hs', Option.all_some, decide_eq_true_eq] at hidle
    omega

/-! ## §6. A transfer between two other ECUs. -/

/-- Whether a frame announces an extended transfer. -/
def isRts (f : Frame) : Bool :=
  f.pgn = .etpCm && match EtpCm.decode f.payload with
    | .ok (.rts ..) => true
    | _ => false

/-- What a frame does to the transfer of its peer, in a table with or
without room for another. -/
def heard (room : Bool) (t : Option Transfer) (f : Frame) : Option Message × Option Transfer :=
  if f.pgn = .etpCm then
    match EtpCm.decode f.payload with
    | .ok cm =>
        let (outcome, t) := Transfer.onCm etpBuffer room f.sourceAddress t cm
        (Replay.messageOf outcome, t)
    | .error _ => (none, t)
  else
    let (outcome, t) := Transfer.onDt t (EtpDt.decode f.payload)
    (Replay.messageOf outcome, t)

/-- The messages that frames of one peer complete. -/
def heardAll : Option Transfer → List Frame → List (Option Message)
  | _, [] => []
  | t, f :: fs => (heard true t f).1 :: heardAll (heard true t f).2 fs

/-- Room matters to an announcement only. -/
theorem heard_room {f : Frame} (h : isRts f = false) (room room' : Bool) (t : Option Transfer) :
    heard room t f = heard room' t f := by
  unfold heard
  split
  next hcm =>
    unfold isRts at h
    rw [decide_eq_true hcm, Bool.true_and] at h
    cases hdecode : EtpCm.decode f.payload with
    | error e => rfl
    | ok cm =>
      rw [hdecode] at h
      cases cm with
      | rts size pgn => cases h
      | cts | dpo | eoma | abort => rfl
  next => rfl

/-- A replay hears what the peer's transfer does. -/
theorem feed_heard {r : Replay} (hr : r.WF) {entry : Entry} (hext : IsExtended entry.frame) :
    ∃ r', r.feed entry = .ok ((heard r.etp.room
          (r.etp.transferOf entry.frame.sourceAddress) entry.frame).1, r')
      ∧ r'.etp.transferOf entry.frame.sourceAddress
        = (heard r.etp.room (r.etp.transferOf entry.frame.sourceAddress) entry.frame).2
      ∧ r'.WF ∧ r'.previous = some entry.timestamp := by
  obtain ⟨out, r', hfeed, hr', hprevious⟩ := hr.feed entry
  rw [hfeed]
  have hne : Pgn.etpDt ≠ Pgn.etpCm := by decide
  unfold heard
  rcases feed_cases hfeed with ⟨hnot, -⟩ | ⟨⟨hcm, e, hdecode⟩, rfl, hsame⟩ | ⟨outcome, hr₁, rfl⟩
  · exact absurd hext hnot
  · rw [if_pos hcm, hdecode, ← hsame]
    exact ⟨r', rfl, rfl, hr', hprevious⟩
  · rcases hr₁ with ⟨hcm, cm, hdecode, hcall⟩ | ⟨hdt, hcall⟩
    · rw [if_pos hcm, hdecode]
      rcases Etp.Reassembler.onEtpCm_refines hr.etp entry.frame.sourceAddress cm with
        ⟨r'', hok, hfocus⟩ | ⟨herror, -⟩
      · have hboth := hcall.symm.trans hok
        injection hboth with hboth
        injection hboth with hout hetp
        subst hetp
        exact ⟨r', by rw [hout]; rfl, hfocus.self, hr', hprevious⟩
      · cases hcall.symm.trans herror
    · rw [if_neg (by rw [hdt]; exact hne)]
      obtain ⟨r'', hok, hfocus⟩ := Etp.Reassembler.onEtpDt_refines hr.etp entry.frame.sourceAddress
        (EtpDt.decode entry.frame.payload)
      have hboth := hcall.symm.trans hok
      injection hboth with hboth
      injection hboth with hout hetp
      subst hetp
      exact ⟨r', by rw [hout], hfocus.self, hr', hprevious⟩

/-- The frame goes between other ECUs, from this peer. -/
structure Foreign (peer : Address) (w : Watched β BUF SESSIONS) (f : Frame) : Prop where
  extended : IsExtended f
  source : f.sourceAddress = peer
  elsewhere : f.id.isAddressedTo w.node.address = false

/-- **Frames between other ECUs** that come all at once: the ECU ignores
them, and the replay hears what the transfer does.  Only the first may be
an announcement. -/
theorem run_foreign {peer : Address} {time fuel : Nat} {r : Replay} {frames : List Frame}
    (hr : r.WF) (hprevious : r.previous = none ∨ r.previous = some time)
    (hforeign : ∀ f ∈ frames, Foreign peer w f) (htail : ∀ f ∈ frames.tail, isRts f = false)
    (hroom : r.etp.room = true ∨ ∀ f ∈ frames, isRts f = false) :
    ∃ xs q, Run fuel ⟨r, w⟩ xs q
      ∧ xs.map Round.entry = frames.map (Entry.mk time)
      ∧ xs.map Round.replayed = heardAll (r.etp.transferOf peer) frames
      ∧ ∀ x ∈ xs, x.received = none := by
  induction frames generalizing r with
  | nil => exact ⟨[], _, Run.done _, rfl, rfl, fun _ h => (nomatch h)⟩
  | cons f frames ih =>
    obtain ⟨hhead, hothers⟩ := List.forall_mem_cons.mp hforeign
    have hext : IsExtended (⟨time, f⟩ : Entry).frame := hhead.extended
    obtain ⟨r', hfeed, hafter, hr', hprevious'⟩ := feed_heard hr hext
    have hquiet : ∀ g ∈ frames, isRts g = false := htail
    obtain ⟨xs, q, hrun, hentries, hreplayed, hreceived⟩ := ih hr' (Or.inr hprevious') hothers
      (fun g hg => hquiet g (List.mem_of_mem_tail hg)) (Or.inr hquiet)
    have hheard : heard r.etp.room (r.etp.transferOf f.sourceAddress) f
        = heard true (r.etp.transferOf peer) f := by
      rw [hhead.source]
      rcases hroom with hroom | hroom
      · rw [hroom]
      · exact heard_room (hroom f List.mem_cons_self) _ _ _
    let x : Round β BUF SESSIONS := ⟨⟨r, w⟩, ⟨time, f⟩, w,
      (heard r.etp.room (r.etp.transferOf f.sourceAddress) f).1, none, ⟨r', w⟩⟩
    have helapsed : x.elapsedMs = 0 := by
      show (r.previous.map fun previous => Replay.elapsedMs previous time).getD 0 = 0
      rcases hprevious with hnone | hsome
      · rw [hnone]
        rfl
      · rw [hsome, Option.map_some, Option.getD_some]
        unfold Replay.elapsedMs
        omega
    have hfed : x.Fed fuel := by
      refine ⟨hfeed, ?_, fun g n hg => ?_, dispatch_ignored hhead.extended (Or.inl hhead.elsewhere)⟩
      · rw [helapsed]
        rfl
      · rw [happened_eq (List.append_nil w.log).symm] at hg
        cases hg
    refine ⟨x :: xs, q, Run.round hfed hrun, ?_, ?_, List.forall_mem_cons.mpr ⟨rfl, hreceived⟩⟩
    · rw [List.map_cons, List.map_cons, hentries]
    · have hsource : f.sourceAddress = peer := hhead.source
      rw [List.map_cons, hreplayed]
      show (heard r.etp.room (r.etp.transferOf f.sourceAddress) f).1 :: _ = _ :: _
      have hafter' : r'.etp.transferOf peer = (heard true (r.etp.transferOf peer) f).2 := by
        rw [← hheard, ← hsource]
        exact hafter
      rw [hheard, hafter']

/-- The ECU at `0x21` sends one at `0x90` a message of 1786 bytes. -/
def foreignFrames : List Frame :=
  let cm := fun cm : EtpCm => Frame.fromPayload ⟨0x1CC89021, by decide⟩ cm.encode
  let dt := fun sequence : Nat => Frame.fromPayload ⟨0x1CC79021, by decide⟩
    (EtpDt.new sequence [1, 1, 1, 1, 1, 1, 1]).encode
  let group := Pgn.newMasked 0xEF00
  cm (.rts 1786 group) :: cm (.dpo 255 0 group) :: (List.range' 1 255).map dt
    ++ [cm (.dpo 1 255 group), dt 1]

/-- **A replay delivers a transfer between two other ECUs**, which an ECU
ignores. -/
theorem foreign_transfer_delivered : Claimed ⟨1⟩ (Address.ofNat 0x80) uncontested
    ∧ ∃ xs q, Run 1 ⟨Replay.new ⟨1⟩ (Address.ofNat 0x80), uncontested⟩ xs q
      ∧ xs.map Round.entry = foreignFrames.map (Entry.mk 0)
      ∧ (∃ m, some m ∈ xs.map Round.replayed ∧ m.source = Address.ofNat 0x21)
      ∧ ∀ x ∈ xs, x.received = none := by
  have hforeign : foreignFrames.all (fun f => decide (IsExtended f)
      && f.sourceAddress == Address.ofNat 0x21
      && !f.id.isAddressedTo uncontested.node.address) = true := by decide +kernel
  have htail : foreignFrames.tail.all (fun f => !isRts f) = true := by decide +kernel
  have hheard : (heardAll none foreignFrames).any
      (fun out => out.any fun m => m.source == Address.ofNat 0x21) = true := by decide +kernel
  have hframes : ∀ f ∈ foreignFrames, Foreign (Address.ofNat 0x21) uncontested f := by
    intro f hf
    have hf := List.all_eq_true.mp hforeign f hf
    rw [Bool.and_eq_true, Bool.and_eq_true, decide_eq_true_eq, beq_iff_eq, Bool.not_eq_true'] at hf
    exact ⟨hf.1.1, hf.1.2, hf.2⟩
  have hlater : ∀ f ∈ foreignFrames.tail, isRts f = false := by
    intro f hf
    have hf := List.all_eq_true.mp htail f hf
    rw [Bool.not_eq_true'] at hf
    exact hf
  have hr := Replay.wf_new ⟨1⟩ (Address.ofNat 0x80)
  have hroom : (Replay.new ⟨1⟩ (Address.ofNat 0x80)).etp.room = true := by decide +kernel
  obtain ⟨xs, q, hrun, hentries, hreplayed, hreceived⟩ :=
    run_foreign hr (Or.inl rfl) hframes hlater (Or.inl hroom)
  have hnone : (Replay.new ⟨1⟩ (Address.ofNat 0x80)).etp.transferOf (Address.ofNat 0x21) = none :=
    Etp.Reassembler.transferOf_new _
  refine ⟨claimed_uncontested, xs, q, hrun, hentries, ?_, hreceived⟩
  obtain ⟨out, hout, hany⟩ := List.any_eq_true.mp hheard
  obtain ⟨m, rfl, hsource⟩ := (Option.any_eq_true _ _).mp hany
  rw [hreplayed, hnone]
  exact ⟨m, hout, beq_iff_eq.mp hsource⟩

end Ecu

end SaeJ1939.Host
