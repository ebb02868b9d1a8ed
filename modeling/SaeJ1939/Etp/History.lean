/-
  SaeJ1939.Etp.History — where the bytes of an extended message come from.

  A run of a reassembler is a list of entries: each call, its reply, and
  the states around it.  For one peer the entries that matter are the RTS
  that opened its session and the data packets accepted since.  A sender
  may declare the offset of a block again and send its packets anew, so a
  packet may be accepted more than once: the last one counts.

  Main results:
    * `step_cases`, `step_refines` — every call that returns, as every call
      on decoded messages does, does to each peer's transfer what the
      abstract transfer says.
    * `opened_or_kept` — one call opens a session exactly by accepting an
      RTS; any other call keeps its packets, drops the last few of them, or
      adds the next one.
    * `Recalled` — every packet an open transfer holds is the last one
      accepted under its number.
    * `receiver_is_safe` — the invariant of sessions, the absence of panics
      and the integrity of delivered messages, over every run.
-/
import SaeJ1939.Etp.Transfer

namespace SaeJ1939.Etp

open Checked Chunks

namespace Reassembler

variable {N SESSIONS : Nat}

/-! ## §1. Calls on decoded messages. -/

/-- The message of a call came off the wire. -/
def Call.Decoded : Call → Prop
  | .etpCm _ cm => ∃ payload, EtpCm.decode payload = .ok cm
  | .etpDt _ dt => ∃ payload, EtpDt.decode payload = dt
  | .tick .. | .abandon _ | .reset => True

/-- The offset of a decoded message has 24 bits. -/
theorem offset_lt_of_decode {payload : Payload} {packets offset : Nat} {pgn : Pgn}
    (h : EtpCm.decode payload = .ok (.dpo packets offset pgn)) : offset < 2 ^ 24 := by
  unfold EtpCm.decode at h
  dsimp only at h
  repeat' split at h
  all_goals cases h
  exact le24_lt _ _ _

end Reassembler

/-- What a call does to the transfer of `peer`. -/
def Transfer.onCall (N : Nat) (room : Bool) (peer : Address) (t : Option Transfer) :
    Reassembler.Call → Option Transfer
  | .etpCm source cm => if source = peer then (onCm N room peer t cm).2 else t
  | .etpDt source dt => if source = peer then (onDt t dt).2 else t
  | .tick elapsedMs timeoutMs => (onTick elapsedMs timeoutMs t).2
  | .abandon source => if source = peer then none else t
  | .reset => none

namespace Reassembler

variable {N SESSIONS : Nat} {r r' : Reassembler N SESSIONS} {c : Call} {reply : Reply}

/-- What a call that concerns one peer does to the transfers of all. -/
theorem Focused.transferOf {source : Address} {t : Option Transfer}
    (h : Focused r r' source t) (a : Address) :
    r'.transferOf a = if source = a then t else r.transferOf a := by
  split
  next he => exact he ▸ h.self
  next he => exact h.others a (Ne.symm he)

/-- **Every call that returns** keeps the invariant, and does to each
peer's transfer, and answers each peer, what the abstract transfer says;
only an offset that leaves 32 bits does not return. -/
theorem step_cases (hr : r.WF) (c : Call) :
    (∃ reply r', step r c = .ok (reply, r') ∧ r'.WF ∧ ∀ a,
        r'.transferOf a = Transfer.onCall N r.room a (r.transferOf a) c
          ∧ (∀ cm, c = .etpCm a cm → reply = .rx (Transfer.onCm N r.room a (r.transferOf a) cm).1)
          ∧ ∀ dt, c = .etpDt a dt → reply = .rx (Transfer.onDt (r.transferOf a) dt).1)
      ∨ step r c = .error .overflow ∧ ¬ c.Decoded := by
  cases c with
  | etpCm source cm =>
    rcases onEtpCm_refines hr source cm
      with ⟨r', hok, hfocus⟩ | ⟨hpanic, packets, offset, pgn, rfl, hwide⟩
    · refine Or.inl ⟨.rx (Transfer.onCm N r.room source (r.transferOf source) cm).1, r', ?_,
        hfocus.wf, fun a => ⟨?_, ?_, fun dt h => by cases h⟩⟩
      · simp only [step, hok, ok_bind, pure_eq_ok]
      · rw [hfocus.transferOf a, Transfer.onCall]
        split
        next he => rw [he]
        next => rfl
      · intro cm' h
        cases h
        rfl
    · -- an offset that leaves 32 bits does not come off the wire
      refine Or.inr ⟨by simp only [step, hpanic, error_bind], ?_⟩
      rintro ⟨payload, hpayload⟩
      have := offset_lt_of_decode hpayload
      omega
  | etpDt source dt =>
    obtain ⟨r', hok, hfocus⟩ := onEtpDt_refines hr source dt
    refine Or.inl ⟨.rx (Transfer.onDt (r.transferOf source) dt).1, r', ?_, hfocus.wf,
      fun a => ⟨?_, fun cm h => (by cases h), ?_⟩⟩
    · simp only [step, hok, ok_bind, pure_eq_ok]
    · rw [hfocus.transferOf a, Transfer.onCall]
      split
      next he => rw [he]
      next => rfl
    · intro dt' h
      cases h
      rfl
  | tick elapsedMs timeoutMs =>
    obtain ⟨hwf, hall⟩ := tick_refines hr elapsedMs timeoutMs
    exact Or.inl ⟨_, _, rfl, hwf,
      fun a => ⟨(hall a).1, fun cm h => (by cases h), fun dt h => by cases h⟩⟩
  | abandon source =>
    have hfocus := (abandon_refines hr source).2
    refine Or.inl ⟨_, _, rfl, hfocus.wf,
      fun a => ⟨?_, fun cm h => (by cases h), fun dt h => by cases h⟩⟩
    exact hfocus.transferOf a
  | reset =>
    obtain ⟨hwf, hnone⟩ := reset_refines r
    exact Or.inl ⟨_, _, rfl, hwf,
      fun a => ⟨hnone a, fun cm h => (by cases h), fun dt h => by cases h⟩⟩

/-- `step_cases`, for decoded messages. -/
theorem step_refines (hr : r.WF) (hc : c.Decoded) :
    ∃ reply r', step r c = .ok (reply, r') ∧ r'.WF ∧ ∀ a,
      r'.transferOf a = Transfer.onCall N r.room a (r.transferOf a) c
        ∧ (∀ cm, c = .etpCm a cm → reply = .rx (Transfer.onCm N r.room a (r.transferOf a) cm).1)
        ∧ ∀ dt, c = .etpDt a dt → reply = .rx (Transfer.onDt (r.transferOf a) dt).1 :=
  (step_cases hr c).resolve_right fun h => h.2 hc

/-- `step_cases`, read off a call that returned. -/
theorem step_of_ok (hr : r.WF) (h : step r c = .ok (reply, r')) (a : Address) :
    r'.transferOf a = Transfer.onCall N r.room a (r.transferOf a) c
      ∧ (∀ cm, c = .etpCm a cm → reply = .rx (Transfer.onCm N r.room a (r.transferOf a) cm).1)
      ∧ ∀ dt, c = .etpDt a dt → reply = .rx (Transfer.onDt (r.transferOf a) dt).1 := by
  rcases step_cases hr c with ⟨reply', r'', hstep, -, hall⟩ | ⟨hpanic, -⟩
  · rw [h, Except.ok.injEq, Prod.mk.injEq] at hstep
    obtain ⟨rfl, rfl⟩ := hstep
    exact hall a
  · rw [h] at hpanic
    cases hpanic

/-! ## §2. Announcements and packets of one peer. -/

/-- One call of a run. -/
abbrev Entry (N SESSIONS : Nat) := Machine.Entry (Reassembler N SESSIONS) Call Reply

/-- Whether a call opened a session for `peer`: an RTS answered with a
CTS. -/
def opens (peer : Address) (e : Entry N SESSIONS) : Bool :=
  match e.event, e.out with
  | .etpCm source (.rts ..), .rx (.send (.cts ..)) => source = peer
  | _, _ => false

/-- The data packet of `peer` that a call made the reassembler accept, with
its absolute number: the one its session expects next, once the offset of
the block has been declared. -/
def accepted (peer : Address) (e : Entry N SESSIONS) : Option (Nat × EtpDt) :=
  match e.event, e.before.transferOf peer with
  | .etpDt source dt, some t =>
      if source = peer ∧ dt.sequence = t.session.nextSequence then
        t.session.offset.map fun offset => (offset + dt.sequence, dt)
      else none
  | _, _ => none

/-- `dt` is the last packet of `peer` accepted under the number `k`. -/
def LastAccepted (peer : Address) (es : List (Entry N SESSIONS)) (k : Nat) (dt : EtpDt) : Prop :=
  ∃ before e after, es = before ++ e :: after ∧ accepted peer e = some (k, dt)
    ∧ ∀ x ∈ after, ∀ dt', accepted peer x ≠ some (k, dt')

variable {peer : Address} {es : List (Entry N SESSIONS)} {e : Entry N SESSIONS} {k : Nat}
  {dt : EtpDt}

/-- A packet just accepted is the last one of its number. -/
theorem LastAccepted.self (h : accepted peer e = some (k, dt)) :
    LastAccepted peer (es ++ [e]) k dt :=
  ⟨es, e, [], rfl, h, fun x hx => by cases hx⟩

/-- A call that accepts no packet of a number leaves the last one. -/
theorem LastAccepted.snoc (h : LastAccepted peer es k dt)
    (he : ∀ dt', accepted peer e ≠ some (k, dt')) : LastAccepted peer (es ++ [e]) k dt := by
  obtain ⟨before, x, after, rfl, hx, hafter⟩ := h
  refine ⟨before, x, after ++ [e], by simp, hx, ?_⟩
  intro y hy
  rcases List.mem_append.mp hy with hy | hy
  · exact hafter y hy
  · rw [List.mem_singleton.mp hy]
    exact he

/-! ## §3. What one call does to one transfer. -/

/-- Two states of the same transfer. -/
structure SameTransfer (s s' : Session) : Prop where
  source : s'.source = s.source
  pgn : s'.pgn = s.pgn
  size : s'.size = s.size

/-- Connection management opens a session by accepting an RTS; otherwise it
keeps the packets in, or drops the last of them, or ends the session. -/
theorem onCm_cases (N : Nat) (room : Bool) (peer : Address) {t : Option Transfer} (cm : EtpCm)
    (ht : ∀ x, t = some x → 1 ≤ x.session.blockStart) :
    (∃ size pgn window, cm = .rts size pgn
        ∧ Transfer.onCm N room peer t cm
          = (.send (.cts window 1 pgn), some (Transfer.start peer pgn size)))
      ∨ (∀ window next pgn, (Transfer.onCm N room peer t cm).1 ≠ .send (.cts window next pgn))
        ∧ ∀ t', (Transfer.onCm N room peer t cm).2 = some t' →
          ∃ t₀, t = some t₀ ∧ SameTransfer t₀.session t'.session
            ∧ t'.session.done ≤ t₀.session.done
            ∧ (t'.received = t₀.received ∧ t'.session.done = t₀.session.done
              ∨ t'.received = t₀.received.take (7 * t'.session.done)) := by
  have hsame : ∀ {t' : Transfer}, t = some t' → ∃ t₀, t = some t₀
      ∧ SameTransfer t₀.session t'.session ∧ t'.session.done ≤ t₀.session.done
      ∧ (t'.received = t₀.received ∧ t'.session.done = t₀.session.done
        ∨ t'.received = t₀.received.take (7 * t'.session.done)) :=
    fun h => ⟨_, h, ⟨rfl, rfl, rfl⟩, Nat.le_refl _, Or.inl ⟨rfl, rfl⟩⟩
  cases cm with
  | rts size pgn =>
    unfold Transfer.onCm
    dsimp only
    split
    next => exact Or.inr ⟨by simp, fun t' h => hsame h⟩
    next =>
      split
      next => exact Or.inr ⟨by simp, fun t' h => hsame h⟩
      next =>
        split
        next => exact Or.inr ⟨by simp, fun t' h => hsame h⟩
        next =>
          cases room with
          | true => exact Or.inl ⟨size, pgn, _, rfl, rfl⟩
          | false => exact Or.inr ⟨by simp, fun t' h => hsame h⟩
  | dpo packets offset pgn =>
    right
    cases t with
    | none => exact ⟨by simp [Transfer.onCm], fun t' h => by cases h⟩
    | some t₀ =>
      obtain ⟨s, received⟩ := t₀
      unfold Transfer.onCm
      dsimp only
      split
      next => exact ⟨by simp, fun t' h => by cases h⟩
      next =>
        refine ⟨by simp, fun t' h => ?_⟩
        injection h with h
        subst h
        -- the block starts over
        have hpos := ht _ rfl
        have hdone : Session.done { s with offset := some offset, nextSequence := 1, idleMs := 0 }
            = s.blockStart - 1 := by simp [Session.done]
        exact ⟨_, rfl, ⟨rfl, rfl, rfl⟩, hdone ▸ Nat.le_add_right _ _, Or.inr (by rw [hdone])⟩
  | abort reason pgn =>
    refine Or.inr ⟨by simp [Transfer.onCm], fun t' h => ?_⟩
    exact hsame (Option.filter_eq_some_iff.mp h).1
  | cts packets nextPacket pgn => exact Or.inr ⟨by simp [Transfer.onCm], fun t' h => hsame h⟩
  | eoma size pgn => exact Or.inr ⟨by simp [Transfer.onCm], fun t' h => hsame h⟩

/-- **What a data packet does to an open session.**  It ends it with an
abort unless it is the packet expected next in a block whose offset was
declared; that packet delivers the message if it is the last one, and is
kept if not. -/
theorem onDt_cases {s : Session} (hs : s.WF N) (received : List UInt8) (dt : EtpDt) :
    (∃ reason, Transfer.onDt (some ⟨s, received⟩) dt = (.send (.abort reason s.pgn), none))
      ∨ dt.sequence = s.nextSequence ∧ s.offset = some (s.blockStart - 1)
        ∧ (s.done + 1 = s.packets
            ∧ Transfer.onDt (some ⟨s, received⟩) dt = (.message s.pgn s.source
              ((received ++ dt.bytes).take s.size) (.eoma s.size s.pgn), none)
          ∨ ∃ rx s', Transfer.onDt (some ⟨s, received⟩) dt = (rx, some ⟨s', received ++ dt.bytes⟩)
            ∧ SameTransfer s s' ∧ s'.done = s.done + 1
            ∧ (rx = .idle ∨ ∃ window next, rx = .send (.cts window next s.pgn))) := by
  have hstart := hs.start_pos
  have hnext := hs.next_pos
  have hle := hs.next_le
  have hend := hs.block_end
  unfold Transfer.onDt
  dsimp only
  cases hoffset : s.offset with
  | none => exact Or.inl ⟨_, rfl⟩
  | some offset =>
    have hoff := hs.offset_of_some hoffset
    dsimp only
    by_cases hseq : dt.sequence = s.nextSequence
    · rw [if_neg (not_not_intro hseq)]
      refine Or.inr ⟨hseq, by rw [hoff], ?_⟩
      by_cases hlast : offset + dt.sequence ≥ s.packets
      · -- the last packet of the message
        rw [if_pos hlast]
        refine Or.inl ⟨?_, rfl⟩
        unfold Session.done
        omega
      · rw [if_neg hlast]
        right
        by_cases hfull : dt.sequence ≥ s.blockPackets
        · -- the last packet of its block
          rw [if_pos hfull]
          refine ⟨_, _, rfl, ⟨rfl, rfl, rfl⟩, ?_, Or.inr ⟨_, _, rfl⟩⟩
          show s.blockStart + s.blockPackets - 1 + (1 - 1)
            = s.blockStart - 1 + (s.nextSequence - 1) + 1
          omega
        · rw [if_neg hfull]
          refine ⟨_, _, rfl, ⟨rfl, rfl, rfl⟩, ?_, Or.inl rfl⟩
          show s.blockStart - 1 + (s.nextSequence + 1 - 1)
            = s.blockStart - 1 + (s.nextSequence - 1) + 1
          omega
    · rw [if_pos hseq]
      exact Or.inl ⟨_, rfl⟩

/-- A data packet that leaves a session open was the one expected next. -/
theorem onDt_some {s : Session} {received : List UInt8} {t' : Transfer} (hs : s.WF N)
    (h : (Transfer.onDt (some ⟨s, received⟩) dt).2 = some t') :
    dt.sequence = s.nextSequence ∧ s.offset = some (s.blockStart - 1)
      ∧ SameTransfer s t'.session ∧ t'.session.done = s.done + 1
      ∧ t'.received = received ++ dt.bytes := by
  rcases onDt_cases hs received dt with
    ⟨reason, heq⟩ | ⟨hseq, hoffset, ⟨-, heq⟩ | ⟨rx, s', heq, hsame, hdone, -⟩⟩
  · rw [heq] at h
    cases h
  · rw [heq] at h
    cases h
  · rw [heq] at h
    injection h with h
    subst h
    exact ⟨hseq, hoffset, hsame, hdone, rfl⟩

/-- A message is delivered by the last packet of a session. -/
theorem onDt_message {s : Session} {received : List UInt8} {pgn : Pgn} {source : Address}
    {data : List UInt8} {ack : EtpCm} (hs : s.WF N)
    (h : (Transfer.onDt (some ⟨s, received⟩) dt).1 = .message pgn source data ack) :
    dt.sequence = s.nextSequence ∧ s.offset = some (s.blockStart - 1)
      ∧ s.done + 1 = s.packets ∧ pgn = s.pgn ∧ source = s.source
      ∧ data = (received ++ dt.bytes).take s.size ∧ ack = .eoma s.size s.pgn := by
  rcases onDt_cases hs received dt with
    ⟨reason, heq⟩ | ⟨hseq, hoffset, ⟨hdone, heq⟩ | ⟨rx, s', heq, -, -, hrx⟩⟩
  · rw [heq] at h
    cases h
  · rw [heq] at h
    injection h with hpgn hsource hdata hack
    exact ⟨hseq, hoffset, hdone, hpgn.symm, hsource.symm, hdata.symm, hack.symm⟩
  · rw [heq] at h
    rcases hrx with rfl | ⟨window, next, rfl⟩ <;> cases h

/-- What is open after a call was open before it: it lost its last packets,
if any, or gained the next one. -/
def Kept (peer : Address) (e : Entry N SESSIONS) (t' : Transfer) : Prop :=
  ∃ t, e.before.transferOf peer = some t ∧ SameTransfer t.session t'.session
    ∧ (accepted peer e = none ∧ t'.session.done ≤ t.session.done
        ∧ t'.received = t.received.take (7 * t'.session.done)
      ∨ ∃ dt, accepted peer e = some (t.session.done + 1, dt)
        ∧ t'.session.done = t.session.done + 1
        ∧ t'.received = t.received ++ dt.bytes)

/-- A transfer whose session is the same, the clock apart, is kept. -/
theorem Kept.of_same (hr : e.before.WF) {t t' : Transfer}
    (ht : e.before.transferOf peer = some t) (hsame : SameTransfer t.session t'.session)
    (hdone : t'.session.done = t.session.done) (hreceived : t'.received = t.received)
    (hnone : accepted peer e = none) : Kept peer e t' := by
  have hlen := hr.received_length ht
  refine ⟨t, ht, hsame, Or.inl ⟨hnone, hdone.le, ?_⟩⟩
  rw [hreceived, hdone, List.take_of_length_le hlen.le]

/-- Another peer's connection management opens nothing. -/
theorem opens_of_ne {source : Address} {cm : EtpCm} (hsrc : source ≠ peer) :
    opens peer ⟨r, .etpCm source cm, reply, r'⟩ = false := by
  unfold opens
  split
  next heq _ =>
    injection heq with heq
    exact decide_eq_false (heq ▸ hsrc)
  next => rfl

/-- Another peer's data packet is not accepted. -/
theorem accepted_of_ne {source : Address} (hsrc : source ≠ peer) :
    accepted peer ⟨r, .etpDt source dt, reply, r'⟩ = none := by
  unfold accepted
  split
  next heq _ =>
    injection heq with heq
    exact if_neg fun h => hsrc (heq.trans h.1)
  next => rfl

/-- The packet expected next is accepted under the next number. -/
theorem accepted_next {t : Transfer} (hs : t.session.WF N) (ht : r.transferOf peer = some t)
    (hseq : dt.sequence = t.session.nextSequence)
    (hoffset : t.session.offset = some (t.session.blockStart - 1)) :
    accepted peer ⟨r, .etpDt peer dt, reply, r'⟩ = some (t.session.done + 1, dt) := by
  have hnext := hs.next_pos
  unfold accepted Session.done
  simp only [ht, hseq, hoffset, and_self, if_true, Option.map_some, Option.some.injEq,
    Prod.mk.injEq, and_true]
  omega

/-- Connection management of `peer` opens a session exactly by an RTS that
is answered with a CTS. -/
theorem opened_or_kept_etpCm (hr : r.WF) {cm : EtpCm}
    (hafter : r'.transferOf peer
      = (Transfer.onCm N r.room peer (r.transferOf peer) cm).2)
    (hreply : reply = .rx (Transfer.onCm N r.room peer (r.transferOf peer) cm).1) :
    (opens peer ⟨r, .etpCm peer cm, reply, r'⟩ = true ∧ ∃ size pgn, cm = .rts size pgn
        ∧ r'.transferOf peer = some (Transfer.start peer pgn size))
      ∨ opens peer ⟨r, .etpCm peer cm, reply, r'⟩ = false ∧ ∀ t', r'.transferOf peer = some t' →
        Kept peer ⟨r, .etpCm peer cm, reply, r'⟩ t' := by
  have hpos : ∀ x, r.transferOf peer = some x → 1 ≤ x.session.blockStart :=
    fun x hx => (hr.session_of_transferOf hx).1.start_pos
  rcases onCm_cases N r.room peer cm hpos with ⟨size, pgn, window, rfl, heq⟩ | ⟨hcts, hkeep⟩
  · -- the RTS was accepted
    rw [heq] at hafter hreply
    refine Or.inl ⟨?_, size, pgn, rfl, hafter⟩
    unfold opens
    rw [hreply]
    exact decide_eq_true rfl
  · -- it was not, or something else
    refine Or.inr ⟨?_, fun t' ht' => ?_⟩
    · unfold opens
      rw [hreply]
      split
      next h =>
        injection h with h
        exact absurd h (hcts _ _ _)
      next => rfl
    · rw [hafter] at ht'
      obtain ⟨t₀, ht₀, hsame, hle, ⟨hrec, hdone⟩ | hrec⟩ := hkeep t' ht'
      · exact Kept.of_same hr ht₀ hsame hdone hrec rfl
      · exact ⟨t₀, ht₀, hsame, Or.inl ⟨rfl, hle, hrec⟩⟩

/-- **One call opens a session of `peer` exactly by accepting its RTS;
otherwise what is open afterwards was open before.** -/
theorem opened_or_kept (hr : r.WF) (hstep : step r c = .ok (reply, r'))
    (peer : Address) :
    (opens peer ⟨r, c, reply, r'⟩ = true ∧ ∃ size pgn, c = .etpCm peer (.rts size pgn)
        ∧ r'.transferOf peer = some (Transfer.start peer pgn size))
      ∨ opens peer ⟨r, c, reply, r'⟩ = false ∧ ∀ t', r'.transferOf peer = some t' →
        Kept peer ⟨r, c, reply, r'⟩ t' := by
  obtain ⟨hafter, hcm, hdt⟩ := step_of_ok hr hstep peer
  have hsame : ∀ t' : Transfer, r'.transferOf peer = r.transferOf peer →
      r'.transferOf peer = some t' → accepted peer ⟨r, c, reply, r'⟩ = none →
      Kept peer ⟨r, c, reply, r'⟩ t' :=
    fun t' hkeep ht' => Kept.of_same hr (hkeep ▸ ht') ⟨rfl, rfl, rfl⟩ rfl rfl
  cases c with
  | etpCm source cm =>
    by_cases hsrc : source = peer
    · subst hsrc
      simp only [Transfer.onCall, if_true] at hafter
      rcases opened_or_kept_etpCm hr hafter (hcm cm rfl) with
        ⟨hopens, size, pgn, rfl, hstart⟩ | hkept
      · exact Or.inl ⟨hopens, size, pgn, rfl, hstart⟩
      · exact Or.inr hkept
    · simp only [Transfer.onCall, hsrc, if_false] at hafter
      exact Or.inr ⟨opens_of_ne hsrc, fun t' ht' => hsame t' hafter ht' rfl⟩
  | etpDt source dt =>
    refine Or.inr ⟨rfl, fun t' ht' => ?_⟩
    by_cases hsrc : source = peer
    · subst hsrc
      simp only [Transfer.onCall, if_true] at hafter
      rw [hafter] at ht'
      cases ht : r.transferOf source with
      | none =>
        rw [ht] at ht'
        cases ht'
      | some t =>
        have hs := (hr.session_of_transferOf ht).1
        rw [ht] at ht'
        obtain ⟨hseq, hoffset, hsame, hdone, hrec⟩ := onDt_some hs ht'
        exact ⟨t, ht, hsame, Or.inr ⟨dt, accepted_next hs ht hseq hoffset, hdone, hrec⟩⟩
    · simp only [Transfer.onCall, hsrc, if_false] at hafter
      exact hsame t' hafter ht' (accepted_of_ne hsrc)
  | tick elapsedMs timeoutMs =>
    refine Or.inr ⟨rfl, fun t' ht' => ?_⟩
    simp only [Transfer.onCall] at hafter
    rw [hafter] at ht'
    cases ht : r.transferOf peer with
    | none =>
      rw [ht] at ht'
      cases ht'
    | some t =>
      rw [ht] at ht'
      unfold Transfer.onTick at ht'
      dsimp only at ht'
      split at ht'
      next =>
        injection ht' with ht'
        subst ht'
        exact Kept.of_same hr ht ⟨rfl, rfl, rfl⟩ rfl rfl rfl
      next => cases ht'
  | abandon source =>
    refine Or.inr ⟨rfl, fun t' ht' => ?_⟩
    by_cases hsrc : source = peer
    · simp only [Transfer.onCall, hsrc, if_true] at hafter
      rw [hafter] at ht'
      cases ht'
    · simp only [Transfer.onCall, hsrc, if_false] at hafter
      exact hsame t' hafter ht' rfl
  | reset =>
    refine Or.inr ⟨rfl, fun t' ht' => ?_⟩
    simp only [Transfer.onCall] at hafter
    rw [hafter] at ht'
    cases ht'

/-! ## §4. What an open transfer remembers. -/

/-- The history of a peer behind its open transfer `t`: the RTS that opened
it, and for each packet it holds, the last one accepted under its number. -/
def Recalled (peer : Address) (tr : List (Entry N SESSIONS)) (t : Transfer) : Prop :=
  ∃ before a since, tr = before ++ a :: since ∧ opens peer a = true
    ∧ (∀ e ∈ since, opens peer e = false)
    ∧ a.event = .etpCm peer (.rts t.session.size t.session.pgn)
    ∧ ∀ k, 1 ≤ k → k ≤ t.session.done →
      ∃ dt, LastAccepted peer since k dt ∧ chunk 7 t.received (k - 1) = dt.bytes

/-- **Along every run, open transfers remember their history.** -/
theorem recalled {tr : List (Entry N SESSIONS)} (h : Machine.Trace step new tr r)
    (peer : Address) :
    r.WF ∧ ∀ t, r.transferOf peer = some t → Recalled peer tr t := by
  induction h with
  | nil => exact ⟨wf_new, fun t ht => by rw [transferOf_new] at ht; cases ht⟩
  | @snoc tr r r' c reply _ hstep ih =>
    obtain ⟨hr, hmem⟩ := ih
    refine ⟨hr.step hstep, fun t' ht' => ?_⟩
    rcases opened_or_kept hr hstep peer with ⟨hopen, size, pgn, rfl, hstart⟩ | ⟨hopen, hkept⟩
    · -- the history starts here
      rw [ht', Option.some.injEq] at hstart
      subst hstart
      refine ⟨tr, _, [], rfl, hopen, fun e he => (by cases he), rfl, fun k hk hdone => ?_⟩
      have hzero : Session.done (Transfer.start peer pgn size).session = 0 := rfl
      omega
    · -- the history grows by this call
      obtain ⟨t, ht, hsame, hpacket⟩ := hkept t' ht'
      obtain ⟨before, a, since, rfl, ha, hsince, hev, hlast⟩ := hmem t ht
      refine ⟨before, a, since ++ [⟨r, c, reply, r'⟩], by simp, ha, ?_, ?_, ?_⟩
      · intro e he
        rcases List.mem_append.mp he with he | he
        · exact hsince e he
        · rw [List.mem_singleton.mp he]
          exact hopen
      · rw [hsame.size, hsame.pgn]
        exact hev
      · intro k hk hdone
        have hlen := hr.received_length ht
        rcases hpacket with ⟨hnone, hle, hrec⟩ | ⟨dt, hsome, hnext, hrec⟩
        · -- the packets left are among those there were
          obtain ⟨dt, hdt, hbytes⟩ := hlast k hk (le_trans hdone hle)
          refine ⟨dt, hdt.snoc fun dt' => (by rw [hnone]; exact Option.some_ne_none _ |>.symm), ?_⟩
          rw [hrec, chunk_take, hbytes, List.take_of_length_le]
          rw [EtpDt.bytes_length]
          omega
        · by_cases hnew : k = t.session.done + 1
          · -- the packet just accepted
            subst hnew
            refine ⟨dt, .self hsome, ?_⟩
            rw [hrec, Nat.add_sub_cancel, chunk_append_right hlen,
              List.take_of_length_le (EtpDt.bytes_length dt).le]
          · obtain ⟨dt₀, hdt₀, hbytes⟩ := hlast k hk (by omega)
            refine ⟨dt₀, hdt₀.snoc fun dt' h => ?_, ?_⟩
            · rw [hsome, Option.some.injEq, Prod.mk.injEq] at h
              exact hnew h.1.symm
            · rw [hrec, chunk_append_left (by omega)]
              exact hbytes

/-! ## §5. Safety and integrity. -/

/-- **The receiver is safe.**  No run of calls on decoded messages panics;
every session it leads to is well formed; and a delivered message is made
of the packets accepted since the RTS that announced it: its bytes from
`7 (k - 1)` on are those of the last packet accepted under the number `k`. -/
theorem receiver_is_safe (calls : List Call) (hdecoded : ∀ c ∈ calls, c.Decoded) :
    ∃ tr, ∃ r : Reassembler N SESSIONS, Machine.run step new calls = .ok (tr, r)
      ∧ (∀ i s, (r.slots i).session = some s →
        s.size ≤ N ∧ s.packets = packetCount s.size
          ∧ 1 ≤ s.blockPackets ∧ s.blockPackets ≤ 255
          ∧ 1 ≤ s.blockStart ∧ s.blockStart + s.blockPackets - 1 ≤ s.packets
          ∧ 1 ≤ s.nextSequence ∧ s.nextSequence ≤ s.blockPackets
          ∧ (s.offset = none ∨ s.offset = some (s.blockStart - 1)))
      ∧ ∀ pre e post peer cdt pgn source data ack, tr = pre ++ e :: post →
        e.event = .etpDt peer cdt → e.out = .rx (.message pgn source data ack) →
        source = peer ∧ ack = .eoma data.length pgn
          ∧ ∃ before a since, pre = before ++ a :: since ∧ opens peer a = true
            ∧ (∀ x ∈ since, opens peer x = false)
            ∧ a.event = .etpCm peer (.rts data.length pgn)
            ∧ ∀ k, 1 ≤ k → k ≤ packetCount data.length →
              ∃ dt, LastAccepted peer (since ++ [e]) k dt
                ∧ (data.drop (7 * (k - 1))).take 7 = dt.bytes.take (data.length - 7 * (k - 1)) := by
  -- no call panics
  obtain ⟨tr, r, hrun, hwf⟩ : ∃ tr, ∃ r : Reassembler N SESSIONS,
      Machine.run step new calls = .ok (tr, r) ∧ r.WF := by
    refine Machine.run_ok_of (fun s c hs hc => ?_) calls wf_new hdecoded
    obtain ⟨reply, r', hstep, hr', -⟩ := step_refines hs hc
    exact ⟨reply, r', hstep, hr'⟩
  obtain ⟨htrace, -⟩ := Machine.run_trace hrun
  refine ⟨tr, r, hrun, fun i s hs => ?_, ?_⟩
  · have h : s.WF N := hwf.slots i s hs
    have hstart := h.start_pos
    have hend := h.block_end
    exact ⟨h.size_fits, h.packets_eq, h.block_pos, h.block_le, hstart, by omega, h.next_pos,
      h.next_le, h.offset_eq.imp And.left id⟩
  · rintro pre ⟨r₀, c, reply, r₁⟩ post peer dt pgn source data ack htr hcall hout
    simp only at hcall hout
    subst hcall hout htr
    obtain ⟨hpre, hstep⟩ := htrace.split
    obtain ⟨hr₀, hmem⟩ := recalled hpre peer
    have hreply := (step_of_ok hr₀ hstep peer).2.2 dt rfl
    injection hreply with hreply
    -- the transfer that was open before the call
    cases ht : r₀.transferOf peer with
    | none =>
      rw [ht] at hreply
      cases hreply
    | some t =>
      obtain ⟨hs, hsource⟩ := hr₀.session_of_transferOf ht
      have hlen := hr₀.received_length ht
      have hb := packetCount_bounds hs.size_ge hs.size_le
      have hp := hs.packets_eq
      have hnext := hs.next_pos
      rw [ht] at hreply
      obtain ⟨hseq, hoffset, hdone, rfl, rfl, hdata, rfl⟩ := onDt_message hs hreply.symm
      have hsize : data.length = t.session.size := by
        rw [hdata, List.length_take, List.length_append, hlen, EtpDt.bytes_length]
        omega
      obtain ⟨before, a, since, rfl, ha, hsince, hannounced, hlast⟩ := hmem t ht
      refine ⟨hsource, by rw [hsize], before, a, since, rfl, ha, hsince,
        by rw [hsize]; exact hannounced, fun k hk hle => ?_⟩
      have haccepted : accepted peer ⟨r₀, .etpDt peer dt,
          .rx (.message t.session.pgn t.session.source data
            (.eoma t.session.size t.session.pgn)), r₁⟩
          = some (t.session.done + 1, dt) :=
        accepted_next hs ht hseq hoffset
      rw [hsize, ← hp] at hle
      have hcut : ∀ k (dt' : EtpDt), chunk 7 (t.received ++ dt.bytes) (k - 1) = dt'.bytes →
          (data.drop (7 * (k - 1))).take 7 = dt'.bytes.take (data.length - 7 * (k - 1)) := by
        intro k dt' h
        show chunk 7 data (k - 1) = _
        rw [hsize, hdata, chunk_take, h]
      by_cases hnew : k = t.session.done + 1
      · -- the packet that completed the message
        subst hnew
        refine ⟨dt, .self haccepted, hcut _ _ ?_⟩
        rw [Nat.add_sub_cancel, chunk_append_right hlen,
          List.take_of_length_le (EtpDt.bytes_length dt).le]
      · obtain ⟨dt₀, hdt₀, hbytes⟩ := hlast k hk (by omega)
        refine ⟨dt₀, hdt₀.snoc fun dt' h => ?_, hcut _ _ ?_⟩
        · rw [haccepted, Option.some.injEq, Prod.mk.injEq] at h
          exact hnew h.1.symm
        · rw [chunk_append_left (by omega)]
          exact hbytes

/-- The smallest extended message, announced, declared and begun. -/
theorem receiver_is_safe_first_packet :
    let calls : List Call :=
      [.etpCm ⟨0x80⟩ (.rts 1786 .dm1), .etpCm ⟨0x80⟩ (.dpo 255 0 .dm1),
        .etpDt ⟨0x80⟩ (.new 1 [1, 2, 3]), .tick 10 1250]
    ∃ tr, ∃ r : Reassembler 1786 1, Machine.run step new calls = .ok (tr, r)
      ∧ ∀ i s, (r.slots i).session = some s → s.size ≤ 1786 ∧ s.nextSequence ≤ s.blockPackets := by
  intro calls
  have hdecoded : ∀ c ∈ calls, c.Decoded := by
    intro c hc
    simp only [calls, List.mem_cons, List.not_mem_nil, or_false] at hc
    rcases hc with rfl | rfl | rfl | rfl
    · exact ⟨_, EtpCm.decode_encode _ (show 1786 < 2 ^ 32 by decide)⟩
    · exact ⟨_, EtpCm.decode_encode _ (show 255 < 256 ∧ 0 < 2 ^ 24 by decide)⟩
    · exact ⟨_, EtpDt.decode_encode (show 1 < 256 by decide)⟩
    · trivial
  obtain ⟨tr, r, hrun, hsessions, -⟩ := receiver_is_safe calls hdecoded
  refine ⟨tr, r, hrun, fun i s hs => ?_⟩
  obtain ⟨hsize, -, -, -, -, -, -, hnext, -⟩ := hsessions i s hs
  exact ⟨hsize, hnext⟩

end Reassembler

end SaeJ1939.Etp
