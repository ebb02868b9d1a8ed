/-
  SaeJ1939.Tp.History — where the bytes of a delivered message come from.

  A run of a reassembler is a list of entries: each call, its reply, and
  the states around it.  For one peer the entries that matter are the
  announcements it made that were accepted, and the data packets it sent.

  Main results:
    * `accepted_or_kept` — one call opens a transfer for a peer exactly
      when it accepts that peer's announcement; any other call keeps the
      transfer, advances it by the packet expected next, or ends it.
    * `Remembered` — what an open transfer knows is the most recent
      accepted announcement and the packets since.
    * `delivered_message_is_the_announced_one` — a delivered message is
      the payload of the packets since that announcement, in order, cut
      at the announced size.
-/
import SaeJ1939.Tp.Transfer

namespace SaeJ1939.Tp

namespace Reassembler

variable {N SESSIONS : Nat}

/-- One call of a run. -/
abbrev Entry (N SESSIONS : Nat) := Machine.Entry (Reassembler N SESSIONS) Call Reply

/-! ## §1. Announcements and packets of one peer. -/

/-- Whether a call made the reassembler accept an announcement of `peer`:
a coherent BAM that fits and finds a slot, or an RTS answered with a
CTS. -/
def accepts (peer : Address) (e : Entry N SESSIONS) : Bool :=
  match e.event, e.out with
  | .tpCm source (.bam size packets _), _ =>
      source = peer && validAnnouncement size packets && size ≤ N && e.before.room peer
  | .tpCm source (.rts ..), .rx (.send (.cts ..)) => source = peer
  | _, _ => false

/-- The data packet a call brings from `peer`, if it does. -/
def packetOf (peer : Address) (e : Entry N SESSIONS) : Option TpDt :=
  match e.event with
  | .tpDt source dt => if source = peer then some dt else none
  | _ => none

/-- The session an announcement asks for. -/
def Announces (cm : TpCm) (s : Session) : Prop :=
  (cm = .bam s.size s.packets s.pgn ∧ s.broadcast = true)
    ∨ ∃ maxPacketsPerCts, cm = .rts s.size s.packets maxPacketsPerCts s.pgn ∧ s.broadcast = false

/-- Two states of the same transfer. -/
structure SameTransfer (s s' : Session) : Prop where
  source : s'.source = s.source
  pgn : s'.pgn = s.pgn
  size : s'.size = s.size
  packets : s'.packets = s.packets
  broadcast : s'.broadcast = s.broadcast

theorem SameTransfer.refl (s : Session) : SameTransfer s s := ⟨rfl, rfl, rfl, rfl, rfl⟩

theorem SameTransfer.announces {s s' : Session} {cm : TpCm} (h : SameTransfer s s')
    (ha : Announces cm s) : Announces cm s' := by
  rw [Announces, h.pgn, h.size, h.packets, h.broadcast]
  exact ha

/-! ## §2. What one call does to one transfer. -/

/-- Connection management opens a transfer, keeps it, or ends it. -/
theorem onCm_cases (N : Nat) (room : Bool) (peer : Address) (t : Option Transfer) (cm : TpCm) :
    (∃ t', (Transfer.onCm N room peer t cm).2 = some t' ∧ Announces cm t'.session
        ∧ t'.session.nextSequence = 1 ∧ t'.received = [] ∧ t'.session.idleMs = 0
        ∧ ((∃ size packets pgn, cm = .bam size packets pgn
              ∧ validAnnouncement size packets = true ∧ size ≤ N ∧ room = true)
          ∨ ∃ size packets maxPacketsPerCts pgn window,
              cm = .rts size packets maxPacketsPerCts pgn
              ∧ (Transfer.onCm N room peer t cm).1 = .send (.cts window 1 pgn)))
      ∨ (((Transfer.onCm N room peer t cm).2 = t ∨ (Transfer.onCm N room peer t cm).2 = none)
        ∧ (∀ size packets pgn, cm = .bam size packets pgn →
              ¬ (validAnnouncement size packets = true ∧ size ≤ N ∧ room = true))
        ∧ ∀ window nextPacket pgn,
            (Transfer.onCm N room peer t cm).1 ≠ .send (.cts window nextPacket pgn)) := by
  cases cm with
  | bam size packets pgn =>
    simp only [Transfer.onCm]
    by_cases hbad : (!validAnnouncement size packets || decide (size > N)) = true
    · -- an unacceptable announcement ends what there was
      right
      simp only [hbad, if_true]
      refine ⟨Or.inr trivial, ?_, by simp⟩
      rintro _ _ _ ⟨rfl, rfl, rfl⟩ ⟨hv, hn, -⟩
      simp [hv] at hbad
      omega
    · simp only [hbad]
      simp only [Bool.or_eq_true, Bool.not_eq_true', decide_eq_true_eq, not_or, Bool.not_eq_false,
        not_lt] at hbad
      cases room with
      | true =>
        left
        exact ⟨_, rfl, Or.inl ⟨rfl, rfl⟩, rfl, rfl, rfl, Or.inl ⟨size, packets, pgn, rfl, hbad.1,
          hbad.2, rfl⟩⟩
      | false => exact Or.inr ⟨Or.inl rfl, by simp, by simp⟩
  | rts size packets maxPacketsPerCts pgn =>
    simp only [Transfer.onCm]
    split
    next => exact Or.inr ⟨Or.inl rfl, by simp, by simp⟩
    next =>
      split
      next => exact Or.inr ⟨Or.inl rfl, by simp, by simp⟩
      next =>
        split
        next => exact Or.inr ⟨Or.inl rfl, by simp, by simp⟩
        next =>
          cases room with
          | true =>
            left
            exact ⟨_, rfl, Or.inr ⟨maxPacketsPerCts, rfl, rfl⟩, rfl, rfl, rfl, Or.inr
              ⟨size, packets, maxPacketsPerCts, pgn, _, rfl, rfl⟩⟩
          | false => exact Or.inr ⟨Or.inl rfl, by simp, by simp⟩
  | abort reason pgn =>
    refine Or.inr ⟨?_, by simp, by simp [Transfer.onCm]⟩
    simp only [Transfer.onCm]
    cases t with
    | none => exact Or.inl rfl
    | some t =>
      rw [Option.filter_some]
      split
      next => exact Or.inl rfl
      next => exact Or.inr rfl
  | cts packets nextPacket pgn => exact Or.inr ⟨Or.inl rfl, by simp, by simp [Transfer.onCm]⟩
  | endOfMsgAck size packets pgn => exact Or.inr ⟨Or.inl rfl, by simp, by simp [Transfer.onCm]⟩

/-- **What a data packet does to the transfer of its peer.**  Out of order,
it ends it: silently if it is a broadcast, with an abort otherwise.  In
order, it delivers the message if it is the last one, and is kept if not;
then it is answered, if at all, by the next grant. -/
theorem onDt_cases (t : Transfer) (dt : TpDt) :
    (dt.sequence ≠ t.session.nextSequence ∧ ∃ reason, Transfer.onDt (some t) dt
          = (if t.session.broadcast then .idle else .send (.abort reason t.session.pgn), none))
      ∨ (dt.sequence = t.session.nextSequence ∧ dt.sequence = t.session.packets
        ∧ Transfer.onDt (some t) dt = (.message t.session.pgn t.session.source
            ((t.received ++ dt.bytes).take t.session.size)
            (if t.session.broadcast then none
              else some (.endOfMsgAck t.session.size t.session.packets t.session.pgn)), none))
      ∨ (dt.sequence = t.session.nextSequence ∧ ∃ rx s',
        Transfer.onDt (some t) dt = (rx, some ⟨s', t.received ++ dt.bytes⟩)
          ∧ SameTransfer t.session s' ∧ s'.maxPacketsPerCts = t.session.maxPacketsPerCts
          ∧ s'.nextSequence = t.session.nextSequence + 1
          ∧ (rx = .idle ∨ ∃ window, rx = .send (.cts window s'.nextSequence s'.pgn))) := by
  obtain ⟨s, received⟩ := t
  unfold Transfer.onDt
  dsimp only
  by_cases hseq : dt.sequence = s.nextSequence
  · rw [if_neg (not_not_intro hseq)]
    right
    by_cases hlast : dt.sequence = s.packets
    · rw [if_pos hlast]
      left
      refine ⟨hseq, hlast, ?_⟩
      cases s.broadcast <;> rfl
    · rw [if_neg hlast]
      right
      refine ⟨hseq, ?_⟩
      split
      next => exact ⟨_, _, rfl, ⟨rfl, rfl, rfl, rfl, rfl⟩, rfl, rfl, Or.inr ⟨_, rfl⟩⟩
      next => exact ⟨_, _, rfl, ⟨rfl, rfl, rfl, rfl, rfl⟩, rfl, rfl, Or.inl rfl⟩
  · rw [if_pos hseq]
    left
    refine ⟨hseq, ?_⟩
    by_cases hlt : dt.sequence < s.nextSequence
    · refine ⟨.duplicateSequenceNumber, ?_⟩
      cases s.broadcast <;> simp [hlt]
    · refine ⟨.badSequenceNumber, ?_⟩
      cases s.broadcast <;> simp [hlt]

/-- A data packet that leaves a transfer open was the one expected next. -/
theorem onDt_some {t : Option Transfer} {dt : TpDt} {t' : Transfer}
    (h : (Transfer.onDt t dt).2 = some t') :
    ∃ t₀, t = some t₀ ∧ SameTransfer t₀.session t'.session
      ∧ dt.sequence = t₀.session.nextSequence
      ∧ t'.session.nextSequence = t₀.session.nextSequence + 1
      ∧ t'.received = t₀.received ++ dt.bytes := by
  cases t with
  | none => cases h
  | some t₀ =>
    rcases onDt_cases t₀ dt with
      ⟨-, reason, heq⟩ | ⟨-, -, heq⟩ | ⟨hseq, rx, s', heq, hsame, -, hnext, -⟩
    · rw [heq] at h
      cases h
    · rw [heq] at h
      cases h
    · rw [heq] at h
      injection h with h
      subst h
      exact ⟨t₀, rfl, hsame, hseq, hnext, rfl⟩

/-- A message is delivered by the last packet of the transfer. -/
theorem onDt_message {t : Option Transfer} {dt : TpDt} {pgn : Pgn} {source : Address}
    {data : List UInt8} {ack : Option TpCm}
    (h : (Transfer.onDt t dt).1 = .message pgn source data ack) :
    ∃ t₀, t = some t₀ ∧ dt.sequence = t₀.session.nextSequence
      ∧ dt.sequence = t₀.session.packets
      ∧ pgn = t₀.session.pgn ∧ source = t₀.session.source
      ∧ data = (t₀.received ++ dt.bytes).take t₀.session.size
      ∧ ack = if t₀.session.broadcast then none
          else some (.endOfMsgAck t₀.session.size t₀.session.packets t₀.session.pgn) := by
  cases t with
  | none => cases h
  | some t₀ =>
    rcases onDt_cases t₀ dt with
      ⟨-, reason, heq⟩ | ⟨hseq, hlast, heq⟩ | ⟨-, rx, s', heq, -, -, -, hrx⟩
    · rw [heq] at h
      split at h <;> cases h
    · rw [heq] at h
      injection h with hpgn hsource hdata hack
      exact ⟨t₀, rfl, hseq, hlast, hpgn.symm, hsource.symm, hdata.symm, hack.symm⟩
    · rw [heq] at h
      rcases hrx with rfl | ⟨window, rfl⟩ <;> cases h

/-- Short of its acknowledgement, a data packet is answered by an abort or
by a grant. -/
theorem onDt_send {t : Option Transfer} {dt : TpDt} {cm : TpCm}
    (h : (Transfer.onDt t dt).1 = .send cm) :
    (∃ reason pgn, cm = .abort reason pgn)
      ∨ ∃ window nextPacket pgn, cm = .cts window nextPacket pgn := by
  cases t with
  | none => cases h
  | some t₀ =>
    rcases onDt_cases t₀ dt with
      ⟨-, reason, heq⟩ | ⟨-, -, heq⟩ | ⟨-, rx, s', heq, -, -, -, hrx⟩
    · rw [heq] at h
      split at h <;> cases h
      exact Or.inl ⟨reason, _, rfl⟩
    · rw [heq] at h
      cases h
    · rw [heq] at h
      rcases hrx with rfl | ⟨window, rfl⟩ <;> cases h
      exact Or.inr ⟨window, _, _, rfl⟩

/-- Time keeps a transfer or ends it. -/
theorem onTick_some {elapsedMs timeoutMs : Nat} {t : Option Transfer} {t' : Transfer}
    (h : (Transfer.onTick elapsedMs timeoutMs t).2 = some t') :
    ∃ t₀, t = some t₀ ∧ SameTransfer t₀.session t'.session
      ∧ t'.session.nextSequence = t₀.session.nextSequence ∧ t'.received = t₀.received := by
  cases t with
  | none => simp [Transfer.onTick] at h
  | some t₀ =>
    simp only [Transfer.onTick] at h
    split at h
    next =>
      cases h
      exact ⟨_, rfl, ⟨rfl, rfl, rfl, rfl, rfl⟩, rfl, rfl⟩
    next => cases h

/-- What is open after a call was open before it, one packet further if the
call brought one. -/
def Kept (peer : Address) (e : Entry N SESSIONS) (t' : Transfer) : Prop :=
  ∃ t, e.before.transferOf peer = some t ∧ SameTransfer t.session t'.session
    ∧ ((packetOf peer e = none
          ∧ t'.session.nextSequence = t.session.nextSequence ∧ t'.received = t.received)
      ∨ ∃ dt, packetOf peer e = some dt
          ∧ dt.sequence = t.session.nextSequence
          ∧ t'.session.nextSequence = t.session.nextSequence + 1
          ∧ t'.received = t.received ++ dt.bytes)

section OneCall

variable {r r' : Reassembler N SESSIONS} {c : Call} {reply : Reply} {peer : Address}

/-- A transfer that was left alone is kept. -/
theorem Kept.of_same {t : Transfer} (ht : r.transferOf peer = some t)
    (hnone : packetOf peer ⟨r, c, reply, r'⟩ = none) : Kept peer ⟨r, c, reply, r'⟩ t :=
  ⟨t, ht, .refl _, Or.inl ⟨hnone, rfl, rfl⟩⟩

/-- Another peer's announcement is none of `peer`. -/
theorem accepts_of_ne {source : Address} {cm : TpCm} (hsrc : source ≠ peer) :
    accepts peer ⟨r, .tpCm source cm, reply, r'⟩ = false := by
  have hother : decide (source = peer) = false := decide_eq_false hsrc
  unfold accepts
  split
  next heq =>
    injection heq with heq _
    rw [← heq, hother]
    rfl
  next heq _ =>
    injection heq with heq _
    rw [← heq, hother]
  next => rfl

/-- Connection management of `peer` opens a transfer exactly if it is an
announcement that is accepted. -/
theorem accepted_or_kept_tpCm {cm : TpCm}
    (hafter : r'.transferOf peer = (Transfer.onCm N (r.room peer) peer (r.transferOf peer) cm).2)
    (hreply : reply = .rx (Transfer.onCm N (r.room peer) peer (r.transferOf peer) cm).1) :
    (accepts peer ⟨r, .tpCm peer cm, reply, r'⟩ = true ∧ ∃ t', r'.transferOf peer = some t'
        ∧ Announces cm t'.session ∧ t'.session.nextSequence = 1 ∧ t'.received = []
        ∧ t'.session.idleMs = 0)
      ∨ accepts peer ⟨r, .tpCm peer cm, reply, r'⟩ = false ∧ ∀ t', r'.transferOf peer = some t' →
        r.transferOf peer = some t' := by
  rcases onCm_cases N (r.room peer) peer (r.transferOf peer) cm with
    ⟨t', ht', hann, hnext, hrec, hidle, hacc⟩ | ⟨hkeep, hbam, hcts⟩
  · -- the announcement was accepted
    refine Or.inl ⟨?_, t', hafter.trans ht', hann, hnext, hrec, hidle⟩
    rcases hacc with ⟨size, packets, pgn, rfl, hv, hn, hroom⟩
      | ⟨size, packets, maxPacketsPerCts, pgn, window, rfl, hcts⟩
    · simp [accepts, hv, hn, hroom]
    · rw [hcts] at hreply
      simp [accepts, hreply]
  · -- it was not
    subst hreply
    refine Or.inr ⟨?_, fun t' ht' => ?_⟩
    · rw [Bool.eq_false_iff]
      intro hacc
      simp only [accepts] at hacc
      split at hacc
      next size packets pgn heq =>
        simp only [Call.tpCm.injEq] at heq
        simp only [Bool.and_eq_true, decide_eq_true_eq] at hacc
        exact hbam size packets pgn heq.2 ⟨hacc.1.1.2, hacc.1.2, hacc.2⟩
      next heq =>
        rw [Reply.rx.injEq] at heq
        exact hcts _ _ _ heq
      next => cases hacc
    · rcases hkeep with hkeep | hkeep
      · rw [← hkeep, ← hafter]
        exact ht'
      · rw [hafter, hkeep] at ht'
        cases ht'

/-- **One call opens a transfer of `peer` exactly by accepting its
announcement; otherwise what is open afterwards was open before**, one
packet further if the call brought one. -/
theorem accepted_or_kept (hr : r.WF) (hstep : step r c = .ok (reply, r')) (peer : Address) :
    (accepts peer ⟨r, c, reply, r'⟩ = true ∧ ∃ cm t', c = .tpCm peer cm
        ∧ r'.transferOf peer = some t' ∧ Announces cm t'.session
        ∧ t'.session.nextSequence = 1 ∧ t'.received = [] ∧ t'.session.idleMs = 0)
      ∨ accepts peer ⟨r, c, reply, r'⟩ = false ∧ ∀ t', r'.transferOf peer = some t' →
        Kept peer ⟨r, c, reply, r'⟩ t' := by
  obtain ⟨-, hall⟩ := hr.step hstep
  obtain ⟨hafter, hseen⟩ := hall peer
  cases c with
  | tpCm source cm =>
    by_cases hsrc : source = peer
    · subst hsrc
      simp only [Transfer.onCall, if_true] at hafter
      simp only [step, Except.ok.injEq, Prod.mk.injEq] at hstep
      obtain ⟨rfl, rfl⟩ := hstep
      simp only [seen, Call.concerns, Transfer.answer, decide_true, if_true, Reply.about,
        Option.some.injEq] at hseen
      rcases accepted_or_kept_tpCm hafter hseen with ⟨hacc, t', ht'⟩ | ⟨hacc, hsame⟩
      · exact Or.inl ⟨hacc, cm, t', rfl, ht'⟩
      · exact Or.inr ⟨hacc, fun t' ht' => Kept.of_same (hsame t' ht') rfl⟩
    · simp only [Transfer.onCall, hsrc, if_false] at hafter
      exact Or.inr ⟨accepts_of_ne hsrc, fun t' ht' => Kept.of_same (hafter ▸ ht') rfl⟩
  | tpDt source dt =>
    refine Or.inr ⟨rfl, fun t' ht' => ?_⟩
    by_cases hsrc : source = peer
    · subst hsrc
      simp only [Transfer.onCall, if_true] at hafter
      obtain ⟨t, ht, hsame, hseq, hnext, hrec⟩ := onDt_some (hafter ▸ ht')
      exact ⟨t, ht, hsame, Or.inr ⟨dt, by simp [packetOf], hseq, hnext, hrec⟩⟩
    · simp only [Transfer.onCall, hsrc, if_false] at hafter
      exact Kept.of_same (hafter ▸ ht') (by simp [packetOf, hsrc])
  | tick elapsedMs timeoutMs =>
    refine Or.inr ⟨rfl, fun t' ht' => ?_⟩
    simp only [Transfer.onCall] at hafter
    obtain ⟨t, ht, hsame, hnext, hrec⟩ := onTick_some (hafter ▸ ht')
    exact ⟨t, ht, hsame, Or.inl ⟨rfl, hnext, hrec⟩⟩
  | abandon source =>
    refine Or.inr ⟨rfl, fun t' ht' => ?_⟩
    by_cases hsrc : source = peer
    · simp only [Transfer.onCall, hsrc, if_true] at hafter
      rw [hafter] at ht'
      cases ht'
    · simp only [Transfer.onCall, hsrc, if_false] at hafter
      exact Kept.of_same (hafter ▸ ht') rfl
  | reset =>
    refine Or.inr ⟨rfl, fun t' ht' => ?_⟩
    simp only [Transfer.onCall] at hafter
    rw [hafter] at ht'
    cases ht'

end OneCall

/-! ## §3. What an open transfer remembers. -/

/-- The history of a peer behind its open transfer `t`: the most recent
accepted announcement, and the packets since. -/
def Remembered (peer : Address) (tr : List (Entry N SESSIONS)) (t : Transfer) : Prop :=
  ∃ before a since cm, tr = before ++ a :: since ∧ accepts peer a = true
    ∧ (∀ e ∈ since, accepts peer e = false)
    ∧ a.event = .tpCm peer cm ∧ Announces cm t.session
    ∧ (since.filterMap (packetOf peer)).map TpDt.sequence
        = List.range' 1 (t.session.nextSequence - 1)
    ∧ (since.filterMap (packetOf peer)).flatMap TpDt.bytes = t.received

/-- **Along every run, open transfers remember their history.** -/
theorem remembered {tr : List (Entry N SESSIONS)} {r : Reassembler N SESSIONS}
    (h : Machine.Trace step new tr r) (peer : Address) :
    r.WF ∧ ∀ t, r.transferOf peer = some t → Remembered peer tr t := by
  induction h with
  | nil => exact ⟨wf_new, fun t ht => by rw [transferOf_new] at ht; cases ht⟩
  | @snoc tr r r' c reply _ hstep ih =>
    obtain ⟨hr, hmem⟩ := ih
    refine ⟨(hr.step hstep).1, fun t' ht' => ?_⟩
    rcases accepted_or_kept hr hstep peer with
      ⟨hacc, cm, t₁, rfl, ht₁, hann, hnext, hrec, -⟩ | ⟨hacc, hkept⟩
    · -- the history starts here
      rw [ht', Option.some.injEq] at ht₁
      subst ht₁
      exact ⟨tr, _, [], cm, rfl, hacc, by simp, rfl, hann, by simp [hnext], by simp [hrec]⟩
    · -- the history grows by this call
      obtain ⟨t, ht, hsame, hpacket⟩ := hkept t' ht'
      obtain ⟨before, a, since, cm, rfl, ha, hsince, hev, hann, hseq, hbytes⟩ := hmem t ht
      refine ⟨before, a, since ++ [⟨r, c, reply, r'⟩], cm, by simp, ha, ?_, hev,
        hsame.announces hann, ?_, ?_⟩
      · intro e he
        rcases List.mem_append.mp he with he | he
        · exact hsince e he
        · rw [List.mem_singleton.mp he]
          exact hacc
      · rcases hpacket with ⟨hnone, hnext, -⟩ | ⟨dt, hsome, hdt, hnext, -⟩
        · simp [List.filterMap_append, hnone, hseq, hnext]
        · have hpos := (hr.session_of_transferOf ht).next_pos
          simp only [List.filterMap_append, List.filterMap_cons, hsome, List.filterMap_nil,
            List.map_append, List.map_cons, List.map_nil, hseq, hnext, hdt]
          rw [Nat.add_sub_cancel, ← Nat.sub_add_cancel hpos, List.range'_concat]
          simp
          omega
      · rcases hpacket with ⟨hnone, -, hrec⟩ | ⟨dt, hsome, -, -, hrec⟩
        · simp [List.filterMap_append, hnone, hbytes, hrec]
        · simp [List.filterMap_append, hsome, hbytes, hrec]

/-! ## §4. Delivered messages. -/

/-- **No message is corrupted or invented.**  In every run, a message
delivered for `s` names the group of the most recent accepted
announcement of `s`, the packets of `s` since then are numbered
`1, 2, …, packets`, and the data are their bytes cut at the announced
size; it is acknowledged exactly when the announcement was an RTS. -/
theorem delivered_message_is_the_announced_one (calls : List Call) :
    ∃ tr, ∃ r : Reassembler N SESSIONS, Machine.run step new calls = .ok (tr, r) ∧
      ∀ pre e post s dt pgn source data ack, tr = pre ++ e :: post → e.event = .tpDt s dt →
        e.out = .rx (.message pgn source data ack) →
        source = s ∧ ∃ before a since cm packets, pre = before ++ a :: since
          ∧ accepts s a = true ∧ (∀ b ∈ since, accepts s b = false) ∧ a.event = .tpCm s cm
          ∧ packets = (data.length + 6) / 7
          ∧ ((cm = .bam data.length packets pgn ∧ ack = none)
            ∨ ∃ maxPacketsPerCts, cm = .rts data.length packets maxPacketsPerCts pgn
              ∧ ack = some (.endOfMsgAck data.length packets pgn))
          ∧ (since.filterMap (packetOf s) ++ [dt]).map TpDt.sequence = List.range' 1 packets
          ∧ data
            = ((since.filterMap (packetOf s) ++ [dt]).flatMap TpDt.bytes).take data.length := by
  obtain ⟨tr, r, hrun, -⟩ := run_ok (r := (new : Reassembler N SESSIONS)) wf_new calls
  refine ⟨tr, r, hrun, ?_⟩
  rintro pre ⟨r₀, c, reply, r₁⟩ post s dt pgn source data ack htr hev hout
  simp only at hev hout
  subst hev hout htr
  obtain ⟨hpre, hstep⟩ := (Machine.run_trace hrun).1.split
  obtain ⟨hwf, hmem⟩ := remembered hpre s
  -- what the transfer open before the call was
  have hseen := ((hwf.step hstep).2 s).2
  simp only [seen, Call.concerns, Transfer.answer, decide_true, if_true, Reply.about,
    Option.some.injEq, Reply.rx.injEq] at hseen
  obtain ⟨t, ht, hseq, hlast, rfl, rfl, hdata, hack⟩ := onDt_message hseen.symm
  have hs := hwf.session_of_transferOf ht
  have hlen : data.length = t.session.size := by
    have hb := packetCount_bounds hs.size_ge hs.size_le
    have hp := hs.packets_eq
    rw [hdata, List.length_take, List.length_append, hwf.received_length ht, TpDt.bytes_length]
    omega
  have hpackets : t.session.packets = (data.length + 6) / 7 := by
    rw [hs.packets_eq, hlen, packetCount_eq hs.size_le]
  -- where it came from
  obtain ⟨before, a, since, cm, hpre', ha, hsince, hev, hann, hnums, hbytes⟩ := hmem t ht
  refine ⟨source_of_transferOf ht, before, a, since, cm, _, hpre', ha, hsince, hev, hpackets,
    ?_, ?_, ?_⟩
  · rw [hlen, hack]
    rcases hann with ⟨rfl, hbc⟩ | ⟨maxPacketsPerCts, rfl, hbc⟩
    · exact Or.inl ⟨rfl, by simp [hbc]⟩
    · exact Or.inr ⟨maxPacketsPerCts, rfl, by simp [hbc]⟩
  · have hpos := hs.next_pos
    rw [List.map_append, hnums, List.map_cons, List.map_nil, ← hlast, hseq,
      ← Nat.sub_add_cancel hpos, List.range'_concat]
    simp
    omega
  · rw [List.flatMap_append, hbytes, hlen]
    simpa using hdata

end Reassembler

end SaeJ1939.Tp
