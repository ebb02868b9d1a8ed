/-
  SaeJ1939.Tp.Lifetime — how a connection-managed session may end.

  The sender of a connection-managed transfer relies on being told when
  its session ends.  `EndsProperly` lists the ways the end is announced;
  the run-level theorem says exactly which runs contain an end that is
  not: those in which a broadcast announcement meets an open
  connection-managed session of its own sender.

  Main results:
    * `connection_step` — one call keeps a connection-managed session,
      ends it properly, or is a BAM of its own peer.
    * `no_silent_end_iff` — a run never drops a session silently if and
      only if no such BAM occurs in it.
-/
import SaeJ1939.Tp.History

namespace SaeJ1939.Tp

namespace Reassembler

variable {N SESSIONS : Nat}

/-! ## §1. The ends of a session. -/

/-- `s'` is a later state of the session `s`. -/
structure Continues (s s' : Session) : Prop extends SameTransfer s s' where
  limit : s'.maxPacketsPerCts = s.maxPacketsPerCts
  next : s.nextSequence ≤ s'.nextSequence

/-- Session `s` ended in a way its peer or the caller knows about: its
message and acknowledgement went out, an abort naming its group went out
or came in, the timeout was reported, or the caller asked for it. -/
def EndsProperly (s : Session) (c : Call) (reply : Reply) : Prop :=
  (∃ dt data, c = .tpDt s.source dt ∧ reply = .rx (.message s.pgn s.source data
      (some (.endOfMsgAck s.size s.packets s.pgn))))
    ∨ (∃ dt reason, c = .tpDt s.source dt ∧ reply = .rx (.send (.abort reason s.pgn)))
    ∨ (∃ reason, c = .tpCm s.source (.abort reason s.pgn))
    ∨ (∃ elapsedMs timeoutMs timeouts, c = .tick elapsedMs timeoutMs ∧ reply = .timeouts timeouts
        ∧ (s.source, some (.abort .timeout s.pgn)) ∈ timeouts)
    ∨ c = .abandon s.source ∨ c = .reset

/-- Every connection-managed session open before the call is still open
after it, or ended properly. -/
def KeepsConnections (e : Entry N SESSIONS) : Prop :=
  ∀ i s, (e.before.slots i).session = some s → s.broadcast = false →
    (∃ j s', (e.after.slots j).session = some s' ∧ Continues s s') ∨ EndsProperly s e.event e.out

/-- A broadcast announcement from a peer whose connection-managed session
is open. -/
def CrossedByBam (e : Entry N SESSIONS) : Prop :=
  ∃ source size packets pgn i s, e.event = .tpCm source (.bam size packets pgn)
    ∧ (e.before.slots i).session = some s ∧ s.source = source ∧ s.broadcast = false

/-! ## §2. One call. -/

theorem Continues.refl (s : Session) : Continues s s :=
  ⟨.refl s, rfl, Nat.le_refl _⟩

variable {r r' : Reassembler N SESSIONS} {c : Call} {reply : Reply}

/-- A session seen in a slot is its peer's transfer. -/
theorem transferOf_of_session (hr : r.WF) {i : Fin SESSIONS} {s : Session}
    (hs : (r.slots i).session = some s) :
    ∃ received, r.transferOf s.source = some ⟨s, received⟩ := by
  have hkey : (r.slots i).key = some s.source := key_eq_some.mpr ⟨s, hs, rfl⟩
  refine ⟨(List.ofFn (r.slots i).buffer).take (7 * (s.nextSequence - 1)), ?_⟩
  rw [transferOf_of_find ((SlotTable.find_eq_some hr.distinct).mpr hkey), Slot.transfer, hs]
  rfl

/-- A transfer that is open sits in some slot. -/
theorem session_of_transferOf {a : Address} {t : Transfer} (h : r.transferOf a = some t) :
    ∃ j, (r.slots j).session = some t.session := by
  obtain ⟨j, -, hs, -⟩ := find_of_transferOf h
  exact ⟨j, hs⟩

/-- What a peer's connection management can do to its connection-managed
session: only an abort naming its group, or a BAM, touches it. -/
theorem onCm_connection (room : Bool) (peer : Address) {t : Transfer} (cm : TpCm)
    (hconn : t.session.broadcast = false) :
    (Transfer.onCm N room peer (some t) cm).2 = some t
      ∨ (∃ reason, cm = .abort reason t.session.pgn)
      ∨ ∃ size packets pgn, cm = .bam size packets pgn := by
  cases cm with
  | bam size packets pgn => exact Or.inr (Or.inr ⟨size, packets, pgn, rfl⟩)
  | rts size packets maxPacketsPerCts pgn =>
    refine Or.inl ?_
    simp only [Transfer.onCm, Option.any_some, Transfer.isConnection, hconn, Bool.not_false,
      if_true]
    split
    next => rfl
    next => split <;> rfl
  | abort reason pgn =>
    by_cases hp : t.session.pgn = pgn
    · exact Or.inr (Or.inl ⟨reason, by rw [hp]⟩)
    · exact Or.inl (by simp [Transfer.onCm, Option.filter_some, hp])
  | cts packets nextPacket pgn => exact Or.inl rfl
  | endOfMsgAck size packets pgn => exact Or.inl rfl

/-- A data packet from the peer of a connection-managed session either
advances it or ends it with a message and acknowledgement, or an abort. -/
theorem onDt_connection {t : Transfer} (hconn : t.session.broadcast = false) (dt : TpDt) :
    (∃ t', (Transfer.onDt (some t) dt).2 = some t' ∧ Continues t.session t'.session)
      ∨ (∃ data, (Transfer.onDt (some t) dt).1 = .message t.session.pgn t.session.source data
          (some (.endOfMsgAck t.session.size t.session.packets t.session.pgn)))
      ∨ ∃ reason, (Transfer.onDt (some t) dt).1 = .send (.abort reason t.session.pgn) := by
  rcases onDt_cases t dt with
    ⟨-, reason, heq⟩ | ⟨-, -, heq⟩ | ⟨-, rx, s', heq, hsame, hlimit, hnext, -⟩
  · refine Or.inr (Or.inr ⟨reason, ?_⟩)
    rw [heq, hconn]
    rfl
  · refine Or.inr (Or.inl ⟨(t.received ++ dt.bytes).take t.session.size, ?_⟩)
    rw [heq, hconn]
    rfl
  · refine Or.inl ⟨⟨s', t.received ++ dt.bytes⟩, by rw [heq], hsame, hlimit, ?_⟩
    show t.session.nextSequence ≤ s'.nextSequence
    omega

/-- Time keeps a connection-managed session or reports its peer. -/
theorem onTick_connection {t : Transfer} (hconn : t.session.broadcast = false)
    (elapsedMs timeoutMs : Nat) :
    (∃ t', (Transfer.onTick elapsedMs timeoutMs (some t)).2 = some t'
        ∧ Continues t.session t'.session)
      ∨ (Transfer.onTick elapsedMs timeoutMs (some t)).1
          = some (t.session.source, some (.abort .timeout t.session.pgn)) := by
  obtain ⟨s, received⟩ := t
  simp only at hconn
  simp only [Transfer.onTick]
  split
  next => exact Or.inl ⟨_, rfl, ⟨⟨rfl, rfl, rfl, rfl, rfl⟩, rfl, Nat.le_refl _⟩⟩
  next =>
    right
    simp [hconn]

/-- **One call keeps a connection-managed session or ends it properly,
unless it is a BAM of the same peer.** -/
theorem connection_step (hr : r.WF) (hstep : step r c = .ok (reply, r')) {i : Fin SESSIONS}
    {s : Session} (hs : (r.slots i).session = some s) (hconn : s.broadcast = false) :
    (∃ j s', (r'.slots j).session = some s' ∧ Continues s s') ∨ EndsProperly s c reply
      ∨ ∃ size packets pgn, c = .tpCm s.source (.bam size packets pgn) := by
  obtain ⟨received, ht⟩ := transferOf_of_session hr hs
  obtain ⟨hafter, hseen⟩ := (hr.step hstep).2 s.source
  rw [ht] at hafter hseen
  have hopen : ∀ t', r'.transferOf s.source = some t' → Continues s t'.session →
      ∃ j s', (r'.slots j).session = some s' ∧ Continues s s' := by
    intro t' ht' hcont
    obtain ⟨j, hj⟩ := session_of_transferOf ht'
    exact ⟨j, _, hj, hcont⟩
  cases c with
  | tpCm source cm =>
    by_cases hsrc : source = s.source
    · subst hsrc
      simp only [Transfer.onCall, if_true] at hafter
      rcases onCm_connection (N := N) (t := ⟨s, received⟩) (r.room s.source) s.source cm hconn
        with hkeep | ⟨reason, rfl⟩ | ⟨size, packets, pgn, rfl⟩
      · exact Or.inl (hopen _ (hafter.trans hkeep) (.refl s))
      · exact Or.inr (Or.inl (Or.inr (Or.inr (Or.inl ⟨reason, rfl⟩))))
      · exact Or.inr (Or.inr ⟨size, packets, pgn, rfl⟩)
    · simp only [Transfer.onCall, hsrc, if_false] at hafter
      exact Or.inl (hopen _ hafter (.refl s))
  | tpDt source dt =>
    by_cases hsrc : source = s.source
    · subst hsrc
      simp only [Transfer.onCall, if_true] at hafter
      simp only [step, Checked.bind_eq_ok, Prod.exists, Checked.pure_eq_ok, Except.ok.injEq,
        Prod.mk.injEq] at hstep
      obtain ⟨rx, _, -, rfl, -⟩ := hstep
      simp only [seen, Call.concerns, Transfer.answer, decide_true, if_true, Reply.about,
        Option.some.injEq, Reply.rx.injEq] at hseen
      subst hseen
      rcases onDt_connection (t := ⟨s, received⟩) hconn dt with
        ⟨t', ht', hcont⟩ | ⟨data, hmsg⟩ | ⟨reason, habort⟩
      · exact Or.inl (hopen t' (hafter.trans ht') hcont)
      · exact Or.inr (Or.inl (Or.inl ⟨dt, data, rfl, by rw [hmsg]⟩))
      · exact Or.inr (Or.inl (Or.inr (Or.inl ⟨dt, reason, rfl, by rw [habort]⟩)))
    · simp only [Transfer.onCall, hsrc, if_false] at hafter
      exact Or.inl (hopen _ hafter (.refl s))
  | tick elapsedMs timeoutMs =>
    simp only [Transfer.onCall] at hafter
    simp only [step, Except.ok.injEq, Prod.mk.injEq] at hstep
    obtain ⟨rfl, -⟩ := hstep
    simp only [seen, Call.concerns, Transfer.answer, if_true, Reply.about, Option.some.injEq,
      Reply.timeouts.injEq] at hseen
    rcases onTick_connection (t := ⟨s, received⟩) hconn elapsedMs timeoutMs with
      ⟨t', ht', hcont⟩ | htimeout
    · exact Or.inl (hopen t' (hafter.trans ht') hcont)
    · rw [htimeout] at hseen
      have hmem : (s.source, some (.abort .timeout s.pgn))
          ∈ (r.tickWithTimeout elapsedMs timeoutMs).1.filter fun x => x.1 = s.source := by
        simp [hseen]
      exact Or.inr (Or.inl (Or.inr (Or.inr (Or.inr (Or.inl
        ⟨elapsedMs, timeoutMs, _, rfl, rfl, (List.mem_filter.mp hmem).1⟩)))))
  | abandon source =>
    by_cases hsrc : source = s.source
    · exact Or.inr (Or.inl (Or.inr (Or.inr (Or.inr (Or.inr (Or.inl (by rw [hsrc])))))))
    · simp only [Transfer.onCall, hsrc, if_false] at hafter
      exact Or.inl (hopen _ hafter (.refl s))
  | reset => exact Or.inr (Or.inl (Or.inr (Or.inr (Or.inr (Or.inr (Or.inr rfl))))))

/-- **A BAM ends its peer's connection-managed session silently.** -/
theorem bam_step (hr : r.WF) {size packets : Nat} {pgn : Pgn} {i : Fin SESSIONS} {s : Session}
    (hstep : step r (.tpCm s.source (.bam size packets pgn)) = .ok (reply, r'))
    (hs : (r.slots i).session = some s) (hconn : s.broadcast = false) :
    (¬ ∃ j s', (r'.slots j).session = some s' ∧ Continues s s')
      ∧ ¬ EndsProperly s (.tpCm s.source (.bam size packets pgn)) reply := by
  obtain ⟨received, ht⟩ := transferOf_of_session hr hs
  have hroom : r.room s.source = true := room_eq_true.mpr (Or.inl (by simp [ht]))
  have hr' := (hr.step hstep).1
  obtain ⟨hafter, -⟩ := (hr.step hstep).2 s.source
  simp only [Transfer.onCall, if_true, Transfer.onCm, hroom] at hafter
  refine ⟨?_, by simp [EndsProperly]⟩
  rintro ⟨j, s', hs', hcont⟩
  obtain ⟨received', ht'⟩ := transferOf_of_session hr' hs'
  rw [hcont.source, hafter] at ht'
  -- what is open now is a broadcast, if anything
  have hbc : s'.broadcast = true := by
    split at ht'
    next => cases ht'
    next =>
      simp only [Option.some.injEq] at ht'
      rw [← congrArg (fun t => t.session.broadcast) ht']
      rfl
  rw [hcont.broadcast, hconn] at hbc
  cases hbc

/-! ## §3. Whole runs. -/

/-- **A run drops no connection-managed session silently if and only if
no BAM in it meets such a session of its own peer.** -/
theorem no_silent_end_iff (calls : List Call) :
    ∃ tr, ∃ r : Reassembler N SESSIONS, Machine.run step new calls = .ok (tr, r) ∧
      ((∀ e ∈ tr, KeepsConnections e) ↔ ∀ e ∈ tr, ¬ CrossedByBam e) := by
  obtain ⟨tr, r, hrun, -⟩ := run_ok (r := (new : Reassembler N SESSIONS)) wf_new calls
  refine ⟨tr, r, hrun, forall₂_congr fun e he => ?_⟩
  obtain ⟨pre, post, htr⟩ := List.append_of_mem he
  obtain ⟨hpre, hstep⟩ := (htr ▸ (Machine.run_trace hrun).1 : Machine.Trace step new _ r).split
  have hwf : e.before.WF := hpre.invariant (fun _ _ _ _ hs h => (hs.step h).1) wf_new
  constructor
  · rintro hkeep ⟨source, size, packets, pgn, i, s, hev, hs, rfl, hconn⟩
    rw [hev] at hstep
    obtain ⟨hgone, hsilent⟩ := bam_step hwf hstep hs hconn
    rcases hkeep i s hs hconn with h | h
    · exact hgone h
    · exact hsilent (hev ▸ h)
  · intro hno i s hs hconn
    rcases connection_step hwf hstep hs hconn with h | h | ⟨size, packets, pgn, hev⟩
    · exact Or.inl h
    · exact Or.inr h
    · exact absurd ⟨s.source, size, packets, pgn, i, s, hev, hs, rfl, hconn⟩ hno

/-- A BAM crossing an addressed transfer of the same peer: after the RTS
has been answered with a CTS, the session is replaced and nothing is
said. -/
theorem silent_end_by_bam :
    ∃ tr, ∃ r : Reassembler 32 1,
      Machine.run step new [.tpCm ⟨0x80⟩ (.rts 21 3 0xFF .dm1), .tpCm ⟨0x80⟩ (.bam 21 3 .dm1)]
          = .ok (tr, r)
        ∧ tr.map Machine.Entry.out = [.rx (.send (.cts 3 1 .dm1)), .rx .idle]
        ∧ ¬ ∀ e ∈ tr, KeepsConnections e := by
  let opened : Reassembler 32 1 := (new.onTpCm ⟨0x80⟩ (.rts 21 3 0xFF .dm1)).2
  have hwf : opened.WF := (onTpCm_refines wf_new _ _).2.wf
  refine ⟨_, _, rfl, by decide, fun hall => ?_⟩
  have hs : (opened.slots 0).session
      = some (Transfer.start ⟨0x80⟩ .dm1 21 3 false 3 0xFF).session := by
    decide
  have hbam : step opened (.tpCm ⟨0x80⟩ (.bam 21 3 .dm1)) = .ok (_, _) := rfl
  obtain ⟨hgone, hsilent⟩ := bam_step hwf hbam hs rfl
  rcases hall _ (List.mem_cons_of_mem _ (List.mem_cons_self ..)) 0 _ hs rfl with h | h
  · exact hgone h
  · exact hsilent h

end Reassembler

end SaeJ1939.Tp
