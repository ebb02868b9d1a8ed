/-
  SaeJ1939.Etp.Timeouts — when an extended reassembler gives a session up.

  As for the transport protocol, ticks are compared with the time supplied
  since the session was opened or last made progress.  Here an offset that
  is accepted is progress too, and every session has a back-channel.

  Main results:
    * `clocked` — the idle counter is the time accumulated, up to the cap.
    * `timeouts_exact_iff` — as for the transport protocol.
    * `session_timeouts_exact_iff` — the two together.
-/
import SaeJ1939.Etp.History
import SaeJ1939.Tp.Timeouts

namespace SaeJ1939.Etp

/-- Whether a message declares an offset. -/
def EtpCm.isDpo : EtpCm → Bool
  | .dpo .. => true
  | .rts .. | .cts .. | .eoma .. | .abort .. => false

namespace Reassembler

open Checked Machine Ageing

variable {N SESSIONS : Nat}

/-! ## §1. The age of a session. -/

/-- The milliseconds a call supplies. -/
def Call.elapsed : Call → Nat
  | .tick elapsedMs _ => elapsedMs
  | .etpCm .. | .etpDt .. | .abandon .. | .reset => 0

/-- A call that brings an offset from `peer` and leaves its session open. -/
def declares (peer : Address) (e : Entry N SESSIONS) : Bool :=
  match e.event with
  | .etpCm source (.dpo ..) => source = peer && (e.after.transferOf peer).isSome
  | _ => false

/-- A call that opens `peer`'s session, or with which it makes progress:
an offset or a packet that is accepted. -/
def restarts (peer : Address) (e : Entry N SESSIONS) : Bool :=
  opens peer e || declares peer e || (accepted peer e).isSome

/-- The time since `peer`'s session was opened or last made progress. -/
def idleTime (peer : Address) (tr : List (Entry N SESSIONS)) : Nat :=
  accumulated (restarts peer) Call.elapsed tr

/-- The idle counter of `peer`'s session. -/
def idleOf (peer : Address) (r : Reassembler N SESSIONS) : Option Nat :=
  (r.transferOf peer).map fun t => t.session.idleMs

/-! ## §2. What a tick should do. -/

/-- A session has been abandoned at a tick: its slot is free, and its
peer is reported once, with an abort that names the group. -/
def Abandoned (peer : Address) (s : Session) (after : Reassembler N SESSIONS)
    (reports : List Timeout) : Prop :=
  after.transferOf peer = none
    ∧ reports.filter (fun report => report.1 = peer) = [(peer, .abort .timeout s.pgn)]

/-- A session is untouched by a tick but for its idle counter, and its
peer is not reported. -/
def Untouched (peer : Address) (t : Transfer) (after : Reassembler N SESSIONS)
    (reports : List Timeout) : Prop :=
  (∃ idleMs, after.transferOf peer = some { t with session := { t.session with idleMs } })
    ∧ reports.filter (fun report => report.1 = peer) = []

/-- Every tick abandons the sessions whose time exceeds its timeout, leaves
the others untouched, and reports no other peer. -/
def TimeoutsExact (tr : List (Entry N SESSIONS)) : Prop :=
  ∀ pre (e : Entry N SESSIONS) post, tr = pre ++ e :: post →
    ∀ elapsedMs timeoutMs reports, e.event = .tick elapsedMs timeoutMs →
      e.out = .timeouts reports → ∀ peer,
        (∀ t, e.before.transferOf peer = some t →
          (timeoutMs < idleTime peer (pre ++ [e]) → Abandoned peer t.session e.after reports)
            ∧ (idleTime peer (pre ++ [e]) ≤ timeoutMs → Untouched peer t e.after reports))
          ∧ (e.before.transferOf peer = none → e.after.transferOf peer = none
            ∧ reports.filter (fun report => report.1 = peer) = [])

/-- No tick with a timeout at the cap of the counter finds a session whose
time exceeds it. -/
def BelowCap (tr : List (Entry N SESSIONS)) : Prop :=
  ∀ pre (e : Entry N SESSIONS) post, tr = pre ++ e :: post →
    ∀ elapsedMs timeoutMs, e.event = .tick elapsedMs timeoutMs → 2 ^ 16 - 1 ≤ timeoutMs →
      ∀ peer t, e.before.transferOf peer = some t → idleTime peer (pre ++ [e]) ≤ timeoutMs

/-! ## §3. One call. -/

variable {r r' : Reassembler N SESSIONS} {c : Call} {reply : Reply} {peer : Address}

/-- Connection management that does not open a session keeps the one there
is, or starts its counter over with an offset. -/
theorem onCm_idle {room : Bool} {t : Option Transfer} {cm : EtpCm} {t' : Transfer}
    (hcts : ∀ window next pgn, (Transfer.onCm N room peer t cm).1 ≠ .send (.cts window next pgn))
    (h : (Transfer.onCm N room peer t cm).2 = some t') :
    cm.isDpo = false ∧ t = some t' ∨ cm.isDpo = true ∧ t'.session.idleMs = 0 := by
  cases cm with
  | rts size pgn =>
    refine Or.inl ⟨rfl, ?_⟩
    unfold Transfer.onCm at h hcts
    dsimp only at h hcts
    split at h
    next => exact h
    next hsize =>
      rw [if_neg hsize] at hcts
      split at h
      next => exact h
      next hfits =>
        rw [if_neg hfits] at hcts
        split at h
        next => exact h
        next hfree =>
          rw [if_neg hfree] at hcts
          split at h
          next hroom =>
            rw [if_pos hroom] at hcts
            exact absurd rfl (hcts _ _ _)
          next => exact h
  | dpo packets offset pgn =>
    refine Or.inr ⟨rfl, ?_⟩
    cases t with
    | none => cases h
    | some t₀ =>
      unfold Transfer.onCm at h
      dsimp only at h
      split at h
      next => cases h
      next =>
        injection h with h
        rw [← h]
  | abort reason pgn => exact Or.inl ⟨rfl, (Option.filter_eq_some_iff.mp h).1⟩
  | cts | eoma => exact Or.inl ⟨rfl, h⟩

/-- A packet that leaves a session open starts its counter over. -/
theorem onDt_idle {t : Option Transfer} {dt : EtpDt} {t' : Transfer}
    (h : (Transfer.onDt t dt).2 = some t') : t'.session.idleMs = 0 := by
  cases t with
  | none => cases h
  | some t₀ =>
    unfold Transfer.onDt at h
    dsimp only at h
    split at h
    next => cases h
    next =>
      split at h
      next => cases h
      next =>
        split at h
        next => cases h
        next =>
          split at h
          next =>
            injection h with h
            rw [← h]
            rfl
          next =>
            injection h with h
            rw [← h]

/-- A tick that keeps a session adds to its counter. -/
theorem onTick_idle {elapsedMs timeoutMs : Nat} {t : Option Transfer} {t' : Transfer}
    (h : (Transfer.onTick elapsedMs timeoutMs t).2 = some t') :
    ∃ t₀, t = some t₀ ∧ t'.session.idleMs = saturatingAdd 16 t₀.session.idleMs elapsedMs := by
  cases t with
  | none => cases h
  | some t₀ =>
    refine ⟨t₀, rfl, ?_⟩
    unfold Transfer.onTick at h
    dsimp only at h
    split at h
    next =>
      injection h with h
      rw [← h]
    next => cases h

theorem declares_eq (r r' : Reassembler N SESSIONS) (reply : Reply) (source peer : Address)
    (cm : EtpCm) : declares peer ⟨r, .etpCm source cm, reply, r'⟩
      = (decide (source = peer) && cm.isDpo && (r'.transferOf peer).isSome) := by
  cases cm with
  | dpo packets offset pgn =>
    rw [EtpCm.isDpo, Bool.and_true]
    rfl
  | rts | cts | eoma | abort =>
    rw [EtpCm.isDpo, Bool.and_false, Bool.false_and]
    rfl

/-- **Every call ages every session** by the time it supplies, or starts
its counter over. -/
theorem ages (hr : r.WF) (hstep : step r c = .ok (reply, r')) (peer : Address) :
    Ages (idleOf peer) (restarts peer) Call.elapsed (2 ^ 16 - 1) ⟨r, c, reply, r'⟩ := by
  intro k hk
  obtain ⟨t', ht', rfl⟩ := Option.map_eq_some_iff.mp hk
  obtain ⟨hafter, hcm, -⟩ := step_of_ok hr hstep peer
  -- a call that leaves the session alone takes no time
  have hsame : r'.transferOf peer = r.transferOf peer → Call.elapsed c = 0 →
      restarts peer ⟨r, c, reply, r'⟩ = false →
      restarts peer ⟨r, c, reply, r'⟩ = true ∧ t'.session.idleMs = 0
        ∨ restarts peer ⟨r, c, reply, r'⟩ = false ∧ ∃ k₀, idleOf peer r = some k₀
          ∧ (Call.elapsed c = 0 ∧ t'.session.idleMs = k₀
            ∨ t'.session.idleMs = min (k₀ + Call.elapsed c) (2 ^ 16 - 1)) := by
    intro hkeep hzero hrestart
    refine Or.inr ⟨hrestart, t'.session.idleMs, ?_, Or.inl ⟨hzero, rfl⟩⟩
    unfold idleOf
    rw [← hkeep, ht']
    rfl
  cases c with
  | etpCm source cm =>
    have haccepted : accepted peer ⟨r, .etpCm source cm, reply, r'⟩ = none := rfl
    by_cases hsrc : source = peer
    · subst hsrc
      simp only [Transfer.onCall, if_true] at hafter
      have hreply := hcm cm rfl
      have hpos : ∀ x, r.transferOf source = some x → 1 ≤ x.session.blockStart :=
        fun x hx => (hr.session_of_transferOf hx).1.start_pos
      rcases opened_or_kept_etpCm hr hafter hreply with
        ⟨hopen, size, pgn, -, hstart⟩ | ⟨hopen, -⟩
      · rw [ht', Option.some.injEq] at hstart
        refine Or.inl ⟨?_, by rw [hstart]; rfl⟩
        rw [restarts, hopen, Bool.true_or, Bool.true_or]
      · rcases onCm_cases N r.room source cm hpos with ⟨size, pgn, window, rfl, heq⟩ | ⟨hcts, -⟩
        · -- an RTS answered with a CTS opens a session
          rw [heq] at hreply
          rw [hreply] at hopen
          exact absurd hopen (by simp [opens])
        · rcases onCm_idle hcts (hafter.symm.trans ht') with ⟨hdpo, hkeep⟩ | ⟨hdpo, hidle⟩
          · refine hsame (ht'.trans hkeep.symm) rfl ?_
            rw [restarts, hopen, declares_eq, hdpo, Bool.and_false, Bool.false_and]
            rfl
          · refine Or.inl ⟨?_, hidle⟩
            rw [restarts, declares_eq, hdpo, ht', decide_eq_true rfl]
            simp
    · simp only [Transfer.onCall, hsrc, if_false] at hafter
      refine hsame hafter rfl ?_
      rw [restarts, opens_of_ne hsrc, declares_eq, decide_eq_false hsrc, Bool.false_and,
        Bool.false_and]
      rfl
  | etpDt source dt =>
    by_cases hsrc : source = peer
    · subst hsrc
      simp only [Transfer.onCall, if_true] at hafter
      rw [hafter] at ht'
      refine Or.inl ⟨?_, onDt_idle ht'⟩
      cases ht : r.transferOf source with
      | none =>
        rw [ht] at ht'
        cases ht'
      | some t =>
        have hs := (hr.session_of_transferOf ht).1
        rw [ht] at ht'
        obtain ⟨hseq, hoffset, -⟩ := onDt_some hs ht'
        rw [restarts, accepted_next hs ht hseq hoffset, Option.isSome_some, Bool.or_true]
    · simp only [Transfer.onCall, hsrc, if_false] at hafter
      refine hsame hafter rfl ?_
      rw [restarts, accepted_of_ne hsrc]
      rfl
  | tick elapsedMs timeoutMs =>
    simp only [Transfer.onCall] at hafter
    rw [hafter] at ht'
    obtain ⟨t₀, ht₀, hidle⟩ := onTick_idle ht'
    refine Or.inr ⟨rfl, t₀.session.idleMs, ?_, Or.inr hidle⟩
    show (r.transferOf peer).map _ = _
    rw [ht₀]
    rfl
  | abandon source =>
    by_cases hsrc : source = peer
    · simp only [Transfer.onCall, hsrc, if_true] at hafter
      rw [hafter] at ht'
      cases ht'
    · simp only [Transfer.onCall, hsrc, if_false] at hafter
      exact hsame hafter rfl rfl
  | reset =>
    simp only [Transfer.onCall] at hafter
    rw [hafter] at ht'
    cases ht'

/-! ## §4. Whole runs. -/

variable {tr : List (Entry N SESSIONS)}

theorem wf_of_trace (ht : Trace step new tr r) : r.WF :=
  ht.invariant (fun _ _ _ _ hs hstep => hs.step hstep) wf_new

/-- **The idle counter is the time accumulated**, as far as a `u16`
goes. -/
theorem clocked (ht : Trace step new tr r) {peer : Address} {t : Transfer}
    (h : r.transferOf peer = some t) :
    t.session.idleMs = min (idleTime peer tr) (2 ^ 16 - 1) := by
  have hidle : idleOf peer r = some t.session.idleMs := by
    unfold idleOf
    rw [h]
    rfl
  refine aged ?_ ht (fun e he => ?_) hidle
  · unfold idleOf
    rw [transferOf_new]
    rfl
  · obtain ⟨pre, post, rfl⟩ := List.append_of_mem he
    obtain ⟨hpre, hstep⟩ := ht.split
    exact ages (wf_of_trace hpre) hstep peer

/-- A tick adds to the time of every session. -/
theorem idleTime_tick {e : Entry N SESSIONS} {elapsedMs timeoutMs : Nat}
    (hev : e.event = .tick elapsedMs timeoutMs) (peer : Address) :
    idleTime peer (tr ++ [e]) = idleTime peer tr + elapsedMs := by
  have hrestart : restarts peer e = false := by
    unfold restarts opens declares accepted
    rw [hev]
    rfl
  unfold idleTime
  rw [accumulated_snoc_not hrestart, hev]
  rfl

/-- A session is not both untouched and abandoned. -/
theorem Untouched.not_abandoned {t : Transfer} {reports : List Timeout}
    (h : Untouched peer t r reports) : ¬ Abandoned peer t.session r reports := by
  rintro ⟨hgone, -⟩
  obtain ⟨⟨idleMs, hkept⟩, -⟩ := h
  rw [hgone] at hkept
  cases hkept

/-- **What a tick does to each peer**, by the time accumulated. -/
theorem tick_entry {pre post : List (Entry N SESSIONS)} {e : Entry N SESSIONS}
    (ht : Trace step new (pre ++ e :: post) r) {elapsedMs timeoutMs : Nat}
    (hev : e.event = .tick elapsedMs timeoutMs) (peer : Address) :
    ∃ reports, e.out = .timeouts reports
      ∧ (∀ t, e.before.transferOf peer = some t →
        if min (idleTime peer (pre ++ [e])) (2 ^ 16 - 1) ≤ timeoutMs then
          Untouched peer t e.after reports
        else Abandoned peer t.session e.after reports)
      ∧ (e.before.transferOf peer = none → e.after.transferOf peer = none
        ∧ reports.filter (fun report => report.1 = peer) = []) := by
  obtain ⟨hpre, hstep⟩ := ht.split
  have hr := wf_of_trace hpre
  rw [hev] at hstep
  injection hstep with hstep
  injection hstep with hout hafter
  obtain ⟨htransfer, hreports⟩ := (tick_refines hr elapsedMs timeoutMs).2 peer
  rw [hafter] at htransfer
  refine ⟨_, hout.symm, fun t ht => ?_, fun hnone => ?_⟩
  · have hidle := clocked hpre ht
    have hsource := (hr.session_of_transferOf ht).2
    have hage : saturatingAdd 16 t.session.idleMs elapsedMs
        = min (idleTime peer (pre ++ [e])) (2 ^ 16 - 1) := by
      rw [idleTime_tick hev]
      unfold saturatingAdd
      omega
    rw [ht] at htransfer hreports
    unfold Transfer.onTick at htransfer hreports
    dsimp only at htransfer hreports
    rw [hage] at htransfer hreports
    split
    next hle =>
      rw [if_pos hle] at htransfer hreports
      exact ⟨⟨_, htransfer⟩, hreports⟩
    next hgt =>
      rw [if_neg hgt] at htransfer hreports
      refine ⟨htransfer, hreports.trans ?_⟩
      rw [hsource]
      rfl
  · rw [hnone] at htransfer hreports
    exact ⟨htransfer, hreports⟩

/-- **Ticks are exact, below the cap**, as for the transport protocol. -/
theorem timeouts_exact_iff {calls : List Call} (hrun : Machine.run step new calls = .ok (tr, r)) :
    TimeoutsExact tr ↔ BelowCap tr := by
  obtain ⟨htrace, -⟩ := run_trace hrun
  constructor
  · intro hexact pre e post htr elapsedMs timeoutMs hev hcap peer t ht
    obtain ⟨reports, hout, htick, -⟩ := tick_entry (htr ▸ htrace) hev peer
    have hboth := (hexact pre e post htr elapsedMs timeoutMs reports hev hout peer).1 t ht
    exact (exact_iff Untouched.not_abandoned (htick t ht)).mp hboth hcap
  · intro hbelow pre e post htr elapsedMs timeoutMs reports hev hout peer
    obtain ⟨reports', hout', htick, hnone⟩ := tick_entry (htr ▸ htrace) hev peer
    rw [hout] at hout'
    injection hout' with hout'
    subst hout'
    refine ⟨fun t ht => (exact_iff Untouched.not_abandoned (htick t ht)).mpr fun hcap => ?_, hnone⟩
    exact hbelow pre e post htr elapsedMs timeoutMs hev hcap peer t ht

/-- **Session timeouts are exact, below the cap**, for the reassemblers of
both protocols, whatever their sizes: ticks give up exactly the sessions
whose time exceeds the timeout and report each of them once, exactly if no
tick with a timeout of at least `0xFFFF` finds a session whose time exceeds
it. -/
theorem session_timeouts_exact_iff (N SESSIONS : Nat) :
    (∀ (calls : List Tp.Reassembler.Call) tr (r : Tp.Reassembler N SESSIONS),
      Machine.run Tp.Reassembler.step Tp.Reassembler.new calls = .ok (tr, r) →
        (Tp.Reassembler.TimeoutsExact tr ↔ Tp.Reassembler.BelowCap tr))
      ∧ ∀ (calls : List Call) tr (r : Reassembler N SESSIONS),
        Machine.run step new calls = .ok (tr, r) → (TimeoutsExact tr ↔ BelowCap tr) :=
  ⟨fun _ _ _ hrun => Tp.Reassembler.timeouts_exact_iff hrun,
    fun _ _ _ hrun => timeouts_exact_iff hrun⟩

/-- An announcement that nothing follows, given up at the second tick. -/
theorem session_timeouts_exact_iff_stalled :
    (∃ tr, ∃ r : Tp.Reassembler 16 1,
      Machine.run Tp.Reassembler.step Tp.Reassembler.new
          [.tpCm ⟨0x80⟩ (.rts 9 2 0xFF .dm1), .tick 750 750, .tick 1 750] = .ok (tr, r)
        ∧ (Tp.Reassembler.TimeoutsExact tr ↔ Tp.Reassembler.BelowCap tr))
      ∧ ∃ tr, ∃ r : Reassembler 1786 1,
        Machine.run step new [.etpCm ⟨0x80⟩ (.rts 1786 .dm1), .tick 1250 1250, .tick 1 1250]
          = .ok (tr, r)
          ∧ (TimeoutsExact tr ↔ BelowCap tr) := by
  have htp : Machine.run Tp.Reassembler.step (Tp.Reassembler.new : Tp.Reassembler 16 1)
      [.tpCm ⟨0x80⟩ (.rts 9 2 0xFF .dm1), .tick 750 750, .tick 1 750] = .ok (_, _) := rfl
  have hetp : Machine.run step (new : Reassembler 1786 1)
      [.etpCm ⟨0x80⟩ (.rts 1786 .dm1), .tick 1250 1250, .tick 1 1250] = .ok (_, _) := rfl
  exact ⟨⟨_, _, htp, (session_timeouts_exact_iff 16 1).1 _ _ _ htp⟩,
    ⟨_, _, hetp, (session_timeouts_exact_iff 1786 1).2 _ _ _ hetp⟩⟩

/-- A session that has been idle for 80 seconds outlives the largest
timeout, of 65.535 seconds. -/
theorem kept_past_largest_timeout :
    (∃ tr, ∃ r : Tp.Reassembler 16 1,
      Machine.run Tp.Reassembler.step Tp.Reassembler.new
          [.tpCm ⟨0x80⟩ (.rts 9 2 0xFF .dm1), .tick 40000 65535, .tick 40000 65535] = .ok (tr, r)
        ∧ r.isReceivingFrom ⟨0x80⟩ = true ∧ ¬ Tp.Reassembler.TimeoutsExact tr)
      ∧ ∃ tr, ∃ r : Reassembler 1786 1,
        Machine.run step new
          [.etpCm ⟨0x80⟩ (.rts 1786 .dm1), .tick 40000 65535, .tick 40000 65535] = .ok (tr, r)
          ∧ r.isReceivingFrom ⟨0x80⟩ = true ∧ ¬ TimeoutsExact tr := by
  constructor
  · refine ⟨_, _, rfl, rfl, fun hexact => ?_⟩
    have hlate := ((hexact [_, _] _ [] rfl 40000 65535 _ rfl rfl ⟨0x80⟩).1 _ rfl).1 (by decide)
    cases hlate.1
  · refine ⟨_, _, rfl, rfl, fun hexact => ?_⟩
    have hlate := ((hexact [_, _] _ [] rfl 40000 65535 _ rfl rfl ⟨0x80⟩).1 _ rfl).1 (by decide)
    cases hlate.1

end Reassembler

end SaeJ1939.Etp
