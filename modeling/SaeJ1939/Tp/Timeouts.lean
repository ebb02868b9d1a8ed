/-
  SaeJ1939.Tp.Timeouts — when a reassembler gives a session up.

  A session is given up at a tick.  What a tick does is compared with the
  history: the time supplied since the session was opened or its last
  packet was taken in.  The idle counter is a `u16` that saturates, and is
  compared strictly, so the largest timeout a `u16` can hold is never
  exceeded.

  Main results:
    * `clocked` — the idle counter is the time accumulated, up to the cap.
    * `timeouts_exact_iff` — ticks give up exactly the sessions whose time
      exceeds the timeout, unless a timeout at the cap meets a session
      that is older still.
-/
import SaeJ1939.Tp.Handshake
import SaeJ1939.Lib.Ageing

namespace SaeJ1939.Tp

namespace Reassembler

open Checked Machine Ageing

variable {N SESSIONS : Nat}

/-! ## §1. The age of a session. -/

/-- A call that brings the packet `peer`'s session expects next. -/
def advances (peer : Address) (e : Entry N SESSIONS) : Bool :=
  match e.event with
  | .tpDt source dt =>
      source = peer && (e.before.transferOf peer).any fun t => dt.sequence == t.session.nextSequence
  | .tpCm .. | .tick .. | .abandon .. | .reset => false

/-- A call that opens `peer`'s session, or with which it makes progress. -/
def restarts (peer : Address) (e : Entry N SESSIONS) : Bool := accepts peer e || advances peer e

/-- The time since `peer`'s session was opened or last made progress. -/
def idleTime (peer : Address) (tr : List (Entry N SESSIONS)) : Nat :=
  accumulated (restarts peer) Call.elapsed tr

/-- The idle counter of `peer`'s session. -/
def idleOf (peer : Address) (r : Reassembler N SESSIONS) : Option Nat :=
  (r.transferOf peer).map fun t => t.session.idleMs

/-! ## §2. What a tick should do. -/

/-- A session has been abandoned at a tick: its slot is free, and its
peer is reported once, with an abort that names the group if there is a
back-channel. -/
def Abandoned (peer : Address) (s : Session) (after : Reassembler N SESSIONS)
    (reports : List Timeout) : Prop :=
  after.transferOf peer = none ∧ reports.filter (fun report => report.1 = peer)
    = [(peer, if s.broadcast then none else some (.abort .timeout s.pgn))]

/-- A session is untouched by a tick but for its idle counter, and its
peer is not reported. -/
def Untouched (peer : Address) (t : Transfer) (after : Reassembler N SESSIONS)
    (reports : List Timeout) : Prop :=
  (∃ idleMs, after.transferOf peer = some { t with session := { t.session with idleMs } })
    ∧ reports.filter (fun report => report.1 = peer) = []

/-- Every tick abandons the sessions whose time exceeds its timeout, leaves
the others untouched, and reports no other peer. -/
def TimeoutsExact (tr : List (Entry N SESSIONS)) : Prop :=
  ∀ pre (e : Entry N SESSIONS) post, tr = pre ++ e :: post →
    ∀ elapsedMs timeoutMs reports, e.event = .tick elapsedMs timeoutMs →
      e.out = .timeouts reports → ∀ peer,
        (∀ t, e.before.transferOf peer = some t →
          (timeoutMs < idleTime peer (pre ++ [e]) → Abandoned peer t.session e.after reports)
            ∧ (idleTime peer (pre ++ [e]) ≤ timeoutMs → Untouched peer t e.after reports))
          ∧ (e.before.transferOf peer = none → e.after.transferOf peer = none
            ∧ reports.filter (fun report => report.1 = peer) = [])

/-- No tick with a timeout at the cap of the counter finds a session whose
time exceeds it. -/
def BelowCap (tr : List (Entry N SESSIONS)) : Prop :=
  ∀ pre (e : Entry N SESSIONS) post, tr = pre ++ e :: post →
    ∀ elapsedMs timeoutMs, e.event = .tick elapsedMs timeoutMs → 2 ^ 16 - 1 ≤ timeoutMs →
      ∀ peer t, e.before.transferOf peer = some t → idleTime peer (pre ++ [e]) ≤ timeoutMs

/-! ## §3. One call. -/

variable {r r' : Reassembler N SESSIONS} {c : Call} {reply : Reply} {peer : Address}

/-- **A packet that leaves a session open** is the one expected next, and
starts its counter over. -/
theorem onDt_idle {t : Option Transfer} {dt : TpDt} {t' : Transfer}
    (h : (Transfer.onDt t dt).2 = some t') :
    t'.session.idleMs = 0 ∧ t.any (fun t => dt.sequence == t.session.nextSequence) = true := by
  obtain ⟨t₀, rfl, -, hseq, -⟩ := onDt_some h
  refine ⟨?_, by rw [Option.any_some, hseq, beq_self_eq_true]⟩
  unfold Transfer.onDt at h
  dsimp only at h
  rw [if_neg (not_not_intro hseq)] at h
  split at h
  next => cases h
  next =>
    split at h
    next =>
      injection h with h
      rw [← h]
      rfl
    next =>
      injection h with h
      rw [← h]
      rfl

/-- A tick that keeps a session adds to its counter. -/
theorem onTick_idle {elapsedMs timeoutMs : Nat} {t : Option Transfer} {t' : Transfer}
    (h : (Transfer.onTick elapsedMs timeoutMs t).2 = some t') :
    ∃ t₀, t = some t₀ ∧ t'.session.idleMs = saturatingAdd 16 t₀.session.idleMs elapsedMs := by
  cases t with
  | none => cases h
  | some t₀ =>
    refine ⟨t₀, rfl, ?_⟩
    unfold Transfer.onTick at h
    dsimp only at h
    split at h
    next =>
      injection h with h
      rw [← h]
    next => cases h

/-- **Every call ages every session** by the time it supplies, or starts
its counter over. -/
theorem ages (hr : r.WF) (hstep : step r c = .ok (reply, r')) (peer : Address) :
    Ages (idleOf peer) (restarts peer) Call.elapsed (2 ^ 16 - 1) ⟨r, c, reply, r'⟩ := by
  intro k hk
  obtain ⟨t', ht', rfl⟩ := Option.map_eq_some_iff.mp hk
  obtain ⟨-, hall⟩ := hr.step hstep
  obtain ⟨hafter, hseen⟩ := hall peer
  -- a call that leaves the session alone takes no time
  have hsame : r'.transferOf peer = r.transferOf peer → Call.elapsed c = 0 →
      restarts peer ⟨r, c, reply, r'⟩ = false →
      restarts peer ⟨r, c, reply, r'⟩ = true ∧ t'.session.idleMs = 0
        ∨ restarts peer ⟨r, c, reply, r'⟩ = false ∧ ∃ k₀, idleOf peer r = some k₀
          ∧ (Call.elapsed c = 0 ∧ t'.session.idleMs = k₀
            ∨ t'.session.idleMs = min (k₀ + Call.elapsed c) (2 ^ 16 - 1)) := by
    intro hkeep hzero hrestart
    refine Or.inr ⟨hrestart, t'.session.idleMs, ?_, Or.inl ⟨hzero, rfl⟩⟩
    unfold idleOf
    rw [← hkeep, ht']
    rfl
  cases c with
  | tpCm source cm =>
    have hno : ∀ b, (b || advances peer ⟨r, .tpCm source cm, reply, r'⟩) = b :=
      fun b => Bool.or_false b
    by_cases hsrc : source = peer
    · subst hsrc
      simp only [Transfer.onCall, if_true] at hafter
      simp only [step, Except.ok.injEq, Prod.mk.injEq] at hstep
      obtain ⟨rfl, rfl⟩ := hstep
      simp only [seen, Call.concerns, Transfer.answer, decide_true, if_true, Reply.about,
        Option.some.injEq] at hseen
      rcases accepted_or_kept_tpCm hafter hseen with
        ⟨hacc, t₁, ht₁, -, -, -, hidle⟩ | ⟨hacc, hkept⟩
      · rw [ht', Option.some.injEq] at ht₁
        subst ht₁
        exact Or.inl ⟨by rw [restarts, hacc, Bool.true_or], hidle⟩
      · exact hsame (ht'.trans (hkept t' ht').symm) rfl ((hno _).trans hacc)
    · simp only [Transfer.onCall, hsrc, if_false] at hafter
      exact hsame hafter rfl ((hno _).trans (accepts_of_ne hsrc))
  | tpDt source dt =>
    by_cases hsrc : source = peer
    · subst hsrc
      simp only [Transfer.onCall, if_true] at hafter
      rw [hafter] at ht'
      obtain ⟨hidle, hnext⟩ := onDt_idle ht'
      refine Or.inl ⟨?_, hidle⟩
      show (false || (decide (source = source) && _)) = true
      rw [decide_eq_true rfl, Bool.true_and, Bool.false_or]
      exact hnext
    · simp only [Transfer.onCall, hsrc, if_false] at hafter
      refine hsame hafter rfl ?_
      show (false || (decide (source = peer) && _)) = false
      rw [decide_eq_false hsrc, Bool.false_and, Bool.or_false]
  | tick elapsedMs timeoutMs =>
    simp only [Transfer.onCall] at hafter
    rw [hafter] at ht'
    obtain ⟨t₀, ht₀, hidle⟩ := onTick_idle ht'
    refine Or.inr ⟨rfl, t₀.session.idleMs, ?_, Or.inr hidle⟩
    show (r.transferOf peer).map _ = _
    rw [ht₀]
    rfl
  | abandon source =>
    by_cases hsrc : source = peer
    · simp only [Transfer.onCall, hsrc, if_true] at hafter
      rw [hafter] at ht'
      cases ht'
    · simp only [Transfer.onCall, hsrc, if_false] at hafter
      exact hsame hafter rfl rfl
  | reset =>
    simp only [Transfer.onCall] at hafter
    rw [hafter] at ht'
    cases ht'

/-! ## §4. Whole runs. -/

variable {tr : List (Entry N SESSIONS)}

theorem wf_of_trace (ht : Trace step new tr r) : r.WF :=
  ht.invariant (fun _ _ _ _ hs hstep => (hs.step hstep).1) wf_new

/-- **The idle counter is the time accumulated**, as far as a `u16`
goes. -/
theorem clocked (ht : Trace step new tr r) {peer : Address} {t : Transfer}
    (h : r.transferOf peer = some t) :
    t.session.idleMs = min (idleTime peer tr) (2 ^ 16 - 1) := by
  have hidle : idleOf peer r = some t.session.idleMs := by
    unfold idleOf
    rw [h]
    rfl
  refine aged ?_ ht (fun e he => ?_) hidle
  · unfold idleOf
    rw [transferOf_new]
    rfl
  · obtain ⟨pre, post, rfl⟩ := List.append_of_mem he
    obtain ⟨hpre, hstep⟩ := ht.split
    exact ages (wf_of_trace hpre) hstep peer

/-- A tick adds to the time of every session. -/
theorem idleTime_tick {e : Entry N SESSIONS} {elapsedMs timeoutMs : Nat}
    (hev : e.event = .tick elapsedMs timeoutMs) (peer : Address) :
    idleTime peer (tr ++ [e]) = idleTime peer tr + elapsedMs := by
  have hrestart : restarts peer e = false := by
    unfold restarts accepts advances
    rw [hev]
    rfl
  unfold idleTime
  rw [accumulated_snoc_not hrestart, hev]
  rfl

/-- A session is not both untouched and abandoned. -/
theorem Untouched.not_abandoned {t : Transfer} {reports : List Timeout}
    (h : Untouched peer t r reports) : ¬ Abandoned peer t.session r reports := by
  rintro ⟨hgone, -⟩
  obtain ⟨⟨idleMs, hkept⟩, -⟩ := h
  rw [hgone] at hkept
  cases hkept

/-- **What a tick does to each peer**, by the time accumulated. -/
theorem tick_entry {pre post : List (Entry N SESSIONS)} {e : Entry N SESSIONS}
    (ht : Trace step new (pre ++ e :: post) r) {elapsedMs timeoutMs : Nat}
    (hev : e.event = .tick elapsedMs timeoutMs) (peer : Address) :
    ∃ reports, e.out = .timeouts reports
      ∧ (∀ t, e.before.transferOf peer = some t →
        if min (idleTime peer (pre ++ [e])) (2 ^ 16 - 1) ≤ timeoutMs then
          Untouched peer t e.after reports
        else Abandoned peer t.session e.after reports)
      ∧ (e.before.transferOf peer = none → e.after.transferOf peer = none
        ∧ reports.filter (fun report => report.1 = peer) = []) := by
  obtain ⟨hpre, hstep⟩ := ht.split
  rw [hev] at hstep
  injection hstep with hstep
  injection hstep with hout hafter
  obtain ⟨htransfer, hreports⟩ := (tick_refines (wf_of_trace hpre) elapsedMs timeoutMs).2 peer
  rw [hafter] at htransfer
  refine ⟨_, hout.symm, fun t ht => ?_, fun hnone => ?_⟩
  · have hidle := clocked hpre ht
    have hsource := source_of_transferOf ht
    have hage : saturatingAdd 16 t.session.idleMs elapsedMs
        = min (idleTime peer (pre ++ [e])) (2 ^ 16 - 1) := by
      rw [idleTime_tick hev]
      unfold saturatingAdd
      omega
    rw [ht] at htransfer hreports
    unfold Transfer.onTick at htransfer hreports
    dsimp only at htransfer hreports
    rw [hage] at htransfer hreports
    split
    next hle =>
      rw [if_pos hle] at htransfer hreports
      exact ⟨⟨_, htransfer⟩, hreports⟩
    next hgt =>
      rw [if_neg hgt] at htransfer hreports
      refine ⟨htransfer, hreports.trans ?_⟩
      rw [hsource]
      cases t.session.broadcast <;> rfl
  · rw [hnone] at htransfer hreports
    exact ⟨htransfer, hreports⟩

/-- **Ticks are exact, below the cap**: in a run of a reassembler from its
start they give up exactly the sessions whose time exceeds the timeout,
exactly if no tick with a timeout of at least `0xFFFF` finds a session
whose time exceeds it. -/
theorem timeouts_exact_iff {calls : List Call} (hrun : Machine.run step new calls = .ok (tr, r)) :
    TimeoutsExact tr ↔ BelowCap tr := by
  obtain ⟨htrace, -⟩ := run_trace hrun
  constructor
  · intro hexact pre e post htr elapsedMs timeoutMs hev hcap peer t ht
    obtain ⟨reports, hout, htick, -⟩ := tick_entry (htr ▸ htrace) hev peer
    have hboth := (hexact pre e post htr elapsedMs timeoutMs reports hev hout peer).1 t ht
    exact (exact_iff Untouched.not_abandoned (htick t ht)).mp hboth hcap
  · intro hbelow pre e post htr elapsedMs timeoutMs reports hev hout peer
    obtain ⟨reports', hout', htick, hnone⟩ := tick_entry (htr ▸ htrace) hev peer
    rw [hout] at hout'
    injection hout' with hout'
    subst hout'
    refine ⟨fun t ht => (exact_iff Untouched.not_abandoned (htick t ht)).mpr fun hcap => ?_, hnone⟩
    exact hbelow pre e post htr elapsedMs timeoutMs hev hcap peer t ht

end Reassembler

end SaeJ1939.Tp
