/-
  SaeJ1939.Schedule.Rate — the average rate of a schedule.

  After ticks of `T` milliseconds in total a timer should stand at `T`
  modulo its period, and, drained as it goes, its message should have been
  sent `T / period` times.  The timer is a saturating `u16`, so a tick
  that takes it past 65535 loses the rest.

  Main results:
    * `Followed.apply` — what one operation does to a message it does not
      name.
    * `Followed.drained_trace` — where no time is lost, the messages drained are
      the periods that passed.
    * `keepsRate_iff` — a run keeps the rate exactly if no tick of it
      loses time.
-/
import SaeJ1939.Schedule.Schedule

namespace SaeJ1939.Schedule

open Machine hiding Entry

variable {N : Nat}

/-! ## §1. Following one message along a run. -/

/-- An operation that neither names the message nor suspends. -/
def Op.Leaves (k : Key) : Op → Prop
  | .sendEvery pgn destination _ => (pgn, destination) ≠ k
  | .remove pgn destination => (pgn, destination) ≠ k
  | .clear => False
  | .suspend _ => False
  | _ => True

/-- The time an operation supplies. -/
def supply (e : Machine.Entry (Schedule N) Op Reply) : Nat :=
  match e.event with
  | .tick elapsedMs => elapsedMs
  | _ => 0

/-- The time supplied along a run. -/
def supplied (tr : List (Machine.Entry (Schedule N) Op Reply)) : Nat := (tr.map supply).sum

/-- The message has been drained. -/
def drains (k : Key) (e : Machine.Entry (Schedule N) Op Reply) : Bool :=
  decide (e.out = .drained (some ⟨k.1, k.2⟩))

/-- How often the message has been drained along a run. -/
def drained (k : Key) (tr : List (Machine.Entry (Schedule N) Op Reply)) : Nat :=
  tr.countP (drains k)

/-- The phase of a message. -/
def phase (s : Schedule N) (k : Key) : Nat := ((s.entry k).map Entry.elapsedMs).getD 0

/-- Whether a message is due. -/
def isDue (s : Schedule N) (k : Key) : Bool := ((s.entry k).map Entry.due).getD false

theorem supplied_snoc (tr : List (Machine.Entry (Schedule N) Op Reply))
    (e : Machine.Entry (Schedule N) Op Reply) : supplied (tr ++ [e]) = supplied tr + supply e := by
  unfold supplied
  rw [List.map_append, List.map_singleton, List.sum_append, List.sum_singleton]

theorem drained_snoc (k : Key) (tr : List (Machine.Entry (Schedule N) Op Reply))
    (e : Machine.Entry (Schedule N) Op Reply) :
    drained k (tr ++ [e]) = drained k tr + (if drains k e then 1 else 0) := by
  unfold drained
  rw [List.countP_append, List.countP_singleton]

/-- The schedule runs, and holds the message with its period. -/
structure Followed (k : Key) (p : Nat) (s : Schedule N) : Prop where
  wf : s.WF
  running : s.suspendedMs = 0
  entry : ∃ x, s.entry k = some x ∧ x.periodMs = p

theorem phase_eq {s : Schedule N} {k : Key} {x : Entry} (h : s.entry k = some x) :
    s.phase k = x.elapsedMs := by
  unfold phase
  rw [h]
  rfl

theorem isDue_eq {s : Schedule N} {k : Key} {x : Entry} (h : s.entry k = some x) :
    s.isDue k = x.due := by
  unfold isDue
  rw [h]
  rfl

theorem Followed.phase_lt {k : Key} {p : Nat} {s : Schedule N} (h : Followed k p s) :
    s.phase k < p := by
  obtain ⟨x, hx, rfl⟩ := h.entry
  rw [phase_eq hx]
  exact h.wf.elapsed_lt x (key_of_entryIn hx).2

/-- What one operation does to the phase of a message it does not name. -/
def nextPhase (p φ : Nat) : Op → Nat
  | .tick elapsedMs => min (φ + elapsedMs) 65535 % p
  | _ => φ

/-- Whether a message is due after an operation that does not name it. -/
def nextIsDue (k : Key) (p φ : Nat) (due : Bool) (reply : Reply) : Op → Bool
  | .tick elapsedMs => due || decide (p ≤ min (φ + elapsedMs) 65535)
  | .nextDue => due && !decide (reply = .drained (some ⟨k.1, k.2⟩))
  | _ => due

/-- **What one operation does to a message it does not name**: a tick
advances it, draining may take it, and nothing else touches it. -/
theorem Followed.apply {k : Key} {p : Nat} {s : Schedule N} (h : Followed k p s) {op : Op}
    (hop : op.Leaves k) :
    Followed k p (s.apply op).2
      ∧ (s.apply op).2.phase k = nextPhase p (s.phase k) op
      ∧ (s.apply op).2.isDue k = nextIsDue k p (s.phase k) (s.isDue k) (s.apply op).1 op
      ∧ ((s.apply op).1 = .drained (some ⟨k.1, k.2⟩) → op = .nextDue ∧ s.isDue k = true) := by
  obtain ⟨x, hx, hp⟩ := h.entry
  -- an operation that leaves the entry as it was
  have hsame : (s.apply op).2.suspendedMs = 0 → (s.apply op).2.entry k = some x →
      nextPhase p (s.phase k) op = s.phase k →
      nextIsDue k p (s.phase k) (s.isDue k) (s.apply op).1 op = s.isDue k →
      (s.apply op).1 ≠ .drained (some ⟨k.1, k.2⟩) →
      Followed k p (s.apply op).2
        ∧ (s.apply op).2.phase k = nextPhase p (s.phase k) op
        ∧ (s.apply op).2.isDue k = nextIsDue k p (s.phase k) (s.isDue k) (s.apply op).1 op
        ∧ ((s.apply op).1 = .drained (some ⟨k.1, k.2⟩) → op = .nextDue ∧ s.isDue k = true) := by
    intro hrun hentry hphase hdue hout
    refine ⟨⟨h.wf.apply op, hrun, x, hentry, hp⟩, ?_, ?_, fun h => absurd h hout⟩
    · rw [hphase, phase_eq hentry, phase_eq hx]
    · rw [hdue, isDue_eq hentry, isDue_eq hx]
  cases op with
  | sendEvery pgn destination periodMs =>
    refine hsame ?_ (entry_sendEvery h.wf hx hop periodMs) rfl rfl (fun h => by cases h)
    show (s.sendEvery pgn destination periodMs).2.suspendedMs = 0
    rcases s.sendEvery_cases pgn destination periodMs with
      ⟨e, ho⟩ | ⟨index, hlt, -, -, ho⟩ | ⟨-, -, -, ho⟩ <;> rw [ho] <;> exact h.running
  | remove pgn destination =>
    refine hsame ?_ (entry_remove hx hop) rfl rfl (fun h => by cases h)
    show (s.remove pgn destination).2.suspendedMs = 0
    rcases s.remove_cases pgn destination with ho | ⟨index, hlt, -, ho⟩ <;> rw [ho] <;>
      exact h.running
  | clear => exact absurd hop id
  | suspend timeoutMs => exact absurd hop id
  | resume => exact hsame rfl hx rfl rfl (fun h => by cases h)
  | tick elapsedMs =>
    have hentry : (s.apply (.tick elapsedMs)).2.entry k = some (x.advance elapsedMs) := by
      show (s.tick elapsedMs).2.entry k = _
      rw [entry_tick h.running, hx]
      rfl
    refine ⟨⟨h.wf.apply _, ?_, _, hentry, (advance_periodMs _ _).trans hp⟩, ?_, ?_,
      fun h => by cases h⟩
    · show (s.tick elapsedMs).2.suspendedMs = 0
      unfold Schedule.tick
      rw [if_neg (by rw [h.running]; decide)]
      exact h.running
    · rw [phase_eq hentry, phase_eq hx, advance_elapsedMs, hp]
      rfl
    · rw [isDue_eq hentry, isDue_eq hx, phase_eq hx, advance_due, hp]
      rfl
  | nextDue =>
    have hrun : s.nextDue.2.suspendedMs = 0 := by
      rcases s.nextDue_cases with ⟨-, ho⟩ | ⟨index, hlt, -, ho⟩ <;> rw [ho] <;> exact h.running
    rcases entry_nextDue h.wf hx with ⟨hout, hxdue, hentry⟩ | ⟨hout, hentry⟩
    · have hreply : (s.apply .nextDue).1 = .drained (some ⟨k.1, k.2⟩) := congrArg Reply.drained hout
      refine ⟨⟨h.wf.apply _, hrun, x.drop, hentry, hp⟩, ?_, ?_, fun _ => ⟨rfl, ?_⟩⟩
      · exact (phase_eq hentry).trans (phase_eq hx).symm
      · rw [hreply]
        refine (isDue_eq hentry).trans ?_
        show false = (s.isDue k && !decide (_ = _))
        rw [decide_eq_true rfl, Bool.not_true, Bool.and_false]
      · rw [isDue_eq hx, hxdue]
    · have hreply : (s.apply .nextDue).1 ≠ .drained (some ⟨k.1, k.2⟩) :=
        fun heq => hout (Reply.drained.inj heq)
      refine hsame hrun hentry rfl ?_ hreply
      show (s.isDue k && !decide ((s.apply .nextDue).1 = _)) = s.isDue k
      rw [decide_eq_false hreply, Bool.not_false, Bool.and_true]

/-! ## §2. Time that is lost, and time that is not. -/

/-- A tick that loses no time: the timer stays within its type, or what is
cut off is whole periods. -/
def Lossless (k : Key) (p : Nat) (e : Machine.Entry (Schedule N) Op Reply) : Prop :=
  ∀ elapsedMs, e.event = .tick elapsedMs →
    e.before.phase k + elapsedMs ≤ 65535 ∨ p ∣ e.before.phase k + elapsedMs - 65535

/-- Cutting off at 65535 loses no time exactly if it cuts whole periods. -/
theorem saturated_mod_iff {p n : Nat} :
    min n 65535 % p = n % p ↔ n ≤ 65535 ∨ p ∣ n - 65535 := by
  by_cases hle : n ≤ 65535
  · rw [Nat.min_eq_left hle]
    exact iff_of_true rfl (Or.inl hle)
  · have hge : 65535 ≤ n := by omega
    rw [Nat.min_eq_right hge]
    constructor
    · intro heq
      exact Or.inr ((Nat.modEq_iff_dvd' hge).mp heq)
    · rintro (h | h)
      · exact absurd h hle
      · exact (Nat.modEq_iff_dvd' hge).mpr h

/-- A tick of at most one period takes a timer past its period once, if at
all. -/
theorem div_add_tick {p n elapsedMs : Nat} (hpos : 0 < p) (hp : p ≤ 65535) (hle : elapsedMs ≤ p) :
    n / p + (if p ≤ min (n % p + elapsedMs) 65535 then 1 else 0) = (n + elapsedMs) / p := by
  have hmod : n % p < p := Nat.mod_lt n hpos
  have hsplit : n + elapsedMs = p * (n / p) + (n % p + elapsedMs) := by
    rw [← Nat.add_assoc, Nat.div_add_mod]
  rw [hsplit, Nat.mul_add_div hpos]
  congr 1
  by_cases hreach : p ≤ n % p + elapsedMs
  · rw [if_pos (le_min hreach hp)]
    exact (Nat.div_eq_of_lt_le (by omega) (by omega)).symm
  · rw [if_neg (fun h => hreach (h.trans (Nat.min_le_left _ _)))]
    exact (Nat.div_eq_of_lt (by omega)).symm

/-- **The rate law**, for a message that started at phase `φ`. -/
structure KeepsRate (k : Key) (p φ : Nat) (tr : List (Machine.Entry (Schedule N) Op Reply))
    (s : Schedule N) : Prop where
  /-- After every operation the timer stands at the time supplied, modulo
  the period. -/
  phase : ∀ pre e post, tr = pre ++ e :: post →
    e.after.phase k = (φ + supplied (pre ++ [e])) % p
  /-- With ticks of at most one period, each drained before the next, the
  messages drained are the periods that passed. -/
  count : (∀ e ∈ tr, ∀ elapsedMs, e.event = .tick elapsedMs →
      elapsedMs ≤ p ∧ e.before.isDue k = false) →
    s.isDue k = false → drained k tr = (φ + supplied tr) / p

section Runs

variable {k : Key} {p : Nat} {s₀ s : Schedule N}
  {tr : List (Machine.Entry (Schedule N) Op Reply)}

theorem Followed.trace (h₀ : Followed k p s₀) (htrace : Trace step s₀ tr s)
    (hops : ∀ e ∈ tr, e.event.Leaves k) : Followed k p s := by
  induction htrace with
  | nil => exact h₀
  | @snoc tr s s' op o htrace hstep ih =>
    have hs := ih fun e he => hops e (List.mem_append_left _ he)
    have hop : op.Leaves k := hops _ (List.mem_append_right _ (List.mem_singleton_self _))
    rw [(step_eq hstep).2]
    exact (hs.apply hop).1

/-- **Where no time is lost**, the timer stands at the time supplied,
modulo the period. -/
theorem Followed.phase_trace (h₀ : Followed k p s₀) (htrace : Trace step s₀ tr s)
    (hops : ∀ e ∈ tr, e.event.Leaves k) (hloss : ∀ e ∈ tr, Lossless k p e) :
    s.phase k = (s₀.phase k + supplied tr) % p := by
  induction htrace with
  | nil => exact (Nat.mod_eq_of_lt h₀.phase_lt).symm
  | @snoc tr s s' op o htrace hstep ih =>
    have hops' : ∀ e ∈ tr, e.event.Leaves k := fun e he => hops e (List.mem_append_left _ he)
    have hprev := ih hops' fun e he => hloss e (List.mem_append_left _ he)
    have hlast : (⟨s, op, o, s'⟩ : Machine.Entry (Schedule N) Op Reply)
        ∈ tr ++ [⟨s, op, o, s'⟩] := List.mem_append_right _ (List.mem_singleton_self _)
    obtain ⟨-, hphase, -, -⟩ := (h₀.trace htrace hops').apply (hops _ hlast)
    rw [(step_eq hstep).2, hphase, supplied_snoc]
    cases op with
    | tick elapsedMs =>
      show min (s.phase k + elapsedMs) 65535 % p = (s₀.phase k + (supplied tr + elapsedMs)) % p
      rw [saturated_mod_iff.mpr (hloss _ hlast elapsedMs rfl), hprev, Nat.mod_add_mod,
        Nat.add_assoc]
    | _ => exact hprev

/-- The rate law, read at the end of a run. -/
theorem Followed.phase_of_law (h₀ : Followed k p s₀) (htrace : Trace step s₀ tr s)
    (hlaw : ∀ pre e post, tr = pre ++ e :: post →
      e.after.phase k = (s₀.phase k + supplied (pre ++ [e])) % p) :
    s.phase k = (s₀.phase k + supplied tr) % p := by
  cases htrace with
  | nil => exact (Nat.mod_eq_of_lt h₀.phase_lt).symm
  | snoc _ _ => exact hlaw _ _ [] rfl

/-- **Where no time is lost**, and every tick is drained before the next,
the messages drained are the periods that passed. -/
theorem Followed.drained_trace (h₀ : Followed k p s₀) (htrace : Trace step s₀ tr s)
    (hops : ∀ e ∈ tr, e.event.Leaves k) (hloss : ∀ e ∈ tr, Lossless k p e)
    (hticks : ∀ e ∈ tr, ∀ elapsedMs, e.event = .tick elapsedMs →
      elapsedMs ≤ p ∧ e.before.isDue k = false) (hp : p ≤ 65535) (hidle : s₀.isDue k = false) :
    drained k tr + (if s.isDue k then 1 else 0) = (s₀.phase k + supplied tr) / p := by
  induction htrace with
  | nil =>
    rw [hidle]
    exact (Nat.div_eq_of_lt h₀.phase_lt).symm
  | @snoc tr s s' op o htrace hstep ih =>
    have hops' : ∀ e ∈ tr, e.event.Leaves k := fun e he => hops e (List.mem_append_left _ he)
    have hloss' : ∀ e ∈ tr, Lossless k p e := fun e he => hloss e (List.mem_append_left _ he)
    have hprev := ih hops' hloss' fun e he => hticks e (List.mem_append_left _ he)
    have hphase := h₀.phase_trace htrace hops' hloss'
    have hlast : (⟨s, op, o, s'⟩ : Machine.Entry (Schedule N) Op Reply)
        ∈ tr ++ [⟨s, op, o, s'⟩] := List.mem_append_right _ (List.mem_singleton_self _)
    have hfollowed := h₀.trace htrace hops'
    obtain ⟨-, -, hdue, hout⟩ := hfollowed.apply (hops _ hlast)
    obtain ⟨ho, hs'⟩ := step_eq hstep
    rw [hs', hdue, supplied_snoc, drained_snoc]
    show _ + (if decide (o = _) = true then 1 else 0) + _ = _
    rw [ho]
    cases op with
    | tick elapsedMs =>
      obtain ⟨hle, hnotDue⟩ := hticks _ hlast elapsedMs rfl
      have hlt := hfollowed.phase_lt
      have hdrain : decide ((s.apply (.tick elapsedMs)).1 = .drained (some ⟨k.1, k.2⟩)) = false :=
        decide_eq_false fun h => by cases h
      rw [hnotDue, if_neg Bool.false_ne_true, Nat.add_zero] at hprev
      rw [hdrain, if_neg Bool.false_ne_true]
      show drained k tr + 0
          + (if (s.isDue k || decide (p ≤ min (s.phase k + elapsedMs) 65535)) = true then 1 else 0)
        = (s₀.phase k + (supplied tr + elapsedMs)) / p
      rw [hnotDue, Bool.false_or, hprev, Nat.add_zero, ← Nat.add_assoc, hphase]
      simp only [decide_eq_true_eq]
      exact div_add_tick (Nat.zero_lt_of_lt hlt) hp hle
    | nextDue =>
      -- what is drained was due, and no longer is
      show drained k tr
          + (if decide ((s.apply .nextDue).1 = .drained (some ⟨k.1, k.2⟩)) = true then 1 else 0)
          + (if (s.isDue k && !decide ((s.apply .nextDue).1 = .drained (some ⟨k.1, k.2⟩))) = true
              then 1 else 0)
        = (s₀.phase k + (supplied tr + 0)) / p
      rw [Nat.add_zero, ← hprev]
      by_cases hdrained : (s.apply .nextDue).1 = .drained (some ⟨k.1, k.2⟩)
      · rw [decide_eq_true hdrained, (hout hdrained).2]
        rfl
      · rw [decide_eq_false hdrained, Bool.not_false, Bool.and_true]
        rfl
    | _ =>
      rw [decide_eq_false fun h => by cases (hout h).1]
      exact hprev

/-- **A run keeps the rate of a message exactly if no tick of it loses
time**, from any state a schedule can reach, for any message it holds. -/
theorem keepsRate_iff (hreach : Reachable step (Schedule.new : Schedule N) s₀)
    (hrunning : s₀.isSuspended = false) {x : Entry} (hx : s₀.entry k = some x)
    (hp : x.periodMs ≤ 65535) (hidle : x.due = false) (ops : List Op)
    (hops : ∀ op ∈ ops, op.Leaves k) :
    ∃ tr s, run step s₀ ops = .ok (tr, s)
      ∧ (KeepsRate k x.periodMs x.elapsedMs tr s ↔ ∀ e ∈ tr, Lossless k x.periodMs e) := by
  have hrun₀ : s₀.suspendedMs = 0 := by
    have hzero : ¬ s₀.suspendedMs > 0 := of_decide_eq_false hrunning
    omega
  have h₀ : Followed k x.periodMs s₀ := ⟨WF.of_reachable hreach, hrun₀, x, hx, rfl⟩
  have hphase₀ := phase_eq hx
  obtain ⟨tr, s, hrun⟩ := run_returns s₀ ops
  obtain ⟨htrace, hevents⟩ := run_trace hrun
  have hleaves : ∀ e ∈ tr, e.event.Leaves k := by
    intro e he
    refine hops e.event ?_
    rw [← hevents]
    exact List.mem_map_of_mem he
  refine ⟨tr, s, hrun, ?_, ?_⟩
  · intro hkeeps e he elapsedMs hevent
    obtain ⟨pre, post, rfl⟩ := List.append_of_mem he
    obtain ⟨hpre, hstep⟩ := htrace.split
    have hmem : ∀ y ∈ pre, y ∈ pre ++ e :: post := fun y hy => List.mem_append_left _ hy
    -- the law holds before the tick and after it
    have hbefore : e.before.phase k = (x.elapsedMs + supplied pre) % x.periodMs := by
      rw [← hphase₀]
      refine h₀.phase_of_law hpre ?_
      rintro pre' y post' rfl
      rw [hphase₀]
      exact hkeeps.phase pre' y (post' ++ e :: post) (by rw [List.append_assoc, List.cons_append])
    have hafter := hkeeps.phase pre e post rfl
    have hfollowed := h₀.trace hpre fun y hy => hleaves y (hmem y hy)
    obtain ⟨-, hphase, -, -⟩ := hfollowed.apply (hleaves e he)
    rw [(step_eq hstep).2, hphase, hevent, supplied_snoc, ← Nat.add_assoc, ← Nat.mod_add_mod,
      ← hbefore] at hafter
    have hsupply : supply e = elapsedMs := by
      unfold supply
      rw [hevent]
    rw [hsupply] at hafter
    exact saturated_mod_iff.mp hafter
  · intro hloss
    refine ⟨?_, ?_⟩
    · rintro pre e post rfl
      obtain ⟨hpre, hstep⟩ := htrace.split
      have hmem : ∀ y ∈ pre ++ [e], y ∈ pre ++ e :: post := by
        intro y hy
        rw [← List.singleton_append, ← List.append_assoc]
        exact List.mem_append_left _ hy
      rw [← hphase₀]
      exact h₀.phase_trace (hpre.snoc hstep) (fun y hy => hleaves y (hmem y hy))
        fun y hy => hloss y (hmem y hy)
    · intro hticks hdone
      have hcount := h₀.drained_trace htrace hleaves hloss hticks hp ((isDue_eq hx).trans hidle)
      rw [hdone, hphase₀] at hcount
      exact hcount

end Runs

/-- DM1, broadcast. -/
def dm1Key : Key := (Pgn.newMasked 0xFECA, Address.global)

/-- A schedule that broadcasts DM1 with a given period. -/
def onlyDm1 (periodMs : Nat) : Schedule 1 :=
  ((Schedule.new : Schedule 1).broadcastEvery dm1Key.1 periodMs).2

/-- Two ticks of a message every ten milliseconds. -/
theorem keepsRate_iff_ten : ∃ tr s,
    run step (onlyDm1 10) [.tick 7, .tick 6, .nextDue] = .ok (tr, s)
      ∧ (KeepsRate dm1Key 10 0 tr s ↔ ∀ e ∈ tr, Lossless dm1Key 10 e) :=
  keepsRate_iff ⟨[.sendEvery dm1Key.1 Address.global 10], _, rfl⟩ rfl
    (x := ⟨dm1Key.1, Address.global, 10, 0, false⟩) (by decide) (by decide) rfl
    [.tick 7, .tick 6, .nextDue] (by
      intro op hop
      simp only [List.mem_cons, List.not_mem_nil, or_false] at hop
      rcases hop with rfl | rfl | rfl <;> exact trivial)

/-- Three ticks of fifty seconds, each drained, for a message every
minute: the phase is wrong after the second, and of the two messages due
one is sent. -/
theorem rate_lost : ∃ tr s,
    run step (onlyDm1 60000)
        [.tick 50000, .nextDue, .tick 50000, .nextDue, .tick 50000, .nextDue] = .ok (tr, s)
      ∧ (((onlyDm1 60000).tick 50000).2.tick 50000).2.phase dm1Key ≠ (50000 + 50000) % 60000
      ∧ drained dm1Key tr ≠ (50000 + 50000 + 50000) / 60000 :=
  ⟨_, _, rfl, by decide, by decide⟩

end SaeJ1939.Schedule
