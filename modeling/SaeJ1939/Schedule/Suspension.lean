/-
  SaeJ1939.Schedule.Suspension — being told to be quiet, for as long as
  asked and no longer.

  While the suspension runs a tick only counts it down, so the timers of
  the messages stand still; whatever else is asked meanwhile, a message
  that is neither removed nor given a new period is found as it was left.

  Main results:
    * `suspendedMs_apply` — no operation but suspending and resuming
      touches the suspension, except a tick, which counts it down.
    * `entry_apply_suspended` — what one operation does, during a
      suspension, to a message that stays registered.
    * `suspension_lasts` — a suspension lasts exactly as asked, and leaves
      no backlog.
-/
import SaeJ1939.Schedule.Invariant

namespace SaeJ1939.Schedule

open Machine hiding Entry

variable {N : Nat}

/-! ## §1. One operation during a suspension. -/

/-- An operation other than suspending and resuming. -/
def Op.keepsSuspension : Op → Bool
  | .suspend _ => false
  | .resume => false
  | _ => true

/-- **What happens to a suspension**: a tick counts it down, and nothing
but suspending and resuming touches it otherwise. -/
theorem suspendedMs_apply (s : Schedule N) {op : Op} (hop : op.keepsSuspension = true) :
    (s.apply op).2.suspendedMs
      = s.suspendedMs - supply ⟨s, op, (s.apply op).1, (s.apply op).2⟩ := by
  cases op with
  | sendEvery pgn destination periodMs =>
    show (s.sendEvery pgn destination periodMs).2.suspendedMs = s.suspendedMs
    rcases s.sendEvery_cases pgn destination periodMs with
      ⟨e, ho⟩ | ⟨index, hlt, -, -, ho⟩ | ⟨-, -, -, ho⟩ <;> rw [ho]
  | remove pgn destination =>
    show (s.remove pgn destination).2.suspendedMs = s.suspendedMs
    rcases s.remove_cases pgn destination with ho | ⟨index, hlt, -, ho⟩ <;> rw [ho]
  | clear => rfl
  | tick elapsedMs =>
    show (s.tick elapsedMs).2.suspendedMs = s.suspendedMs - elapsedMs
    unfold tick
    by_cases hsusp : s.suspendedMs > 0
    · rw [if_pos hsusp]
    · rw [if_neg hsusp]
      show s.suspendedMs = _
      omega
  | nextDue =>
    show s.nextDue.2.suspendedMs = s.suspendedMs
    rcases s.nextDue_cases with ⟨-, ho⟩ | ⟨index, hlt, -, ho⟩ <;> rw [ho]
  | suspend timeoutMs => cases hop
  | resume => cases hop

/-- During a suspension a tick answers that nothing is waiting. -/
theorem tick_suspended {s : Schedule N} (hsusp : s.isSuspended = true) (elapsedMs : Nat) :
    s.tick elapsedMs = (0, { s with suspendedMs := s.suspendedMs - elapsedMs }) :=
  if_pos (of_decide_eq_true hsusp)

/-- During a suspension there is nothing to drain. -/
theorem WF.nextDue_suspended {s : Schedule N} (h : s.WF) (hsusp : s.isSuspended = true) :
    s.nextDue = (none, s) := by
  rcases s.nextDue_cases with ⟨-, ho⟩ | ⟨index, hlt, hdue, -⟩
  · exact ho
  · have hquiet := h.quiet hsusp _ (List.getElem_mem hlt)
    exact absurd (hquiet.symm.trans hdue) Bool.false_ne_true

/-- A step of a run that leaves a message registered and does not change
its period. -/
def Keeps (k : Key) (e : Machine.Entry (Schedule N) Op Reply) : Prop :=
  e.after.contains k.1 k.2 = true
    ∧ ∀ periodMs, e.event = .sendEvery k.1 k.2 periodMs → e.out ≠ .registered (.ok ())

/-- **What one operation does, during a suspension, to a message that
stays registered**: nothing. -/
theorem entry_apply_suspended {s : Schedule N} (h : s.WF) (hsusp : s.isSuspended = true) {op : Op}
    (hop : op.keepsSuspension = true) {k : Key} {x : Entry} (hx : s.entry k = some x)
    (hkeeps : Keeps k ⟨s, op, (s.apply op).1, (s.apply op).2⟩) :
    (s.apply op).2.entry k = some x := by
  obtain ⟨hcontains, htimed⟩ := hkeeps
  cases op with
  | sendEvery pgn destination periodMs =>
    show (s.sendEvery pgn destination periodMs).2.entry k = some x
    by_cases hk : (pgn, destination) = k
    · -- a registration of this message has been refused
      have hrefused : (s.sendEvery pgn destination periodMs).1 ≠ .ok () := by
        intro hok
        refine htimed periodMs ?_ (congrArg Reply.registered hok)
        show Op.sendEvery pgn destination periodMs = _
        rw [← hk]
      rcases s.sendEvery_cases pgn destination periodMs with
        ⟨e, ho⟩ | ⟨index, hlt, -, -, ho⟩ | ⟨-, -, -, ho⟩
      · rw [ho]
        exact hx
      · exact absurd (congrArg Prod.fst ho) hrefused
      · exact absurd (congrArg Prod.fst ho) hrefused
    · exact entry_sendEvery h hx hk periodMs
  | remove pgn destination =>
    show (s.remove pgn destination).2.entry k = some x
    have hmem : k ∈ (s.remove pgn destination).2.entries.map Entry.key := contains_iff.mp hcontains
    rw [keys_remove h] at hmem
    -- what has been removed is not registered any more
    have hk : (pgn, destination) ≠ k := by
      rintro rfl
      exact h.nodup.not_mem_erase hmem
    exact entry_remove hx hk
  | clear => exact absurd (contains_iff.mp hcontains) List.not_mem_nil
  | tick elapsedMs =>
    show (s.tick elapsedMs).2.entry k = some x
    rw [tick_suspended hsusp]
    exact hx
  | nextDue =>
    show s.nextDue.2.entry k = some x
    rw [h.nextDue_suspended hsusp]
    exact hx
  | suspend timeoutMs => cases hop
  | resume => cases hop

/-! ## §2. Suspended, for as long as asked. -/

/-- **What a suspension of `timeoutMs` should be** along a run that
neither renews nor ends it, `s₀` being the schedule before it. -/
structure LastsFor (timeoutMs : Nat) (s₀ : Schedule N)
    (tr : List (Machine.Entry (Schedule N) Op Reply)) (s : Schedule N) : Prop where
  /-- Until the time is over nothing is announced and nothing handed out. -/
  silent : ∀ pre e post, tr = pre ++ e :: post → supplied pre < timeoutMs →
    (∀ elapsedMs, e.event = .tick elapsedMs → e.out = .waiting 0)
      ∧ (e.event = .nextDue → e.out = .drained none)
  /-- As long as time is left, and no longer, the schedule is suspended. -/
  suspended : s.isSuspended = decide (supplied tr < timeoutMs)
  /-- And it says how much is left. -/
  left : s.resumesInMs = if supplied tr < timeoutMs then some (timeoutMs - supplied tr) else none
  /-- Up to and with the step that ends it, nothing becomes due, and what
  stays registered with its period stays in its phase. -/
  resumed : (∀ pre e post, tr = pre ++ e :: post → supplied pre < timeoutMs) →
    (∀ k, s.isDue k = false)
      ∧ ∀ k x, s₀.entry k = some x → (∀ e ∈ tr, Keeps k e) → s.entry k = some x.drop

section Runs

variable {s₀ s : Schedule N} {timeoutMs : Nat}
  {tr : List (Machine.Entry (Schedule N) Op Reply)}

theorem entry_suspend {k : Key} {x : Entry} (hx : s₀.entry k = some x) :
    (s₀.suspend timeoutMs).entry k = some x.drop := by
  unfold entry
  show entryIn (s₀.entries.map Entry.drop) k = some x.drop
  rw [entryIn_map drop_key]
  show (s₀.entry k).map Entry.drop = some x.drop
  rw [hx]
  rfl

/-- What is left of a suspension is what the ticks have not used up. -/
theorem suspendedMs_trace (htrace : Trace step (s₀.suspend timeoutMs) tr s)
    (hops : ∀ e ∈ tr, e.event.keepsSuspension = true) :
    s.suspendedMs = timeoutMs - supplied tr := by
  induction htrace with
  | nil => rfl
  | @snoc tr s s' op o htrace hstep ih =>
    have hprev := ih fun e he => hops e (List.mem_append_left _ he)
    have hop : op.keepsSuspension = true :=
      hops _ (List.mem_append_right _ (List.mem_singleton_self _))
    obtain ⟨rfl, rfl⟩ := step_eq hstep
    rw [suspendedMs_apply s hop, hprev, supplied_snoc]
    omega

/-- A schedule that has time left is suspended. -/
theorem isSuspended_eq (htrace : Trace step (s₀.suspend timeoutMs) tr s)
    (hops : ∀ e ∈ tr, e.event.keepsSuspension = true) :
    s.isSuspended = decide (supplied tr < timeoutMs) := by
  unfold isSuspended
  rw [suspendedMs_trace htrace hops]
  exact decide_eq_decide.mpr (by omega)

/-- **Nothing becomes due during a suspension**, the step that ends it
included. -/
theorem isDue_trace (h₀ : s₀.WF) (htrace : Trace step (s₀.suspend timeoutMs) tr s)
    (hops : ∀ e ∈ tr, e.event.keepsSuspension = true)
    (htime : ∀ pre e post, tr = pre ++ e :: post → supplied pre < timeoutMs) (k : Key) :
    s.isDue k = false := by
  induction htrace with
  | nil =>
    cases hdue : (s₀.suspend timeoutMs).isDue k with
    | false => rfl
    | true =>
      obtain ⟨e, he, -, hedue⟩ := (h₀.suspend timeoutMs).isDue_iff.mp hdue
      obtain ⟨e₀, -, rfl⟩ := List.mem_map.mp he
      exact absurd hedue Bool.false_ne_true
  | @snoc tr s s' op o htrace hstep ih =>
    have hops' : ∀ e ∈ tr, e.event.keepsSuspension = true :=
      fun e he => hops e (List.mem_append_left _ he)
    have hbefore := ih hops' fun pre e post heq =>
      htime pre e (post ++ [⟨s, op, o, s'⟩]) (by rw [heq, List.append_assoc, List.cons_append])
    have hsusp : s.isSuspended = true := by
      rw [isSuspended_eq htrace hops']
      exact decide_eq_true (htime tr _ [] rfl)
    have horderly := Orderly.of_mem (h₀.suspend timeoutMs) (htrace.snoc hstep)
      (List.mem_append_right _ (List.mem_singleton_self _))
    cases hafter : s'.isDue k with
    | false => rfl
    | true =>
      -- only a running schedule makes a message due
      obtain ⟨hrunning, -⟩ := horderly.rises k hbefore hafter
      exact absurd (hrunning.symm.trans hsusp) Bool.false_ne_true

/-- **A message that stays registered stays in its phase** during a
suspension, the step that ends it included. -/
theorem entry_trace (h₀ : s₀.WF) (htrace : Trace step (s₀.suspend timeoutMs) tr s)
    (hops : ∀ e ∈ tr, e.event.keepsSuspension = true)
    (htime : ∀ pre e post, tr = pre ++ e :: post → supplied pre < timeoutMs) {k : Key} {x : Entry}
    (hx : s₀.entry k = some x) (hkeeps : ∀ e ∈ tr, Keeps k e) : s.entry k = some x.drop := by
  induction htrace with
  | nil => exact entry_suspend hx
  | @snoc tr s s' op o htrace hstep ih =>
    have hops' : ∀ e ∈ tr, e.event.keepsSuspension = true :=
      fun e he => hops e (List.mem_append_left _ he)
    have hbefore := ih hops' (fun pre e post heq =>
      htime pre e (post ++ [⟨s, op, o, s'⟩]) (by rw [heq, List.append_assoc, List.cons_append]))
      fun e he => hkeeps e (List.mem_append_left _ he)
    have hsusp : s.isSuspended = true := by
      rw [isSuspended_eq htrace hops']
      exact decide_eq_true (htime tr _ [] rfl)
    have hlast : (⟨s, op, o, s'⟩ : Machine.Entry (Schedule N) Op Reply)
        ∈ tr ++ [⟨s, op, o, s'⟩] := List.mem_append_right _ (List.mem_singleton_self _)
    have hop := hops _ hlast
    have hkeep := hkeeps _ hlast
    obtain ⟨rfl, rfl⟩ := step_eq hstep
    exact entry_apply_suspended ((h₀.suspend timeoutMs).of_trace htrace) hsusp hop hbefore hkeep

end Runs

/-- **A suspension lasts exactly as asked**, from every schedule that can
be reached, whatever is asked of it meanwhile but to suspend or to
resume. -/
theorem suspension_lasts (N : Nat) (earlier : List Op) (timeoutMs : Nat) (ops : List Op)
    (hops : ∀ op ∈ ops, op.keepsSuspension = true) :
    ∃ tr₀ s₀ tr s, run step (Schedule.new : Schedule N) earlier = .ok (tr₀, s₀)
      ∧ run step (s₀.suspend timeoutMs) ops = .ok (tr, s)
      ∧ LastsFor timeoutMs s₀ tr s := by
  obtain ⟨tr₀, s₀, hrun₀⟩ := run_returns (Schedule.new : Schedule N) earlier
  obtain ⟨tr, s, hrun⟩ := run_returns (s₀.suspend timeoutMs) ops
  have hwf : s₀.WF := WF.new.of_trace (run_trace hrun₀).1
  obtain ⟨htrace, hevents⟩ := run_trace hrun
  have hkept : ∀ e ∈ tr, e.event.keepsSuspension = true := by
    intro e he
    refine hops e.event ?_
    rw [← hevents]
    exact List.mem_map_of_mem he
  refine ⟨tr₀, s₀, tr, s, hrun₀, hrun, ⟨?_, isSuspended_eq htrace hkept, ?_, ?_⟩⟩
  · intro pre e post htr htime
    subst htr
    obtain ⟨hpre, hstep⟩ := htrace.split
    have hsusp : e.before.isSuspended = true := by
      rw [isSuspended_eq hpre fun y hy => hkept y (List.mem_append_left _ hy)]
      exact decide_eq_true htime
    obtain ⟨hout, -⟩ := step_eq hstep
    constructor
    · intro elapsedMs hevent
      rw [hout, hevent]
      show Reply.waiting (e.before.tick elapsedMs).1 = _
      rw [tick_suspended hsusp]
    · intro hevent
      rw [hout, hevent]
      show Reply.drained e.before.nextDue.1 = _
      rw [((hwf.suspend timeoutMs).of_trace hpre).nextDue_suspended hsusp]
  · unfold resumesInMs
    rw [suspendedMs_trace htrace hkept]
    by_cases htime : supplied tr < timeoutMs
    · rw [if_pos htime, if_pos (by omega)]
    · rw [if_neg htime, if_neg (by omega)]
  · intro htime
    exact ⟨isDue_trace hwf htrace hkept htime,
      fun k x hx hkeeps => entry_trace hwf htrace hkept htime hx hkeeps⟩

/-- DM1 every ten milliseconds, suspended at phase seven for five. -/
theorem suspension_lasts_five : ∃ tr₀ s₀ tr s,
    run step (Schedule.new : Schedule 1) [.sendEvery dm1Key.1 dm1Key.2 10, .tick 7]
        = .ok (tr₀, s₀)
      ∧ run step (s₀.suspend 5) [.tick 3, .nextDue, .tick 4] = .ok (tr, s)
      ∧ LastsFor 5 s₀ tr s :=
  suspension_lasts 1 [.sendEvery dm1Key.1 dm1Key.2 10, .tick 7] 5 [.tick 3, .nextDue, .tick 4]
    (by decide)

end SaeJ1939.Schedule
