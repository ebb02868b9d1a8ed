/-
  SaeJ1939.Diagnostics.Timing — when a DM1 is due.

  The log says at a tick whether a DM1 should go out.  What it may say is
  a law about the whole run: how much time has been supplied since it last
  said yes, whether a fault was active then, and whether one is now.

  Main results:
    * `Clocked.apply` — the timer counts the time supplied since the last
      DM1.
    * `dm1_timing_law` — DM1s are a second apart, come every second while
      a fault is active, once more when the last one has gone, and then
      not until a fault is raised.
-/
import SaeJ1939.Diagnostics.FaultLog

namespace SaeJ1939.Diagnostics.FaultLog

open Machine

variable {N : Nat}

/-! ## §1. The time supplied. -/

/-- The time an operation supplies. -/
def supply (e : Entry (FaultLog N) Op Reply) : Nat :=
  match e.event with
  | .tick elapsedMs => elapsedMs
  | _ => 0

/-- The time supplied along a run. -/
def supplied (tr : List (Entry (FaultLog N) Op Reply)) : Nat := (tr.map supply).sum

/-- A tick that says a DM1 is due. -/
def isDue (e : Entry (FaultLog N) Op Reply) : Bool := decide (e.out = .due true)

/-- An operation that is a tick. -/
def IsTick (e : Entry (FaultLog N) Op Reply) : Prop := ∃ elapsedMs, e.event = .tick elapsedMs

theorem supplied_append (xs ys : List (Entry (FaultLog N) Op Reply)) :
    supplied (xs ++ ys) = supplied xs + supplied ys := by
  unfold supplied
  rw [List.map_append, List.sum_append]

theorem supplied_singleton (e : Entry (FaultLog N) Op Reply) : supplied [e] = supply e :=
  List.sum_singleton

/-- The timer counts the time supplied since the last DM1, as far as a
`u32` goes; before the first DM1 it is ahead of that. -/
structure Clocked (tr : List (Entry (FaultLog N) Op Reply)) (log : FaultLog N) : Prop where
  reached : min (supplied (since isDue tr)) (2 ^ 32 - 1) ≤ log.sinceDm1Ms
  exact : (∃ e ∈ tr, isDue e = true) → log.sinceDm1Ms ≤ supplied (since isDue tr)

/-- A tick is due when the log says so. -/
theorem isDue_entry_tick {log log' : FaultLog N} {elapsedMs : Nat} {due : Bool}
    (h : log.tick elapsedMs = (due, log')) : isDue (log.entry (.tick elapsedMs)) = due := by
  show decide (Reply.due (log.tick elapsedMs).1 = .due true) = due
  rw [h]
  cases due <;> rfl

/-- An operation that is not a tick leaves the timer alone. -/
theorem sinceDm1Ms_apply {log : FaultLog N} (h : log.WF) {op : Op}
    (hop : ∀ elapsedMs, op ≠ .tick elapsedMs) :
    (log.apply op).2.sinceDm1Ms = log.sinceDm1Ms
      ∧ isDue (log.entry op) = false ∧ supply (log.entry op) = 0 := by
  cases op with
  | set spn fmi lamp =>
    refine ⟨?_, decide_eq_false (fun h => by cases h), rfl⟩
    simp only [apply]
    rcases log.set_cases spn fmi lamp with ⟨e, -, ho⟩ | ⟨index, -, -, ho⟩ | ⟨-, -, -, ho⟩ <;>
      rw [ho]
  | clear spn fmi =>
    refine ⟨?_, decide_eq_false (fun h => by cases h), rfl⟩
    simp only [apply]
    rcases log.clear_cases spn fmi h.disjoint with ⟨-, ho⟩ | ⟨index, hlt, -, -, ho⟩ <;> rw [ho]
  | clearActive => exact ⟨rfl, rfl, rfl⟩
  | clearPreviouslyActive => exact ⟨rfl, rfl, rfl⟩
  | tick elapsedMs => exact absurd rfl (hop elapsedMs)

/-- **Every operation keeps the timer in agreement with the run.** -/
theorem Clocked.apply {tr : List (Entry (FaultLog N) Op Reply)} {log : FaultLog N}
    (hc : Clocked tr log) (h : log.WF) (op : Op) :
    Clocked (tr ++ [log.entry op]) (log.apply op).2 := by
  by_cases htick : ∃ elapsedMs, op = .tick elapsedMs
  · obtain ⟨elapsedMs, rfl⟩ := htick
    rcases log.tick_cases elapsedMs with ⟨-, ho⟩ | ⟨-, -, ho⟩
    · -- nothing due: the time supplied is added to the timer
      have hlog : (log.apply (.tick elapsedMs)).2.sinceDm1Ms
          = min (log.sinceDm1Ms + elapsedMs) (2 ^ 32 - 1) :=
        congrArg (fun r => r.2.sinceDm1Ms) ho
      have hdue := isDue_entry_tick ho
      have hsince : since isDue (tr ++ [log.entry (.tick elapsedMs)])
          = since isDue tr ++ [log.entry (.tick elapsedMs)] := since_snoc_not hdue
      have hreached := hc.reached
      refine ⟨?_, ?_⟩
      · rw [hsince, supplied_append, supplied_singleton, hlog]
        show min (_ + elapsedMs) _ ≤ _
        omega
      · rintro ⟨e, he, hedue⟩
        rw [hsince, supplied_append, supplied_singleton, hlog]
        show _ ≤ _ + elapsedMs
        rcases List.mem_append.mp he with hold | hlast
        · have hexact := hc.exact ⟨e, hold, hedue⟩
          omega
        · rw [List.mem_singleton.mp hlast, hdue] at hedue
          cases hedue
    · -- a DM1 is due: both start anew
      have hlog : (log.apply (.tick elapsedMs)).2.sinceDm1Ms = 0 :=
        congrArg (fun r => r.2.sinceDm1Ms) ho
      have hdue := isDue_entry_tick ho
      have hsince : since isDue (tr ++ [log.entry (.tick elapsedMs)]) = [] :=
        since_snoc_of hdue
      refine ⟨?_, fun _ => ?_⟩ <;> rw [hsince, hlog] <;> exact Nat.zero_le _
  · push Not at htick
    obtain ⟨hlog, hdue, hsupply⟩ := sinceDm1Ms_apply h htick
    have hsince : since isDue (tr ++ [log.entry op]) = since isDue tr ++ [log.entry op] :=
      since_snoc_not hdue
    have hsame : supplied (since isDue tr ++ [log.entry op]) = supplied (since isDue tr) := by
      rw [supplied_append, supplied_singleton, hsupply, Nat.add_zero]
    refine ⟨?_, ?_⟩
    · rw [hsince, hsame, hlog]
      exact hc.reached
    · rintro ⟨e, he, hedue⟩
      rw [hsince, hsame, hlog]
      rcases List.mem_append.mp he with hold | hlast
      · exact hc.exact ⟨e, hold, hedue⟩
      · rw [List.mem_singleton.mp hlast, hdue] at hedue
        cases hedue

theorem trace_clocked {tr : List (Entry (FaultLog N) Op Reply)} {log : FaultLog N}
    (h : Trace step FaultLog.new tr log) : Clocked tr log := by
  induction h with
  | nil => exact ⟨Nat.zero_le _, fun ⟨e, he, _⟩ => by cases he⟩
  | @snoc tr log log' op o htrace hstep ih =>
    obtain ⟨hentry, hlog⟩ := step_eq hstep
    rw [hentry, hlog]
    exact ih.apply (trace_wf htrace) op

/-! ## §2. What is owed. -/

/-- There is something to say: a fault, or that there is none any more. -/
def Speaks (log : FaultLog N) : Prop := log.active ≠ [] ∨ log.owesAllClear = true

/-- A log that has something to say keeps it until a DM1 is due. -/
theorem Speaks.apply {log : FaultLog N} (hs : log.Speaks) (h : log.WF) {op : Op}
    (hdue : isDue (log.entry op) = false) : (log.apply op).2.Speaks := by
  cases op with
  | set spn fmi lamp =>
    simp only [FaultLog.apply]
    rcases log.set_cases spn fmi lamp with ⟨e, -, ho⟩ | ⟨index, -, -, ho⟩ | ⟨-, -, -, ho⟩ <;>
      rw [ho]
    · exact hs
    · exact hs
    · exact Or.inl (List.append_ne_nil_of_right_ne_nil _ (List.cons_ne_nil _ _))
  | clear spn fmi =>
    simp only [FaultLog.apply]
    rcases log.clear_cases spn fmi h.disjoint with ⟨-, ho⟩ | ⟨index, hlt, -, -, ho⟩ <;> rw [ho]
    · exact hs
    · -- the last fault gone: the all-clear is owed from now on
      by_cases hlast : (log.active.eraseIdx index).length = 0
      · exact Or.inr (if_pos hlast)
      · exact Or.inl fun hnil => hlast (List.length_eq_zero_iff.mpr hnil)
  | clearActive =>
    refine Or.inr ?_
    show (if log.active.length > 0 then true else log.owesAllClear) = true
    rcases hs with hactive | howes
    · exact if_pos (List.length_pos_iff.mpr hactive)
    · split
      · rfl
      · exact howes
  | clearPreviouslyActive => exact hs
  | tick elapsedMs =>
    rcases log.tick_cases elapsedMs with ⟨-, ho⟩ | ⟨-, -, ho⟩
    · simp only [FaultLog.apply]
      rw [ho]
      exact hs
    · rw [isDue_entry_tick ho] at hdue
      cases hdue

/-- A log with nothing to say keeps silent until a fault is raised. -/
theorem not_speaks_apply {log : FaultLog N} (hs : ¬ log.Speaks) (h : log.WF) {op : Op}
    (hraise : (log.apply op).1 ≠ .raised (.ok ())) : ¬ (log.apply op).2.Speaks := by
  have hempty : log.active = [] := by
    by_contra hne
    exact hs (Or.inl hne)
  cases op with
  | set spn fmi lamp =>
    have hreply : Reply.raised (log.set spn fmi lamp).1 ≠ .raised (.ok ()) := hraise
    simp only [FaultLog.apply]
    rcases log.set_cases spn fmi lamp with ⟨e, -, ho⟩ | ⟨index, -, -, ho⟩ | ⟨-, -, -, ho⟩ <;>
      rw [ho] at hreply ⊢
    · exact hs
    · exact absurd rfl hreply
    · exact absurd rfl hreply
  | clear spn fmi =>
    simp only [FaultLog.apply]
    rcases log.clear_cases spn fmi h.disjoint with ⟨-, ho⟩ | ⟨index, hlt, -, -, ho⟩ <;> rw [ho]
    · exact hs
    · rw [hempty] at hlt
      exact absurd hlt (Nat.not_lt_zero index)
  | clearActive =>
    rintro (hactive | howes)
    · exact hactive rfl
    · have hold : (if log.active.length > 0 then true else log.owesAllClear) = true := howes
      rw [hempty, if_neg (by decide)] at hold
      exact hs (Or.inr hold)
  | clearPreviouslyActive => exact hs
  | tick elapsedMs =>
    simp only [FaultLog.apply]
    rcases log.tick_cases elapsedMs with ⟨-, ho⟩ | ⟨-, -, ho⟩ <;> rw [ho]
    · exact hs
    · rintro (hactive | howes)
      · exact hactive hempty
      · cases howes

/-- **When a tick says yes**: when a second has passed and there is
something to say. -/
theorem isDue_tick {log : FaultLog N} {elapsedMs : Nat} :
    isDue (log.entry (.tick elapsedMs)) = true
      ↔ 1000 ≤ min (log.sinceDm1Ms + elapsedMs) (2 ^ 32 - 1) ∧ log.Speaks := by
  rcases log.tick_cases elapsedMs with ⟨hwhy, ho⟩ | ⟨hlate, hspeaks, ho⟩
  · rw [isDue_entry_tick ho]
    refine iff_of_false Bool.false_ne_true ?_
    rintro ⟨hlate, hactive | howes⟩
    · rcases hwhy with hearly | hquiet
      · omega
      · exact hactive hquiet.1
    · rcases hwhy with hearly | hquiet
      · omega
      · rw [hquiet.2] at howes
        cases howes
  · exact iff_of_true (isDue_entry_tick ho) ⟨hlate, hspeaks⟩

/-- Only a tick says that a DM1 is due. -/
theorem isTick_of_isDue {log : FaultLog N} {op : Op} (h : isDue (log.entry op) = true) :
    ∃ elapsedMs, op = .tick elapsedMs := by
  have hout : (log.apply op).1 = .due true := of_decide_eq_true h
  cases op with
  | tick elapsedMs => exact ⟨elapsedMs, rfl⟩
  | set spn fmi lamp => cases hout
  | clear spn fmi => cases hout
  | clearActive => cases hout
  | clearPreviouslyActive => cases hout

/-! ## §3. The law. -/

/-- **The DM1 timing law** of a run. -/
structure TimingLaw (tr : List (Entry (FaultLog N) Op Reply)) : Prop where
  /-- Any two DM1s are a second apart. -/
  apart : ∀ pre e₁ mid e₂ post, tr = pre ++ e₁ :: (mid ++ e₂ :: post) →
    isDue e₁ = true → isDue e₂ = true → 1000 ≤ supplied (mid ++ [e₂])
  /-- While a fault is active, a DM1 is due as soon as a second has passed. -/
  periodic : ∀ pre e post, tr = pre ++ e :: post → IsTick e → e.before.isHealthy = false →
    1000 ≤ supplied (since isDue pre ++ [e]) → isDue e = true
  /-- When the faults last reported have gone, one more DM1 is due. -/
  allClear : ∀ pre e₁ mid e post, tr = pre ++ e₁ :: (mid ++ e :: post) →
    isDue e₁ = true → (∀ x ∈ mid, isDue x = false) → e₁.before.isHealthy = false →
    e.before.isHealthy = true → IsTick e → 1000 ≤ supplied (mid ++ [e]) → isDue e = true
  /-- After a DM1 that reported health there is none until a fault is
  raised. -/
  silent : ∀ pre e₁ mid e post, tr = pre ++ e₁ :: (mid ++ e :: post) →
    isDue e₁ = true → e₁.before.isHealthy = true →
    (∀ x ∈ mid, x.out ≠ .raised (.ok ())) → isDue e = false

theorem isHealthy_iff {log : FaultLog N} : log.isHealthy = true ↔ log.active = [] := by
  unfold isHealthy
  rw [beq_iff_eq, List.length_eq_zero_iff]

section Trace

variable {tr pre mid post : List (Entry (FaultLog N) Op Reply)}
  {e e₁ e₂ : Entry (FaultLog N) Op Reply} {log : FaultLog N}

/-- Every entry of a run is an operation on a well-formed log whose timer
agrees with the entries before it. -/
theorem entry_of_trace (h : Trace step FaultLog.new (pre ++ e :: post) log) :
    Trace step FaultLog.new pre e.before ∧ e.before.WF ∧ Clocked pre e.before
      ∧ e = e.before.entry e.event := by
  obtain ⟨hpre, hstep⟩ := h.split
  exact ⟨hpre, trace_wf hpre, trace_clocked hpre, (step_eq hstep).1⟩

theorem entry_of_mem (h : Trace step FaultLog.new tr log) (he : e ∈ tr) :
    e.before.WF ∧ e = e.before.entry e.event := by
  obtain ⟨pre, post, rfl⟩ := List.append_of_mem he
  obtain ⟨-, hwf, -, heq⟩ := entry_of_trace h
  exact ⟨hwf, heq⟩

/-- A DM1 leaves the faults as they were, and owes nothing. -/
theorem after_isDue (h : Trace step FaultLog.new tr log) (he : e ∈ tr) (hdue : isDue e = true) :
    e.after.active = e.before.active ∧ e.after.owesAllClear = false := by
  obtain ⟨-, heq⟩ := entry_of_mem h he
  rw [heq] at hdue ⊢
  obtain ⟨elapsedMs, hop⟩ := isTick_of_isDue hdue
  rw [hop] at hdue ⊢
  show (e.before.tick elapsedMs).2.active = _ ∧ (e.before.tick elapsedMs).2.owesAllClear = _
  rcases e.before.tick_cases elapsedMs with ⟨-, ho⟩ | ⟨-, -, ho⟩
  · rw [isDue_entry_tick ho] at hdue
    cases hdue
  · rw [ho]
    exact ⟨rfl, rfl⟩

theorem apart_of_trace (h : Trace step FaultLog.new (pre ++ e₁ :: (mid ++ e₂ :: post)) log)
    (hdue₁ : isDue e₁ = true) (hdue₂ : isDue e₂ = true) : 1000 ≤ supplied (mid ++ [e₂]) := by
  rw [← List.cons_append, ← List.append_assoc] at h
  obtain ⟨-, -, hclocked, heq⟩ := entry_of_trace h
  have hexact := hclocked.exact ⟨e₁, by simp, hdue₁⟩
  -- the time since the last DM1 is part of the time since this one
  obtain ⟨zs, hzs⟩ : since isDue (pre ++ e₁ :: mid) <:+ mid := since_suffix hdue₁
  have hsuffix : supplied (since isDue (pre ++ e₁ :: mid)) ≤ supplied mid := by
    calc supplied (since isDue (pre ++ e₁ :: mid))
        ≤ supplied zs + supplied (since isDue (pre ++ e₁ :: mid)) := Nat.le_add_left _ _
      _ = supplied mid := by rw [← supplied_append, hzs]
  rw [heq] at hdue₂
  obtain ⟨elapsedMs, hop⟩ := isTick_of_isDue hdue₂
  rw [hop] at hdue₂ heq
  obtain ⟨hlate, -⟩ := isDue_tick.mp hdue₂
  rw [supplied_append, supplied_singleton, heq]
  show 1000 ≤ supplied mid + elapsedMs
  omega

/-- A tick that finds something to say, a second after the last DM1. -/
theorem isDue_of_late (h : Trace step FaultLog.new (pre ++ e :: post) log) (htick : IsTick e)
    (hspeaks : e.before.Speaks) (hlate : 1000 ≤ supplied (since isDue pre ++ [e])) :
    isDue e = true := by
  obtain ⟨-, -, hclocked, heq⟩ := entry_of_trace h
  obtain ⟨elapsedMs, hop⟩ := htick
  rw [hop] at heq
  rw [supplied_append, supplied_singleton, heq] at hlate
  have hsupply : 1000 ≤ supplied (since isDue pre) + elapsedMs := hlate
  have hreached := hclocked.reached
  rw [heq]
  exact isDue_tick.mpr ⟨by omega, hspeaks⟩

theorem speaks_of_sick (h : log.isHealthy = false) : log.Speaks := by
  refine Or.inl fun hnil => ?_
  rw [isHealthy_iff.mpr hnil] at h
  cases h

theorem allClear_of_trace (h : Trace step FaultLog.new (pre ++ e₁ :: (mid ++ e :: post)) log)
    (hdue₁ : isDue e₁ = true) (hmid : ∀ x ∈ mid, isDue x = false)
    (hsick : e₁.before.isHealthy = false) (htick : IsTick e)
    (hlate : 1000 ≤ supplied (mid ++ [e])) : isDue e = true := by
  have hmem : ∀ x, x ∈ e₁ :: mid → x ∈ pre ++ e₁ :: (mid ++ e :: post) := by
    intro x hx
    rw [← List.cons_append]
    exact List.mem_append_right _ (List.mem_append_left _ hx)
  obtain ⟨hactive, -⟩ := after_isDue h (hmem e₁ List.mem_cons_self) hdue₁
  have hkeep : ∀ x ∈ mid, x.before.Speaks → x.after.Speaks := by
    intro x hx hbefore
    obtain ⟨hwf, hxeq⟩ := entry_of_mem h (hmem x (List.mem_cons_of_mem _ hx))
    have hdue := hmid x hx
    rw [hxeq] at hdue ⊢
    exact hbefore.apply hwf hdue
  rw [← List.cons_append, ← List.append_assoc] at h
  obtain ⟨hpre, -⟩ := entry_of_trace h
  -- what the DM1 reported has kept the log speaking
  have hspeaks : e.before.Speaks := by
    refine hpre.established ?_ hkeep
    rw [Speaks, hactive]
    refine Or.inl fun hnil => ?_
    rw [isHealthy_iff.mpr hnil] at hsick
    cases hsick
  refine isDue_of_late h htick hspeaks ?_
  rw [since_append_cons hdue₁ hmid]
  exact hlate

theorem silent_of_trace (h : Trace step FaultLog.new (pre ++ e₁ :: (mid ++ e :: post)) log)
    (hdue₁ : isDue e₁ = true) (hhealthy : e₁.before.isHealthy = true)
    (hmid : ∀ x ∈ mid, x.out ≠ .raised (.ok ())) : isDue e = false := by
  have hmem : ∀ x, x ∈ e₁ :: mid → x ∈ pre ++ e₁ :: (mid ++ e :: post) := by
    intro x hx
    rw [← List.cons_append]
    exact List.mem_append_right _ (List.mem_append_left _ hx)
  obtain ⟨hactive, howes⟩ := after_isDue h (hmem e₁ List.mem_cons_self) hdue₁
  have hkeep : ∀ x ∈ mid, ¬ x.before.Speaks → ¬ x.after.Speaks := by
    intro x hx hbefore
    obtain ⟨hwf, hxeq⟩ := entry_of_mem h (hmem x (List.mem_cons_of_mem _ hx))
    have hout := hmid x hx
    rw [hxeq] at hout ⊢
    exact not_speaks_apply hbefore hwf hout
  rw [← List.cons_append, ← List.append_assoc] at h
  obtain ⟨hpre, -, -, heq⟩ := entry_of_trace h
  -- nothing has been raised since, so there is still nothing to say
  have hquiet : ¬ e.before.Speaks := by
    refine hpre.established (J := fun log => ¬ log.Speaks) ?_ hkeep
    rw [Speaks, hactive, howes, isHealthy_iff.mp hhealthy]
    rintro (hne | htrue)
    · exact hne rfl
    · cases htrue
  by_contra hdue
  rw [Bool.not_eq_false, heq] at hdue
  obtain ⟨elapsedMs, hop⟩ := isTick_of_isDue hdue
  rw [hop] at hdue
  exact hquiet (isDue_tick.mp hdue).2

end Trace

/-- **Every run obeys the timing law.** -/
theorem dm1_timing_law (ops : List Op) :
    ∃ tr log, run step (FaultLog.new : FaultLog N) ops = .ok (tr, log) ∧ TimingLaw tr := by
  obtain ⟨tr, log, hrun, -⟩ := run_wf (N := N) ops
  obtain ⟨htrace, -⟩ := run_trace hrun
  refine ⟨tr, log, hrun, ?_, ?_, ?_, ?_⟩
  · rintro pre e₁ mid e₂ post rfl hdue₁ hdue₂
    exact apart_of_trace htrace hdue₁ hdue₂
  · rintro pre e post rfl htick hsick hlate
    exact isDue_of_late htrace htick (speaks_of_sick hsick) hlate
  · rintro pre e₁ mid e post rfl hdue₁ hmid hsick - htick hlate
    exact allClear_of_trace htrace hdue₁ hmid hsick htick hlate
  · rintro pre e₁ mid e post rfl hdue₁ hhealthy hmid
    exact silent_of_trace htrace hdue₁ hhealthy hmid

end SaeJ1939.Diagnostics.FaultLog
