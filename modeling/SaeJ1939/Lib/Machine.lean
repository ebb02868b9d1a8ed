/-
  SaeJ1939.Lib.Machine — runs of a state machine, and what holds along them.

  Two views of a machine share this file:

    • an executable step `σ → ι → Exec (ω × σ)`, whose runs over a list of
      events record, for every event, the states around it and its output;
    • a labelled transition relation `σ → ι → σ → Prop`, for systems whose
      next step is chosen by a scheduler.

  Main results:
    * `run_ok` — from an invariant that no step can break or panic on,
      every run returns.
    * `run_trace`, `Trace.split` — a run is a trace, and every entry of a
      trace is a step taken after the entries before it.
    * `Trace.invariant`, `Run.invariant` — an invariant of one step is an
      invariant of whole runs.
    * `run_filter` — unwinding: a run and the run left when some of its
      events are removed show the same to an observer.
    * `Trace.latch_iff` — a flag that is never cleared means what it should
      exactly if no event sets it too early.
    * `since_snoc_of`, `since_snoc_not` — how what came after the last
      event of a kind grows along a run.
-/
import SaeJ1939.Lib.Checked

namespace Machine

open Checked

variable {σ ι ω : Type}

/-! ## §1. Executable machines. -/

/-- What one event does: its output and the next state, or a panic. -/
abbrev Step (σ ι ω : Type) := σ → ι → Exec (ω × σ)

/-- One event of a run, with the states around it and its output. -/
structure Entry (σ ι ω : Type) where
  before : σ
  event : ι
  out : ω
  after : σ

/-- Feed a list of events to a machine, recording every step. -/
def run (step : Step σ ι ω) : σ → List ι → Exec (List (Entry σ ι ω) × σ)
  | s, [] => .ok ([], s)
  | s, e :: es => do
      let (o, s') ← step s e
      let (tr, s'') ← run step s' es
      return (⟨s, e, o, s'⟩ :: tr, s'')

/-- The recorded steps `tr` lead from `s₀` to a state, grown at the end. -/
inductive Trace (step : Step σ ι ω) (s₀ : σ) : List (Entry σ ι ω) → σ → Prop where
  | nil : Trace step s₀ [] s₀
  | snoc {tr : List (Entry σ ι ω)} {s s' : σ} {e : ι} {o : ω} :
      Trace step s₀ tr s → step s e = .ok (o, s') →
      Trace step s₀ (tr ++ [⟨s, e, o, s'⟩]) s'

/-- `s` is reached from `s₀` by some run. -/
def Reachable (step : Step σ ι ω) (s₀ s : σ) : Prop :=
  ∃ es tr, run step s₀ es = .ok (tr, s)

variable {step : Step σ ι ω} {s₀ s s' : σ} {tr : List (Entry σ ι ω)}

/-- A trace can also be grown at its front. -/
theorem Trace.cons {e : ι} {o : ω} (h : step s₀ e = .ok (o, s))
    (ht : Trace step s tr s') : Trace step s₀ (⟨s₀, e, o, s⟩ :: tr) s' := by
  induction ht with
  | nil => exact Trace.nil.snoc h
  | snoc _ hs ih => exact Trace.snoc ih hs

/-- **A run is a trace** of exactly its events. -/
theorem run_trace {es : List ι} (h : run step s es = .ok (tr, s')) :
    Trace step s tr s' ∧ tr.map Entry.event = es := by
  induction es generalizing s tr with
  | nil =>
    simp only [run, Except.ok.injEq, Prod.mk.injEq] at h
    obtain ⟨rfl, rfl⟩ := h
    exact ⟨.nil, rfl⟩
  | cons e es ih =>
    simp only [run, bind_eq_ok, Prod.exists] at h
    obtain ⟨o, s₁, hstep, tr', s₂, hrun, heq⟩ := h
    simp only [pure_eq_ok, Except.ok.injEq, Prod.mk.injEq] at heq
    obtain ⟨rfl, rfl⟩ := heq
    obtain ⟨ht, hev⟩ := ih hrun
    exact ⟨ht.cons hstep, by simp [hev]⟩

/-- **Every entry of a trace is a step**, taken after the entries before it. -/
theorem Trace.split {pre post : List (Entry σ ι ω)} {e : Entry σ ι ω}
    (h : Trace step s₀ (pre ++ e :: post) s) :
    Trace step s₀ pre e.before ∧ step e.before e.event = .ok (e.out, e.after) := by
  generalize htr : pre ++ e :: post = tr at h
  induction h generalizing post with
  | nil => simp at htr
  | @snoc tr₀ s₁ s₂ e₁ o₁ ht hs ih =>
    rcases List.eq_nil_or_concat post with rfl | ⟨post', x, rfl⟩
    · -- `e` is the last entry
      obtain ⟨rfl, hx⟩ := List.append_inj' htr rfl
      injection hx with hx
      subst hx
      exact ⟨ht, hs⟩
    · -- `e` is an earlier one
      have htr' : (pre ++ e :: post') ++ [x] = tr₀ ++ [⟨s₁, e₁, o₁, s₂⟩] := by
        simpa using htr
      obtain ⟨hpre, -⟩ := List.append_inj' htr' rfl
      exact ih hpre

/-- A trace without entries leads nowhere. -/
theorem Trace.eq_of_nil (h : Trace step s₀ [] s) : s = s₀ := by
  generalize htr : ([] : List (Entry σ ι ω)) = tr at h
  induction h with
  | nil => rfl
  | snoc _ _ _ =>
    exact absurd htr.symm (List.append_ne_nil_of_right_ne_nil _ (List.cons_ne_nil _ _))

/-- **A trace is cut anywhere into two traces.** -/
theorem Trace.cut {pre post : List (Entry σ ι ω)} (h : Trace step s₀ (pre ++ post) s) :
    ∃ s', Trace step s₀ pre s' ∧ Trace step s' post s := by
  generalize htr : pre ++ post = tr at h
  induction h generalizing post with
  | nil =>
    obtain ⟨rfl, rfl⟩ := List.append_eq_nil_iff.mp htr
    exact ⟨s₀, .nil, .nil⟩
  | @snoc tr₀ s₁ s₂ e₁ o₁ ht hs ih =>
    rcases List.eq_nil_or_concat post with rfl | ⟨post', x, rfl⟩
    · -- nothing comes after the cut
      rw [List.append_nil] at htr
      rw [htr]
      exact ⟨s₂, ht.snoc hs, .nil⟩
    · have htr' : (pre ++ post') ++ [x] = tr₀ ++ [⟨s₁, e₁, o₁, s₂⟩] := by
        rw [List.append_assoc, ← htr, List.concat_eq_append]
      obtain ⟨hpre, hx⟩ := List.append_inj' htr' rfl
      obtain ⟨s', hleft, hright⟩ := ih hpre
      rw [List.concat_eq_append, hx]
      exact ⟨s', hleft, hright.snoc hs⟩

/-- A trace begins with traces. -/
theorem Trace.of_append {pre post : List (Entry σ ι ω)} (h : Trace step s₀ (pre ++ post) s) :
    ∃ s', Trace step s₀ pre s' :=
  let ⟨s', hpre, _⟩ := h.cut
  ⟨s', hpre⟩

/-- **What an entry establishes**, and the entries after it keep, holds at
the end of the trace. -/
theorem Trace.established {J : σ → Prop} {pre mid : List (Entry σ ι ω)} {e : Entry σ ι ω}
    (h : Trace step s₀ (pre ++ e :: mid) s) (he : J e.after)
    (hkeep : ∀ x ∈ mid, J x.before → J x.after) : J s := by
  generalize htr : pre ++ e :: mid = tr at h
  induction h generalizing mid with
  | nil => simp at htr
  | @snoc tr₀ s₁ s₂ e₁ o₁ ht hs ih =>
    rcases List.eq_nil_or_concat mid with rfl | ⟨mid', x, rfl⟩
    · -- `e` is the last entry
      obtain ⟨-, hx⟩ := List.append_inj' htr rfl
      injection hx with hx
      subst hx
      exact he
    · have htr' : (pre ++ e :: mid') ++ [x] = tr₀ ++ [⟨s₁, e₁, o₁, s₂⟩] := by
        simpa using htr
      obtain ⟨hpre, hx⟩ := List.append_inj' htr' rfl
      injection hx with hx
      subst hx
      have hlast : (⟨s₁, e₁, o₁, s₂⟩ : Entry σ ι ω) ∈ mid'.concat ⟨s₁, e₁, o₁, s₂⟩ := by simp
      exact hkeep _ hlast (ih (fun y hy => hkeep y (by simp [hy])) hpre)

/-- **What is asked of the events of a run** can be read off its entries. -/
theorem forall_event_split {P : List ι → ι → Prop} :
    (∀ pre e post, tr.map Entry.event = pre ++ e :: post → P pre e)
      ↔ ∀ pre (e : Entry σ ι ω) post, tr = pre ++ e :: post → P (pre.map Entry.event) e.event := by
  constructor
  · intro h pre e post htr
    refine h (pre.map Entry.event) e.event (post.map Entry.event) ?_
    rw [htr, List.map_append, List.map_cons]
  · intro h pre e post hev
    obtain ⟨pre', rest, rfl, rfl, hrest⟩ := List.map_eq_append_iff.mp hev
    obtain ⟨e', post', rfl, rfl, -⟩ := List.map_eq_cons_iff.mp hrest
    exact h pre' e' post' rfl

/-- The invariant of one step is an invariant of whole traces. -/
theorem Trace.invariant {I : σ → Prop}
    (hstep : ∀ s e o s', I s → step s e = .ok (o, s') → I s')
    (h₀ : I s₀) (h : Trace step s₀ tr s) : I s := by
  induction h with
  | nil => exact h₀
  | snoc _ hs ih => exact hstep _ _ _ _ ih hs

/-- **No run of acceptable events panics**: an invariant from which every
acceptable event has a successor that keeps it carries every run to its
end. -/
theorem run_ok_of {I : σ → Prop} {ok : ι → Prop}
    (hstep : ∀ s e, I s → ok e → ∃ o s', step s e = .ok (o, s') ∧ I s')
    (es : List ι) (h : I s) (hok : ∀ e ∈ es, ok e) :
    ∃ tr s', run step s es = .ok (tr, s') ∧ I s' := by
  induction es generalizing s with
  | nil => exact ⟨[], s, rfl, h⟩
  | cons e es ih =>
    obtain ⟨o, s₁, hs, h₁⟩ := hstep s e h (hok e (List.mem_cons_self ..))
    obtain ⟨tr, s₂, hr, h₂⟩ := ih h₁ fun x hx => hok x (List.mem_cons_of_mem _ hx)
    exact ⟨⟨s, e, o, s₁⟩ :: tr, s₂, by simp [run, hs, hr], h₂⟩

/-- **No run panics**: `run_ok_of`, where every event is acceptable. -/
theorem run_ok {I : σ → Prop}
    (hstep : ∀ s e, I s → ∃ o s', step s e = .ok (o, s') ∧ I s')
    (es : List ι) (h : I s) : ∃ tr s', run step s es = .ok (tr, s') ∧ I s' :=
  run_ok_of (fun s e hs _ => hstep s e hs) es h fun _ _ => trivial

theorem Reachable.invariant {I : σ → Prop}
    (hstep : ∀ s e o s', I s → step s e = .ok (o, s') → I s')
    (h₀ : I s₀) (h : Reachable step s₀ s) : I s := by
  obtain ⟨es, tr, hr⟩ := h
  exact (run_trace hr).1.invariant hstep h₀

/-- **Unwinding.**  `R` relates the states of a run to those of the run
from which the events that are not kept are removed.  If a kept event
shows the observer the same in related states, and a removed one shows
nothing, then the two runs look the same.  `ok` is what is assumed of the
first run at each of its events. -/
theorem run_filter {β : Type} {t : σ} {R : σ → σ → Prop} {keep : ι → Bool} {ok : σ → ι → Prop}
    {view : ι → ω → Option β}
    (hkeep : ∀ s t e, R s t → keep e = true → ok s e → ∃ o s' o' t', step s e = .ok (o, s')
      ∧ step t e = .ok (o', t') ∧ view e o = view e o' ∧ R s' t')
    (hdrop : ∀ s t e, R s t → keep e = false → ∃ o s', step s e = .ok (o, s')
      ∧ view e o = none ∧ R s' t)
    {es : List ι} (hR : R s t) (hrun : run step s es = .ok (tr, s'))
    (hok : ∀ e ∈ tr, ok e.before e.event) :
    ∃ tr₂ t', run step t (es.filter keep) = .ok (tr₂, t') ∧ R s' t'
      ∧ tr.filterMap (fun e => view e.event e.out) = tr₂.filterMap fun e => view e.event e.out := by
  induction es generalizing s t tr with
  | nil =>
    simp only [run, Except.ok.injEq, Prod.mk.injEq] at hrun
    obtain ⟨rfl, rfl⟩ := hrun
    exact ⟨[], t, rfl, hR, rfl⟩
  | cons e es ih =>
    simp only [run, bind_eq_ok, Prod.exists, pure_eq_ok, Except.ok.injEq, Prod.mk.injEq] at hrun
    obtain ⟨o, s₁, hstep, tr', s₂, hrest, rfl, rfl⟩ := hrun
    have hok' : ∀ e ∈ tr', ok e.before e.event := fun e he => hok e (List.mem_cons_of_mem _ he)
    cases hk : keep e with
    | true =>
      obtain ⟨o₁, s₁', o₂, t₁, hs, ht, hview, hR'⟩ :=
        hkeep s t e hR hk (hok _ (List.mem_cons_self ..))
      rw [hstep, Except.ok.injEq, Prod.mk.injEq] at hs
      obtain ⟨rfl, rfl⟩ := hs
      obtain ⟨tr₂, t', hrun₂, hRend, hsame⟩ := ih hR' hrest hok'
      refine ⟨⟨t, e, o₂, t₁⟩ :: tr₂, t', ?_, hRend, ?_⟩
      · simp [hk, run, ht, hrun₂]
      · rw [List.filterMap_cons, List.filterMap_cons, hview, hsame]
    | false =>
      obtain ⟨o₁, s₁', hs, hview, hR'⟩ := hdrop s t e hR hk
      rw [hstep, Except.ok.injEq, Prod.mk.injEq] at hs
      obtain ⟨rfl, rfl⟩ := hs
      obtain ⟨tr₂, t', hrun₂, hRend, hsame⟩ := ih hR' hrest hok'
      refine ⟨tr₂, t', by simp [hk, hrun₂], hRend, ?_⟩
      rw [List.filterMap_cons, hview]
      exact hsame

/-! ## §2. Flags that are never cleared. -/

section Latch

variable {flag : σ → Bool} {sets : σ → ι → Bool}

/-- **A flag that is up has been raised** by some entry. -/
theorem Trace.rise (h : Trace step s₀ tr s) (h₀ : flag s₀ = false) (hs : flag s = true) :
    ∃ pre e post, tr = pre ++ e :: post ∧ flag e.before = false ∧ flag e.after = true := by
  induction h with
  | nil =>
    rw [h₀] at hs
    cases hs
  | @snoc tr s s' e o _ hstep ih =>
    cases hbefore : flag s with
    | false => exact ⟨tr, ⟨s, e, o, s'⟩, [], rfl, hbefore, hs⟩
    | true =>
      obtain ⟨pre, x, post, rfl, hx⟩ := ih hbefore
      exact ⟨pre, x, post ++ [⟨s, e, o, s'⟩], by simp, hx⟩

/-- **A flag means what it should exactly if it is only set in time.**  The
flag is raised by the events that `sets` names and by no others; it should
be up only when `done` holds of the run so far, and an event that comes
before that, or does not fit, should leave it alone. -/
theorem Trace.latch_iff {done : List (Entry σ ι ω) → Prop} {fits : ι → Prop}
    (h : Trace step s₀ tr s) (h₀ : flag s₀ = false)
    (hflag : ∀ e ∈ tr, flag e.after = (flag e.before || sets e.before e.event))
    (hdone : ∀ pre post, done pre → done (pre ++ post)) :
    ((∀ pre (e : Entry σ ι ω) post, tr = pre ++ e :: post → flag e.after = true → done (pre ++ [e]))
        ∧ ∀ pre (e : Entry σ ι ω) post, tr = pre ++ e :: post → sets e.before e.event = true →
          ¬ (done pre ∧ fits e.event) → flag e.after = flag e.before)
      ↔ ∀ pre (e : Entry σ ι ω) post, tr = pre ++ e :: post → sets e.before e.event = true →
          flag e.before = false → done pre ∧ fits e.event := by
  constructor
  · rintro ⟨-, hignored⟩ pre e post htr hsets hdown
    by_contra hbad
    have hsame := hignored pre e post htr hsets hbad
    rw [hflag e (by simp [htr]), hdown, hsets] at hsame
    cases hsame
  · intro htimely
    constructor
    · intro pre e post htr hup
      subst htr
      -- the entry that raised the flag was in time
      have hprefix : Trace step s₀ (pre ++ [e]) e.after := by
        obtain ⟨hpre, hstep⟩ := h.split
        exact hpre.snoc hstep
      obtain ⟨pre', x, post', heq, hbefore, hafter⟩ := hprefix.rise h₀ hup
      have htr : pre ++ e :: post = pre' ++ x :: (post' ++ post) := by
        rw [← List.singleton_append, ← List.append_assoc, heq]
        simp
      have hsets : sets x.before x.event = true := by
        have hx := hflag x (by simp [htr])
        rw [hbefore, hafter, Bool.false_or] at hx
        exact hx.symm
      rw [heq]
      exact hdone pre' (x :: post') (htimely pre' x _ htr hsets hbefore).1
    · intro pre e post htr hsets hbad
      cases hbefore : flag e.before with
      | false => exact absurd (htimely pre e post htr hsets hbefore) hbad
      | true => rw [hflag e (by simp [htr]), hbefore, Bool.true_or]

/-- **Whole runs of a machine with a flag that is never cleared**: they
return, and the flag means what it should exactly if it is only set in
time. -/
theorem run_latch_iff {I : σ → Prop} {done : List (Entry σ ι ω) → Prop} {fits : ι → Prop}
    (hstep : ∀ s e, I s → ∃ o s', step s e = .ok (o, s') ∧ I s'
      ∧ flag s' = (flag s || sets s e))
    (hdone : ∀ pre post, done pre → done (pre ++ post)) (es : List ι) (hI : I s₀)
    (h₀ : flag s₀ = false) :
    ∃ tr s, run step s₀ es = .ok (tr, s)
      ∧ (((∀ pre (e : Entry σ ι ω) post, tr = pre ++ e :: post → flag e.after = true →
          done (pre ++ [e]))
        ∧ ∀ pre (e : Entry σ ι ω) post, tr = pre ++ e :: post → sets e.before e.event = true →
          ¬ (done pre ∧ fits e.event) → flag e.after = flag e.before)
      ↔ ∀ pre (e : Entry σ ι ω) post, tr = pre ++ e :: post → sets e.before e.event = true →
          flag e.before = false → done pre ∧ fits e.event) := by
  obtain ⟨tr, s, hrun, -⟩ := run_ok (fun s e hs => by
    obtain ⟨o, s', hok, hs', -⟩ := hstep s e hs
    exact ⟨o, s', hok, hs'⟩) es hI
  obtain ⟨htrace, -⟩ := run_trace hrun
  -- what a step leaves behind is known from the step that was taken
  have hafter : ∀ {s e o s'}, I s → step s e = .ok (o, s') →
      I s' ∧ flag s' = (flag s || sets s e) := by
    intro s e o s' hs hok
    obtain ⟨o', s'', hok', hs'', hflag⟩ := hstep s e hs
    rw [hok, Except.ok.injEq, Prod.mk.injEq] at hok'
    exact hok'.2 ▸ ⟨hs'', hflag⟩
  have hflag : ∀ e ∈ tr, flag e.after = (flag e.before || sets e.before e.event) := by
    intro e he
    obtain ⟨pre, post, rfl⟩ := List.append_of_mem he
    obtain ⟨hpre, hok⟩ := htrace.split
    exact (hafter (hpre.invariant (fun _ _ _ _ hs hok => (hafter hs hok).1) hI) hok).2
  exact ⟨tr, s, hrun, htrace.latch_iff h₀ hflag hdone⟩

end Latch

/-! ## §3. Labelled transition relations. -/

/-- `es` are the labels of a run of the relation `R` from `s₀`, grown at
the end. -/
inductive Run (R : σ → ι → σ → Prop) (s₀ : σ) : List ι → σ → Prop where
  | nil : Run R s₀ [] s₀
  | snoc {es : List ι} {s s' : σ} {e : ι} :
      Run R s₀ es s → R s e s' → Run R s₀ (es ++ [e]) s'

/-- An invariant of one transition is an invariant of whole runs. -/
theorem Run.invariant {R : σ → ι → σ → Prop} {es : List ι} {I : σ → Prop}
    (hstep : ∀ s e s', I s → R s e s' → I s')
    (h₀ : I s₀) (h : Run R s₀ es s) : I s := by
  induction h with
  | nil => exact h₀
  | snoc _ hs ih => exact hstep _ _ _ ih hs

/-! ## §4. Looking back. -/

/-- What came after the last `x` with `p x`, or everything if there is
none. -/
def since {α : Type} (p : α → Bool) (xs : List α) : List α :=
  (xs.reverse.takeWhile fun x => !p x).reverse

section Since

variable {α : Type} {p : α → Bool} {xs : List α} {x : α}

@[simp] theorem since_nil : since p ([] : List α) = [] := rfl

theorem since_snoc_of (h : p x = true) : since p (xs ++ [x]) = [] := by
  simp [since, h]

theorem since_snoc_not (h : p x = false) : since p (xs ++ [x]) = since p xs ++ [x] := by
  simp [since, h]

/-- With nothing of the kind later, looking back ends at the last one. -/
theorem since_append_cons {ys : List α} (hx : p x = true) (hys : ∀ y ∈ ys, p y = false) :
    since p (xs ++ x :: ys) = ys := by
  induction ys using List.reverseRecOn with
  | nil => exact since_snoc_of hx
  | append_singleton ys y ih =>
    have hy : p y = false := hys y (by simp)
    rw [← List.cons_append, ← List.append_assoc, since_snoc_not hy,
      ih fun z hz => hys z (List.mem_append_left _ hz)]

/-- What came after the last `x` came after every `x`. -/
theorem since_suffix {ys : List α} (hx : p x = true) : since p (xs ++ x :: ys) <:+ ys := by
  induction ys using List.reverseRecOn with
  | nil => rw [since_snoc_of hx]
  | append_singleton ys y ih =>
    rw [← List.cons_append, ← List.append_assoc]
    cases hy : p y with
    | true =>
      rw [since_snoc_of hy]
      exact List.nil_suffix
    | false =>
      rw [since_snoc_not hy]
      obtain ⟨zs, hzs⟩ := ih
      exact ⟨zs, by rw [← List.append_assoc, hzs]⟩

end Since

end Machine
