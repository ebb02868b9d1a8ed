/-
  SaeJ1939.Lib.Custody — what a program does with the items it takes in.

  A program takes items in, and puts them away in a store; in between it
  has them in hand.  Its log notes both.  A failure leaves the program
  where it stands: what was put away is in the store, and what was in hand
  is gone.

  Main results:
    * `Balances.trans` — accounts of two stretches add up.
    * `Carries.bind`, `Carries.bind_idle` — what a program has in hand is
      passed on from part to part.
    * `keeps_after`, `keeps_error` — when a program drops nothing, from where
      its parts can fail.
-/
import Mathlib.Data.List.Perm.Basic
import SaeJ1939.Lib.Fallible

namespace Custody

open Fallible

variable {ε σ α β ι μ : Type}

/-! ## §1. Accounts. -/

/-- The books of a program: its log, the entries of it that an item is
taken in by or put away by, and the store. -/
structure Books (σ ι μ : Type) where
  log : σ → List ι
  taken : ι → Option μ
  filed : ι → Option μ
  store : σ → List μ

/-- **The account of a stretch**: what was in hand at first and what was
taken in is what was put away, at the end of the store, and what is in
hand at last. -/
def Balances (b : Books σ ι μ) (held left : List μ) (s s' : σ) : Prop :=
  ∃ done, b.log s' = b.log s ++ done ∧ b.store s' = b.store s ++ done.filterMap b.filed
    ∧ (done.filterMap b.filed ++ left).Perm (held ++ done.filterMap b.taken)

/-- A stretch in which nothing is taken in or put away. -/
def Idle (b : Books σ ι μ) (s s' : σ) : Prop :=
  ∃ done, b.log s' = b.log s ++ done ∧ b.store s' = b.store s
    ∧ ∀ h ∈ done, b.taken h = none ∧ b.filed h = none

variable {b : Books σ ι μ} {held mid left : List μ} {s s' s'' : σ}

theorem Idle.refl (s : σ) : Idle b s s :=
  ⟨[], (List.append_nil _).symm, rfl, fun _ h => (by cases h)⟩

theorem Idle.trans (h : Idle b s s') (h' : Idle b s' s'') : Idle b s s'' := by
  obtain ⟨done, hlog, hstore, hdone⟩ := h
  obtain ⟨done', hlog', hstore', hdone'⟩ := h'
  refine ⟨done ++ done', ?_, hstore'.trans hstore, fun x hx => ?_⟩
  · rw [hlog', hlog, List.append_assoc]
  · exact (List.mem_append.mp hx).elim (hdone x) (hdone' x)

instance : IsPreorder σ (Idle b) where
  refl := Idle.refl
  trans _ _ _ := Idle.trans

theorem Idle.balances (h : Idle b s s') : Balances b held held s s' := by
  obtain ⟨done, hlog, hstore, hdone⟩ := h
  have htaken : done.filterMap b.taken = [] :=
    List.filterMap_eq_nil_iff.mpr fun x hx => (hdone x hx).1
  have hfiled : done.filterMap b.filed = [] :=
    List.filterMap_eq_nil_iff.mpr fun x hx => (hdone x hx).2
  refine ⟨done, hlog, ?_, ?_⟩
  · rw [hstore, hfiled, List.append_nil]
  · rw [htaken, hfiled, List.append_nil, List.nil_append]

/-- **Accounts add up.** -/
theorem Balances.trans (h : Balances b held mid s s') (h' : Balances b mid left s' s'') :
    Balances b held left s s'' := by
  obtain ⟨done, hlog, hstore, hperm⟩ := h
  obtain ⟨done', hlog', hstore', hperm'⟩ := h'
  refine ⟨done ++ done', ?_, ?_, ?_⟩
  · rw [hlog', hlog, List.append_assoc]
  · rw [hstore', hstore, List.filterMap_append, List.append_assoc]
  · rw [List.filterMap_append, List.filterMap_append, List.append_assoc]
    have hmid := hperm.append_right (done'.filterMap b.taken)
    rw [List.append_assoc, List.append_assoc] at hmid
    exact (hperm'.append_left _).trans hmid

/-- **With nothing in hand at first**, the store has gained all that was
taken in, and what is in hand at last. -/
theorem Balances.store_perm (h : Balances b [] left s s') :
    ∃ done, b.log s' = b.log s ++ done
      ∧ (b.store s' ++ left).Perm (b.store s ++ done.filterMap b.taken) := by
  obtain ⟨done, hlog, hstore, hperm⟩ := h
  rw [List.nil_append] at hperm
  refine ⟨done, hlog, ?_⟩
  rw [hstore, List.append_assoc]
  exact hperm.append_left _

/-- **What is in hand at last is determined** by where the stretch begins
and ends. -/
theorem Balances.left_perm (h : Balances b held left s s') (h' : Balances b held mid s s') :
    left.Perm mid := by
  obtain ⟨done, hlog, -, hperm⟩ := h
  obtain ⟨done', hlog', -, hperm'⟩ := h'
  obtain rfl : done = done' := List.append_cancel_left (hlog.symm.trans hlog')
  have hsame := hperm.trans hperm'.symm
  rwa [List.perm_append_left_iff] at hsame

/-- If it may be nothing, it is nothing. -/
theorem Balances.left_eq_nil (h : Balances b held left s s') (h' : Balances b held [] s s') :
    left = [] :=
  List.perm_nil.mp (h.left_perm h')

/-- What is in hand besides stays in hand. -/
theorem Balances.beside (h : Balances b held left s s') (more : List μ) :
    Balances b (held ++ more) (left ++ more) s s' := by
  obtain ⟨done, hlog, hstore, hperm⟩ := h
  refine ⟨done, hlog, hstore, ?_⟩
  rw [← List.append_assoc]
  refine (hperm.append_right more).trans ?_
  rw [List.append_assoc, List.append_assoc]
  exact List.perm_append_comm.append_left held

/-! ## §2. Programs. -/

/-- **A program that starts with `held` in hand** returns with what `Q`
says of its value, and fails with anything. -/
def Carries (b : Books σ ι μ) (held : List μ) (x : EStateM ε σ α) (Q : α → List μ → Prop) : Prop :=
  ∀ s, match x s with
    | .ok a s' => ∃ left, Q a left ∧ Balances b held left s s'
    | .error _ s' => ∃ lost, Balances b held lost s s'

variable {x : EStateM ε σ α} {f : α → EStateM ε σ β} {Q : α → List μ → Prop}
  {R : β → List μ → Prop}

theorem Carries.pure {a : α} (h : Q a held) : Carries b held (pure a : EStateM ε σ α) Q :=
  fun s => ⟨held, h, Idle.balances (refl_of (Idle b) s)⟩

theorem Carries.throw (e : ε) : Carries b held (throw e : EStateM ε σ α) Q :=
  fun s => ⟨held, Idle.balances (refl_of (Idle b) s)⟩

/-- A program that takes nothing in and puts nothing away keeps in hand
what it has. -/
theorem Carries.of_idle (h : Moves (Idle b) x) : Carries b held x fun _ left => left = held := by
  intro s
  have hidle := h s
  cases hx : x s with
  | ok a s' =>
    rw [hx] at hidle
    exact ⟨held, rfl, hidle.balances⟩
  | error e s' =>
    rw [hx] at hidle
    exact ⟨held, hidle.balances⟩

/-- **What the first part has in hand is passed on to the second.** -/
theorem Carries.bind (hx : Carries b held x Q)
    (hf : ∀ a mid, Q a mid → Carries b mid (f a) R) : Carries b held (x >>= f) R := by
  intro s
  have hs := hx s
  rw [bind_run]
  cases hrun : x s with
  | error e s' =>
    rw [hrun] at hs
    exact hs
  | ok a s' =>
    rw [hrun] at hs
    obtain ⟨mid, hmid, hbalances⟩ := hs
    have hrest := hf a mid hmid s'
    dsimp only
    cases hrun' : f a s' with
    | ok a' s'' =>
      rw [hrun'] at hrest
      obtain ⟨left, hleft, hbalances'⟩ := hrest
      exact ⟨left, hleft, hbalances.trans hbalances'⟩
    | error e s'' =>
      rw [hrun'] at hrest
      obtain ⟨lost, hbalances'⟩ := hrest
      exact ⟨lost, hbalances.trans hbalances'⟩

/-- A part in front that puts away what it takes in. -/
theorem Carries.bind_kept {y : EStateM ε σ β} (hx : Carries b held x fun _ left => left = held)
    (hy : Carries b held y R) : Carries b held (x >>= fun _ => y) R := by
  refine hx.bind fun _ mid hmid => ?_
  rw [hmid]
  exact hy

/-- An idle part in front. -/
theorem Carries.bind_idle (hx : Moves (Idle b) x) (hf : ∀ a, Carries b held (f a) R) :
    Carries b held (x >>= f) R := by
  refine (Carries.of_idle hx).bind fun a mid hmid => ?_
  rw [hmid]
  exact hf a

/-! ## §3. Dropping nothing. -/

/-- **A program that starts with `held` in hand drops nothing**: it
returns, or it fails with nothing in hand. -/
def Keeps (b : Books σ ι μ) (held : List μ) (x : EStateM ε σ α) (s : σ) : Prop :=
  match x s with
  | .ok _ _ => True
  | .error _ s' => Balances b held [] s s'

theorem keeps_of_ok {a : α} (hrun : x s = .ok a s') : Keeps b held x s := by
  unfold Keeps
  rw [hrun]
  trivial

theorem keeps_of_returns (h : returns (x s) = true) : Keeps b held x s := by
  obtain ⟨a, hrun⟩ := eq_ok_of_returns h
  exact keeps_of_ok hrun

theorem keeps_congr {y : EStateM ε σ α} (h : x s = y s) : Keeps b held x s ↔ Keeps b held y s := by
  unfold Keeps
  rw [h]

/-- **Where a stretch ends in a failure**, nothing may be in hand. -/
theorem keeps_error {e : ε} (hrun : x s = .error e s') (h : Balances b held left s s') :
    Keeps b held x s ↔ left = [] := by
  unfold Keeps
  rw [hrun]
  constructor
  · exact h.left_eq_nil
  · rintro rfl
    exact h

/-- In other words for what is in hand then. -/
theorem keeps_error_iff {e : ε} {P : Prop} (hP : left ≠ [] ↔ P) (hrun : x s = .error e s')
    (h : Balances b held left s s') : Keeps b held x s ↔ ¬ P := by
  rw [keeps_error hrun h, ← not_ne_iff, hP]

/-- **With something in hand** that it does not put away, a program drops
nothing exactly if it returns. -/
theorem keeps_iff_returns (hx : Carries b [] x Q) (hheld : held ≠ []) :
    Keeps b held x s ↔ returns (x s) = true := by
  have hs := hx s
  refine ⟨fun h => ?_, keeps_of_returns⟩
  cases hrun : x s with
  | ok a s' => rfl
  | error e s' =>
    rw [hrun] at hs
    obtain ⟨lost, hbalances⟩ := hs
    have hnil := (keeps_error hrun (hbalances.beside held)).mp h
    exact absurd (List.append_eq_nil_iff.mp hnil).2 hheld

/-- **Sequencing**: once a first stretch has succeeded, the rest must drop
nothing of what is then in hand. -/
theorem keeps_after {y : EStateM ε σ α} (hrun : x s = y s') (hfirst : Balances b held mid s s')
    (hy : Carries b mid y Q) : Keeps b held x s ↔ Keeps b mid y s' := by
  have hrest := hy s'
  cases hrun' : y s' with
  | ok a s'' => exact iff_of_true (keeps_of_ok (hrun.trans hrun')) (keeps_of_ok hrun')
  | error e s'' =>
    rw [hrun'] at hrest
    obtain ⟨lost, hlost⟩ := hrest
    rw [keeps_error hrun' hlost, keeps_error (hrun.trans hrun') (hfirst.trans hlost)]

/-- **The first part may fail as well**: it drops nothing, and if it
returns, nor does the second of what is then in hand. -/
theorem keeps_bind {g : α → EStateM ε σ β} {next : α → List μ}
    (hx : Carries b held x fun a left => left = next a)
    (hg : ∀ a, Carries b (next a) (g a) R) :
    Keeps b held (x >>= g) s
      ↔ Keeps b held x s ∧ ∀ a s', x s = .ok a s' → Keeps b (next a) (g a) s' := by
  have hs := hx s
  cases hrun : x s with
  | ok a s' =>
    rw [hrun] at hs
    obtain ⟨left, rfl, hfirst⟩ := hs
    rw [keeps_after (bind_ok hrun) hfirst (hg a)]
    refine ⟨fun h => ⟨keeps_of_ok hrun, fun a' s₁ heq => ?_⟩, fun h => h.2 a s' rfl⟩
    injection heq with ha hs₁
    subst ha hs₁
    exact h
  | error e s' =>
    rw [hrun] at hs
    obtain ⟨lost, hlost⟩ := hs
    rw [keeps_error hrun hlost, keeps_error (bind_error hrun) hlost]
    exact ⟨fun h => ⟨h, fun _ _ heq => by cases heq⟩, fun h => h.1⟩

/-- A first part that puts away what it takes in. -/
theorem keeps_then {x : EStateM ε σ PUnit} {y : EStateM ε σ β}
    (hx : Carries b held x fun _ left => left = held) (hy : Carries b held y R) :
    Keeps b held (x >>= fun _ => y) s
      ↔ Keeps b held x s ∧ (returns (x s) = true → Keeps b held y (after (x s))) := by
  rw [keeps_bind hx fun _ => hy]
  refine and_congr_right fun _ => ⟨fun h hreturns => ?_, fun h a s' hrun => ?_⟩
  · obtain ⟨a, hrun⟩ := eq_ok_of_returns hreturns
    exact h a _ hrun
  · rw [hrun] at h
    exact h rfl

/-- What is returned does not matter. -/
theorem keeps_pure (x : EStateM ε σ α) (g : α → β) (s : σ) :
    Keeps b held (x >>= fun a => pure (g a)) s ↔ Keeps b held x s := by
  unfold Keeps
  rw [bind_run]
  cases x s with
  | ok | error => exact Iff.rfl

end Custody
