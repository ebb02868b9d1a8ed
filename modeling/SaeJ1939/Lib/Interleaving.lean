/-
  SaeJ1939.Lib.Interleaving — queues that are served in any order.

  For every index there is a queue of items.  A scheduler takes the items
  off one by one, each time the first of whichever queue it likes: the
  result interleaves the queues.

  Main results:
    * `Interleaves.perm` — an interleaving holds every item of every queue
      exactly once.
    * `Interleaves.filterMap` — a pass over an interleaving interleaves the
      passes over its queues.
    * `run_interleaves` — a machine whose every step serves one queue, and
      leaves the others ready to be served, answers an interleaving with
      the interleaving of the answers.
-/
import Mathlib.Data.List.Perm.Basic
import Mathlib.Logic.Function.Basic
import Mathlib.Logic.Unique
import SaeJ1939.Lib.Machine

namespace Interleaving

open Machine

variable {κ α β σ ω : Type} [DecidableEq κ]

/-! ## §1. Interleavings. -/

/-- The items of the queues `q`, taken off one by one. -/
inductive Interleaves : (κ → List α) → List α → Prop where
  /-- Every queue is empty. -/
  | nil {q : κ → List α} (h : ∀ k, q k = []) : Interleaves q []
  /-- The next item is the first of the queue at `k`. -/
  | cons {q : κ → List α} {k : κ} {x : α} {rest xs : List α} (h : q k = x :: rest)
      (hrest : Interleaves (Function.update q k rest) xs) : Interleaves q (x :: xs)

variable {q : κ → List α} {xs : List α}

/-- What is done to the items of one queue is done to no other. -/
theorem comp_update (f : List α → List β) (q : κ → List α) (k : κ) (rest : List α) :
    (fun l => f (Function.update q k rest l)) = Function.update (fun l => f (q l)) k (f rest) := by
  funext l
  by_cases hl : l = k
  · subst hl
    rw [Function.update_self, Function.update_self]
  · rw [Function.update_of_ne hl, Function.update_of_ne hl]

/-- **A pass over an interleaving** interleaves the passes over its
queues. -/
theorem Interleaves.filterMap (f : α → Option β) (h : Interleaves q xs) :
    Interleaves (fun k => (q k).filterMap f) (xs.filterMap f) := by
  induction h with
  | nil h =>
    refine Interleaves.nil fun k => ?_
    rw [h k, List.filterMap_nil]
  | @cons q k x rest xs h hrest ih =>
    rw [comp_update] at ih
    cases hx : f x with
    | none =>
      -- the item leaves no trace, in the queue or in the interleaving
      have hsame : Function.update (fun l => (q l).filterMap f) k (rest.filterMap f)
          = fun l => (q l).filterMap f := by
        rw [Function.update_eq_self_iff, h, List.filterMap_cons_none hx]
      rw [hsame] at ih
      rwa [List.filterMap_cons_none hx]
    | some y =>
      rw [List.filterMap_cons_some hx]
      refine Interleaves.cons ?_ ih
      show (q k).filterMap f = _
      rw [h, List.filterMap_cons_some hx]

/-- A renaming of the items. -/
theorem Interleaves.map (f : α → β) (h : Interleaves q xs) :
    Interleaves (fun k => (q k).map f) (xs.map f) := by
  have hpass := h.filterMap fun x => some (f x)
  simp only [List.filterMap_eq_map'] at hpass
  exact hpass

/-- Taking the first item off one of several queues. -/
theorem perm_flatMap_update {ks : List κ} {k : κ} {x : α} {rest : List α} (hnodup : ks.Nodup)
    (hk : k ∈ ks) (h : q k = x :: rest) :
    (ks.flatMap q).Perm (x :: ks.flatMap (Function.update q k rest)) := by
  induction ks with
  | nil => cases hk
  | cons l ks ih =>
    obtain ⟨hl, hnodup⟩ := List.nodup_cons.mp hnodup
    rw [List.flatMap_cons, List.flatMap_cons]
    rcases List.mem_cons.mp hk with rfl | hk
    · -- the item is the first of all
      have hothers : ks.flatMap (Function.update q k rest) = ks.flatMap q := by
        refine List.flatMap_congr fun l' hl' => Function.update_of_ne ?_ _ _
        exact fun heq => hl (heq ▸ hl')
      rw [hothers, Function.update_self, h]
      exact List.Perm.refl _
    · have hne : l ≠ k := fun heq => hl (heq ▸ hk)
      rw [Function.update_of_ne hne]
      exact ((ih hnodup hk).append_left (q l)).trans List.perm_middle

/-- **An interleaving holds every item of every queue exactly once.** -/
theorem Interleaves.perm {ks : List κ} (hnodup : ks.Nodup) (hall : ∀ k, k ∈ ks)
    (h : Interleaves q xs) : xs.Perm (ks.flatMap q) := by
  induction h with
  | nil h =>
    have hnone : ks.flatMap _ = [] := List.flatMap_eq_nil_iff.mpr fun k _ => h k
    rw [hnone]
  | @cons q k x rest xs h hrest ih =>
    exact (ih.cons x).trans (perm_flatMap_update hnodup (hall k) h).symm

/-- A single queue is its only interleaving. -/
theorem interleaves_unique [Unique κ] : Interleaves q xs ↔ xs = q default := by
  constructor
  · intro h
    induction h with
    | nil h => exact (h default).symm
    | @cons q k x rest xs h hrest ih =>
      rw [Unique.eq_default k] at h ih
      rw [Function.update_self] at ih
      rw [ih, h]
  · rintro rfl
    generalize hq : q default = xs
    induction xs generalizing q with
    | nil => exact Interleaves.nil fun k => by rw [Unique.eq_default k, hq]
    | cons x xs ih => exact Interleaves.cons hq (ih (Function.update_self ..))

/-- Two items, one of either queue, in the order they are taken. -/
example : Interleaves (fun b : Bool => if b then ['a'] else ['b']) ['b', 'a'] := by
  refine .cons (k := false) rfl (.cons (k := true) rfl (.nil fun b => ?_))
  cases b <;> rfl

/-! ## §2. Machines. -/

/-- **A machine that serves queues.**  `Ready q s` says that in state `s`
the machine is ready for what is left of the queues: every item with the
answer it is to get.  If each item at the head of a queue gets its answer,
and the machine is then ready for what is left, an interleaving of the
items is answered by the interleaving of the answers. -/
theorem run_interleaves {step : Step σ α ω} {Ready : (κ → List (α × ω)) → σ → Prop}
    (hstep : ∀ {q s k x o rest}, Ready q s → q k = (x, o) :: rest →
      ∃ s', step s x = .ok (o, s') ∧ Ready (Function.update q k rest) s')
    {q : κ → List (α × ω)} (h : Interleaves (fun k => (q k).map Prod.fst) xs) {s : σ}
    (hs : Ready q s) :
    ∃ tr s', run step s xs = .ok (tr, s') ∧ Interleaves q (tr.map fun e => (e.event, e.out))
      ∧ Ready (fun _ => []) s' := by
  generalize hitems : (fun k => (q k).map Prod.fst) = items at h
  induction h generalizing q s with
  | nil h =>
    have hq : ∀ k, q k = [] := by
      intro k
      have hk := h k
      rw [← hitems] at hk
      exact List.map_eq_nil_iff.mp hk
    have hnone : q = fun _ => [] := funext hq
    exact ⟨[], s, rfl, Interleaves.nil hq, hnone ▸ hs⟩
  | @cons items k x rest xs h hrest ih =>
    rw [← hitems] at h
    obtain ⟨⟨y, o⟩, rest', hq, hy, hrest'⟩ := List.map_eq_cons_iff.mp h
    obtain rfl : y = x := hy
    obtain ⟨s₁, hone, hs₁⟩ := hstep hs hq
    have hitems₁ : (fun l => (Function.update q k rest' l).map Prod.fst)
        = Function.update items k rest := by
      rw [comp_update, hitems, hrest']
    obtain ⟨tr, s', hrun, htr, hs'⟩ := ih hs₁ hitems₁
    refine ⟨⟨s, y, o, s₁⟩ :: tr, s', ?_, Interleaves.cons hq htr, hs'⟩
    simp only [run, hone, Checked.ok_bind, hrun, Checked.pure_eq_ok]

end Interleaving
