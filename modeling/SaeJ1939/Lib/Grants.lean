/-
  SaeJ1939.Lib.Grants — windows that are granted and used up.

  A sender under flow control holds a window: the position to take from
  next, and how many positions may be taken.  A grant replaces the window,
  whatever is left of the old one; taking a position uses one up.  What a
  window holds after a list of moves depends on the last grant and on how
  often was taken since, and on nothing else.

  Main results:
    * `after_eq` — the window after any list of moves, in closed form.
    * `yields_eq` — what a stretch without a grant yields: the positions
      of the window in order, as many as are taken and granted.
    * `Works.out_eq_none_iff` — a machine that works a window gives
      nothing exactly where the last grant is used up.
    * `Works.falls_silent_iff` — when such a machine falls silent for good.
    * `Works.outs_eq` — what it gives out over a stretch without a grant.
-/
import SaeJ1939.Lib.Machine

namespace Grants

open Checked Machine

/-! ## §1. Windows and moves. -/

/-- The position to take from next, and how many may be taken. -/
structure Window where
  next : Nat
  left : Nat
  deriving DecidableEq

/-- What can happen to a window. -/
inductive Move where
  /-- A new window, whatever is left of the old one. -/
  | grant (w : Window)
  /-- The next position is asked for. -/
  | take
  /-- Nothing that concerns the window. -/
  | other
  deriving DecidableEq

/-- Whether a move is a grant. -/
def Move.isGrant : Move → Bool
  | .grant _ => true
  | .take | .other => false

namespace Window

/-- What a move leaves of the window. -/
def move (w : Window) : Move → Window
  | .grant w' => w'
  | .take => if w.left = 0 then w else ⟨w.next + 1, w.left - 1⟩
  | .other => w

/-- The position a move yields. -/
def yield (w : Window) : Move → Option Nat
  | .take => if w.left = 0 then none else some w.next
  | .grant _ | .other => none

/-- The window after some moves. -/
def after (w : Window) (ms : List Move) : Window := ms.foldl move w

/-- The positions that some moves yield, in order. -/
def yields (w : Window) : List Move → List Nat
  | [] => []
  | m :: ms => (w.yield m).toList ++ (w.move m).yields ms

/-- The window granted last, or the one held at the start. -/
def granted (w : Window) (ms : List Move) : Window :=
  ms.foldl (fun w m => match m with
    | .grant w' => w'
    | .take | .other => w) w

end Window

/-- How often was taken since the last grant. -/
def taken (ms : List Move) : Nat := (since Move.isGrant ms).count .take

/-- The window granted last is used up. -/
def Spent (w : Window) (ms : List Move) : Prop := (w.granted ms).left ≤ taken ms

instance (w : Window) (ms : List Move) : Decidable (Spent w ms) :=
  inferInstanceAs (Decidable (_ ≤ _))

/-! ## §2. The window after some moves. -/

variable {w : Window} {ms : List Move} {m : Move}

@[simp] theorem after_nil : w.after [] = w := rfl

@[simp] theorem granted_nil : w.granted [] = w := rfl

@[simp] theorem taken_nil : taken [] = 0 := rfl

theorem after_snoc : w.after (ms ++ [m]) = (w.after ms).move m := by
  unfold Window.after
  rw [List.foldl_append]
  rfl

theorem granted_snoc_grant (w' : Window) : w.granted (ms ++ [.grant w']) = w' := by
  unfold Window.granted
  rw [List.foldl_append]
  rfl

theorem granted_snoc_of_not (h : m.isGrant = false) : w.granted (ms ++ [m]) = w.granted ms := by
  unfold Window.granted
  rw [List.foldl_append]
  cases m with
  | grant => cases h
  | take | other => rfl

/-- Without a grant the window is still that of the start. -/
theorem granted_of_no_grant (h : ∀ m ∈ ms, m.isGrant = false) : w.granted ms = w := by
  induction ms using List.reverseRecOn with
  | nil => rfl
  | append_singleton ms m ih =>
    rw [granted_snoc_of_not (h m (by simp)), ih fun x hx => h x (List.mem_append_left _ hx)]

theorem taken_snoc_grant (w' : Window) : taken (ms ++ [.grant w']) = 0 := by
  unfold taken
  rw [since_snoc_of (show (Move.grant w').isGrant = true from rfl), List.count_nil]

theorem taken_snoc_take : taken (ms ++ [.take]) = taken ms + 1 := by
  unfold taken
  rw [since_snoc_not (show Move.take.isGrant = false from rfl), List.count_append]
  rfl

theorem taken_snoc_other : taken (ms ++ [.other]) = taken ms := by
  unfold taken
  rw [since_snoc_not (show Move.other.isGrant = false from rfl), List.count_append]
  rfl

/-- **The window after any list of moves**: the one granted last, less
what was taken since. -/
theorem after_eq (w : Window) (ms : List Move) :
    w.after ms = ⟨(w.granted ms).next + min (taken ms) (w.granted ms).left,
      (w.granted ms).left - taken ms⟩ := by
  induction ms using List.reverseRecOn with
  | nil =>
    show w = ⟨w.next + min 0 w.left, w.left - 0⟩
    rw [Nat.zero_min, Nat.add_zero, Nat.sub_zero]
  | append_singleton ms m ih =>
    rw [after_snoc, ih]
    cases m with
    | grant w' =>
      rw [granted_snoc_grant, taken_snoc_grant, Nat.zero_min, Nat.add_zero, Nat.sub_zero]
      rfl
    | take =>
      rw [granted_snoc_of_not rfl, taken_snoc_take]
      by_cases hleft : (w.granted ms).left - taken ms = 0
      · -- used up already
        simp only [Window.move, hleft, if_true, Window.mk.injEq]
        omega
      · simp only [Window.move, hleft, if_false, Window.mk.injEq]
        omega
    | other =>
      rw [granted_snoc_of_not rfl, taken_snoc_other]
      rfl

/-- **A window is used up exactly if the one granted last is.** -/
theorem after_left_eq_zero_iff (w : Window) (ms : List Move) :
    (w.after ms).left = 0 ↔ Spent w ms := by
  rw [after_eq]
  show (w.granted ms).left - taken ms = 0 ↔ (w.granted ms).left ≤ taken ms
  omega

/-! ## §3. What moves yield. -/

theorem yields_append (w : Window) (ms ms' : List Move) :
    w.yields (ms ++ ms') = w.yields ms ++ (w.after ms).yields ms' := by
  induction ms generalizing w with
  | nil => rfl
  | cons m ms ih =>
    show (w.yield m).toList ++ (w.move m).yields (ms ++ ms') = _
    rw [ih]
    exact (List.append_assoc ..).symm

/-- **A stretch without a grant** yields the positions of the window in
order, as many as are taken and granted. -/
theorem yields_eq (w : Window) {ms : List Move} (h : ∀ m ∈ ms, m.isGrant = false) :
    w.yields ms = List.range' w.next (min (ms.count .take) w.left) := by
  induction ms generalizing w with
  | nil =>
    rw [List.count_nil, Nat.zero_min, List.range'_zero]
    rfl
  | cons m ms ih =>
    have hrest := ih (w.move m) fun x hx => h x (List.mem_cons_of_mem _ hx)
    show (w.yield m).toList ++ (w.move m).yields ms = _
    rw [hrest]
    cases m with
    | grant w' => exact nomatch h (.grant w') (List.mem_cons_self ..)
    | other =>
      rw [List.count_cons_of_ne (by decide)]
      rfl
    | take =>
      rw [List.count_cons_self]
      by_cases hleft : w.left = 0
      · -- nothing left to take
        simp [Window.yield, Window.move, hleft]
      · have hmin : min (ms.count .take + 1) w.left
            = min (ms.count .take) (w.left - 1) + 1 := by omega
        simp only [Window.yield, Window.move, hleft, if_false, Option.toList_some, hmin,
          List.range'_succ, List.singleton_append]

/-- Fewer positions from the same start are a prefix. -/
theorem range_isPrefix_range (start : Nat) {m n : Nat} (h : m ≤ n) :
    List.range' start m <+: List.range' start n :=
  ⟨List.range' (start + m) (n - m), by rw [List.range'_append_1, Nat.add_sub_cancel' h]⟩

/-! ## §4. Machines that work a window. -/

section Machines

variable {σ ι ω α : Type}

/-- Every call of the machine moves its window, and gives out what the
move yields. -/
structure Works (step : Machine.Step σ ι ω) (I : σ → Prop) (window : σ → Window)
    (moveOf : ι → Move) (out : ω → Option α) (item : Nat → α) : Prop where
  step_ok : ∀ s e, I s → ∃ o s', step s e = .ok (o, s') ∧ I s'
    ∧ window s' = (window s).move (moveOf e)
    ∧ out o = ((window s).yield (moveOf e)).map item

variable {step : Machine.Step σ ι ω} {I : σ → Prop} {window : σ → Window} {moveOf : ι → Move}
  {out : ω → Option α} {item : Nat → α} {s₀ s s' : σ} {tr : List (Entry σ ι ω)}

/-- The moves that some entries of a run make. -/
def moves (moveOf : ι → Move) (tr : List (Entry σ ι ω)) : List Move :=
  tr.map fun e => moveOf e.event

/-- What some entries of a run give out. -/
def outs (out : ω → Option α) (tr : List (Entry σ ι ω)) : List α :=
  tr.filterMap fun e => out e.out

theorem moves_append (pre post : List (Entry σ ι ω)) :
    moves moveOf (pre ++ post) = moves moveOf pre ++ moves moveOf post :=
  List.map_append

theorem Works.step_of (h : Works step I window moveOf out item) {e : ι} {o : ω} (hI : I s)
    (hstep : step s e = .ok (o, s')) :
    I s' ∧ window s' = (window s).move (moveOf e)
      ∧ out o = ((window s).yield (moveOf e)).map item := by
  obtain ⟨o', s'', hok, hrest⟩ := h.step_ok s e hI
  rw [hstep, Except.ok.injEq, Prod.mk.injEq] at hok
  obtain ⟨rfl, rfl⟩ := hok
  exact hrest

/-- **Where a run has brought the window**, and what it has given out. -/
theorem Works.trace (h : Works step I window moveOf out item) (hI : I s₀)
    (ht : Trace step s₀ tr s) :
    I s ∧ window s = (window s₀).after (moves moveOf tr)
      ∧ outs out tr = ((window s₀).yields (moves moveOf tr)).map item := by
  induction ht with
  | nil => exact ⟨hI, rfl, rfl⟩
  | @snoc tr s s' e o _ hstep ih =>
    obtain ⟨hs, hwindow, houts⟩ := ih
    obtain ⟨hs', hmove, hout⟩ := h.step_of hs hstep
    refine ⟨hs', ?_, ?_⟩
    · rw [moves_append]
      show _ = (window s₀).after (moves moveOf tr ++ [moveOf e])
      rw [after_snoc, ← hwindow, hmove]
    · rw [moves_append, yields_append, ← hwindow, List.map_append, ← houts]
      show List.filterMap _ (tr ++ _) = _
      rw [List.filterMap_append]
      congr 1
      show (out o).toList = _
      rw [hout]
      show _ = List.map item (((window s).yield (moveOf e)).toList ++ [])
      rw [List.append_nil]
      cases (window s).yield (moveOf e) with
      | none => rfl
      | some k => rfl

/-- **A machine gives nothing exactly where the last grant is used up.** -/
theorem Works.out_eq_none_iff (h : Works step I window moveOf out item) (hI : I s₀)
    {pre post : List (Entry σ ι ω)} {e : Entry σ ι ω}
    (ht : Trace step s₀ (pre ++ e :: post) s) (htake : moveOf e.event = .take) :
    out e.out = none ↔ Spent (window s₀) (moves moveOf pre) := by
  obtain ⟨hpre, hstep⟩ := ht.split
  obtain ⟨hbefore, hwindow, -⟩ := h.trace hI hpre
  obtain ⟨-, -, hout⟩ := h.step_of hbefore hstep
  rw [hout, htake, ← after_left_eq_zero_iff, ← hwindow]
  show Option.map item (if (window e.before).left = 0 then none else some _) = none ↔ _
  by_cases hleft : (window e.before).left = 0
  · simp only [hleft, if_true, Option.map_none]
  · simp only [hleft, if_false, Option.map_some, reduceCtorEq]

/-- Nothing but taking gives anything out. -/
theorem Works.out_eq_none (h : Works step I window moveOf out item) (hI : I s₀)
    {pre post : List (Entry σ ι ω)} {e : Entry σ ι ω}
    (ht : Trace step s₀ (pre ++ e :: post) s) (htake : moveOf e.event ≠ .take) :
    out e.out = none := by
  obtain ⟨hpre, hstep⟩ := ht.split
  obtain ⟨-, -, hout⟩ := h.step_of (h.trace hI hpre).1 hstep
  rw [hout]
  cases hm : moveOf e.event with
  | take => exact absurd hm htake
  | grant | other => rfl

/-- **A machine falls silent** where `Q` holds of the run so far exactly
if it is only asked there when the last grant is used up. -/
theorem Works.falls_silent_iff (h : Works step I window moveOf out item) (hI : I s₀)
    (ht : Trace step s₀ tr s) (Q : List (Entry σ ι ω) → Prop) :
    (∀ pre (e : Entry σ ι ω) post, tr = pre ++ e :: post → Q pre → out e.out = none)
      ↔ ∀ pre (e : Entry σ ι ω) post, tr = pre ++ e :: post → Q pre → moveOf e.event = .take →
          Spent (window s₀) (moves moveOf pre) := by
  constructor
  · intro hsilent pre e post htr hQ htake
    have hout := hsilent pre e post htr hQ
    subst htr
    exact (h.out_eq_none_iff hI ht htake).mp hout
  · intro hspent pre e post htr hQ
    by_cases htake : moveOf e.event = .take
    · have hused := hspent pre e post htr hQ htake
      subst htr
      exact (h.out_eq_none_iff hI ht htake).mpr hused
    · subst htr
      exact h.out_eq_none hI ht htake

/-- **What a stretch of a run without a grant gives out**: the positions
of the window in order, as many as are taken and granted. -/
theorem Works.outs_eq (h : Works step I window moveOf out item) (hI : I s₀)
    {pre mid post : List (Entry σ ι ω)} (ht : Trace step s₀ (pre ++ (mid ++ post)) s)
    (hmid : ∀ e ∈ mid, (moveOf e.event).isGrant = false) :
    outs out mid = (List.range' ((window s₀).after (moves moveOf pre)).next
      (min ((moves moveOf mid).count .take)
        ((window s₀).after (moves moveOf pre)).left)).map item := by
  have hpre : outs out (pre ++ mid) = outs out pre ++ outs out mid := List.filterMap_append
  rw [← List.append_assoc] at ht
  obtain ⟨s₁, ht₁⟩ := ht.of_append
  obtain ⟨s₂, ht₂⟩ := ht₁.of_append
  obtain ⟨-, -, hall⟩ := h.trace hI ht₁
  obtain ⟨-, -, hbefore⟩ := h.trace hI ht₂
  rw [hpre, hbefore, moves_append, yields_append, List.map_append] at hall
  rw [List.append_cancel_left hall, yields_eq]
  intro m hm
  obtain ⟨e, he, rfl⟩ := List.mem_map.mp hm
  exact hmid e he

end Machines

end Grants
