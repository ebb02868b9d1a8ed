/-
  SaeJ1939.Lib.Ledger — a register that follows a log.

  A program logs what comes in and enters it into a register, but not at
  once: in between it owes the entry.  If every part settles what it owes,
  the register is the log, entered item by item, at whatever point the
  program stops.

  Main results:
    * `Settles.trans`, `Owes.settled` — stretches of a run, one after the
      other.
    * `UpToDate.settled` — a register that is up to date stays so.
    * `foldl_update_apply` — a register of keys has the last value entered
      for each.
-/
import Mathlib.Order.RelClasses
import Mathlib.Logic.Function.Basic

/-- The log of a program, the items of it that are entered into a
register, and the register. -/
structure Ledger (σ ι κ ρ : Type) where
  log : σ → List ι
  item : ι → Option κ
  register : σ → ρ
  enter : ρ → κ → ρ

namespace Ledger

variable {σ ι κ ρ : Type} {L : Ledger σ ι κ ρ} {owed : List κ} {s s' s'' : σ} {start : ρ}

/-! ## §1. Stretches of a run. -/

/-- **A stretch that starts with `owed` to be entered** and ends with
nothing owed. -/
def Settles (L : Ledger σ ι κ ρ) (owed : List κ) (s s' : σ) : Prop :=
  ∃ done, L.log s' = L.log s ++ done
    ∧ L.register s' = (owed ++ done.filterMap L.item).foldl L.enter (L.register s)

/-- A stretch that ends with `owed` to be entered. -/
def Owes (L : Ledger σ ι κ ρ) (owed : List κ) (s s' : σ) : Prop :=
  ∃ done, L.log s' = L.log s ++ done ∧ done.filterMap L.item = owed
    ∧ L.register s' = L.register s

theorem Settles.refl (s : σ) : Settles L [] s s := ⟨[], (List.append_nil _).symm, rfl⟩

/-- **Stretches add up.** -/
theorem Settles.trans (h : Settles L owed s s') (h' : Settles L [] s' s'') :
    Settles L owed s s'' := by
  obtain ⟨done, hlog, hregister⟩ := h
  obtain ⟨done', hlog', hregister'⟩ := h'
  refine ⟨done ++ done', ?_, ?_⟩
  · rw [hlog', hlog, List.append_assoc]
  · rw [hregister', hregister, List.nil_append, ← List.foldl_append, List.filterMap_append,
      List.append_assoc]

instance : IsPreorder σ (Settles L []) where
  refl := Settles.refl
  trans _ _ _ := Settles.trans

/-- **What is owed is settled** by what comes next. -/
theorem Owes.settled (h : Owes L owed s s') (h' : Settles L owed s' s'') :
    Settles L [] s s'' := by
  obtain ⟨done, hlog, hitems, hregister⟩ := h
  obtain ⟨done', hlog', hregister'⟩ := h'
  refine ⟨done ++ done', ?_, ?_⟩
  · rw [hlog', hlog, List.append_assoc]
  · rw [hregister', hregister, List.nil_append, List.filterMap_append, hitems]

/-- A stretch that logs no item and leaves the register. -/
theorem Owes.nothing (h : Owes L [] s s') : Settles L [] s s' :=
  h.settled (Settles.refl s')

/-- An item that changes nothing is settled by the way. -/
theorem Settles.of_idle {k : κ} (hk : ∀ r, L.enter r k = r) (h : Settles L [] s s') :
    Settles L [k] s s' := by
  obtain ⟨done, hlog, hregister⟩ := h
  refine ⟨done, hlog, ?_⟩
  rw [hregister, List.nil_append, List.cons_append, List.nil_append, List.foldl_cons, hk]

/-! ## §2. Whole runs. -/

/-- **The register is the log**, entered item by item. -/
def UpToDate (L : Ledger σ ι κ ρ) (start : ρ) (s : σ) : Prop :=
  L.register s = ((L.log s).filterMap L.item).foldl L.enter start

theorem UpToDate.settled (h : UpToDate L start s) (h' : Settles L [] s s') :
    UpToDate L start s' := by
  obtain ⟨done, hlog, hregister⟩ := h'
  unfold UpToDate at h ⊢
  rw [hregister, hlog, h, List.nil_append, List.filterMap_append, List.foldl_append]

/-! ## §3. Registers of keys. -/

section Keys

variable {α ν : Type} [DecidableEq α]

/-- Enter a value under a key, if the item has one. -/
def enterAt (entry : κ → Option (α × ν)) (r : α → Option ν) (k : κ) : α → Option ν :=
  match entry k with
  | some (a, v) => Function.update r a (some v)
  | none => r

theorem enterAt_of_none {entry : κ → Option (α × ν)} {k : κ} (h : entry k = none)
    (r : α → Option ν) : enterAt entry r k = r := by
  unfold enterAt
  rw [h]

/-- The values the items have for a key, in order. -/
def valuesAt (entry : κ → Option (α × ν)) (a : α) (items : List κ) : List ν :=
  items.filterMap fun k => (entry k).bind fun x => if x.1 = a then some x.2 else none

theorem valuesAt_cons (entry : κ → Option (α × ν)) (a : α) (k : κ) (items : List κ) :
    valuesAt entry a (k :: items)
      = ((entry k).bind fun x => if x.1 = a then some x.2 else none).toList
        ++ valuesAt entry a items := by
  unfold valuesAt
  rw [List.filterMap_cons]
  cases (entry k).bind fun x => if x.1 = a then some x.2 else none <;> rfl

/-- **A register of keys has the last value entered for each.** -/
theorem foldl_update_apply (entry : κ → Option (α × ν)) (items : List κ) (r : α → Option ν)
    (a : α) : items.foldl (enterAt entry) r a
      = (valuesAt entry a items).getLast?.or (r a) := by
  induction items generalizing r with
  | nil => rfl
  | cons k items ih =>
    rw [List.foldl_cons, ih, valuesAt_cons]
    unfold enterAt
    cases entry k with
    | none => rfl
    | some x =>
      obtain ⟨b, v⟩ := x
      dsimp only [Option.bind_some]
      by_cases hb : b = a
      · subst hb
        rw [if_pos rfl, Function.update_self, Option.toList_some, List.singleton_append,
          List.getLast?_cons]
        cases (valuesAt entry b items).getLast? <;> rfl
      · rw [if_neg hb, Function.update_of_ne (Ne.symm hb)]
        rfl

end Keys

end Ledger
