/-
  SaeJ1939.Lib.Checked — checked execution of fixed-width code.

  A computation that may stop with a panic is a value of `Exec`.  The
  operations below panic exactly where a checked build does: unsigned
  arithmetic that leaves its width, a shift by the width or more, an index
  or a slice out of range, and a copy between slices of different length.
  Fixed-size arrays `[T; n]` are functions `Fin n → T`.

  Main results:
    * `bind_eq_ok` — inversion of a sequential composition that returned.
    * `addU_ok`, `subU_ok` — when the arithmetic does not panic.
    * `write_ok`, `take_write` — a write inside the array succeeds, and
      the written prefix is the old prefix followed by the source.
    * `position_eq_none`, `position_spec` — the first index satisfying a
      predicate.
-/
import Mathlib.Tactic

namespace Checked

/-! ## §1. Panics and executions. -/

/-- Why a checked execution stopped. -/
inductive Panic where
  /-- Arithmetic left the range of its type. -/
  | overflow
  /-- A slice was taken outside its array, or copied from a slice of
  another length. -/
  | slice
  deriving Repr, DecidableEq

/-- A computation that returns or panics. -/
abbrev Exec (α : Type) := Except Panic α

variable {α β : Type}

@[simp] theorem ok_bind (a : α) (f : α → Exec β) : (Except.ok a >>= f) = f a := rfl

@[simp] theorem error_bind (p : Panic) (f : α → Exec β) :
    ((Except.error p : Exec α) >>= f) = Except.error p := rfl

@[simp] theorem pure_eq_ok (a : α) : (pure a : Exec α) = Except.ok a := rfl

/-- **Inversion of sequencing**: a composition returns only through a
returning first part. -/
theorem bind_eq_ok {ε : Type} {x : Except ε α} {f : α → Except ε β} {b : β} :
    (x >>= f) = Except.ok b ↔ ∃ a, x = Except.ok a ∧ f a = Except.ok b := by
  cases x with
  | error e =>
    constructor
    · intro h
      cases h
    · rintro ⟨a, ha, -⟩
      cases ha
  | ok a =>
    constructor
    · intro h
      exact ⟨a, rfl, h⟩
    · rintro ⟨_, ha, h⟩
      cases ha
      exact h

/-! ## §2. Unsigned arithmetic. -/

/-- `a + b` in an unsigned type of `bits` bits. -/
def addU (bits a b : Nat) : Exec Nat :=
  if a + b < 2 ^ bits then .ok (a + b) else .error .overflow

/-- `a - b` in an unsigned type. -/
def subU (a b : Nat) : Exec Nat :=
  if b ≤ a then .ok (a - b) else .error .overflow

/-- `a.saturating_add(b)` in an unsigned type of `bits` bits. -/
def saturatingAdd (bits a b : Nat) : Nat := min (a + b) (2 ^ bits - 1)

/-- `a << b` in an unsigned type of `bits` bits; what leaves it is lost. -/
def shlU (bits a b : Nat) : Exec Nat :=
  if b < bits then .ok ((a <<< b) % 2 ^ bits) else .error .overflow

/-- `a >> b` in an unsigned type of `bits` bits. -/
def shrU (bits a b : Nat) : Exec Nat :=
  if b < bits then .ok (a >>> b) else .error .overflow

theorem addU_ok {bits a b : Nat} (h : a + b < 2 ^ bits) : addU bits a b = .ok (a + b) :=
  if_pos h

theorem subU_ok {a b : Nat} (h : b ≤ a) : subU a b = .ok (a - b) :=
  if_pos h

theorem addU_overflow {bits a b : Nat} (h : ¬ a + b < 2 ^ bits) :
    addU bits a b = .error .overflow :=
  if_neg h

/-- A shift that loses nothing. -/
theorem shlU_ok {bits a b : Nat} (h : b < bits) (hfits : a <<< b < 2 ^ bits) :
    shlU bits a b = .ok (a <<< b) := by
  rw [shlU, if_pos h, Nat.mod_eq_of_lt hfits]

theorem shrU_ok {bits a b : Nat} (h : b < bits) : shrU bits a b = .ok (a >>> b) :=
  if_pos h

/-! ## §3. Slices and fixed-size arrays. -/

/-- `&xs[start..stop]`. -/
def slice (xs : List α) (start stop : Nat) : Exec (List α) :=
  if start ≤ stop ∧ stop ≤ xs.length then .ok ((xs.take stop).drop start) else .error .slice

/-- `xs[i]`. -/
def elemAt (xs : List α) (i : Nat) : Exec α :=
  match xs[i]? with
  | some x => .ok x
  | none => .error .slice

/-- `a[start..stop].copy_from_slice(src)`. -/
def write {n : Nat} (a : Fin n → α) (start stop : Nat) (src : List α) : Exec (Fin n → α) :=
  if start ≤ stop ∧ stop ≤ n ∧ src.length = stop - start then
    .ok fun i => if start ≤ i.val ∧ i.val < stop then src.getD (i.val - start) (a i) else a i
  else .error .slice

theorem elemAt_ok {xs : List α} {i : Nat} (h : i < xs.length) : elemAt xs i = .ok xs[i] := by
  rw [elemAt, List.getElem?_eq_getElem h]

theorem slice_ok {xs : List α} {start stop : Nat} (h₁ : start ≤ stop) (h₂ : stop ≤ xs.length) :
    slice xs start stop = .ok ((xs.take stop).drop start) :=
  if_pos ⟨h₁, h₂⟩

theorem slice_zero_ok {xs : List α} {stop : Nat} (h : stop ≤ xs.length) :
    slice xs 0 stop = .ok (xs.take stop) := by
  rw [slice_ok (Nat.zero_le _) h, List.drop_zero]

theorem write_ok {n : Nat} {a : Fin n → α} {start stop : Nat} {src : List α}
    (h₁ : start ≤ stop) (h₂ : stop ≤ n) (h₃ : src.length = stop - start) :
    write a start stop src = .ok fun i =>
      if start ≤ i.val ∧ i.val < stop then src.getD (i.val - start) (a i) else a i :=
  if_pos ⟨h₁, h₂, h₃⟩

/-- **What a write leaves behind**: up to its end, the array is the old
prefix followed by the source. -/
theorem take_write {n : Nat} {a b : Fin n → α} {start stop : Nat} {src : List α}
    (h : write a start stop src = .ok b) :
    (List.ofFn b).take stop = (List.ofFn a).take start ++ src := by
  unfold write at h
  split at h
  next hr =>
    obtain ⟨h₁, h₂, h₃⟩ := hr
    injection h with h
    subst h
    apply List.ext_getElem
    · simp only [List.length_take, List.length_ofFn, List.length_append]; omega
    · intro i hi hi'
      have hlt : i < stop := by simp only [List.length_take, List.length_ofFn] at hi; omega
      rw [List.getElem_take, List.getElem_ofFn]
      by_cases hs : start ≤ i
      · -- inside the written range
        have hsrc : i - start < src.length := by omega
        rw [List.getElem_append_right (by simp only [List.length_take, List.length_ofFn]; omega)]
        simp only [hs, hlt, and_self, if_true, List.length_take, List.length_ofFn]
        rw [List.getD_eq_getElem?_getD, List.getElem?_eq_getElem hsrc, Option.getD_some]
        congr 1
        omega
      · -- below it
        rw [List.getElem_append_left (by simp only [List.length_take, List.length_ofFn]; omega)]
        simp [hs]
  next => cases h

/-- The first index whose element satisfies `p` (`iter().position`). -/
def position {n : Nat} (p : α → Bool) (a : Fin n → α) : Option (Fin n) :=
  (List.finRange n).find? fun i => p (a i)

theorem position_eq_none {n : Nat} {p : α → Bool} {a : Fin n → α} :
    position p a = none ↔ ∀ i, p (a i) = false := by
  simp [position, List.find?_eq_none]

theorem position_spec {n : Nat} {p : α → Bool} {a : Fin n → α} {i : Fin n}
    (h : position p a = some i) : p (a i) = true := by
  simpa using List.find?_some h

theorem isSome_position {n : Nat} {p : α → Bool} {a : Fin n → α} :
    (position p a).isSome = true ↔ ∃ i, p (a i) = true := by
  simp [position]

end Checked
