/-
  SaeJ1939.Lib.Fallible — programs that change a state and may fail
  halfway.

  A program is a value of `EStateM ε σ α`: it returns a value or fails
  with an error, and either way leaves a state behind; what it did before
  it failed is not undone.

  Main results:
    * `Moves.bind`, `Moves.forM` — a relation between the states before
      and after every part relates those before and after the whole.
    * `Moves.bind_of` — the same, where the second part may rely on what
      the first one returns.
-/
import Mathlib.Order.Defs.Unbundled

namespace Fallible

variable {ε σ α β : Type}

/-! ## §1. Running a program. -/

/-- The state a run leaves behind, whether it returned or failed. -/
def after : EStateM.Result ε σ α → σ
  | .ok _ s => s
  | .error _ s => s

@[simp] theorem after_ok (a : α) (s : σ) : after (.ok a s : EStateM.Result ε σ α) = s := rfl

@[simp] theorem after_error (e : ε) (s : σ) : after (.error e s : EStateM.Result ε σ α) = s := rfl

@[simp] theorem pure_run (a : α) (s : σ) : (pure a : EStateM ε σ α) s = .ok a s := rfl

/-- Whether a program has returned a value. -/
def returns : EStateM.Result ε σ α → Bool
  | .ok _ _ => true
  | .error _ _ => false

theorem eq_ok_of_returns {r : EStateM.Result ε σ α} (h : returns r = true) :
    ∃ a, r = .ok a (after r) := by
  cases r with
  | ok a s => exact ⟨a, rfl⟩
  | error e s => cases h

theorem bind_run (x : EStateM ε σ α) (f : α → EStateM ε σ β) (s : σ) :
    (x >>= f) s = match x s with
      | .ok a s' => f a s'
      | .error e s' => .error e s' := rfl

theorem bind_ok {x : EStateM ε σ α} {f : α → EStateM ε σ β} {s s' : σ} {a : α}
    (h : x s = .ok a s') : (x >>= f) s = f a s' := by
  rw [bind_run, h]

theorem bind_error {x : EStateM ε σ α} {f : α → EStateM ε σ β} {s s' : σ} {e : ε}
    (h : x s = .error e s') : (x >>= f) s = .error e s' := by
  rw [bind_run, h]

/-- What returns has returned from both of its parts. -/
theorem of_bind_ok {x : EStateM ε σ α} {f : α → EStateM ε σ β} {s s'' : σ} {b : β}
    (h : (x >>= f) s = .ok b s'') : ∃ a s', x s = .ok a s' ∧ f a s' = .ok b s'' := by
  rw [bind_run] at h
  cases hx : x s with
  | ok a s' =>
    rw [hx] at h
    exact ⟨a, s', rfl, h⟩
  | error e s' =>
    rw [hx] at h
    cases h

/-- Two programs that begin alike run alike if their rests do. -/
theorem bind_congr_run {x : EStateM ε σ α} {f g : α → EStateM ε σ β} {s : σ}
    (h : ∀ a s', x s = .ok a s' → f a s' = g a s') : (x >>= f) s = (x >>= g) s := by
  rw [bind_run, bind_run]
  cases hx : x s with
  | ok a s' => exact h a s' hx
  | error e s' => rfl

/-! ## §2. What every run does to the state. -/

/-- Every run of `x` takes a state to one it is related to. -/
def Moves (R : σ → σ → Prop) (x : EStateM ε σ α) : Prop := ∀ s, R s (after (x s))

/-- Every value `x` returns satisfies `V`. -/
def Returns (V : α → Prop) (x : EStateM ε σ α) : Prop := ∀ s a s', x s = .ok a s' → V a

theorem Moves.weaken {R R' : σ → σ → Prop} {x : EStateM ε σ α} (h : Moves R x)
    (hR : ∀ s s', R s s' → R' s s') : Moves R' x :=
  fun s => hR _ _ (h s)

theorem Returns.pure {V : α → Prop} {a : α} (h : V a) : Returns V (pure a : EStateM ε σ α) := by
  intro s a' s' hrun
  injection hrun with ha
  exact ha ▸ h

theorem Returns.bind {V : β → Prop} {x : EStateM ε σ α} {f : α → EStateM ε σ β}
    (h : ∀ a, Returns V (f a)) : Returns V (x >>= f) := by
  intro s b s' hrun
  rw [bind_run] at hrun
  cases hx : x s with
  | ok a s₁ =>
    rw [hx] at hrun
    exact h a s₁ b s' hrun
  | error e s₁ =>
    rw [hx] at hrun
    cases hrun

/-- Reading the state. -/
theorem after_get {R : σ → σ → Prop} {f : σ → EStateM ε σ β} {s : σ} (h : R s (after (f s s))) :
    R s (after ((get >>= f) s)) := h

section Rules

variable {R : σ → σ → Prop} [IsPreorder σ R]

theorem Moves.pure (a : α) : Moves R (pure a : EStateM ε σ α) := fun s => refl_of R s

theorem Moves.throw (e : ε) : Moves R (throw e : EStateM ε σ α) := fun s => refl_of R s

theorem Moves.get : Moves R (get : EStateM ε σ σ) := fun s => refl_of R s

/-- **Sequencing, from one state**: the second part starts where the first
one returned. -/
theorem after_bind {x : EStateM ε σ α} {f : α → EStateM ε σ β} {s : σ} (hx : R s (after (x s)))
    (hf : ∀ a s', x s = .ok a s' → R s s' → R s' (after (f a s'))) :
    R s (after ((x >>= f) s)) := by
  rw [bind_run]
  cases h : x s with
  | ok a s' =>
    rw [h] at hx
    exact trans_of R hx (hf a s' h hx)
  | error e s' =>
    rw [h] at hx
    exact hx

/-- **Sequencing**, where the second part relies on what the first one
returns. -/
theorem Moves.bind_of {V : α → Prop} {x : EStateM ε σ α} {f : α → EStateM ε σ β}
    (hx : Moves R x) (hv : Returns V x) (hf : ∀ a, V a → Moves R (f a)) : Moves R (x >>= f) :=
  fun s => after_bind (hx s) fun a s' h _ => hf a (hv s a s' h) s'

/-- **Sequencing**: what holds of both parts holds of the whole. -/
theorem Moves.bind {x : EStateM ε σ α} {f : α → EStateM ε σ β} (hx : Moves R x)
    (hf : ∀ a, Moves R (f a)) : Moves R (x >>= f) :=
  hx.bind_of (V := fun _ => True) (fun _ _ _ _ => trivial) fun a _ => hf a

omit [IsPreorder σ R] in
/-- Two programs that begin alike, with a part that keeps `I`, run alike if
their rests do wherever `I` holds. -/
theorem Moves.bind_congr {I : σ → Prop} {x : EStateM ε σ α} {f g : α → EStateM ε σ β} {s : σ}
    (hx : Moves R x) (hkeep : ∀ s s', R s s' → I s → I s') (hI : I s)
    (hfg : ∀ a s', I s' → f a s' = g a s') : (x >>= f) s = (x >>= g) s := by
  refine bind_congr_run fun a s' hrun => hfg a s' (hkeep s s' ?_ hI)
  have hmoves := hx s
  rw [hrun] at hmoves
  exact hmoves

/-- A loop over a list does what its body does. -/
theorem Moves.forM {f : α → EStateM ε σ PUnit} {xs : List α} (h : ∀ x ∈ xs, Moves R (f x)) :
    Moves R (xs.forM f) := by
  induction xs with
  | nil => exact Moves.pure _
  | cons x xs ih =>
    exact (h x List.mem_cons_self).bind fun _ => ih fun y hy => h y (List.mem_cons_of_mem _ hy)

end Rules

end Fallible
