/-
  SaeJ1939.Lib.Ageing — counters that saturate.

  Something that is looked after (a session, a connection) carries a
  counter of the time since it was last heard of.  The counter starts over
  at some events, grows at others, and stops growing at a cap.  Read off
  the history, it is the time supplied since the last event that started
  it over, as far as the cap goes; so a timeout below the cap is exact,
  and one at the cap is never reached.

  Main results:
    * `aged` — what the counter holds, from the history.
    * `exact_iff` — when a timeout that is compared with the counter is
      exact in the time.
-/
import SaeJ1939.Lib.Machine

namespace Ageing

open Checked Machine

variable {σ ι ω : Type}

/-- The time supplied since the last entry that started the counter
over. -/
def accumulated (restarts : Entry σ ι ω → Bool) (elapsed : ι → Nat) (tr : List (Entry σ ι ω)) :
    Nat :=
  ((since restarts tr).map fun e => elapsed e.event).sum

section Accumulated

variable {restarts : Entry σ ι ω → Bool} {elapsed : ι → Nat} {tr : List (Entry σ ι ω)}
  {e : Entry σ ι ω}

@[simp] theorem accumulated_nil : accumulated restarts elapsed ([] : List (Entry σ ι ω)) = 0 := rfl

theorem accumulated_snoc_of (h : restarts e = true) :
    accumulated restarts elapsed (tr ++ [e]) = 0 := by
  unfold accumulated
  rw [since_snoc_of h]
  rfl

theorem accumulated_snoc_not (h : restarts e = false) :
    accumulated restarts elapsed (tr ++ [e])
      = accumulated restarts elapsed tr + elapsed e.event := by
  unfold accumulated
  rw [since_snoc_not h, List.map_append, List.sum_append]
  rfl

end Accumulated

/-- What one event does to the counter: it starts over, or it grows by the
time the event supplies, as far as the cap goes. -/
def Ages (age : σ → Option Nat) (restarts : Entry σ ι ω → Bool) (elapsed : ι → Nat) (cap : Nat)
    (e : Entry σ ι ω) : Prop :=
  ∀ k, age e.after = some k → restarts e = true ∧ k = 0
    ∨ restarts e = false ∧ ∃ k₀, age e.before = some k₀
      ∧ (elapsed e.event = 0 ∧ k = k₀ ∨ k = min (k₀ + elapsed e.event) cap)

/-- **What a counter holds**: the time supplied since it was last started
over, as far as the cap goes. -/
theorem aged {step : Machine.Step σ ι ω} {age : σ → Option Nat}
    {restarts : Entry σ ι ω → Bool} {elapsed : ι → Nat} {cap : Nat} {s₀ s : σ}
    {tr : List (Entry σ ι ω)} (h₀ : age s₀ = none) (ht : Trace step s₀ tr s)
    (hages : ∀ e ∈ tr, Ages age restarts elapsed cap e) {k : Nat} (hk : age s = some k) :
    k = min (accumulated restarts elapsed tr) cap := by
  induction ht generalizing k with
  | nil =>
    rw [h₀] at hk
    cases hk
  | @snoc tr s s' e o ht hstep ih =>
    have hlast := hages ⟨s, e, o, s'⟩ (by simp) k hk
    rcases hlast with ⟨hrestart, rfl⟩ | ⟨hgrow, k₀, hk₀, hage⟩
    · -- the counter starts over
      rw [accumulated_snoc_of hrestart, Nat.zero_min]
    · have hbefore := ih (fun x hx => hages x (List.mem_append_left _ hx)) hk₀
      rw [accumulated_snoc_not hgrow]
      simp only at hage ⊢
      omega

/-- **A timeout is exact** exactly if it is below the cap, or the time is
within it.  `early` is what happens when the counter is within the timeout
and `late` what happens when it is not. -/
theorem exact_iff {early late : Prop} (hnot : early → ¬ late) {time cap timeout : Nat}
    (h : if min time cap ≤ timeout then early else late) :
    ((timeout < time → late) ∧ (time ≤ timeout → early)) ↔ (cap ≤ timeout → time ≤ timeout) := by
  by_cases hle : min time cap ≤ timeout
  · rw [if_pos hle] at h
    constructor
    · rintro ⟨hlate, -⟩ -
      by_contra hgt
      exact hnot h (hlate (Nat.lt_of_not_le hgt))
    · intro hcap
      refine ⟨fun hgt => ?_, fun _ => h⟩
      have hbelow : ¬ cap ≤ timeout := fun hcap' => Nat.not_lt.mpr (hcap hcap') hgt
      omega
  · rw [if_neg hle] at h
    exact ⟨fun _ hcap => by omega, fun _ => ⟨fun _ => h, fun hle' => by omega⟩⟩

end Ageing
