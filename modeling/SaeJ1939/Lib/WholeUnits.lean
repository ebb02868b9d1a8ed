/-
  SaeJ1939.Lib.WholeUnits — counting whole units of a finer clock.

  A clock is read at a rising list of instants, and the time between two
  readings is reported in whole units.  What a gap has beyond whole units
  is either dropped, or carried over to the next reading.

  Main results:
    * `sum_gaps` — the gaps add up to the time between the first reading
      and the last.
    * `dropping_error` — dropping loses exactly the sum of what the gaps
      have beyond whole units.
    * `carrying_error` — carrying never loses a whole unit.
-/
import Mathlib.Tactic

namespace WholeUnits

/-! ## §1. Readings. -/

/-- The times between successive readings. -/
def gaps : List Nat → List Nat
  | t₀ :: t₁ :: ts => (t₁ - t₀) :: gaps (t₁ :: ts)
  | _ => []

/-- The time between the first reading and the last. -/
def span (ts : List Nat) : Nat := ts.getLastD 0 - ts.headD 0

/-- A total of `units` agrees with the readings up to one unit. -/
def Agrees (unit : Nat) (ts : List Nat) (units : Nat) : Prop :=
  unit * units < span ts + unit ∧ span ts < unit * units + unit

instance (unit : Nat) (ts : List Nat) (units : Nat) : Decidable (Agrees unit ts units) :=
  inferInstanceAs (Decidable (_ ∧ _))

variable {t₀ t₁ unit : Nat} {ts : List Nat}

@[simp] theorem gaps_cons_cons : gaps (t₀ :: t₁ :: ts) = (t₁ - t₀) :: gaps (t₁ :: ts) := rfl

theorem getLastD_ge (h : (t₀ :: ts).IsChain (· ≤ ·)) : t₀ ≤ (t₀ :: ts).getLastD 0 := by
  induction ts generalizing t₀ with
  | nil => exact Nat.le_refl t₀
  | cons t₁ ts ih =>
    rw [List.isChain_cons_cons] at h
    exact Nat.le_trans h.1 (ih h.2)

/-- **The gaps add up to the span** of rising readings. -/
theorem sum_gaps (h : ts.IsChain (· ≤ ·)) : (gaps ts).sum = span ts := by
  induction ts with
  | nil => rfl
  | cons t₀ ts ih =>
    cases ts with
    | nil => exact (Nat.sub_self t₀).symm
    | cons t₁ ts =>
      rw [List.isChain_cons_cons] at h
      have hrest := ih h.2
      have hlast := getLastD_ge h.2
      have hle := h.1
      rw [gaps_cons_cons, List.sum_cons, hrest]
      show t₁ - t₀ + ((t₁ :: ts).getLastD 0 - t₁) = (t₁ :: ts).getLastD 0 - t₀
      omega

/-! ## §2. Dropping what is left over. -/

/-- The whole units of each gap. -/
def whole (unit : Nat) (gs : List Nat) : Nat := (gs.map (· / unit)).sum

/-- What the gaps have beyond whole units. -/
def leftover (unit : Nat) (gs : List Nat) : Nat := (gs.map (· % unit)).sum

theorem whole_add_leftover (unit : Nat) (gs : List Nat) :
    unit * whole unit gs + leftover unit gs = gs.sum := by
  induction gs with
  | nil => rfl
  | cons g gs ih =>
    have hg := Nat.div_add_mod g unit
    unfold whole leftover at *
    simp only [List.map_cons, List.sum_cons, Nat.mul_add]
    omega

/-- **Dropping what is left over of every gap** keeps time exactly as long
as all of it together is less than a unit. -/
theorem dropping_error (h : ts.IsChain (· ≤ ·)) :
    Agrees unit ts (whole unit (gaps ts)) ↔ leftover unit (gaps ts) < unit := by
  have hsplit := whole_add_leftover unit (gaps ts)
  rw [sum_gaps h] at hsplit
  unfold Agrees
  omega

/-! ## §3. Carrying it over. -/

/-- Report the whole units since the last instant accounted for, but never
more than `limit`, and account for just these. -/
def carry (unit limit accounted now : Nat) : Nat × Nat :=
  let units := min ((now - accounted) / unit) limit
  (units, accounted + unit * units)

/-- The total reported at a list of readings, and the last instant
accounted for. -/
def carryAll (unit limit : Nat) : Nat → List Nat → Nat × Nat
  | accounted, [] => (0, accounted)
  | accounted, t :: ts =>
      ((carry unit limit accounted t).1
          + (carryAll unit limit (carry unit limit accounted t).2 ts).1,
        (carryAll unit limit (carry unit limit accounted t).2 ts).2)

/-- One reading: less than a unit is left, if the limit leaves room for a
gap and what was left before. -/
theorem carry_spec {limit accounted now : Nat} (hunit : 0 < unit) (hle : accounted ≤ now)
    (hlimit : now - accounted < unit * (limit + 1)) :
    (carry unit limit accounted now).2
        = accounted + unit * (carry unit limit accounted now).1
      ∧ (carry unit limit accounted now).2 ≤ now
      ∧ now < (carry unit limit accounted now).2 + unit := by
  have hunits : (now - accounted) / unit ≤ limit :=
    Nat.lt_succ_iff.mp ((Nat.div_lt_iff_lt_mul hunit).mpr (by rwa [Nat.mul_comm] at hlimit))
  have hsplit := Nat.div_add_mod (now - accounted) unit
  have hmod := Nat.mod_lt (now - accounted) hunit
  refine ⟨rfl, ?_⟩
  unfold carry
  rw [Nat.min_eq_left hunits]
  constructor
  · show accounted + unit * ((now - accounted) / unit) ≤ now
    omega
  · show now < accounted + unit * ((now - accounted) / unit) + unit
    omega

/-- A run of readings leaves less than a unit unaccounted for. -/
theorem carryAll_spec {limit accounted t₀ : Nat} (hunit : 0 < unit)
    (hchain : (t₀ :: ts).IsChain (· ≤ ·)) (hgaps : ∀ g ∈ gaps (t₀ :: ts), g ≤ unit * limit)
    (hle : accounted ≤ t₀) (hlt : t₀ < accounted + unit) :
    (carryAll unit limit accounted ts).2
        = accounted + unit * (carryAll unit limit accounted ts).1
      ∧ (carryAll unit limit accounted ts).2 ≤ (t₀ :: ts).getLastD 0
      ∧ (t₀ :: ts).getLastD 0 < (carryAll unit limit accounted ts).2 + unit := by
  induction ts generalizing t₀ accounted with
  | nil => exact ⟨rfl, hle, hlt⟩
  | cons t₁ ts ih =>
    rw [List.isChain_cons_cons] at hchain
    have hfirst := hgaps (t₁ - t₀) (List.mem_cons_self ..)
    have hroom : t₁ - accounted < unit * (limit + 1) := by
      rw [Nat.mul_succ]
      have := hchain.1
      omega
    obtain ⟨heq, hle₁, hlt₁⟩ := carry_spec hunit (Nat.le_trans hle hchain.1) hroom
    obtain ⟨hall, hlast⟩ := ih hchain.2 (fun g hg => hgaps g (List.mem_cons_of_mem _ hg)) hle₁ hlt₁
    refine ⟨?_, hlast⟩
    show (carryAll unit limit (carry unit limit accounted t₁).2 ts).2 = accounted
      + unit * ((carry unit limit accounted t₁).1
        + (carryAll unit limit (carry unit limit accounted t₁).2 ts).1)
    rw [hall, Nat.mul_add, ← Nat.add_assoc, ← heq]

/-- **Carrying what is left over keeps time**, whatever the gaps. -/
theorem carrying_error {limit : Nat} (hunit : 0 < unit) (hchain : (t₀ :: ts).IsChain (· ≤ ·))
    (hgaps : ∀ g ∈ gaps (t₀ :: ts), g ≤ unit * limit) :
    Agrees unit (t₀ :: ts) (carryAll unit limit t₀ ts).1 := by
  obtain ⟨hall, hle, hlt⟩ := carryAll_spec hunit hchain hgaps (Nat.le_refl t₀)
    (Nat.lt_add_of_pos_right hunit)
  have hspan : span (t₀ :: ts) = (t₀ :: ts).getLastD 0 - t₀ := rfl
  unfold Agrees
  omega

end WholeUnits
