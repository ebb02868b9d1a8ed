/-
  SaeJ1939.Lib.SlotTable — a fixed array of slots used as a finite map.

  `n` slots, each empty or holding a value under a key, and searched
  from the front: the usual replacement for a map where nothing may be
  allocated.  As long as no key is held twice (`Distinct`), the table is
  a partial function of the key (`get`), and which slot a value sits in
  does not matter.

  Main results:
    * `find_eq_some` — under `Distinct`, the search finds a key exactly
      where it is held.
    * `distinct_update_none`, `distinct_update_some` — emptying a slot,
      and filling it with a key held nowhere else, keep `Distinct`.
    * `get_update_self`, `get_update_removed`, `get_update_other`,
      `get_comp`, `bind_get_comp` — the map after each kind of write.
    * `filter_reports` — what a pass over the table reports under one key
      is what the value held there reports.
    * `Sound.put`, `Sound.remove`, `Sound.pass` — the same for tables whose
      every slot satisfies a property: a write concerns one key alone.
-/
import Mathlib.Data.Finset.Card
import SaeJ1939.Lib.Checked

namespace SlotTable

open Checked

variable {α κ : Type} [DecidableEq κ] {n : Nat} (key : α → Option κ)

/-! ## §1. Searching. -/

/-- The first slot holding `k`. -/
def find (a : Fin n → α) (k : κ) : Option (Fin n) :=
  position (fun x => decide (key x = some k)) a

/-- The first empty slot. -/
def free (a : Fin n → α) : Option (Fin n) :=
  position (fun x => (key x).isNone) a

/-- The value held under `k`. -/
def get (a : Fin n → α) (k : κ) : Option α := (find key a k).map a

/-- No key is held in two slots. -/
def Distinct (a : Fin n → α) : Prop :=
  ∀ i j k, key (a i) = some k → key (a j) = some k → i = j

variable {key} {a : Fin n → α} {i j : Fin n} {k k' : κ} {x : α}

theorem key_of_find (h : find key a k = some i) : key (a i) = some k := by
  simpa using position_spec h

theorem find_eq_none : find key a k = none ↔ ∀ i, key (a i) ≠ some k := by
  simp [find, position_eq_none]

/-- **Searching finds a key exactly where it is held.** -/
theorem find_eq_some (hd : Distinct key a) : find key a k = some i ↔ key (a i) = some k := by
  refine ⟨key_of_find, fun hi => ?_⟩
  cases hf : find key a k with
  | none => exact absurd hi (find_eq_none.mp hf i)
  | some j => rw [hd j i k (key_of_find hf) hi]

omit [DecidableEq κ] in
theorem key_of_free (h : free key a = some i) : key (a i) = none := by
  simpa using position_spec h

theorem get_eq_none : get key a k = none ↔ ∀ i, key (a i) ≠ some k := by
  rw [get, Option.map_eq_none_iff, find_eq_none]

theorem get_eq_some (hd : Distinct key a) :
    get key a k = some x ↔ ∃ i, key (a i) = some k ∧ a i = x := by
  simp only [get, Option.map_eq_some_iff, find_eq_some hd]

omit [DecidableEq κ] in
/-- A table of more slots than there are keys for has an empty one. -/
theorem exists_free (hd : Distinct key a) {ks : Finset κ} (hks : ∀ i k, key (a i) = some k → k ∈ ks)
    (hcard : ks.card < n) : ∃ i, key (a i) = none := by
  by_contra hfull
  have hsome : ∀ i, ∃ k, key (a i) = some k := fun i =>
    Option.ne_none_iff_exists'.mp fun hnone => hfull ⟨i, hnone⟩
  choose holds hholds using hsome
  have hinj : Function.Injective holds := by
    intro i j hij
    refine hd i j (holds i) (hholds i) ?_
    rw [hholds j, hij]
  have hle := Finset.card_le_card_of_injOn holds (s := Finset.univ)
    (fun i _ => hks i _ (hholds i)) hinj.injOn
  rw [Finset.card_univ, Fintype.card_fin] at hle
  exact absurd hcard (Nat.not_lt.mpr hle)

theorem get_of_key (hd : Distinct key a) (h : key (a i) = some k) : get key a k = some (a i) :=
  (get_eq_some hd).mpr ⟨i, h, rfl⟩

theorem key_of_get (h : get key a k = some x) : key x = some k := by
  obtain ⟨i, hi, rfl⟩ := Option.map_eq_some_iff.mp h
  exact key_of_find hi

/-! ## §2. Writing one slot. -/

omit [DecidableEq κ] in
theorem distinct_update_none (hd : Distinct key a) (hx : key x = none) :
    Distinct key (Function.update a i x) := by
  intro p q l hp hq
  by_cases hpi : p = i
  · subst hpi
    rw [Function.update_self, hx] at hp
    cases hp
  · by_cases hqi : q = i
    · subst hqi
      rw [Function.update_self, hx] at hq
      cases hq
    · rw [Function.update_of_ne hpi] at hp
      rw [Function.update_of_ne hqi] at hq
      exact hd p q l hp hq

omit [DecidableEq κ] in
theorem distinct_update_some (hd : Distinct key a) (hx : key x = some k)
    (hk : ∀ j, j ≠ i → key (a j) ≠ some k) : Distinct key (Function.update a i x) := by
  intro p q l hp hq
  by_cases hpi : p = i <;> by_cases hqi : q = i
  · rw [hpi, hqi]
  · subst hpi
    rw [Function.update_self, hx] at hp
    rw [Function.update_of_ne hqi, ← hp] at hq
    exact absurd hq (hk q hqi)
  · subst hqi
    rw [Function.update_self, hx] at hq
    rw [Function.update_of_ne hpi, ← hq] at hp
    exact absurd hp (hk p hpi)
  · rw [Function.update_of_ne hpi] at hp
    rw [Function.update_of_ne hqi] at hq
    exact hd p q l hp hq

theorem get_update_self (hd : Distinct key (Function.update a i x)) (hx : key x = some k) :
    get key (Function.update a i x) k = some x :=
  (get_eq_some hd).mpr ⟨i, by rw [Function.update_self]; exact hx, Function.update_self ..⟩

theorem get_update_removed (hd : Distinct key a) (hi : key (a i) = some k) (hx : key x ≠ some k) :
    get key (Function.update a i x) k = none := by
  rw [get_eq_none]
  intro j hj
  by_cases hji : j = i
  · subst hji
    rw [Function.update_self] at hj
    exact hx hj
  · rw [Function.update_of_ne hji] at hj
    exact hji (hd j i k hj hi)

/-- A write to a slot that neither held nor receives `k` is invisible
under `k`. -/
theorem get_update_other (hi : key (a i) ≠ some k) (hx : key x ≠ some k) :
    get key (Function.update a i x) k = get key a k := by
  have hpred : ∀ j, decide (key (Function.update a i x j) = some k)
      = decide (key (a j) = some k) := by
    intro j
    by_cases hji : j = i
    · subst hji
      rw [Function.update_self]
      simp [hi, hx]
    · rw [Function.update_of_ne hji]
  have hfind : find key (Function.update a i x) k = find key a k := by
    simp only [find, position, hpred]
  rw [get, get, hfind]
  cases hf : find key a k with
  | none => rfl
  | some j =>
    have hji : j ≠ i := fun h => hi (h ▸ key_of_find hf)
    simp [Function.update_of_ne hji]

/-! ## §3. Writing every slot. -/

omit [DecidableEq κ] in
/-- A pass over the table that keeps each key or empties its slot. -/
theorem distinct_comp (f : α → α) (hd : Distinct key a)
    (hf : ∀ x l, key (f x) = some l → key x = some l) : Distinct key (fun i => f (a i)) :=
  fun i j l hi hj => hd i j l (hf _ _ hi) (hf _ _ hj)

/-- **The map after a pass over the table.** -/
theorem get_comp (f : α → α) (hd : Distinct key a)
    (hf : ∀ x l, key (f x) = some l → key x = some l) :
    get key (fun i => f (a i)) k
      = (get key a k).bind fun x => if key (f x) = some k then some (f x) else none := by
  cases hg : get key a k with
  | none =>
    rw [get_eq_none] at hg
    rw [Option.bind_none, get_eq_none]
    exact fun i hi => hg i (hf _ _ hi)
  | some x =>
    obtain ⟨i, hi, rfl⟩ := (get_eq_some hd).mp hg
    rw [Option.bind_some]
    split
    next hk => exact get_of_key (distinct_comp f hd hf) (i := i) hk
    next hk =>
      rw [get_eq_none]
      intro j hj
      have hji : j = i := hd j i k (hf _ _ hj) hi
      exact hk (hji ▸ hj)

/-- `get_comp`, seen through what the slots hold, when an empty one holds
nothing. -/
theorem bind_get_comp {β : Type} {value : α → Option β} (f : α → α) (hd : Distinct key a)
    (hf : ∀ x l, key (f x) = some l → key x = some l) (hv : ∀ x, key x = none → value x = none) :
    (get key (fun i => f (a i)) k).bind value = (get key a k).bind fun x => value (f x) := by
  rw [get_comp f hd hf]
  cases hg : get key a k with
  | none => rfl
  | some x =>
    rw [Option.bind_some, Option.bind_some]
    split
    next => rfl
    next hk =>
      -- the pass emptied the slot
      have hnone : key (f x) = none := by
        cases hl : key (f x) with
        | none => rfl
        | some l =>
          have hx : key x = some l := hf x l hl
          rw [key_of_get hg] at hx
          exact absurd (hl.trans hx.symm) hk
      rw [Option.bind_none, hv _ hnone]

/-! ## §4. Reporting on every slot. -/

/-- A list of which at most one element `i` reports something. -/
theorem filterMap_of_unique {ι β : Type} {f : ι → Option β} {l : List ι} {i : ι}
    (hl : l.Nodup) (hi : i ∈ l) (hf : ∀ j ∈ l, j ≠ i → f j = none) :
    l.filterMap f = (f i).toList := by
  induction l with
  | nil => cases hi
  | cons x l ih =>
    obtain ⟨hx, hl⟩ := List.nodup_cons.mp hl
    rcases List.mem_cons.mp hi with rfl | hi
    · -- the reporter is the head
      have hrest : l.filterMap f = [] := by
        rw [List.filterMap_eq_nil_iff]
        exact fun j hj => hf j (List.mem_cons_of_mem _ hj) fun h => hx (h ▸ hj)
      rw [List.filterMap_cons]
      cases f i <;> simp [hrest]
    · -- the reporter is in the tail
      have hnone : f x = none := hf x (List.mem_cons_self ..) fun h => hx (h ▸ hi)
      rw [List.filterMap_cons_none hnone]
      exact ih hl hi fun j hj => hf j (List.mem_cons_of_mem _ hj)

/-- **What is reported under one key** by a pass in which every slot
reports under its own key. -/
theorem filter_reports {β : Type} {report : α → Option (κ × β)} (hd : Distinct key a)
    (hr : ∀ x p, report x = some p → key x = some p.1) :
    ((List.finRange n).filterMap fun i => report (a i)).filter (fun p => decide (p.1 = k))
      = ((get key a k).bind report).toList := by
  rw [List.filter_filterMap]
  cases hg : get key a k with
  | none =>
    rw [get_eq_none] at hg
    rw [Option.bind_none, Option.toList_none, List.filterMap_eq_nil_iff]
    intro i _
    rw [Option.filter_eq_none_iff]
    intro p hp hk
    exact hg i (by rw [hr _ _ hp, of_decide_eq_true hk])
  | some x =>
    obtain ⟨i, hi, rfl⟩ := (get_eq_some hd).mp hg
    rw [Option.bind_some, filterMap_of_unique (List.nodup_finRange n) (List.mem_finRange i)]
    · -- what the holder reports is under its own key
      cases hp : report (a i) with
      | none => rfl
      | some p =>
        have hk : p.1 = k := by simpa [hi] using (hr _ _ hp).symm
        simp [hk]
    · intro j _ hj
      rw [Option.filter_eq_none_iff]
      intro p hp hk
      exact hj (hd j i k (by rw [hr _ _ hp, of_decide_eq_true hk]) hi)

/-! ## §5. Tables whose every slot satisfies a property. -/

variable (key) in
/-- No key is held twice, and every slot satisfies `P`. -/
structure Sound (P : α → Prop) (a : Fin n → α) : Prop where
  distinct : Distinct key a
  slots : ∀ i, P (a i)

variable (key) in
/-- `a'` is sound and differs from `a` only under `k`, where it holds `x`. -/
structure Put (P : α → Prop) (a a' : Fin n → α) (k : κ) (x : Option α) : Prop where
  sound : Sound key P a'
  self : get key a' k = x
  others : ∀ l, l ≠ k → get key a' l = get key a l

variable {P : α → Prop}

/-- Nothing was written. -/
theorem Sound.same (h : Sound key P a) (k : κ) : Put key P a a k (get key a k) :=
  ⟨h, rfl, fun _ _ => rfl⟩

omit [DecidableEq κ] in
theorem Sound.update (h : Sound key P a) (hd : Distinct key (Function.update a i x)) (hP : P x) :
    Sound key P (Function.update a i x) := by
  refine ⟨hd, fun j => ?_⟩
  by_cases hji : j = i
  · subst hji
    rw [Function.update_self]
    exact hP
  · rw [Function.update_of_ne hji]
    exact h.slots j

/-- **Filling the slot of `k`**, or an empty one when `k` has none. -/
theorem Sound.put (h : Sound key P a) (hx : key x = some k) (hP : P x)
    (hi : key (a i) = some k ∨ key (a i) = none ∧ get key a k = none) :
    Put key P a (Function.update a i x) k (some x) := by
  have honly : ∀ j, j ≠ i → key (a j) ≠ some k := by
    intro j hj hk
    rcases hi with hi | ⟨-, hnone⟩
    · exact hj (h.distinct j i k hk hi)
    · exact get_eq_none.mp hnone j hk
  have hd : Distinct key (Function.update a i x) := distinct_update_some h.distinct hx honly
  refine ⟨h.update hd hP, get_update_self hd hx, fun l hl => get_update_other ?_ ?_⟩
  · rcases hi with hi | ⟨hi, -⟩ <;> rw [hi]
    · simpa using hl.symm
    · simp
  · rw [hx]
    simpa using hl.symm

/-- **Emptying the slot of `k`.** -/
theorem Sound.remove (h : Sound key P a) (hi : key (a i) = some k) (hx : key x = none)
    (hP : P x) : Put key P a (Function.update a i x) k none := by
  refine ⟨h.update (distinct_update_none h.distinct hx) hP,
    get_update_removed h.distinct hi (by simp [hx]), fun l hl => get_update_other ?_ ?_⟩
  · rw [hi]
    simpa using hl.symm
  · simp [hx]

omit [DecidableEq κ] in
/-- **A pass over the table** that keeps each key or empties its slot. -/
theorem Sound.pass (h : Sound key P a) (f : α → α)
    (hf : ∀ x l, key (f x) = some l → key x = some l) (hP : ∀ x, P x → P (f x)) :
    Sound key P fun i => f (a i) :=
  ⟨distinct_comp f h.distinct hf, fun i => hP _ (h.slots i)⟩

end SlotTable
