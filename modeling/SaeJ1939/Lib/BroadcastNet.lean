/-
  SaeJ1939.Lib.BroadcastNet — parties that announce themselves to each other.

  `n` parties share a medium.  A party may react to a local command or to
  a delivered message, and each reaction changes its state and may
  announce one message, which then travels separately to every other
  party: it is delivered to each of them once, in any order and any time
  later.

  Two parties may be in `conflict`.  What separates them is that each one
  tells the others what it holds.  The discipline of a single party is
  `Honest`: whenever a reaction leaves it in a conflict, either it has
  just announced what it holds, or the conflict was already there and the
  message it consumed was not the other party's own announcement.

  Main results:
    * `Separated.next` — an honest protocol keeps every conflict covered
      by a message in flight between the two parties.
    * `no_conflict_of_quiet` — hence, when nothing is in flight, no two
      parties are in conflict, whatever the run.
    * `deliveries_le_weight` — where answers climb down in rank or are
      paid for, every run of deliveries ends.
-/
import Mathlib.Algebra.BigOperators.Fin
import SaeJ1939.Lib.Machine

namespace BroadcastNet

open Machine

variable {σ μ κ : Type} {n : Nat}

/-! ## §1. The medium. -/

/-- How one party reacts to a local command and to a delivered message. -/
structure Protocol (σ μ κ : Type) where
  act : σ → κ → Option μ × σ
  deliver : σ → μ → Option μ × σ

/-- The states of the parties, and the messages still to be delivered,
each with the party it is on its way to. -/
structure Net (n : Nat) (σ μ : Type) where
  node : Fin n → σ
  flying : List (Fin n × μ)

/-- What the scheduler may do next. -/
inductive Move (n : Nat) (μ κ : Type) where
  /-- Party `i` receives the local command `k`. -/
  | act (i : Fin n) (k : κ)
  /-- The message `m` on its way to party `i` arrives. -/
  | deliver (i : Fin n) (m : μ)

/-- A message announced by party `i` travels to every other party. -/
def announce (i : Fin n) : Option μ → List (Fin n × μ)
  | none => []
  | some m => ((List.finRange n).filter (· ≠ i)).map fun j => (j, m)

/-- Party `i` moves to state `s` and announces `o`. -/
def Net.react (net : Net n σ μ) (i : Fin n) (r : Option μ × σ) : Net n σ μ :=
  ⟨Function.update net.node i r.2, net.flying ++ announce i r.1⟩

/-- One move of the scheduler, if it is possible. -/
def move [DecidableEq μ] (P : Protocol σ μ κ) (net : Net n σ μ) :
    Move n μ κ → Option (Net n σ μ)
  | .act i k => some (net.react i (P.act (net.node i) k))
  | .deliver i m =>
      if (i, m) ∈ net.flying then
        some ((⟨net.node, net.flying.erase (i, m)⟩ : Net n σ μ).react i
          (P.deliver (net.node i) m))
      else none

/-- The transition relation of the scheduler. -/
def Next [DecidableEq μ] (P : Protocol σ μ κ) (net : Net n σ μ) (l : Move n μ κ)
    (net' : Net n σ μ) : Prop := move P net l = some net'

/-- A list of moves, if every one of them is possible. -/
def moves [DecidableEq μ] (P : Protocol σ μ κ) : Net n σ μ → List (Move n μ κ) → Option (Net n σ μ)
  | net, [] => some net
  | net, l :: ls => (move P net l).bind fun net' => moves P net' ls

/-- Nothing has been said yet. -/
def start (init : Fin n → σ) : Net n σ μ := ⟨init, []⟩

/-- A list of possible moves is a run. -/
theorem run_of_moves [DecidableEq μ] {P : Protocol σ μ κ} {net₀ net net' : Net n σ μ}
    {done ls : List (Move n μ κ)} (h₀ : Run (Next P) net₀ done net)
    (h : moves P net ls = some net') : Run (Next P) net₀ (done ++ ls) net' := by
  induction ls generalizing net done with
  | nil =>
    simp only [moves, Option.some.injEq] at h
    subst h
    simpa using h₀
  | cons l ls ih =>
    simp only [moves, Option.bind_eq_some_iff] at h
    obtain ⟨net₁, hmove, hrest⟩ := h
    simpa using ih (h₀.snoc hmove) hrest

theorem mem_announce {i j : Fin n} {o : Option μ} {m : μ} :
    (j, m) ∈ announce i o ↔ j ≠ i ∧ o = some m := by
  cases o with
  | none => simp [announce]
  | some m' =>
    simp only [announce, List.mem_map, List.mem_filter, List.mem_finRange, true_and,
      decide_eq_true_eq, Prod.mk.injEq, Option.some.injEq]
    constructor
    · rintro ⟨k, hk, rfl, rfl⟩
      exact ⟨hk, rfl⟩
    · rintro ⟨hj, rfl⟩
      exact ⟨j, hj, rfl, rfl⟩

/-! ## §2. Conflicts and the messages that will separate them. -/

/-- A reaction from `s` to `s'` announcing `o` is honest towards a party
in state `t`: a conflict it leaves was announced, or is an old one. -/
def Honest (conflict : σ → σ → Prop) (claim : σ → μ) (s : σ) (r : Option μ × σ) : Prop :=
  ∀ t, conflict r.2 t → r.1 = some (claim r.2) ∨ (conflict s t ∧ claim r.2 = claim s)

/-- As `Honest`, for the reaction to a delivered message `m`: an old
conflict is not one whose own announcement has just been consumed. -/
def HonestOn (conflict : σ → σ → Prop) (claim : σ → μ) (s : σ) (m : μ)
    (r : Option μ × σ) : Prop :=
  ∀ t, conflict r.2 t →
    r.1 = some (claim r.2) ∨ (conflict s t ∧ claim r.2 = claim s ∧ m ≠ claim t)

/-- **Every conflict is covered**: one of the two parties is about to
hear what the other one holds. -/
def Separated (conflict : σ → σ → Prop) (claim : σ → μ) (net : Net n σ μ) : Prop :=
  ∀ i j, i ≠ j → conflict (net.node i) (net.node j) →
    (j, claim (net.node i)) ∈ net.flying ∨ (i, claim (net.node j)) ∈ net.flying

section Invariant

variable {conflict : σ → σ → Prop} {claim : σ → μ}

theorem separated_start (init : Fin n → σ)
    (h : ∀ i j, i ≠ j → ¬ conflict (init i) (init j)) :
    Separated conflict claim (start init : Net n σ μ) :=
  fun i j hij hc => absurd hc (h i j hij)

/-- A reaction keeps conflicts covered as soon as, seen from every other
party, it announced itself or left an old conflict with its cover in
place. -/
theorem separated_react {net : Net n σ μ} {i : Fin n} {r : Option μ × σ}
    (hsymm : ∀ s t, conflict s t → conflict t s)
    (hothers : ∀ j k, j ≠ i → k ≠ i → j ≠ k → conflict (net.node j) (net.node k) →
      (k, claim (net.node j)) ∈ net.flying ∨ (j, claim (net.node k)) ∈ net.flying)
    (hself : ∀ j, j ≠ i → conflict r.2 (net.node j) →
      r.1 = some (claim r.2) ∨
        ((j, claim r.2) ∈ net.flying ∨ (i, claim (net.node j)) ∈ net.flying)) :
    Separated conflict claim (net.react i r) := by
  -- the pair `(i, j)`, from the side of the party that moved
  have hpair : ∀ j, j ≠ i → conflict r.2 (net.node j) →
      (j, claim r.2) ∈ net.flying ++ announce i r.1 ∨
        (i, claim (net.node j)) ∈ net.flying ++ announce i r.1 := by
    intro j hj hc
    rcases hself j hj hc with ho | hf | hf
    · exact Or.inl (List.mem_append_right _ (mem_announce.mpr ⟨hj, ho⟩))
    · exact Or.inl (List.mem_append_left _ hf)
    · exact Or.inr (List.mem_append_left _ hf)
  intro j k hjk hc
  simp only [Net.react] at hc ⊢
  by_cases hji : j = i
  · subst hji
    have hkj : k ≠ j := fun h => hjk h.symm
    rw [Function.update_self, Function.update_of_ne hkj] at hc ⊢
    exact hpair k hkj hc
  · by_cases hki : k = i
    · subst hki
      rw [Function.update_self, Function.update_of_ne hji] at hc ⊢
      exact (hpair j hji (hsymm _ _ hc)).symm
    · rw [Function.update_of_ne hji, Function.update_of_ne hki] at hc ⊢
      rcases hothers j k hji hki hjk hc with hf | hf
      · exact Or.inl (List.mem_append_left _ hf)
      · exact Or.inr (List.mem_append_left _ hf)

/-- **One move of an honest protocol keeps every conflict covered.** -/
theorem Separated.next [DecidableEq μ] {P : Protocol σ μ κ}
    {net net' : Net n σ μ} {l : Move n μ κ}
    (hsymm : ∀ s t, conflict s t → conflict t s)
    (hact : ∀ s k, Honest conflict claim s (P.act s k))
    (hdel : ∀ s m, HonestOn conflict claim s m (P.deliver s m))
    (hsep : Separated conflict claim net) (h : Next P net l net') :
    Separated conflict claim net' := by
  cases l with
  | act i k =>
    simp only [Next, move, Option.some.injEq] at h
    subst h
    refine separated_react hsymm (fun j k _ _ hjk hc => hsep j k hjk hc) ?_
    intro j hj hc
    rcases hact _ _ _ hc with ho | ⟨hold, hclaim⟩
    · exact Or.inl ho
    · rw [hclaim]
      exact Or.inr (hsep i j (Ne.symm hj) hold)
  | deliver i m =>
    simp only [Next, move] at h
    split at h
    next hm =>
      simp only [Option.some.injEq] at h
      subst h
      -- only `(i, m)` has left the medium
      have hkeep : ∀ p : Fin n × μ, p ≠ (i, m) → p ∈ net.flying → p ∈ net.flying.erase (i, m) :=
        fun p hp hmem => (List.mem_erase_of_ne hp).mpr hmem
      refine separated_react hsymm ?_ ?_
      · intro j k hj hk hjk hc
        rcases hsep j k hjk hc with hf | hf
        · exact Or.inl (hkeep _ (fun h => hk (Prod.ext_iff.mp h).1) hf)
        · exact Or.inr (hkeep _ (fun h => hj (Prod.ext_iff.mp h).1) hf)
      · intro j hj hc
        rcases hdel _ _ _ hc with ho | ⟨hold, hclaim, hne⟩
        · exact Or.inl ho
        · refine Or.inr ?_
          rw [hclaim]
          rcases hsep i j (Ne.symm hj) hold with hf | hf
          · exact Or.inl (hkeep _ (fun h => hj (Prod.ext_iff.mp h).1) hf)
          · exact Or.inr (hkeep _ (fun h => hne (Prod.ext_iff.mp h).2.symm) hf)
    next => cases h

/-- **When nothing is in flight, nobody is in conflict.** -/
theorem no_conflict_of_quiet [DecidableEq μ] (conflict : σ → σ → Prop) (claim : σ → μ)
    {P : Protocol σ μ κ} {init : Fin n → σ}
    {net : Net n σ μ} {ls : List (Move n μ κ)}
    (hsymm : ∀ s t, conflict s t → conflict t s)
    (hact : ∀ s k, Honest conflict claim s (P.act s k))
    (hdel : ∀ s m, HonestOn conflict claim s m (P.deliver s m))
    (hinit : ∀ i j, i ≠ j → ¬ conflict (init i) (init j))
    (h : Run (Next P) (start init) ls net) (hquiet : net.flying = [])
    {i j : Fin n} (hij : i ≠ j) : ¬ conflict (net.node i) (net.node j) := by
  have hsep : Separated conflict claim net :=
    h.invariant (fun _ _ _ hs hstep => hs.next hsymm hact hdel hstep)
      (separated_start init hinit)
  intro hc
  have := hsep i j hij hc
  simp [hquiet] at this

end Invariant

/-! ## §3. Deliveries run out. -/

/-- A move that only consumes what is in flight. -/
def Move.IsDelivery : Move n μ κ → Prop
  | .act _ _ => False
  | .deliver _ _ => True

/-- A reaction to the message `m` settles: the party answers with a
message of lower rank, if with any, or it spends some of its potential. -/
def Settles (potential : σ → Nat) (rank : μ → Nat) (s : σ) (m : μ) (r : Option μ × σ) : Prop :=
  (potential r.2 ≤ potential s ∧ ∀ m', r.1 = some m' → rank m' < rank m)
    ∨ potential r.2 < potential s

section Settling

variable (potential : σ → Nat) (rank : μ → Nat) (top : Nat)

/-- A message of rank `k` outweighs what may be said in answer to it by
`n` parties at any lower rank. -/
def load (flying : List (Fin n × μ)) : Nat := (flying.map fun p => n ^ rank p.2).sum

/-- Potential is worth more than any announcement it may buy. -/
def weight (net : Net n σ μ) : Nat :=
  (∑ i, potential (net.node i)) * n ^ (top + 1) + load rank net.flying

variable {potential rank top}

theorem load_append (fs gs : List (Fin n × μ)) :
    load rank (fs ++ gs) = load rank fs + load rank gs := by
  simp [load]

/-- The sender itself does not hear its announcement, so a message of a
lower rank than `k` weighs strictly less than one of rank `k`. -/
theorem load_announce_lt (i : Fin n) {m : μ} {k : Nat} (hk : rank m < k) :
    load rank (announce i (some m)) < n ^ k := by
  have hn : 0 < n := i.pos
  have hlen : ((List.finRange n).filter (· ≠ i)).length < n := by
    have hlt : ((List.finRange n).filter (· ≠ i)).length < (List.finRange n).length :=
      List.length_filter_lt_length_iff_exists.mpr ⟨i, List.mem_finRange i, by simp⟩
    simpa using hlt
  calc load rank (announce i (some m))
      = ((List.finRange n).filter (· ≠ i)).length * n ^ rank m := by
        simp [load, announce, List.map_map, Function.comp_def]
    _ < n * n ^ rank m := Nat.mul_lt_mul_of_pos_right hlen (Nat.pow_pos hn)
    _ = n ^ (rank m + 1) := (Nat.pow_succ').symm
    _ ≤ n ^ k := Nat.pow_le_pow_right hn hk

theorem load_erase [DecidableEq μ] {fs : List (Fin n × μ)} {i : Fin n} {m : μ}
    (h : (i, m) ∈ fs) : load rank (fs.erase (i, m)) + n ^ rank m = load rank fs := by
  have hperm := (List.perm_cons_erase h).map fun p => n ^ rank p.2
  have hsum := hperm.sum_eq
  simp only [List.map_cons, List.sum_cons] at hsum
  rw [load, load, hsum, Nat.add_comm]

/-- The potential of a net after one party has moved to state `s`. -/
theorem sum_potential_update (node : Fin n → σ) (i : Fin n) (s : σ) :
    ∑ j, potential (Function.update node i s j) + potential (node i)
      = ∑ j, potential (node j) + potential s := by
  have hupdate : (fun j => potential (Function.update node i s j))
      = Function.update (fun j => potential (node j)) i (potential s) :=
    Function.comp_update potential node i s
  rw [hupdate, Finset.sum_update_of_mem (Finset.mem_univ i),
    Finset.sum_eq_add_sum_sdiff_singleton_of_mem (Finset.mem_univ i) fun j => potential (node j)]
  omega

/-- **Every delivery that settles makes the net lighter.** -/
theorem weight_deliver_lt [DecidableEq μ] {P : Protocol σ μ κ} {net net' : Net n σ μ}
    {i : Fin n} {m : μ} (htop : ∀ m, rank m ≤ top)
    (hsettles : Settles potential rank (net.node i) m (P.deliver (net.node i) m))
    (h : Next P net (.deliver i m) net') :
    weight potential rank top net' < weight potential rank top net := by
  simp only [Next, move] at h
  split at h
  next hmem =>
    simp only [Option.some.injEq] at h
    subst h
    generalize P.deliver (net.node i) m = r at hsettles
    have hn : 0 < n := i.pos
    have hsum : ∑ j, potential (Function.update net.node i r.2 j) + potential (net.node i)
        = ∑ j, potential (net.node j) + potential r.2 := sum_potential_update net.node i r.2
    have hload : load rank (net.flying.erase (i, m)) + n ^ rank m = load rank net.flying :=
      load_erase hmem
    have hpos : 0 < n ^ rank m := Nat.pow_pos hn
    simp only [weight, Net.react, load_append]
    generalize hΦ : ∑ j, potential (net.node j) = Φ at *
    generalize hΦ' : ∑ j, potential (Function.update net.node i r.2 j) = Φ' at *
    rcases hsettles with ⟨hle, hrank⟩ | hlt
    · -- the answer, if any, weighs less than the message it answers
      have hΦle : Φ' * n ^ (top + 1) ≤ Φ * n ^ (top + 1) :=
        Nat.mul_le_mul_right _ (by omega)
      have hanswer : load rank (announce i r.1) < n ^ rank m := by
        cases ho : r.1 with
        | none => simpa [announce, load] using hpos
        | some m' => exact load_announce_lt i (hrank m' ho)
      omega
    · -- the answer is paid for by the potential
      have hΦlt : Φ' * n ^ (top + 1) + n ^ (top + 1) ≤ Φ * n ^ (top + 1) := by
        rw [← Nat.succ_mul]
        exact Nat.mul_le_mul_right _ (by omega)
      have hanswer : load rank (announce i r.1) ≤ n ^ (top + 1) := by
        cases ho : r.1 with
        | none => simp [announce, load]
        | some m' => exact (load_announce_lt i (Nat.lt_succ_of_le (htop m'))).le
      omega
  next => cases h

/-- **Deliveries run out**: a run of nothing but deliveries is no longer
than the net it starts from is heavy. -/
theorem deliveries_le_weight [DecidableEq μ] {P : Protocol σ μ κ} {net net' : Net n σ μ}
    {ls : List (Move n μ κ)} (htop : ∀ m, rank m ≤ top)
    (hsettles : ∀ s m, Settles potential rank s m (P.deliver s m))
    (h : Run (Next P) net ls net') (hls : ∀ l ∈ ls, l.IsDelivery) :
    ls.length + weight potential rank top net' ≤ weight potential rank top net := by
  induction h with
  | nil => simp
  | @snoc ls net₁ net₂ l hrun hnext ih =>
    have hprefix := ih fun l hl => hls l (List.mem_append_left _ hl)
    have hlast := hls l (List.mem_append_right _ (List.mem_singleton_self l))
    cases l with
    | act i k => exact absurd hlast id
    | deliver i m =>
      have hlt := weight_deliver_lt htop (hsettles _ _) hnext
      rw [List.length_append, List.length_singleton]
      omega

end Settling

end BroadcastNet
