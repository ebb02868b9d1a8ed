/-
  SaeJ1939.Network.Agreement — ECUs claiming addresses on one bus.

  Any number of claimers share a bus.  Each may be told by its
  application to claim, to answer a request, to take a commanded address,
  to give up, or that its contention window closed; whatever it announces
  is delivered to every other claimer once, in any order and any time
  later, and may in turn make that claimer announce something.

  Main results:
    * `claimProtocol_honest_act`, `claimProtocol_honest_deliver` — a
      claimer that ends a reaction holding a contested address has either
      just announced it, or was contested before by a claim still on its
      way.
    * `address_agreement` — with nothing in flight, no two ECUs that
      claim or hold an address share it.
-/
import SaeJ1939.Core.AddressClaim
import SaeJ1939.Lib.BroadcastNet

namespace SaeJ1939.Network

open AddressClaim AddressClaimer BroadcastNet Machine

/-! ## §1. The claiming protocol as parties on a bus. -/

/-- What an application may ask of its claimer. -/
inductive Command where
  | claim
  | contentionWindowElapsed
  | request
  | commandedAddress (data : List UInt8)
  | giveUp
  deriving Repr, DecidableEq

/-- The broadcast an action asks for. -/
def announced : ClaimAction → Option Claim
  | .idle => none
  | .announce claim => some claim

/-- The broadcast a commanded address asks for; an error asks for none. -/
def announcedOk : Result ClaimAction → Option Claim
  | .ok action => announced action
  | .error _ => none

/-- How a claimer reacts to its application and to the bus. -/
def claimProtocol : Protocol AddressClaimer Claim Command where
  act c
    | .claim => (some c.claim.1, c.claim.2)
    | .contentionWindowElapsed => (none, c.contentionWindowElapsed)
    | .request => (announced c.onRequest.1, c.onRequest.2)
    | .commandedAddress data =>
        (announcedOk (c.onCommandedAddress data).1, (c.onCommandedAddress data).2)
    | .giveUp => (some c.giveUp.1, c.giveUp.2)
  deliver c m :=
    (announced (c.onAddressClaimed m.source m.name).1, (c.onAddressClaimed m.source m.name).2)

/-- Two ECUs both claim or hold one address. -/
def Contested (s t : AddressClaimer) : Prop :=
  s.isActive = true ∧ t.isActive = true ∧ s.address = t.address ∧ s.name ≠ t.name

theorem Contested.symm {s t : AddressClaimer} (h : Contested s t) : Contested t s :=
  ⟨h.2.1, h.1, h.2.2.1.symm, h.2.2.2.symm⟩

/-! ## §2. A claimer is honest about what it holds. -/

theorem claimProtocol_honest_act (s : AddressClaimer) (k : Command) :
    Honest Contested currentClaim s (claimProtocol.act s k) := by
  intro t hc
  cases k with
  | claim =>
    rcases s.claim_cases with ⟨-, hcl⟩ | ⟨-, hcl⟩
    · -- nothing to claim: the ECU gave up
      simp only [claimProtocol, hcl] at hc
      exact absurd hc.1 (by simp [giveUp_not_active])
    · simp only [claimProtocol, hcl]
      exact Or.inl rfl
  | contentionWindowElapsed =>
    -- the window closes on a claim already announced
    refine Or.inr ?_
    simp only [claimProtocol, contentionWindowElapsed] at hc ⊢
    split at hc
    next hs =>
      rw [if_pos hs]
      have hact : s.isActive = true := isActive_iff.mpr (Or.inl (by simpa using hs))
      exact ⟨⟨hact, hc.2.1, hc.2.2.1, hc.2.2.2⟩, rfl⟩
    next hs =>
      rw [if_neg hs]
      exact ⟨hc, rfl⟩
  | request => exact Or.inl rfl
  | commandedAddress data =>
    rcases s.onCommandedAddress_cases data with ⟨hs, ho⟩ | ⟨hs, e, ho⟩ | ⟨a, -, ho⟩
    · simp only [claimProtocol, hs] at hc ⊢
      exact Or.inr ⟨hc, trivial⟩
    · simp only [claimProtocol, hs] at hc ⊢
      exact Or.inr ⟨hc, trivial⟩
    · simp only [claimProtocol, ho]
      exact Or.inl rfl
  | giveUp =>
    simp only [claimProtocol] at hc
    exact absurd hc.1 (by simp [giveUp_not_active])

theorem claimProtocol_honest_deliver (s : AddressClaimer) (m : Claim) :
    HonestOn Contested currentClaim s m (claimProtocol.deliver s m) := by
  intro t hc
  rcases s.onAddressClaimed_cases m.source m.name with
    ⟨hn, ho⟩ | ⟨hn, hfight, ho⟩ | ⟨hn, -, -, -, ho⟩ | ⟨hn, -, -, -, next, -, -, ho⟩
      | ⟨hn, -, -, -, -, ho⟩
  · -- our own echo: the message was not the other party's
    simp only [claimProtocol, ho] at hc ⊢
    refine Or.inr ⟨hc, trivial, ?_⟩
    rintro rfl
    exact hc.2.2.2 hn.symm
  · -- not our fight: the message did not name the contested address
    simp only [claimProtocol, ho] at hc ⊢
    rw [Contested, heard_isActive, heard_address, heard_name] at hc
    refine Or.inr ⟨hc, heard_currentClaim s m.source, ?_⟩
    rintro rfl
    rcases hfight with hsrc | hstate
    · exact hsrc hc.2.2.1.symm
    · have := isActive_iff.mp hc.1
      simp [hstate] at this
  · -- we defend
    simp only [claimProtocol, ho]
    exact Or.inl (by rw [heard_currentClaim]; rfl)
  · -- we relocate
    simp only [claimProtocol, ho]
    exact Or.inl (by simp [announced, currentClaim])
  · -- we give up
    simp only [claimProtocol, ho] at hc
    exact absurd hc.1 (by simp [giveUp_not_active])

/-! ## §3. NAMEs never change. -/

theorem claimProtocol_act_name (s : AddressClaimer) (k : Command) :
    (claimProtocol.act s k).2.name = s.name := by
  cases k with
  | claim =>
    rcases s.claim_cases with ⟨-, hcl⟩ | ⟨-, hcl⟩
    · simp only [claimProtocol, hcl, giveUp]
    · simp only [claimProtocol, hcl]
  | contentionWindowElapsed =>
    simp only [claimProtocol, contentionWindowElapsed]
    split <;> rfl
  | request => rfl
  | commandedAddress data =>
    rcases s.onCommandedAddress_cases data with ⟨hs, -⟩ | ⟨hs, -⟩ | ⟨a, -, ho⟩
    · simp only [claimProtocol, hs]
    · simp only [claimProtocol, hs]
    · simp only [claimProtocol, ho]
  | giveUp => rfl

theorem claimProtocol_deliver_name (s : AddressClaimer) (m : Claim) :
    (claimProtocol.deliver s m).2.name = s.name := by
  rcases s.onAddressClaimed_cases m.source m.name with
    ⟨-, ho⟩ | ⟨-, -, ho⟩ | ⟨-, -, -, -, ho⟩ | ⟨-, -, -, -, next, -, -, ho⟩ | ⟨-, -, -, -, -, ho⟩ <;>
    simp [claimProtocol, ho, giveUp]

theorem next_name {n : Nat} {net net' : Net n AddressClaimer Claim} {l : Move n Claim Command}
    (h : Next claimProtocol net l net') (i : Fin n) :
    (net'.node i).name = (net.node i).name := by
  have hreact : ∀ (base : Net n AddressClaimer Claim) (j : Fin n)
      (r : Option Claim × AddressClaimer), r.2.name = (base.node j).name →
      ((base.react j r).node i).name = (base.node i).name := by
    intro base j r hr
    by_cases hij : i = j
    · subst hij
      simpa [Net.react] using hr
    · simp [Net.react, Function.update_of_ne hij]
  cases l with
  | act j k =>
    simp only [Next, move, Option.some.injEq] at h
    subst h
    exact hreact net j _ (claimProtocol_act_name _ _)
  | deliver j m =>
    simp only [Next, move] at h
    split at h
    next =>
      simp only [Option.some.injEq] at h
      subst h
      exact hreact _ j _ (claimProtocol_deliver_name _ _)
    next => cases h

/-! ## §4. Agreement. -/

/-- **Address agreement**: whatever the claimers did and in whatever
order their announcements arrived, once nothing is in flight no two ECUs
that claim or hold an address share it. -/
theorem address_agreement {n : Nat} (name : Fin n → Name) (hname : Function.Injective name)
    (preferred : Fin n → Address) (ls : List (Move n Claim Command))
    (net : Net n AddressClaimer Claim)
    (hrun : Run (Next claimProtocol)
      (start fun i => AddressClaimer.new (name i) (preferred i)) ls net)
    (hquiet : net.flying = []) (i j : Fin n) (hij : i ≠ j)
    (hi : (net.node i).isActive = true) (hj : (net.node j).isActive = true) :
    (net.node i).address ≠ (net.node j).address := by
  have hnames : ∀ k, (net.node k).name = name k :=
    hrun.invariant (I := fun net => ∀ k, (net.node k).name = name k)
      (fun s e s' hs hstep k => (next_name hstep k).trans (hs k)) (fun _ => rfl)
  have hne : (net.node i).name ≠ (net.node j).name := by
    rw [hnames, hnames]
    exact fun h => hij (hname h)
  intro haddr
  refine no_conflict_of_quiet Contested currentClaim (fun _ _ => Contested.symm)
    claimProtocol_honest_act claimProtocol_honest_deliver ?_ hrun hquiet hij ⟨hi, hj, haddr, hne⟩
  intro k l _ hc
  exact absurd hc.1 (by simp [AddressClaimer.new])

/-- Two ECUs with the NAMEs `1` and `2`, the second one free to move. -/
def pairName : Fin 2 → Name := ![⟨1⟩, ⟨0x8000000000000002⟩]

/-- Both want address `0x80`; the weaker one hears about it and moves. -/
def pairMoves : List (Move 2 Claim Command) :=
  [.act 0 .claim, .act 1 .claim,
    .deliver 1 ⟨⟨0x80⟩, pairName 0⟩, .deliver 0 ⟨⟨0x80⟩, pairName 1⟩,
    .deliver 0 ⟨⟨0x81⟩, pairName 1⟩, .deliver 1 ⟨⟨0x80⟩, pairName 0⟩,
    .act 0 .contentionWindowElapsed, .act 1 .contentionWindowElapsed]

theorem address_agreement_pair : ∃ net : Net 2 AddressClaimer Claim,
    Run (Next claimProtocol) (start fun i => AddressClaimer.new (pairName i) ⟨0x80⟩)
      pairMoves net
    ∧ (net.node 0).state = .claimed ∧ (net.node 1).state = .claimed
    ∧ (net.node 0).address ≠ (net.node 1).address := by
  let init : Net 2 AddressClaimer Claim := start fun i => AddressClaimer.new (pairName i) ⟨0x80⟩
  have hall : (moves claimProtocol init pairMoves).map
      (fun net => (net.flying, (net.node 0).state, (net.node 1).state))
      = some ([], .claimed, .claimed) := by decide +kernel
  obtain ⟨net, hnet, heq⟩ := Option.map_eq_some_iff.mp hall
  simp only [Prod.mk.injEq] at heq
  obtain ⟨hquiet, h0, h1⟩ := heq
  have hrun : Run (Next claimProtocol) init pairMoves net := run_of_moves Run.nil hnet
  exact ⟨net, hrun, h0, h1,
    address_agreement pairName (by decide) (fun _ => ⟨0x80⟩) pairMoves net hrun hquiet 0 1
      (by decide) (isActive_iff.mpr (Or.inr h0)) (isActive_iff.mpr (Or.inr h1))⟩

end SaeJ1939.Network
