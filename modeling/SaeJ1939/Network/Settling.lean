/-
  SaeJ1939.Network.Settling — address contention always settles.

  Left alone by their applications, claimers react to each other's
  announcements only.  A reaction that defends an address climbs down in
  the order of the NAMEs; one that relocates or gives up spends some of
  what the claimer can still lose, since the map of addresses it has seen
  only grows.

  Main results:
    * `onAddressClaimed_settles` — every reaction climbs down or spends.
    * `contention_settles` — whatever the claimers are and whatever is in
      flight, every sequence of deliveries ends.
-/
import SaeJ1939.Network.Agreement

namespace SaeJ1939.AddressClaim.AddressClaimer

/-! ## §1. What a claimer can still lose. -/

/-- The self-configurable addresses not yet seen in use. -/
def unseen (c : AddressClaimer) : List Address :=
  ((List.range' dynamicAddressStart (dynamicAddressEnd + 1 - dynamicAddressStart)).map
    Address.ofNat).filter fun a => !c.isAddressTaken a

/-- What a claimer can still lose: the addresses it may move into, the
place it has among them, and its part in the contention. -/
def hope (c : AddressClaimer) : Nat :=
  2 * c.unseen.length + (if c.address ∈ c.unseen then 0 else 1)
    + (if c.state = .cannotClaim then 0 else 1)

theorem isSpecific_of_mem_unseen {c : AddressClaimer} {a : Address} (h : a ∈ c.unseen) :
    a.isSpecific = true := by
  obtain ⟨hmem, -⟩ := List.mem_filter.mp h
  obtain ⟨k, hk, rfl⟩ := List.mem_map.mp hmem
  rw [List.mem_range'_1] at hk
  simp only [dynamicAddressStart, dynamicAddressEnd] at hk
  simp only [Address.isSpecific, Address.asU8_ofNat, decide_eq_true_eq]
  omega

theorem not_taken_of_mem_unseen {c : AddressClaimer} {a : Address} (h : a ∈ c.unseen) :
    c.isAddressTaken a = false := by
  simpa using (List.mem_filter.mp h).2

/-- An address to move into is one not yet seen in use. -/
theorem mem_unseen_of_nextFreeAddress {c : AddressClaimer} {a : Address}
    (h : c.nextFreeAddress = some a) : a ∈ c.unseen := by
  have hfree := List.find?_some h
  simp only [Bool.and_eq_true] at hfree
  exact List.mem_filter.mpr ⟨List.mem_of_find?_eq_some h, hfree.2⟩

/-! ## §2. The map of seen addresses only grows. -/

theorem seenBit_ne_zero (a : Address) : seenBit a ≠ 0 := by
  have hall : ∀ k, k < 8 → (1 : UInt8) <<< UInt8.ofNat k ≠ 0 := by decide
  exact hall _ (Nat.mod_lt _ (by omega))

theorem taken_markSeen {c : AddressClaimer} {a b : Address} (h : c.isAddressTaken b = true) :
    (c.markSeen a).isAddressTaken b = true := by
  unfold isAddressTaken markSeen at *
  by_cases hidx : seenIndex b = seenIndex a
  · -- the byte of `b` gained the bit of `a`
    simp only [bne_iff_ne] at h ⊢
    rw [hidx] at h ⊢
    rw [Function.update_self]
    intro hzero
    have hbits := congrArg UInt8.toBitVec hzero
    simp only [UInt8.toBitVec_and, UInt8.toBitVec_or, BitVec.and_or_distrib_right] at hbits
    exact h (UInt8.toBitVec_inj.mp (BitVec.or_eq_zero_iff.mp hbits).1)
  · show (Function.update c.seen (seenIndex a) (c.seen (seenIndex a) ||| seenBit a)
      (seenIndex b) &&& seenBit b != 0) = true
    rw [Function.update_of_ne hidx]
    exact h

theorem taken_markSeen_self (c : AddressClaimer) (a : Address) :
    (c.markSeen a).isAddressTaken a = true := by
  unfold isAddressTaken markSeen
  simp only [bne_iff_ne, Function.update_self]
  intro hzero
  have hbits := congrArg UInt8.toBitVec hzero
  simp only [UInt8.toBitVec_and, UInt8.toBitVec_or, BitVec.and_or_distrib_right,
    BitVec.and_self] at hbits
  exact seenBit_ne_zero a (UInt8.toBitVec_inj.mp (BitVec.or_eq_zero_iff.mp hbits).2)

theorem unseen_heard_sublist (c : AddressClaimer) (a : Address) :
    List.Sublist (c.heard a).unseen c.unseen := by
  refine List.monotone_filter_right _ fun b hb => ?_
  rw [Bool.not_eq_true'] at hb ⊢
  by_contra htaken
  rw [Bool.not_eq_false] at htaken
  have hstill : (c.heard a).isAddressTaken b = true := by
    unfold heard
    split
    next => exact taken_markSeen htaken
    next => exact htaken
  rw [hb] at hstill
  cases hstill

/-- An address just heard of is no longer unseen. -/
theorem not_mem_unseen_heard (c : AddressClaimer) (a : Address) : a ∉ (c.heard a).unseen := by
  intro hmem
  have hspec := isSpecific_of_mem_unseen hmem
  have hfree := not_taken_of_mem_unseen hmem
  rw [heard, if_pos hspec, taken_markSeen_self] at hfree
  cases hfree

/-- Hearing of a claim costs a claimer at most what it spends on it. -/
theorem hope_heard_le (c : AddressClaimer) (a : Address) : (c.heard a).hope ≤ c.hope := by
  unfold hope
  rw [heard_address, heard_state]
  have hsub := unseen_heard_sublist c a
  have hle := hsub.length_le
  by_cases hmem : c.address ∈ (c.heard a).unseen
  · rw [if_pos hmem, if_pos (hsub.subset hmem)]
    omega
  by_cases hold : c.address ∈ c.unseen
  · -- our own address has just been seen: the list has become shorter
    have hne : (c.heard a).unseen.length ≠ c.unseen.length := by
      intro heq
      rw [hsub.eq_of_length heq] at hmem
      exact hmem hold
    rw [if_neg hmem, if_pos hold]
    omega
  · rw [if_neg hmem, if_neg hold]
    omega

/-- A claimer that still contends and has heard its own address from
another ECU has no place among the unseen ones. -/
theorem hope_heard_own {c : AddressClaimer} (hstate : c.state ≠ .cannotClaim) :
    (c.heard c.address).hope = 2 * (c.heard c.address).unseen.length + 2 := by
  unfold hope
  rw [heard_address, heard_state, if_neg (not_mem_unseen_heard c c.address), if_neg hstate]

/-! ## §3. Every reaction climbs down or spends. -/

/-- **What an announcement can lead to is smaller than the announcement**:
a claimer answers in defence, with a lower NAME, or at a loss. -/
theorem onAddressClaimed_settles (c : AddressClaimer) (source : Address) (name : Name) :
    ((c.onAddressClaimed source name).2.hope ≤ c.hope
      ∧ ∀ claim, (c.onAddressClaimed source name).1 = .announce claim →
          claim.name.raw.toNat < name.raw.toNat)
    ∨ (c.onAddressClaimed source name).2.hope < c.hope := by
  have hheard := hope_heard_le c source
  rcases c.onAddressClaimed_cases source name with
    ⟨-, ho⟩ | ⟨-, -, ho⟩ | ⟨-, -, -, hwin, ho⟩ | ⟨-, hsrc, hstate, -, next, hnext, -, ho⟩
      | ⟨-, hsrc, hstate, -, -, ho⟩
  · -- our own echo
    rw [ho]
    exact Or.inl ⟨le_rfl, fun claim h => by cases h⟩
  · -- not our fight
    rw [ho]
    exact Or.inl ⟨hheard, fun claim h => by cases h⟩
  · -- we defend, and our NAME is the lower one
    rw [ho]
    refine Or.inl ⟨hheard, fun claim h => ?_⟩
    injection h with h
    subst h
    exact BitVec.lt_def.mp (Name.winsArbitrationAgainst_iff.mp hwin)
  · -- we relocate, from an address that is taken to one that is not
    rw [ho]
    refine Or.inr (lt_of_lt_of_le ?_ hheard)
    subst hsrc
    have hmem : next ∈ (c.heard c.address).unseen := mem_unseen_of_nextFreeAddress hnext
    rw [hope_heard_own hstate]
    show 2 * (c.heard c.address).unseen.length
        + (if next ∈ (c.heard c.address).unseen then 0 else 1) + 1
      < 2 * (c.heard c.address).unseen.length + 2
    rw [if_pos hmem]
    omega
  · -- we give up
    rw [ho]
    refine Or.inr (lt_of_lt_of_le ?_ hheard)
    subst hsrc
    have hnull : Address.null ∉ (c.heard c.address).unseen :=
      fun hmem => by cases isSpecific_of_mem_unseen hmem
    rw [hope_heard_own hstate]
    show 2 * (c.heard c.address).unseen.length
        + (if Address.null ∈ (c.heard c.address).unseen then 0 else 1) + 0
      < 2 * (c.heard c.address).unseen.length + 2
    rw [if_neg hnull]
    omega

end SaeJ1939.AddressClaim.AddressClaimer

namespace SaeJ1939.Network

open AddressClaim AddressClaimer BroadcastNet Machine

/-! ## §4. Contention settles. -/

/-- How far up the order of the NAMEs an announcement stands. -/
def claimRank (m : Claim) : Nat := m.name.raw.toNat

theorem claimProtocol_settles (c : AddressClaimer) (m : Claim) :
    Settles hope claimRank c m (claimProtocol.deliver c m) := by
  unfold Settles claimRank
  simp only [claimProtocol]
  rcases c.onAddressClaimed_settles m.source m.name with ⟨hle, hlow⟩ | hlt
  · refine Or.inl ⟨hle, fun m' h => hlow m' ?_⟩
    cases ho : (c.onAddressClaimed m.source m.name).1 with
    | idle => rw [ho] at h; cases h
    | announce claim =>
      rw [ho] at h
      injection h with h
      rw [h]
  · exact Or.inr hlt

/-- **Contention settles**: for any claimers, in any states, and any
announcements in flight, there is a bound on how many deliveries can
follow when no application asks for anything. -/
theorem contention_settles {n : Nat} (net : Net n AddressClaimer Claim) :
    ∃ bound : Nat, ∀ (ls : List (Move n Claim Command)) (net' : Net n AddressClaimer Claim),
      Run (Next claimProtocol) net ls net' → (∀ l ∈ ls, l.IsDelivery) → ls.length ≤ bound := by
  refine ⟨weight hope claimRank (2 ^ 64) net, fun ls net' hrun hls => ?_⟩
  have hbound : ls.length + weight hope claimRank (2 ^ 64) net'
      ≤ weight hope claimRank (2 ^ 64) net :=
    deliveries_le_weight (fun m => m.name.raw.isLt.le) claimProtocol_settles hrun hls
  omega

end SaeJ1939.Network
