/-
  SaeJ1939.Core.AddressClaim — the address claiming state machine of one
  ECU (`address_claim.rs`).

  The methods of `AddressClaimer` that change it return what they put out
  together with the claimer they leave behind.

  Main results:
    * `currentClaim_*` and `*_name` — what each reaction announces, and
      that none of them changes the NAME.
    * `onAddressClaimed_cases` — everything a competing claim can lead to.
-/
import SaeJ1939.Core.Name
import SaeJ1939.Lib.Checked

namespace SaeJ1939

namespace AddressClaim

/-- The first address an arbitrary-address-capable ECU may move into. -/
def dynamicAddressStart : Nat := 128

/-- The last address in the self-configurable range. -/
def dynamicAddressEnd : Nat := 247

/-- The length of a Commanded Address message. -/
def commandedAddressLen : Nat := 9

/-- Where an ECU stands in the address-claiming protocol. -/
inductive ClaimState where
  /-- No claim has been made yet. -/
  | idle
  /-- A claim has been broadcast; the contention window is open. -/
  | claiming
  /-- The address is held and may be defended. -/
  | claimed
  /-- Arbitration was lost and this ECU cannot move. -/
  | cannotClaim
  deriving Repr, DecidableEq

/-- An Address Claimed broadcast: a NAME announced from an address. -/
structure Claim where
  source : Address
  name : Name
  deriving Repr, DecidableEq

/-- What the caller should put on the bus after an event. -/
inductive ClaimAction where
  | idle
  | announce (claim : Claim)
  deriving Repr, DecidableEq

/-- The claiming state machine for one ECU. -/
structure AddressClaimer where
  name : Name
  address : Address
  state : ClaimState
  /-- One bit per address, set when that address has been seen claimed. -/
  seen : Fin 32 → UInt8
  deriving DecidableEq

namespace AddressClaimer

/-! ## §1. The map of seen addresses. -/

/-- The byte of the map holding an address's bit. -/
def seenIndex (address : Address) : Fin 32 :=
  ⟨address.asU8 / 8, by have := address.asU8_lt; omega⟩

/-- An address's bit within its byte of the map. -/
def seenBit (address : Address) : UInt8 := 1 <<< UInt8.ofNat (address.asU8 % 8)

/-- Whether an address has been observed in use by another ECU. -/
def isAddressTaken (c : AddressClaimer) (address : Address) : Bool :=
  c.seen (seenIndex address) &&& seenBit address != 0

def markSeen (c : AddressClaimer) (address : Address) : AddressClaimer :=
  { c with
    seen := Function.update c.seen (seenIndex address)
      (c.seen (seenIndex address) ||| seenBit address) }

/-- The lowest address in the self-configurable range not yet seen in
use. -/
def nextFreeAddress (c : AddressClaimer) : Option Address :=
  ((List.range' dynamicAddressStart (dynamicAddressEnd + 1 - dynamicAddressStart)).map
      Address.ofNat).find?
    fun candidate => candidate != c.address && !c.isAddressTaken candidate

/-! ## §2. The state machine. -/

/-- A claimer for `name` that will try to take `preferred`. -/
def new (name : Name) (preferred : Address) : AddressClaimer where
  name := name
  address := preferred
  state := .idle
  seen := fun _ => 0

/-- The claim this ECU would announce right now. -/
def currentClaim (c : AddressClaimer) : Claim := ⟨c.address, c.name⟩

/-- Give up the address, producing the Cannot Claim Address message. -/
def giveUp (c : AddressClaimer) : Claim × AddressClaimer :=
  (⟨Address.null, c.name⟩, { c with state := .cannotClaim, address := Address.null })

/-- Broadcast the initial claim; only a specific address can be claimed. -/
def claim (c : AddressClaimer) : Claim × AddressClaimer :=
  if !c.address.isSpecific then c.giveUp
  else
    let c := { c with state := .claiming }
    (c.currentClaim, c)

/-- The contention window closed without a competing claim. -/
def contentionWindowElapsed (c : AddressClaimer) : AddressClaimer :=
  if c.state == .claiming then { c with state := .claimed } else c

/-- Handle an Address Claimed message from another ECU. -/
def onAddressClaimed (c : AddressClaimer) (source : Address) (name : Name) :
    ClaimAction × AddressClaimer :=
  if name == c.name then
    -- our own claim echoed back by the bus
    (.idle, c)
  else
    let c := if source.isSpecific then c.markSeen source else c
    if source != c.address || c.state == .cannotClaim then (.idle, c)
    else if c.name.winsArbitrationAgainst name then
      -- we hold the lower NAME: defend the address by re-announcing
      (.announce c.currentClaim, c)
    else
      match (if c.name.arbitraryAddressCapable then c.nextFreeAddress else none) with
      | some next =>
          let c := { c with address := next, state := .claiming }
          (.announce c.currentClaim, c)
      | none =>
          let (claim, c) := c.giveUp
          (.announce claim, c)

/-- Handle a request for the Address Claimed PGN. -/
def onRequest (c : AddressClaimer) : ClaimAction × AddressClaimer :=
  (.announce c.currentClaim, c)

/-- Handle a Commanded Address message: a NAME and the address that ECU
is told to take. -/
def onCommandedAddress (c : AddressClaimer) (data : List UInt8) :
    Result ClaimAction × AddressClaimer :=
  if data.length < commandedAddressLen then
    (.error (.shortPayload commandedAddressLen data.length), c)
  else if Name.fromBytes (fun i => data.getD i.val 0) != c.name then
    -- addressed to a different ECU
    (.ok .idle, c)
  else
    let commanded : Address := ⟨data.getD 8 0⟩
    if !commanded.isSpecific then
      (.error (.valueOutOfRange "commanded address" commanded.asU8), c)
    else
      let c := { c with address := commanded, state := .claiming }
      (.ok (.announce c.currentClaim), c)

/-- Whether the ECU is claiming or holding an address. -/
def isActive (c : AddressClaimer) : Bool := c.state == .claiming || c.state == .claimed

/-! ## §3. What each reaction does. -/

@[simp] theorem markSeen_name (c : AddressClaimer) (a : Address) : (c.markSeen a).name = c.name :=
  rfl

@[simp] theorem markSeen_address (c : AddressClaimer) (a : Address) :
    (c.markSeen a).address = c.address := rfl

@[simp] theorem markSeen_state (c : AddressClaimer) (a : Address) :
    (c.markSeen a).state = c.state := rfl

@[simp] theorem isActive_iff {c : AddressClaimer} :
    c.isActive = true ↔ c.state = .claiming ∨ c.state = .claimed := by
  simp [isActive]

theorem giveUp_not_active (c : AddressClaimer) : c.giveUp.2.isActive = false := rfl

theorem nextFreeAddress_ne {c : AddressClaimer} {a : Address} (h : c.nextFreeAddress = some a) :
    a ≠ c.address := by
  have := List.find?_some h
  simp only [Bool.and_eq_true, bne_iff_ne] at this
  exact this.1

/-- The ECU's bookkeeping of a claim it only heard: the same claimer, up
to the map of seen addresses. -/
def heard (c : AddressClaimer) (source : Address) : AddressClaimer :=
  if source.isSpecific then c.markSeen source else c

@[simp] theorem heard_name (c : AddressClaimer) (a : Address) : (c.heard a).name = c.name := by
  unfold heard
  split <;> rfl

@[simp] theorem heard_address (c : AddressClaimer) (a : Address) :
    (c.heard a).address = c.address := by
  unfold heard
  split <;> rfl

@[simp] theorem heard_state (c : AddressClaimer) (a : Address) : (c.heard a).state = c.state := by
  unfold heard
  split <;> rfl

@[simp] theorem heard_isActive (c : AddressClaimer) (a : Address) :
    (c.heard a).isActive = c.isActive := by
  rw [isActive, isActive, heard_state]

@[simp] theorem heard_currentClaim (c : AddressClaimer) (a : Address) :
    (c.heard a).currentClaim = c.currentClaim := by
  simp [currentClaim]

/-- **Everything a competing claim can lead to**: it is our own echo, it
is not our fight, we defend, we relocate, or we give up. -/
theorem onAddressClaimed_cases (c : AddressClaimer) (source : Address) (name : Name) :
    (name = c.name ∧ c.onAddressClaimed source name = (.idle, c))
    ∨ (name ≠ c.name ∧ (source ≠ c.address ∨ c.state = .cannotClaim)
        ∧ c.onAddressClaimed source name = (.idle, c.heard source))
    ∨ (name ≠ c.name ∧ source = c.address ∧ c.state ≠ .cannotClaim
        ∧ c.name.winsArbitrationAgainst name = true
        ∧ c.onAddressClaimed source name = (.announce c.currentClaim, c.heard source))
    ∨ (name ≠ c.name ∧ source = c.address ∧ c.state ≠ .cannotClaim
        ∧ c.name.winsArbitrationAgainst name = false
        ∧ ∃ next, (c.heard source).nextFreeAddress = some next
          ∧ c.name.arbitraryAddressCapable = true
          ∧ c.onAddressClaimed source name
            = (.announce ⟨next, c.name⟩,
                { c.heard source with address := next, state := .claiming }))
    ∨ (name ≠ c.name ∧ source = c.address ∧ c.state ≠ .cannotClaim
        ∧ c.name.winsArbitrationAgainst name = false
        ∧ (c.name.arbitraryAddressCapable = false ∨ (c.heard source).nextFreeAddress = none)
        ∧ c.onAddressClaimed source name
          = (.announce ⟨Address.null, c.name⟩, (c.heard source).giveUp.2)) := by
  by_cases hname : name = c.name
  · exact Or.inl ⟨hname, by simp [onAddressClaimed, hname]⟩
  refine Or.inr ?_
  have hunfold : c.onAddressClaimed source name =
      if source != c.address || c.state == .cannotClaim then (.idle, c.heard source)
      else if c.name.winsArbitrationAgainst name then
        (.announce c.currentClaim, c.heard source)
      else
        match (if c.name.arbitraryAddressCapable then (c.heard source).nextFreeAddress
          else none) with
        | some next =>
            (.announce ⟨next, c.name⟩,
              { c.heard source with address := next, state := .claiming })
        | none => (.announce ⟨Address.null, c.name⟩, (c.heard source).giveUp.2) := by
    rw [onAddressClaimed, if_neg (by simpa using hname)]
    have hheard : (if source.isSpecific then c.markSeen source else c) = c.heard source := rfl
    simp only [hheard, heard_address, heard_state, heard_name, currentClaim, giveUp]
  rw [hunfold]
  by_cases hfight : source ≠ c.address ∨ c.state = .cannotClaim
  · exact Or.inl ⟨hname, hfight, by rw [if_pos (by simpa using hfight)]⟩
  push Not at hfight
  rw [if_neg (by simp [hfight.1, hfight.2])]
  refine Or.inr ?_
  cases hwin : c.name.winsArbitrationAgainst name with
  | true => exact Or.inl ⟨hname, hfight.1, hfight.2, rfl, by simp⟩
  | false =>
    refine Or.inr ?_
    simp only [Bool.false_eq_true, if_false]
    cases hcap : c.name.arbitraryAddressCapable with
    | false => exact Or.inr ⟨hname, hfight.1, hfight.2, trivial, Or.inl rfl, by simp⟩
    | true =>
      cases hnext : (c.heard source).nextFreeAddress with
      | none => exact Or.inr ⟨hname, hfight.1, hfight.2, trivial, Or.inr rfl, by simp⟩
      | some next => exact Or.inl ⟨hname, hfight.1, hfight.2, trivial, next, rfl, rfl, by simp⟩

/-- **Everything a commanded address can lead to**: the claimer is left
alone, or it takes the specific address it was told to. -/
theorem onCommandedAddress_cases (c : AddressClaimer) (data : List UInt8) :
    (c.onCommandedAddress data).2 = c
        ∧ (c.onCommandedAddress data).1 = .ok .idle
    ∨ (c.onCommandedAddress data).2 = c
        ∧ (∃ e, (c.onCommandedAddress data).1 = .error e)
    ∨ ∃ commanded : Address, commanded.isSpecific = true
        ∧ c.onCommandedAddress data
          = (.ok (.announce ⟨commanded, c.name⟩),
              { c with address := commanded, state := .claiming }) := by
  unfold onCommandedAddress
  split
  next => exact Or.inr (Or.inl ⟨rfl, _, rfl⟩)
  next =>
    split
    next => exact Or.inl ⟨rfl, rfl⟩
    next =>
      dsimp only
      split
      next => exact Or.inr (Or.inl ⟨rfl, _, rfl⟩)
      next hs => exact Or.inr (Or.inr ⟨_, by simpa using hs, rfl⟩)

theorem claim_cases (c : AddressClaimer) :
    (c.address.isSpecific = false ∧ c.claim = c.giveUp)
    ∨ (c.address.isSpecific = true
        ∧ c.claim = (c.currentClaim, { c with state := .claiming })) := by
  unfold claim
  cases hs : c.address.isSpecific with
  | false => exact Or.inl ⟨rfl, rfl⟩
  | true => exact Or.inr ⟨rfl, rfl⟩

end AddressClaimer

end AddressClaim

end SaeJ1939
