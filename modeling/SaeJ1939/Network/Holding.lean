/-
  SaeJ1939.Network.Holding — the addresses one claimer may come to hold.

  An address enters a claimer when it is built, by a command, or when it
  relocates; it leaves when the claimer gives up.  In any order of these
  only an address that an ECU can hold is ever claimed.

  Main results:
    * `relocates` — a claimer that loses its address moves to one of the
      self-configurable range that it has not seen claimed, or gives up.
    * `taken_of_trace` — the map holds every address another NAME was heard
      claiming.
    * `addresses_held` — what a claimer holds, whatever it was built with
      and in whatever order it is called.
-/
import SaeJ1939.Network.Settling
import SaeJ1939.Node.Node

namespace SaeJ1939.AddressClaim.AddressClaimer

open Checked Machine Node

/-! ## §1. A claimer as a machine. -/

/-- A call on a claimer. -/
inductive Input where
  | claim
  | contentionWindowElapsed
  | onAddressClaimed (source : Address) (name : Name)
  | onRequest
  | onCommandedAddress (data : List UInt8)
  | giveUp
  deriving DecidableEq

/-- What a call returns. -/
inductive Output where
  | claim (claim : Claim)
  | none
  | action (action : ClaimAction)
  | command (result : Result ClaimAction)
  deriving DecidableEq

/-- One call. -/
def step : Step AddressClaimer Input Output
  | c, .claim => .ok (.claim c.claim.1, c.claim.2)
  | c, .contentionWindowElapsed => .ok (.none, c.contentionWindowElapsed)
  | c, .onAddressClaimed source name =>
      .ok (.action (c.onAddressClaimed source name).1, (c.onAddressClaimed source name).2)
  | c, .onRequest => .ok (.action c.onRequest.1, c.onRequest.2)
  | c, .onCommandedAddress data =>
      .ok (.command (c.onCommandedAddress data).1, (c.onCommandedAddress data).2)
  | c, .giveUp => .ok (.claim c.giveUp.1, c.giveUp.2)

variable {c c' : AddressClaimer} {tr : List (Entry AddressClaimer Input Output)}

/-! ## §2. One call. -/

/-- The claimer loses its address to another NAME. -/
def Loses (c : AddressClaimer) (source : Address) (name : Name) : Prop :=
  name ≠ c.name ∧ source = c.address ∧ c.state ≠ .cannotClaim
    ∧ c.name.winsArbitrationAgainst name = false

/-- A self-configurable address. -/
def IsDynamic (a : Address) : Prop := dynamicAddressStart ≤ a.asU8 ∧ a.asU8 ≤ dynamicAddressEnd

theorem isDynamic_of_mem_unseen {a : Address} (h : a ∈ c.unseen) : IsDynamic a := by
  obtain ⟨hmem, -⟩ := List.mem_filter.mp h
  obtain ⟨k, hk, rfl⟩ := List.mem_map.mp hmem
  rw [List.mem_range'_1] at hk
  unfold IsDynamic
  simp only [dynamicAddressStart, dynamicAddressEnd] at hk ⊢
  rw [Address.asU8_ofNat]
  omega

/-- **A claimer that loses its address moves or gives up**: it moves to an
address of the self-configurable range, not seen in use and not the one it
has lost.  Otherwise it keeps its address. -/
theorem relocates (c : AddressClaimer) (source : Address) (name : Name) :
    (¬ c.Loses source name ∧ (c.onAddressClaimed source name).2.address = c.address
        ∧ (c.onAddressClaimed source name).2.state = c.state)
    ∨ c.Loses source name ∧ ((c.onAddressClaimed source name).2.state = .cannotClaim
      ∨ IsDynamic (c.onAddressClaimed source name).2.address
        ∧ (c.onAddressClaimed source name).2.address ≠ c.address
        ∧ (c.heard source).isAddressTaken (c.onAddressClaimed source name).2.address = false) := by
  rcases c.onAddressClaimed_cases source name with
    ⟨hname, ho⟩ | ⟨-, hfight, ho⟩ | ⟨-, -, -, hwin, ho⟩
      | ⟨hname, hsrc, hstate, hwin, next, hnext, -, ho⟩ | ⟨hname, hsrc, hstate, hwin, -, ho⟩
  · -- our own echo
    rw [ho]
    exact Or.inl ⟨fun h => h.1 hname, rfl, rfl⟩
  · -- not our fight
    rw [ho]
    refine Or.inl ⟨fun h => ?_, heard_address c source, heard_state c source⟩
    exact hfight.elim (fun hne => hne h.2.1) fun hquiet => h.2.2.1 hquiet
  · -- we defend
    rw [ho]
    refine Or.inl ⟨fun h => ?_, heard_address c source, heard_state c source⟩
    exact Bool.noConfusion (hwin.symm.trans h.2.2.2)
  · -- we relocate
    rw [ho]
    have hmem : next ∈ (c.heard source).unseen := mem_unseen_of_nextFreeAddress hnext
    have hne : next ≠ c.address := by
      rw [← heard_address c source]
      exact nextFreeAddress_ne hnext
    refine Or.inr ⟨⟨hname, hsrc, hstate, hwin⟩, Or.inr ?_⟩
    exact ⟨isDynamic_of_mem_unseen hmem, hne, not_taken_of_mem_unseen hmem⟩
  · -- we give up
    rw [ho]
    exact Or.inr ⟨⟨hname, hsrc, hstate, hwin⟩, Or.inl rfl⟩

/-- A claim that is heard stays in the map. -/
theorem taken_heard {a : Address} (b : Address) (h : c.isAddressTaken a = true) :
    (c.heard b).isAddressTaken a = true := by
  unfold heard
  split
  · exact taken_markSeen h
  · exact h

/-- What a call does to the map: it keeps what is there, and notes the
address of a claim of another NAME. -/
theorem taken_onAddressClaimed {a : Address} (source : Address) (name : Name)
    (h : c.isAddressTaken a = true
      ∨ name ≠ c.name ∧ source = a ∧ a.isSpecific = true) :
    (c.onAddressClaimed source name).2.isAddressTaken a = true := by
  have hheard : (c.onAddressClaimed source name).2.seen = c.seen ∧ name = c.name
      ∨ (c.onAddressClaimed source name).2.seen = (c.heard source).seen := by
    rcases c.onAddressClaimed_cases source name with
      ⟨hname, ho⟩ | ⟨-, -, ho⟩ | ⟨-, -, -, -, ho⟩ | ⟨-, -, -, -, next, -, -, ho⟩
        | ⟨-, -, -, -, -, ho⟩ <;> rw [ho]
    · exact Or.inl ⟨rfl, hname⟩
    · exact Or.inr rfl
    · exact Or.inr rfl
    · exact Or.inr rfl
    · exact Or.inr rfl
  rcases hheard with ⟨hsame, hname⟩ | hseen
  · have htaken : c.isAddressTaken a = true := h.resolve_right fun h => h.1 hname
    show ((c.onAddressClaimed source name).2.seen _ &&& _ != 0) = true
    rw [hsame]
    exact htaken
  · show ((c.onAddressClaimed source name).2.seen _ &&& _ != 0) = true
    rw [hseen]
    rcases h with h | ⟨-, rfl, hspecific⟩
    · exact taken_heard source h
    · show (c.heard source).isAddressTaken source = true
      unfold heard
      rw [if_pos hspecific]
      exact taken_markSeen_self c source

/-- **No call forgets**, and no call changes the NAME. -/
theorem step_keeps {i : Input} {o : Output} (h : step c i = .ok (o, c')) :
    c'.name = c.name ∧ ∀ a, c.isAddressTaken a = true → c'.isAddressTaken a = true := by
  cases i with
  | claim =>
    cases h
    rcases c.claim_cases with ⟨-, heq⟩ | ⟨-, heq⟩ <;> rw [heq] <;> exact ⟨rfl, fun _ h => h⟩
  | contentionWindowElapsed =>
    cases h
    unfold contentionWindowElapsed
    split <;> exact ⟨rfl, fun _ h => h⟩
  | onAddressClaimed source name =>
    cases h
    refine ⟨?_, fun a ha => taken_onAddressClaimed source name (Or.inl ha)⟩
    rcases c.onAddressClaimed_cases source name with
      ⟨-, ho⟩ | ⟨-, -, ho⟩ | ⟨-, -, -, -, ho⟩ | ⟨-, -, -, -, next, -, -, ho⟩
        | ⟨-, -, -, -, -, ho⟩ <;> rw [ho]
    · exact heard_name c source
    · exact heard_name c source
    · exact heard_name c source
    · exact heard_name c source
  | onRequest =>
    cases h
    exact ⟨rfl, fun _ h => h⟩
  | onCommandedAddress data =>
    cases h
    rcases c.onCommandedAddress_cases data with ⟨heq, -⟩ | ⟨heq, -⟩ | ⟨a, -, heq⟩ <;> rw [heq] <;>
      exact ⟨rfl, fun _ h => h⟩
  | giveUp =>
    cases h
    exact ⟨rfl, fun _ h => h⟩

/-- **Every call keeps the invariant.** -/
theorem step_claimerWF {i : Input} {o : Output} (hc : ClaimerWF c) (h : step c i = .ok (o, c')) :
    ClaimerWF c' := by
  cases i with
  | claim =>
    cases h
    exact claimerWF_claim
  | contentionWindowElapsed =>
    cases h
    exact claimerWF_contentionWindowElapsed hc
  | onAddressClaimed source name =>
    cases h
    exact claimerWF_onAddressClaimed hc source name
  | onRequest =>
    cases h
    exact hc
  | onCommandedAddress data =>
    cases h
    exact claimerWF_onCommandedAddress hc data
  | giveUp =>
    cases h
    exact claimerWF_giveUp c

/-! ## §3. Whole runs. -/

/-- Another NAME was heard claiming `a`. -/
def HeardClaiming (tr : List (Entry AddressClaimer Input Output)) (own : Name) (a : Address) :
    Prop :=
  ∃ e ∈ tr, ∃ name, name ≠ own ∧ e.event = .onAddressClaimed a name

/-- **The map holds every address heard of**, and the NAME is the claimer's
own. -/
theorem taken_of_trace {name : Name} {preferred : Address}
    (h : Trace step (new name preferred) tr c) :
    c.name = name ∧ ∀ a, a.isSpecific = true → HeardClaiming tr name a →
      c.isAddressTaken a = true := by
  induction h with
  | nil =>
    refine ⟨rfl, fun a _ ha => ?_⟩
    obtain ⟨e, he, -⟩ := ha
    cases he
  | @snoc tr c c' i o _ hstep ih =>
    obtain ⟨hname, htaken⟩ := ih
    obtain ⟨hname', hkeeps⟩ := step_keeps hstep
    refine ⟨hname'.trans hname, fun a ha hheard => ?_⟩
    obtain ⟨e, he, other, hother, hevent⟩ := hheard
    rcases List.mem_append.mp he with he | he
    · exact hkeeps a (htaken a ha ⟨e, he, other, hother, hevent⟩)
    · rw [List.mem_singleton.mp he] at hevent
      have hi : i = .onAddressClaimed a other := hevent
      subst hi
      cases hstep
      rw [← hname] at hother
      exact taken_onAddressClaimed a other (Or.inr ⟨hother, rfl, ha⟩)

/-- What a call may do to the address of its claimer. -/
structure Proper (own : Name) (pre : List (Entry AddressClaimer Input Output))
    (e : Entry AddressClaimer Input Output) : Prop where
  /-- A claimer that loses its address and does not give up relocates, as
  does one that changes its address on a claim. -/
  relocation : ∀ source name, e.event = .onAddressClaimed source name →
    e.before.Loses source name ∨ e.after.address ≠ e.before.address →
    e.after.state ≠ .cannotClaim →
      128 ≤ e.after.address.asU8 ∧ e.after.address.asU8 ≤ 247
        ∧ ¬ HeardClaiming (pre ++ [e]) own e.after.address ∧ e.after.address ≠ e.before.address
  /-- A command that is refused changes nothing. -/
  refused : ∀ data error, e.event = .onCommandedAddress data → e.out = .command (.error error) →
    e.after = e.before

theorem isSpecific_of_isDynamic {a : Address} (h : IsDynamic a) : a.isSpecific = true := by
  obtain ⟨-, hle⟩ := h
  unfold dynamicAddressEnd at hle
  exact decide_eq_true (show a.asU8 < 0xFE by omega)

/-- **One call of a run.** -/
theorem proper_of_trace {name : Name} {preferred : Address}
    {e : Entry AddressClaimer Input Output} (h : Trace step (new name preferred) tr e.before)
    (hstep : step e.before e.event = .ok (e.out, e.after)) : Proper name tr e := by
  obtain ⟨c, i, o, c'⟩ := e
  dsimp only at h hstep
  have hafter := h.snoc hstep
  constructor
  · intro source other hevent hloses hstate
    dsimp only at hevent hloses hstate ⊢
    subst hevent
    cases hstep
    rcases c.relocates source other with ⟨hkeeps, haddress, -⟩ | ⟨-, hgone | hmoved⟩
    · exact absurd hloses (not_or.mpr ⟨hkeeps, fun hne => hne haddress⟩)
    · exact absurd hgone hstate
    · obtain ⟨hdynamic, hne, hfree⟩ := hmoved
      refine ⟨hdynamic.1, hdynamic.2, fun hheard => ?_, hne⟩
      -- what was heard before, and the claim that comes in, are in the map
      obtain ⟨hname, htaken⟩ := taken_of_trace h
      have hspecific := isSpecific_of_isDynamic hdynamic
      obtain ⟨e, he, third, hthird, hevent⟩ := hheard
      rcases List.mem_append.mp he with he | he
      · have hbefore := taken_heard source (htaken _ hspecific ⟨e, he, third, hthird, hevent⟩)
        rw [hfree] at hbefore
        cases hbefore
      · rw [List.mem_singleton.mp he] at hevent
        injection hevent with hsource
        rw [← hsource, heard, if_pos (hsource ▸ hspecific), taken_markSeen_self] at hfree
        cases hfree
  · intro data error hevent hout
    dsimp only at hevent hout ⊢
    subst hevent
    cases hstep
    injection hout with hout
    rcases c.onCommandedAddress_cases data with ⟨heq, -⟩ | ⟨heq, -⟩ | ⟨a, -, heq⟩
    · exact heq
    · exact heq
    · rw [heq] at hout
      cases hout

/-- **Only real addresses are held**: whatever a claimer was built with and
in whatever order it is called. -/
theorem addresses_held (name : Name) (preferred : Address) (calls : List Input) :
    ∃ tr c, run step (new name preferred) calls = .ok (tr, c)
      ∧ (c.state = .claiming ∨ c.state = .claimed → c.address.asU8 ≤ 253)
      ∧ (c.state = .cannotClaim → c.address = Address.null)
      ∧ ∀ pre e post, tr = pre ++ e :: post → Proper name pre e := by
  have hok : ∃ tr c, run step (new name preferred) calls = .ok (tr, c) ∧ ClaimerWF c := by
    refine Machine.run_ok (fun c i hc => ?_) calls (claimerWF_new name preferred)
    obtain ⟨o, c', hstep⟩ : ∃ o c', step c i = .ok (o, c') := by
      cases i <;> exact ⟨_, _, rfl⟩
    exact ⟨o, c', hstep, step_claimerWF hc hstep⟩
  obtain ⟨tr, c, hrun, hwf⟩ := hok
  refine ⟨tr, c, hrun, fun hactive => ?_, hwf.silent, fun pre e post htr => ?_⟩
  · have hspecific := hwf.active (isActive_iff.mpr hactive)
    have hlt : c.address.asU8 < 0xFE := of_decide_eq_true hspecific
    omega
  · subst htr
    obtain ⟨hpre, hstep⟩ := (run_trace hrun).1.split
    exact proper_of_trace hpre hstep

end SaeJ1939.AddressClaim.AddressClaimer
