/-
  SaeJ1939.Node.Claiming — when a node comes to hold an address.

  The claimer knows where it stands, the node how long ago the claim went
  out.  Every call that opens the contention window starts the count
  again; so does answering a request for the claim, which opens nothing.

  Main results:
    * `step_window` — what one call does to the window.
    * `claimed_after_window` — an address is held only once the window it
      was claimed in has been open for long enough.
    * `run_calm` — with nobody contesting, the claim is held as soon as
      enough time has passed without a request.
    * `claimed_iff_unasked` — requests can hold an uncontested claim off.
-/
import SaeJ1939.Node.Safety

namespace SaeJ1939

open Checked AddressClaim Machine

namespace Node

variable {BUF SESSIONS : Nat} {n n' : Node BUF SESSIONS} {f : Frame}

/-! ## §1. The contention window. -/

/-- `f` is an Address Claimed by another NAME from the address the node is
claiming, sent to everybody or to this node. -/
def contests (n : Node BUF SESSIONS) (f : Frame) : Bool :=
  n.claimState == .claiming && f.id.isAddressedTo n.address && f.pgn == .addressClaimed
    && f.sourceAddress == n.address && Name.fromBytes f.payload != n.claimer.name

/-- A command that is obeyed answers with a claim. -/
def Output.obeys : Output → Bool
  | .command (.ok (some _)) => true
  | _ => false

/-- A call or frame that starts the claim, moves it to another address or
contests it. -/
def opens (e : Entry BUF SESSIONS) : Bool :=
  e.after.address != e.before.address
    || match e.event with
      | .start => true
      | .commandedAddress _ => e.out.obeys
      | .frame f => e.before.contests f
      | .tick _ | .giveUpAddress => false

/-- The milliseconds a call lets pass. -/
def Input.elapsed : Input → Nat
  | .tick elapsedMs => elapsedMs
  | _ => 0

/-- The milliseconds that pass during these calls. -/
def ticked (is : List Input) : Nat := (is.map Input.elapsed).sum

theorem ticked_snoc (is : List Input) (i : Input) : ticked (is ++ [i]) = ticked is + i.elapsed := by
  simp [ticked]

/-- A claim goes to the claimer if it is for this node. -/
theorem of_route_addressClaimed {name : Name} (h : n.route f = .addressClaimed name) :
    f.id.isAddressedTo n.address = true ∧ f.pgn = .addressClaimed
      ∧ name = Name.fromBytes f.payload := by
  unfold route at h
  split at h
  · cases h
  next haddr =>
  split at h
  next hpgn =>
    injection h with hname
    rw [Bool.not_eq_true', Bool.not_eq_false] at haddr
    exact ⟨haddr, hpgn, hname.symm⟩
  next =>
    split at h
    · cases h
    split at h
    · split at h
      · split at h <;> cases h
      · cases h
    split at h <;> cases h

/-- So a frame that contests the claim goes to the claimer. -/
theorem route_of_contests (h : n.contests f = true) :
    n.route f = .addressClaimed (Name.fromBytes f.payload) := by
  unfold contests at h
  simp only [Bool.and_eq_true, beq_iff_eq] at h
  obtain ⟨⟨⟨⟨-, haddr⟩, hpgn⟩, -⟩, -⟩ := h
  have haddr' : (!f.id.isAddressedTo n.claimer.address) = false := by
    rw [Bool.not_eq_false']
    exact haddr
  unfold route
  rw [haddr', if_neg Bool.false_ne_true]
  exact if_pos hpgn

/-- What a node that answers a claim or a request does with its window. -/
theorem actOnClaim_elapsed (n : Node BUF SESSIONS) (claim : Claim) :
    (n.actOnClaim (.announce claim)).2.claimElapsedMs
      = if n.claimState = .claiming then 0 else n.claimElapsedMs := by
  unfold actOnClaim claimState
  dsimp only
  by_cases h : n.claimer.state = .claiming
  · rw [if_pos (by simpa using h), if_pos h]
  · rw [if_neg (by simpa using h), if_neg h]

/-! ## §2. What one call does to the window. -/

/-- The window has just been opened: nothing is held, and the count
starts. -/
structure Opened (n : Node BUF SESSIONS) : Prop where
  not_claimed : n.claimState ≠ .claimed
  elapsed : n.claimState = .claiming → n.claimElapsedMs = 0

/-- From `n` to `n'` at most `elapsedMs` are added to the count, and the
claim is held only after enough of them. -/
structure Counted (n n' : Node BUF SESSIONS) (elapsedMs : Nat) : Prop where
  claiming : n'.claimState = .claiming →
    n.claimState = .claiming ∧ n'.claimElapsedMs ≤ n.claimElapsedMs + elapsedMs
  claimed : n'.claimState = .claimed → n.claimState = .claimed
    ∨ n.claimState = .claiming ∧ addressClaimWindowMs ≤ n.claimElapsedMs + elapsedMs

/-- The state of the claim stays, and the count does not grow. -/
theorem counted_same (hstate : n'.claimState = n.claimState)
    (helapsed : n'.claimElapsedMs ≤ n.claimElapsedMs) : Counted n n' 0 :=
  ⟨fun h => ⟨hstate.symm.trans h, helapsed⟩, fun h => Or.inl (hstate.symm.trans h)⟩

/-- **What a frame does to the window.** -/
theorem onFrame_window {event : Event} (h : n.onFrame f = .ok (event, n')) :
    (n.contests f = true ∨ n'.address ≠ n.address → Opened n')
      ∧ (n.contests f = false → n'.address = n.address → Counted n n' 0) := by
  have hsame : n'.claimer = n.claimer → n'.claimElapsedMs ≤ n.claimElapsedMs →
      (∀ name, n.route f ≠ .addressClaimed name) →
      (n.contests f = true ∨ n'.address ≠ n.address → Opened n')
        ∧ (n.contests f = false → n'.address = n.address → Counted n n' 0) := by
    intro hclaimer helapsed hroute
    constructor
    · rintro (hcontests | hmoved)
      · exact absurd (route_of_contests hcontests) (hroute _)
      · exact absurd (congrArg AddressClaimer.address hclaimer) hmoved
    · intro _ _
      exact counted_same (congrArg AddressClaimer.state hclaimer) helapsed
  rw [onFrame_eq] at h
  cases hroute : n.route f with
  | ignore =>
    rw [hroute] at h
    cases h
    exact hsame rfl (Nat.le_refl _) fun _ h => (nomatch hroute.symm.trans h)
  | claimRequest =>
    rw [hroute] at h
    injection h with h
    have hn : n' = (n.actOnClaim (.announce n.claimer.currentClaim)).2 := (congrArg Prod.snd h).symm
    refine hsame ?_ ?_ fun _ h => (nomatch hroute.symm.trans h)
    · rw [hn, actOnClaim_claimer]
    · rw [hn, actOnClaim_elapsed]
      split
      · exact Nat.zero_le _
      · exact Nat.le_refl _
  | connection cm =>
    rw [hroute] at h
    cases h
    exact hsame rfl (Nat.le_refl _) fun _ h => (nomatch hroute.symm.trans h)
  | data dt =>
    rw [hroute] at h
    simp only [bind_eq_ok, Prod.exists, pure_eq_ok, Except.ok.injEq, Prod.mk.injEq] at h
    obtain ⟨outcome, r, -, -, rfl⟩ := h
    exact hsame rfl (Nat.le_refl _) fun _ h => (nomatch hroute.symm.trans h)
  | application =>
    rw [hroute] at h
    cases h
    exact hsame rfl (Nat.le_refl _) fun _ h => (nomatch hroute.symm.trans h)
  | addressClaimed name =>
    obtain ⟨haddr, hpgn, hname⟩ := of_route_addressClaimed hroute
    rw [hroute] at h
    injection h with h
    have hn := (congrArg Prod.snd h).symm
    dsimp only at hn
    rcases n.claimer.onAddressClaimed_cases f.sourceAddress name with
      ⟨hown, heq⟩ | ⟨hother, hfight, heq⟩ | ⟨hother, hsrc, -, -, heq⟩
        | ⟨hother, hsrc, -, -, next, hnext, -, heq⟩ | ⟨hother, hsrc, -, -, -, heq⟩
    · -- our own echo
      rw [heq] at hn
      subst hn
      refine ⟨fun hopen => ?_, fun _ _ => counted_same rfl (Nat.le_refl _)⟩
      rcases hopen with hcontests | hmoved
      · simp [contests, ← hname, hown] at hcontests
      · exact absurd rfl hmoved
    · -- not our fight
      rw [heq] at hn
      have hstate : n'.claimState = n.claimState := by
        rw [hn]
        exact AddressClaimer.heard_state _ _
      have haddress : n'.address = n.address := by
        rw [hn]
        exact AddressClaimer.heard_address _ _
      have helapsed : n'.claimElapsedMs = n.claimElapsedMs := by rw [hn]; rfl
      refine ⟨fun hopen => ?_, fun _ _ => counted_same hstate (Nat.le_of_eq helapsed)⟩
      rcases hopen with hcontests | hmoved
      · unfold contests at hcontests
        simp only [Bool.and_eq_true, beq_iff_eq] at hcontests
        obtain ⟨⟨⟨⟨hclaiming, -⟩, -⟩, hsrc⟩, -⟩ := hcontests
        rcases hfight with hne | hquiet
        · exact absurd hsrc hne
        · exact absurd (hclaiming.symm.trans hquiet) (by decide)
      · exact absurd haddress hmoved
    · -- we defend
      rw [heq] at hn
      have hstate : n'.claimState = n.claimState := by
        show n'.claimer.state = n.claimer.state
        rw [hn, actOnClaim_claimer]
        exact AddressClaimer.heard_state _ _
      have haddress : n'.address = n.address := by
        show n'.claimer.address = n.claimer.address
        rw [hn, actOnClaim_claimer]
        exact AddressClaimer.heard_address _ _
      have helapsed : n'.claimElapsedMs
          = if n.claimState = .claiming then 0 else n.claimElapsedMs := by
        rw [hn, actOnClaim_elapsed]
        show (if (n.claimer.heard f.sourceAddress).state = .claiming then 0 else _)
          = if n.claimer.state = .claiming then 0 else _
        rw [AddressClaimer.heard_state]
      constructor
      · rintro (hcontests | hmoved)
        · unfold contests at hcontests
          simp only [Bool.and_eq_true, beq_iff_eq] at hcontests
          obtain ⟨⟨⟨⟨hclaiming, -⟩, -⟩, -⟩, -⟩ := hcontests
          refine ⟨?_, fun _ => by rw [helapsed, if_pos hclaiming]⟩
          rw [hstate, hclaiming]
          decide
        · exact absurd haddress hmoved
      · intro hcalm _
        refine counted_same hstate ?_
        rw [helapsed]
        split
        · exact Nat.zero_le _
        · exact Nat.le_refl _
    · -- we relocate
      rw [heq] at hn
      have hclaimer : n'.claimer = { n.claimer.heard f.sourceAddress with
          address := next, state := .claiming } := by rw [hn, actOnClaim_claimer]
      have hmoved : n'.address ≠ n.address := by
        show n'.claimer.address ≠ n.claimer.address
        rw [hclaimer, ← AddressClaimer.heard_address n.claimer f.sourceAddress]
        exact AddressClaimer.nextFreeAddress_ne hnext
      have hstate : n'.claimState = .claiming := by
        show n'.claimer.state = _
        rw [hclaimer]
      refine ⟨fun _ => ⟨?_, fun _ => ?_⟩, fun _ hkept => absurd hkept hmoved⟩
      · rw [hstate]
        decide
      · rw [hn, actOnClaim_elapsed]
        exact if_pos rfl
    · -- we give up
      rw [heq] at hn
      have hstate : n'.claimState = .cannotClaim := by
        show n'.claimer.state = _
        rw [hn, actOnClaim_claimer]
        rfl
      refine ⟨fun _ => ⟨?_, fun h => ?_⟩, fun _ _ => ⟨fun h => ?_, fun h => ?_⟩⟩
      · rw [hstate]
        decide
      all_goals
        rw [hstate] at h
        cases h

/-- **What a tick does to the window.** -/
theorem tick_window (n : Node BUF SESSIONS) (elapsedMs : Nat) :
    (n.tick elapsedMs).2.address = n.address
      ∧ Counted n (n.tick elapsedMs).2 elapsedMs := by
  have hsat : saturatingAdd 16 n.claimElapsedMs elapsedMs ≤ n.claimElapsedMs + elapsedMs :=
    Nat.min_le_left _ _
  unfold tick address
  dsimp only
  by_cases hclaiming : n.claimer.state = .claiming
  · rw [if_pos (by simpa using hclaiming)]
    by_cases hclosed : saturatingAdd 16 n.claimElapsedMs elapsedMs ≥ addressClaimWindowMs
    · rw [if_pos hclosed]
      have hheld : n.claimer.contentionWindowElapsed = { n.claimer with state := .claimed } := by
        unfold AddressClaimer.contentionWindowElapsed
        rw [if_pos (by simpa using hclaiming)]
      rw [hheld]
      refine ⟨rfl, ⟨fun h => (by cases h), fun _ => Or.inr ⟨hclaiming, ?_⟩⟩⟩
      omega
    · rw [if_neg hclosed]
      refine ⟨rfl, ⟨fun _ => ⟨hclaiming, hsat⟩, fun h => ?_⟩⟩
      exact absurd (hclaiming.symm.trans h) (by decide)
  · rw [if_neg (by simpa using hclaiming)]
    exact ⟨rfl, ⟨fun h => absurd h hclaiming, fun h => Or.inl h⟩⟩

/-- **What one call does to the window**: it opens it, or it counts. -/
theorem step_window {i : Input} {o : Output} (h : step n i = .ok (o, n')) :
    (opens ⟨n, i, o, n'⟩ = true → Opened n')
      ∧ (opens ⟨n, i, o, n'⟩ = false → n'.address = n.address ∧ Counted n n' i.elapsed) := by
  unfold opens
  dsimp only
  cases i with
  | frame f =>
    unfold step at h
    simp only [bind_eq_ok, Prod.exists, pure_eq_ok, Except.ok.injEq, Prod.mk.injEq] at h
    obtain ⟨event, n₁, hok, -, rfl⟩ := h
    obtain ⟨hopened, hcounted⟩ := onFrame_window hok
    constructor
    · intro hopen
      rw [Bool.or_eq_true, bne_iff_ne] at hopen
      exact hopened hopen.symm
    · intro hclosed
      rw [Bool.or_eq_false_iff, bne_eq_false_iff_eq] at hclosed
      exact ⟨hclosed.1, hcounted hclosed.2 hclosed.1⟩
  | tick elapsedMs =>
    cases h
    obtain ⟨haddress, hcounted⟩ := tick_window n elapsedMs
    rw [haddress, bne_self_eq_false, Bool.or_false]
    exact ⟨fun h => (by cases h), fun _ => ⟨rfl, hcounted⟩⟩
  | start =>
    cases h
    rw [Bool.or_true]
    refine ⟨fun _ => ⟨?_, fun _ => rfl⟩, fun h => (by cases h)⟩
    show n.claimer.claim.2.state ≠ .claimed
    rcases n.claimer.claim_cases with ⟨-, heq⟩ | ⟨-, heq⟩ <;> rw [heq]
    · exact fun h => (by cases h)
    · exact fun h => (by cases h)
  | commandedAddress data =>
    cases h
    unfold onCommandedAddress
    rcases n.claimer.onCommandedAddress_cases data with ⟨hkept, hidle⟩ | ⟨hkept, e, herror⟩
      | ⟨a, -, heq⟩
    · rw [show n.claimer.onCommandedAddress data = (.ok .idle, n.claimer) from
        Prod.ext hidle hkept]
      simp only [Output.obeys, bne_self_eq_false, Bool.or_false]
      exact ⟨fun h => (by cases h), fun _ => ⟨trivial, counted_same rfl (Nat.le_refl _)⟩⟩
    · rw [show n.claimer.onCommandedAddress data = (.error e, n.claimer) from
        Prod.ext herror hkept]
      simp only [Output.obeys, bne_self_eq_false, Bool.or_false]
      exact ⟨fun h => (by cases h), fun _ => ⟨trivial, counted_same rfl (Nat.le_refl _)⟩⟩
    · rw [heq]
      refine ⟨fun _ => ⟨fun h => (by cases h), fun _ => rfl⟩, fun hclosed => ?_⟩
      simp only [Output.obeys, Bool.or_true] at hclosed
      cases hclosed
  | giveUpAddress =>
    cases h
    rw [Bool.or_false]
    have hstate : n.giveUpAddress.2.claimState = .cannotClaim := rfl
    refine ⟨fun _ => ⟨?_, fun h => ?_⟩, fun hkept => ⟨?_, ⟨fun h => ?_, fun h => ?_⟩⟩⟩
    · rw [hstate]
      decide
    · rw [hstate] at h
      cases h
    · rwa [bne_eq_false_iff_eq] at hkept
    all_goals
      rw [hstate] at h
      cases h

/-! ## §3. An address is held only after its window. -/

/-- At the end of `tr` the window was opened at some call, not opened
since, and at least `k` milliseconds have passed since then, all of them
at the address `a`. -/
def OpenFor (tr : List (Entry BUF SESSIONS)) (a : Address) (k : Nat) : Prop :=
  ∃ pre e post, tr = pre ++ e :: post ∧ opens e = true ∧ (∀ x ∈ post, opens x = false)
    ∧ k ≤ ticked (post.map Machine.Entry.event)
    ∧ e.after.address = a ∧ ∀ x ∈ post, x.after.address = a

theorem openFor_opened {tr : List (Entry BUF SESSIONS)} {e : Entry BUF SESSIONS}
    (h : opens e = true) : OpenFor (tr ++ [e]) e.after.address 0 :=
  ⟨tr, e, [], rfl, h, fun _ h => (nomatch h), Nat.le_refl 0, rfl, fun _ h => (nomatch h)⟩

/-- The window stays open. -/
theorem OpenFor.snoc {tr : List (Entry BUF SESSIONS)} {a : Address} {k : Nat}
    {e : Entry BUF SESSIONS} (h : OpenFor tr a k) (he : opens e = false)
    (ha : e.after.address = a) : OpenFor (tr ++ [e]) a (k + e.event.elapsed) := by
  obtain ⟨pre, x, post, rfl, hx, hpost, hk, hxa, hposta⟩ := h
  refine ⟨pre, x, post ++ [e], by simp, hx, fun y hy => ?_, ?_, hxa, fun y hy => ?_⟩
  · rcases List.mem_append.mp hy with hy | hy
    · exact hpost y hy
    · rwa [List.mem_singleton.mp hy]
  · rw [List.map_append, List.map_singleton, ticked_snoc]
    omega
  · rcases List.mem_append.mp hy with hy | hy
    · exact hposta y hy
    · rwa [List.mem_singleton.mp hy]

theorem OpenFor.mono {tr : List (Entry BUF SESSIONS)} {a : Address} {j k : Nat}
    (h : OpenFor tr a k) (hle : j ≤ k) : OpenFor tr a j := by
  obtain ⟨pre, x, post, htr, hx, hpost, hk, ha⟩ := h
  exact ⟨pre, x, post, htr, hx, hpost, Nat.le_trans hle hk, ha⟩

/-- **The count is the time the window has been open**, and a claim is held
after enough of it. -/
theorem openFor_of_trace {name : Name} {preferred : Address} {tr : List (Entry BUF SESSIONS)}
    (h : Machine.Trace step (new name preferred) tr n) :
    (n.claimState = .claiming → OpenFor tr n.address n.claimElapsedMs)
      ∧ (n.claimState = .claimed → OpenFor tr n.address addressClaimWindowMs) := by
  induction h with
  | nil => exact ⟨fun h => (by cases h), fun h => (by cases h)⟩
  | @snoc tr n n' i o _ hstep ih =>
    obtain ⟨hopened, hcounted⟩ := step_window hstep
    cases hopens : opens ⟨n, i, o, n'⟩ with
    | true =>
      obtain ⟨hnot, helapsed⟩ := hopened hopens
      refine ⟨fun hclaiming => ?_, fun hclaimed => absurd hclaimed hnot⟩
      rw [helapsed hclaiming]
      exact openFor_opened hopens
    | false =>
      obtain ⟨haddress, hstep⟩ := hcounted hopens
      rw [← haddress] at ih
      constructor
      · intro hclaiming
        obtain ⟨hbefore, hle⟩ := hstep.claiming hclaiming
        exact ((ih.1 hbefore).snoc hopens rfl).mono hle
      · intro hclaimed
        rcases hstep.claimed hclaimed with hbefore | ⟨hbefore, hle⟩
        · exact ((ih.2 hbefore).snoc hopens rfl).mono (Nat.le_add_right _ _)
        · exact ((ih.1 hbefore).snoc hopens rfl).mono hle

/-- **No address is used before its window has closed**: whenever a node
holds an address, at least 250 ms have been ticked off since the claim was
last started, moved or contested, and the address is still the same. -/
theorem claimed_after_window (name : Name) (preferred : Address) (calls : List Input) :
    ∃ (tr : List (Entry BUF SESSIONS)) (n : Node BUF SESSIONS),
      Machine.run step (new name preferred) calls = .ok (tr, n)
      ∧ (n.claimState = .claimed → ∃ pre e post, tr = pre ++ e :: post ∧ opens e = true
        ∧ (∀ x ∈ post, opens x = false) ∧ 250 ≤ ticked (post.map Machine.Entry.event)
        ∧ e.after.address = n.address ∧ ∀ x ∈ post, x.after.address = n.address) := by
  have hwf : (new name preferred : Node BUF SESSIONS).WF := wf_new name preferred
  obtain ⟨tr, n, hrun, -⟩ := run_ok hwf calls
  exact ⟨tr, n, hrun, (openFor_of_trace (Machine.run_trace hrun).1).2⟩

/-! ## §4. An uncontested claim. -/

/-- `f` asks the ECU at `a` for its claim. -/
def asks (a : Address) (f : Frame) : Bool :=
  f.id.isAddressedTo a && decide (f.pgn = .request)
    && decide (Request.decode f.data = .ok ⟨.addressClaimed⟩)

/-- A request for the claim among what comes in. -/
def Input.asks (a : Address) : Input → Bool
  | .frame f => Node.asks a f
  | _ => false

/-- Traffic and time, and no Address Claimed from `a`. -/
def Input.calm (a : Address) : Input → Prop
  | .frame f => f.pgn = .addressClaimed → f.sourceAddress ≠ a
  | .tick _ => True
  | .start | .commandedAddress _ | .giveUpAddress => False

/-- A request for the claim, for this node, is answered. -/
theorem route_claimRequest_iff :
    n.route f = .claimRequest ↔ asks n.address f = true := by
  unfold asks
  simp only [Bool.and_eq_true, decide_eq_true_eq]
  constructor
  · intro h
    unfold route at h
    split at h
    · cases h
    next haddr =>
    split at h
    · cases h
    split at h
    next hrequest =>
      rw [Bool.not_eq_true', Bool.not_eq_false] at haddr
      exact ⟨⟨haddr, hrequest.1⟩, hrequest.2⟩
    next =>
      split at h
      · split at h
        · split at h <;> cases h
        · cases h
      split at h <;> cases h
  · rintro ⟨⟨haddr, hpgn⟩, hdecode⟩
    have haddr' : (!f.id.isAddressedTo n.claimer.address) = false := by
      rw [Bool.not_eq_false']
      exact haddr
    have hid : f.id.pgn = .request := hpgn
    have hne : Pgn.request ≠ Pgn.addressClaimed := by decide
    unfold route
    rw [haddr', if_neg Bool.false_ne_true, hid, if_neg hne]
    exact if_pos ⟨rfl, hdecode⟩

/-- **A calm frame leaves the claim alone**, but answering a request starts
the count again. -/
theorem onFrame_calm {event : Event} (hcalm : (Input.frame f).calm n.address)
    (h : n.onFrame f = .ok (event, n')) :
    n'.address = n.address ∧ n'.claimState = n.claimState
      ∧ (n.claimState = .claiming →
        n'.claimElapsedMs = if asks n.address f then 0 else n.claimElapsedMs) := by
  have hsame : n'.claimer = n.claimer → n'.claimElapsedMs = n.claimElapsedMs →
      n.route f ≠ .claimRequest → n'.address = n.address ∧ n'.claimState = n.claimState
        ∧ (n.claimState = .claiming →
          n'.claimElapsedMs = if asks n.address f then 0 else n.claimElapsedMs) := by
    intro hclaimer helapsed hroute
    refine ⟨congrArg AddressClaimer.address hclaimer, congrArg AddressClaimer.state hclaimer,
      fun _ => ?_⟩
    rw [if_neg fun hasks => hroute (route_claimRequest_iff.mpr hasks)]
    exact helapsed
  rw [onFrame_eq] at h
  cases hroute : n.route f with
  | ignore =>
    rw [hroute] at h
    cases h
    exact hsame rfl rfl fun h => (nomatch hroute.symm.trans h)
  | claimRequest =>
    rw [hroute] at h
    injection h with h
    have hn : n' = (n.actOnClaim (.announce n.claimer.currentClaim)).2 := (congrArg Prod.snd h).symm
    have hclaimer : n'.claimer = n.claimer := by rw [hn, actOnClaim_claimer]
    refine ⟨congrArg AddressClaimer.address hclaimer, congrArg AddressClaimer.state hclaimer,
      fun hclaiming => ?_⟩
    rw [hn, actOnClaim_elapsed, if_pos hclaiming, if_pos (route_claimRequest_iff.mp hroute)]
  | connection cm =>
    rw [hroute] at h
    cases h
    exact hsame rfl rfl fun h => (nomatch hroute.symm.trans h)
  | data dt =>
    rw [hroute] at h
    simp only [bind_eq_ok, Prod.exists, pure_eq_ok, Except.ok.injEq, Prod.mk.injEq] at h
    obtain ⟨outcome, r, -, -, rfl⟩ := h
    exact hsame rfl rfl fun h => (nomatch hroute.symm.trans h)
  | application =>
    rw [hroute] at h
    cases h
    exact hsame rfl rfl fun h => (nomatch hroute.symm.trans h)
  | addressClaimed name =>
    obtain ⟨-, hpgn, -⟩ := of_route_addressClaimed hroute
    have hsource : f.sourceAddress ≠ n.claimer.address := hcalm hpgn
    have hasks : ¬ asks n.address f = true := fun hasks =>
      (nomatch hroute.symm.trans (route_claimRequest_iff.mpr hasks))
    rw [hroute] at h
    injection h with h
    have hn := (congrArg Prod.snd h).symm
    dsimp only at hn
    rcases n.claimer.onAddressClaimed_cases f.sourceAddress name with
      ⟨-, heq⟩ | ⟨-, -, heq⟩ | ⟨-, hsrc, -⟩ | ⟨-, hsrc, -⟩ | ⟨-, hsrc, -⟩
    · rw [heq] at hn
      rw [hn, if_neg hasks]
      exact ⟨rfl, rfl, fun _ => rfl⟩
    · rw [heq] at hn
      rw [hn, if_neg hasks]
      exact ⟨AddressClaimer.heard_address _ _, AddressClaimer.heard_state _ _, fun _ => rfl⟩
    · exact absurd hsrc hsource
    · exact absurd hsrc hsource
    · exact absurd hsrc hsource

/-- **A tick closes the window** once the count is full. -/
theorem tick_calm (n : Node BUF SESSIONS) (elapsedMs : Nat) :
    (n.tick elapsedMs).2.address = n.address
      ∧ (n.claimState = .claiming → n.claimElapsedMs + elapsedMs < addressClaimWindowMs →
        (n.tick elapsedMs).2.claimState = .claiming
          ∧ (n.tick elapsedMs).2.claimElapsedMs = n.claimElapsedMs + elapsedMs)
      ∧ (n.claimState = .claiming → addressClaimWindowMs ≤ n.claimElapsedMs + elapsedMs →
        (n.tick elapsedMs).2.claimState = .claimed)
      ∧ (n.claimState ≠ .claiming → (n.tick elapsedMs).2.claimState = n.claimState) := by
  have hsat : saturatingAdd 16 n.claimElapsedMs elapsedMs
      = min (n.claimElapsedMs + elapsedMs) 65535 := rfl
  show _ ∧ (n.claimer.state = .claiming → _) ∧ (n.claimer.state = .claiming → _)
    ∧ (n.claimer.state ≠ .claiming → _)
  refine ⟨(tick_window n elapsedMs).1, fun hclaiming hopen => ?_, fun hclaiming hfull => ?_,
    fun hother => ?_⟩
  · have hnot : ¬ saturatingAdd 16 n.claimElapsedMs elapsedMs ≥ addressClaimWindowMs := by omega
    unfold tick claimState
    dsimp only
    rw [if_pos (by simpa using hclaiming), if_neg hnot]
    refine ⟨hclaiming, ?_⟩
    show saturatingAdd 16 n.claimElapsedMs elapsedMs = _
    unfold addressClaimWindowMs at hopen
    omega
  · have hclosed : saturatingAdd 16 n.claimElapsedMs elapsedMs ≥ addressClaimWindowMs := by
      unfold addressClaimWindowMs at *
      omega
    unfold tick claimState
    dsimp only
    rw [if_pos (by simpa using hclaiming), if_pos hclosed]
    show n.claimer.contentionWindowElapsed.state = .claimed
    unfold AddressClaimer.contentionWindowElapsed
    rw [if_pos (by simpa using hclaiming)]
  · unfold tick claimState
    dsimp only
    rw [if_neg (by simpa using hother)]

/-! ## §5. Requests hold a claim off. -/

/-- At some moment the ticks since the last request for the claim at `a`,
or since the start, amounted to the window. -/
def Unasked (a : Address) (is : List Input) : Prop :=
  ∃ pre, pre <+: is ∧ addressClaimWindowMs ≤ ticked (since (Input.asks a) pre)

theorem unasked_snoc {a : Address} {is : List Input} {i : Input} :
    Unasked a (is ++ [i])
      ↔ Unasked a is ∨ addressClaimWindowMs ≤ ticked (since (Input.asks a) (is ++ [i])) := by
  constructor
  · rintro ⟨pre, hpre, hwindow⟩
    rcases List.prefix_concat_iff.mp hpre with rfl | hpre
    · exact Or.inr hwindow
    · exact Or.inl ⟨pre, hpre, hwindow⟩
  · rintro (⟨pre, hpre, hwindow⟩ | hwindow)
    · exact ⟨pre, hpre.trans (List.prefix_append is [i]), hwindow⟩
    · exact ⟨is ++ [i], List.prefix_refl _, hwindow⟩

/-- Where a claim of `a` stands that nobody contests: it cannot be held at
all, or it is held once there was a moment without requests, and until then
the count is the time since the last one. -/
structure Standing (a : Address) (is : List Input) (n : Node BUF SESSIONS) : Prop where
  address : n.address = a
  state : a.isSpecific = false ∧ n.claimState = .cannotClaim
    ∨ a.isSpecific = true ∧ (n.claimState = .claimed ∧ Unasked a is
      ∨ n.claimState = .claiming ∧ n.claimElapsedMs = ticked (since (Input.asks a) is)
        ∧ n.claimElapsedMs < addressClaimWindowMs ∧ ¬ Unasked a is)

/-- **One call keeps the standing of a claim.** -/
theorem Standing.step {a : Address} {is : List Input} {i : Input} {o : Output}
    (h : Standing a is n) (hcalm : i.calm a) (hstep : step n i = .ok (o, n')) :
    Standing a (is ++ [i]) n' := by
  cases i with
  | start | commandedAddress | giveUpAddress => cases hcalm
  | frame f =>
    unfold Node.step at hstep
    simp only [bind_eq_ok, Prod.exists, pure_eq_ok, Except.ok.injEq, Prod.mk.injEq] at hstep
    obtain ⟨event, n₁, hok, -, rfl⟩ := hstep
    rw [← h.address] at hcalm
    obtain ⟨haddress, hstate, helapsed⟩ := onFrame_calm hcalm hok
    refine ⟨haddress.trans h.address, ?_⟩
    rw [hstate, unasked_snoc]
    refine h.state.imp id fun ⟨hspecific, hstanding⟩ => ⟨hspecific, ?_⟩
    rcases hstanding with ⟨hclaimed, hun⟩ | ⟨hclaiming, hcount, hlt, hun⟩
    · exact Or.inl ⟨hclaimed, Or.inl hun⟩
    · have hcount' : n₁.claimElapsedMs = ticked (since (Input.asks a) (is ++ [.frame f])) := by
        rw [helapsed hclaiming, h.address]
        by_cases hasks : asks a f = true
        · have hi : Input.asks a (.frame f) = true := hasks
          rw [if_pos hasks, since_snoc_of hi]
          rfl
        · have hi : Input.asks a (.frame f) = false := Bool.eq_false_iff.mpr hasks
          rw [if_neg hasks, since_snoc_not hi, ticked_snoc, hcount]
          rfl
      have hlt' : n₁.claimElapsedMs < addressClaimWindowMs := by
        rw [helapsed hclaiming]
        split
        · decide
        · exact hlt
      exact Or.inr ⟨hclaiming, hcount', hlt', fun h => h.elim hun fun hfull => by omega⟩
  | tick elapsedMs =>
    cases hstep
    obtain ⟨haddress, hopen, hclosed, hother⟩ := tick_calm n elapsedMs
    have hi : Input.asks a (.tick elapsedMs) = false := rfl
    refine ⟨haddress.trans h.address, ?_⟩
    rw [unasked_snoc, since_snoc_not hi, ticked_snoc]
    show _ ∨ _ ∧ (_ ∨ _ ∧ _ = _ + elapsedMs ∧ _ ∧ ¬ (_ ∨ _ ≤ _ + elapsedMs))
    rcases h.state with ⟨hspecific, hquiet⟩ | ⟨hspecific, hstanding⟩
    · refine Or.inl ⟨hspecific, (hother ?_).trans hquiet⟩
      rw [hquiet]
      decide
    refine Or.inr ⟨hspecific, ?_⟩
    rcases hstanding with ⟨hclaimed, hun⟩ | ⟨hclaiming, hcount, hlt, hun⟩
    · refine Or.inl ⟨(hother ?_).trans hclaimed, Or.inl hun⟩
      rw [hclaimed]
      decide
    · rw [← hcount]
      by_cases hfull : addressClaimWindowMs ≤ n.claimElapsedMs + elapsedMs
      · exact Or.inl ⟨hclosed hclaiming hfull, Or.inr hfull⟩
      · obtain ⟨hstate, helapsed⟩ := hopen hclaiming (Nat.not_le.mp hfull)
        refine Or.inr ⟨hstate, helapsed, ?_, fun h => h.elim hun hfull⟩
        rw [helapsed]
        exact Nat.not_le.mp hfull

/-- **Whole runs without a contest.** -/
theorem run_calm {a : Address} {calls : List Input} {tr : List (Entry BUF SESSIONS)}
    (h : Standing a [] n) (hcalm : ∀ i ∈ calls, i.calm a)
    (hrun : Machine.run step n calls = .ok (tr, n')) : Standing a calls n' := by
  obtain ⟨htrace, hevents⟩ := Machine.run_trace hrun
  subst hevents
  clear hrun
  induction htrace with
  | nil => exact h
  | @snoc tr n₁ n₂ i o _ hstep ih =>
    rw [List.map_append, List.map_singleton] at hcalm ⊢
    have hbefore := ih fun j hj => hcalm j (List.mem_append_left _ hj)
    exact hbefore.step (hcalm i (List.mem_append_right _ List.mem_cons_self)) hstep

/-- What starting a claim does: the address is kept if it can be held. -/
theorem start_standing (n : Node BUF SESSIONS) :
    Standing n.start.2.address [] n.start.2
      ∧ n.start.2.address = if n.address.isSpecific then n.address else Address.null := by
  have hstart : n.start.2.claimer = n.claimer.claim.2 := rfl
  have haddr : n.start.2.address = n.claimer.claim.2.address := rfl
  have hstate : n.start.2.claimState = n.claimer.claim.2.state := rfl
  have hspec : n.address.isSpecific = n.claimer.address.isSpecific := rfl
  rcases n.claimer.claim_cases with ⟨hs, heq⟩ | ⟨hs, heq⟩
  · rw [heq] at haddr hstate
    rw [hspec, hs, haddr]
    exact ⟨⟨haddr, Or.inl ⟨rfl, hstate⟩⟩, rfl⟩
  · rw [heq] at haddr hstate
    rw [hspec, hs, haddr]
    refine ⟨⟨haddr, Or.inr ⟨hs, Or.inr ⟨hstate, rfl, Nat.zero_lt_succ _, ?_⟩⟩⟩, rfl⟩
    rintro ⟨pre, hpre, hwindow⟩
    rw [List.prefix_nil.mp hpre] at hwindow
    exact absurd hwindow (Nat.not_succ_le_zero _)

/-- **An uncontested claim is held once 250 ms have passed** exactly if the
address can be held and there was a moment when 250 ms had passed since
the last request for the claim. -/
theorem claimed_iff_unasked {name : Name} {preferred : Address} (h : Reachable name preferred n)
    (calls : List Input) (hcalm : ∀ i ∈ calls, i.calm n.start.2.address) :
    ∃ tr n', Machine.run step n.start.2 calls = .ok (tr, n')
      ∧ ((250 ≤ ticked calls → n'.claimState = .claimed)
        ↔ (250 ≤ ticked calls → n.address.isSpecific = true ∧ Unasked n.address calls)) := by
  have hwf : n.start.2.WF := (h.wf.step (i := .start) rfl).1
  obtain ⟨tr, n', hrun, -⟩ := run_ok hwf calls
  refine ⟨tr, n', hrun, imp_congr_right fun _ => ?_⟩
  obtain ⟨hstanding, haddress⟩ := n.start_standing
  have hstate := (run_calm hstanding hcalm hrun).state
  cases hs : n.address.isSpecific with
  | false =>
    rw [hs, if_neg Bool.false_ne_true] at haddress
    rw [haddress] at hstate
    obtain ⟨-, hquiet⟩ := hstate.resolve_right fun h => absurd h.1 (by decide)
    rw [hquiet]
    exact ⟨fun h => (by cases h), fun h => (by cases h.1)⟩
  | true =>
    rw [hs, if_pos rfl] at haddress
    rw [haddress, hs] at hstate
    obtain ⟨-, ⟨hclaimed, hun⟩ | ⟨hclaiming, -, -, hun⟩⟩ :=
      hstate.resolve_left fun h => Bool.noConfusion h.1
    · exact ⟨fun _ => ⟨rfl, hun⟩, fun _ => hclaimed⟩
    · rw [hclaiming]
      exact ⟨fun h => (by cases h), fun h => absurd h.2 hun⟩

/-- A node that would like to hold `0x80`. -/
def hopeful : Node 64 2 := new ⟨1⟩ (Address.ofNat 0x80)

/-- A tool at `0xF9` asks everybody to claim. -/
def whoIsThere : Frame :=
  Frame.fromPayload ⟨0x18EAFFF9, by decide⟩ ![0x00, 0xEE, 0x00, 0xFF, 0xFF, 0xFF, 0xFF, 0xFF]

theorem hopeful_reachable : Reachable ⟨1⟩ (Address.ofNat 0x80) hopeful := ⟨[], [], rfl⟩

/-- With nobody asking, the claim is held. -/
theorem claimed_unasked : ∃ tr n', Machine.run step hopeful.start.2 [.tick 200, .tick 200]
      = .ok (tr, n') ∧ n'.claimState = .claimed := by
  obtain ⟨tr, n', hrun, hiff⟩ := claimed_iff_unasked hopeful_reachable [.tick 200, .tick 200]
    (by simp [Input.calm])
  refine ⟨tr, n', hrun, hiff.mpr (fun _ => ⟨by decide, ?_⟩) (by decide)⟩
  exact ⟨[.tick 200, .tick 200], List.prefix_refl _, by decide⟩

/-- **A request every 200 ms is enough** to keep an uncontested claim from
being held. -/
theorem unclaimed_asked : Reachable ⟨1⟩ (Address.ofNat 0x80) hopeful
    ∧ (∀ i ∈ [.tick 200, .frame whoIsThere, .tick 200], Input.calm hopeful.start.2.address i)
    ∧ 250 ≤ ticked [.tick 200, .frame whoIsThere, .tick 200]
    ∧ (Machine.run step hopeful.start.2 [.tick 200, .frame whoIsThere, .tick 200]).map
      (fun x => x.2.claimState) = .ok .claiming := by
  refine ⟨hopeful_reachable, fun i hi => ?_, by decide, by decide +kernel⟩
  rcases List.mem_cons.mp hi with rfl | hi
  · exact trivial
  rcases List.mem_cons.mp hi with rfl | hi
  · exact fun hpgn => absurd hpgn (by decide)
  · rw [List.mem_singleton.mp hi]
    exact trivial

end Node

end SaeJ1939
