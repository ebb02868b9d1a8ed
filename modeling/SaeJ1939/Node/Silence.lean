/-
  SaeJ1939.Node.Silence — a node without an address on the bus.

  Before `start` a node has claimed nothing, and once it has lost its
  address it owns none: it should not be heard then, except to say that it
  cannot claim.  `Silent` says this of a run.  The claim state is not
  consulted before a frame is answered or a session expires, so `speaks`
  marks the inputs at which a node without an address is heard.

  Main results:
    * `allowed_iff` — one input keeps the node silent exactly when it is
      not one of those.
    * `announced` — a node that holds an address has announced it.
    * `silent_iff` — a run is silent exactly when none of its inputs makes
      the node speak.
    * `abort_from_null_address` — a run that is not.
-/
import SaeJ1939.Node.Safety

namespace SaeJ1939

open Checked AddressClaim Tp

/-! ## §1. What goes on the bus. -/

/-- The connection-management message a reassembler wants sent. -/
def Tp.Rx.reply : Rx → Option TpCm
  | .idle => none
  | .send cm => some cm
  | .message _ _ _ ack => ack

namespace Node

/-- The frames a call hands its caller to transmit. -/
def Output.emitted : Output → List Frame
  | .event .idle => []
  | .event (.transmit f) => [f]
  | .event (.message _ _ _ reply) => reply.toList
  | .frames fs => fs
  | .claim f => [f]
  | .command (.ok f) => f.toList
  | .command (.error _) => []

/-- Whether an input is a frame off the bus or the passing of time, and
not a call the application decides on. -/
def Input.isTraffic : Input → Bool
  | .frame _ | .tick _ => true
  | .start | .commandedAddress _ | .giveUpAddress => false

/-- What a node in a claim state may put on the bus: nothing before it
has started, and only that it cannot claim once it cannot. -/
def Allowed (state : ClaimState) (frames : List Frame) : Prop :=
  match state with
  | .idle => frames = []
  | .cannotClaim => ∀ f ∈ frames, f.pgn = .addressClaimed ∧ f.sourceAddress = Address.null
  | .claiming | .claimed => True

variable {BUF SESSIONS : Nat}

/-- **A run in which a node without an address is silent.** -/
structure Silent (tr : List (Entry BUF SESSIONS)) : Prop where
  /-- Frames and ticks put nothing on the bus that the claim state does
  not allow. -/
  traffic : ∀ e ∈ tr, e.event.isTraffic = true → Allowed e.before.claimState e.out.emitted
  /-- Connection management comes from an address an ECU can hold, after
  an address was announced. -/
  connection : ∀ pre e post f, tr = pre ++ e :: post → f ∈ e.out.emitted → f.pgn = .tpCm →
    f.sourceAddress ≠ Address.null ∧ f.sourceAddress ≠ Address.global
      ∧ ∃ a ∈ pre, ∃ g ∈ a.out.emitted, g.pgn = .addressClaimed ∧ g.sourceAddress.isSpecific = true

/-- Whether a data packet makes the receiver of a session answer: it is out
of order, the last of the message, or the last of its window. -/
def answersPacket (dt : TpDt) (s : Session) : Bool :=
  !s.broadcast
    && (dt.sequence != s.nextSequence || dt.sequence == s.packets || s.windowRemaining ≤ 1)

/-- Whether a session runs out of time when `elapsedMs` pass, and its peer
is told. -/
def expires (elapsedMs : Nat) (s : Session) : Bool :=
  !s.broadcast && t1TimeoutMs < saturatingAdd 16 s.idleMs elapsedMs

/-- **An input at which a node without an address is heard**: before it
has started, a claim contesting its address or a request for its claim;
without an address, an RTS, a packet that its session answers, or the time
that expires a session. -/
def speaks (n : Node BUF SESSIONS) : Input → Bool
  | .frame f =>
      match n.route f with
      | .addressClaimed name =>
          n.claimState == .idle && name != n.claimer.name && f.sourceAddress == n.address
      | .claimRequest => n.claimState == .idle
      | .connection (.rts ..) => !n.claimer.isActive
      | .data dt =>
          !n.claimer.isActive
            && (n.reassembler.sessionOf f.sourceAddress).any (answersPacket dt)
      | _ => false
  | .tick elapsedMs =>
      !n.claimer.isActive
        && decide (∃ i, (n.reassembler.slots i).session.any (expires elapsedMs) = true)
  | _ => false

/-! ## §2. The frames themselves. -/

theorem pgn_addressClaimFrame (source : Address) (name : Name) :
    (addressClaimFrame source name).pgn = .addressClaimed :=
  Id.pgn_broadcast ..

theorem sourceAddress_addressClaimFrame (source : Address) (name : Name) :
    (addressClaimFrame source name).sourceAddress = source :=
  Id.sourceAddress_broadcast ..

/-- A connection-management frame can always be built. -/
theorem tpCmFrame_eq (source destination : Address) (cm : TpCm) :
    ∃ f, tpCmFrame source destination cm = some f ∧ f.pgn = .tpCm ∧ f.sourceAddress = source
      ∧ f.id.destinationAddress = some destination ∧ f.payload = cm.encode := by
  have hid : Id.fromParts .lowest .tpCm destination source
      = .ok ⟨Id.assemble .lowest .tpCm destination source, Id.assemble_le ..⟩ :=
    Id.fromParts_of_pdu1 rfl
  unfold tpCmFrame
  rw [hid]
  exact ⟨_, rfl, Id.pgn_fromParts hid, Id.sourceAddress_fromParts hid,
    Id.destinationAddress_fromParts hid rfl, rfl⟩

/-- What goes out when the reassembler has answered. -/
theorem emitted_lift (rx : Rx) (address peer : Address) :
    Output.emitted (.event (lift rx address peer))
      = (rx.reply.bind (tpCmFrame address peer)).toList := by
  cases rx with
  | idle => rfl
  | send cm =>
    obtain ⟨f, hf, -, -⟩ := tpCmFrame_eq address peer cm
    simp [lift, Rx.reply, hf, Output.emitted]
  | message pgn source data ack => rfl

/-- A frame that answers a peer carries the reassembler's reply, from the
node's address to that peer. -/
theorem mem_emitted_lift {rx : Rx} {address peer : Address} {f : Frame}
    (hf : f ∈ Output.emitted (.event (lift rx address peer))) :
    ∃ cm, rx.reply = some cm ∧ f.pgn = .tpCm ∧ f.sourceAddress = address
      ∧ f.id.destinationAddress = some peer ∧ f.payload = cm.encode := by
  rw [emitted_lift, Option.mem_toList, Option.bind_eq_some_iff] at hf
  obtain ⟨cm, hcm, hf⟩ := hf
  obtain ⟨f', hf', hfields⟩ := tpCmFrame_eq address peer cm
  rw [hf, Option.some.injEq] at hf'
  subst hf'
  exact ⟨cm, hcm, hfields⟩

/-- What goes out when the claimer has reacted. -/
theorem emitted_actOnClaim (n : Node BUF SESSIONS) (action : ClaimAction) :
    Output.emitted (.event (n.actOnClaim action).1)
      = match action with
        | .idle => []
        | .announce claim => [addressClaimFrame claim.source claim.name] := by
  cases action <;> rfl

/-! ## §3. When a peer's transfer answers. -/

/-- Connection management is answered exactly when it is an RTS. -/
theorem reply_onCm (N : Nat) (room : Bool) (peer : Address) (t : Option Transfer) (cm : TpCm) :
    (Transfer.onCm N room peer t cm).1.reply.isSome = true
      ↔ ∃ size packets maxPacketsPerCts pgn, cm = .rts size packets maxPacketsPerCts pgn := by
  cases cm with
  | rts size packets maxPacketsPerCts pgn =>
    refine ⟨fun _ => ⟨_, _, _, _, rfl⟩, fun _ => ?_⟩
    unfold Transfer.onCm
    dsimp only
    split_ifs <;> rfl
  | bam size packets pgn =>
    unfold Transfer.onCm
    dsimp only
    split_ifs <;> simp [Rx.reply]
  | cts | endOfMsgAck | abort => simp [Transfer.onCm, Rx.reply]

/-- A data packet is answered exactly as `answersPacket` says. -/
theorem reply_onDt (t : Option Transfer) (dt : TpDt) :
    (Transfer.onDt t dt).1.reply.isSome = (t.map Transfer.session).any (answersPacket dt) := by
  cases t with
  | none => rfl
  | some t =>
    obtain ⟨s, received⟩ := t
    unfold Transfer.onDt answersPacket
    simp only [Option.map_some, Option.any_some]
    by_cases hseq : dt.sequence = s.nextSequence
    · by_cases hlast : dt.sequence = s.packets
      · -- the last packet is acknowledged unless it was broadcast
        cases s.broadcast <;> simp [hseq, hlast ▸ hseq.symm, Rx.reply]
      · have hlast' : s.nextSequence ≠ s.packets := hseq ▸ hlast
        have hwindow : (s.windowRemaining - 1 == 0) = decide (s.windowRemaining ≤ 1) := by
          rw [beq_eq_decide, decide_eq_decide]
          omega
        cases hb : s.broadcast <;> by_cases hw : s.windowRemaining ≤ 1 <;>
          simp [hseq, hlast', hb, hw, Transfer.advance, Rx.reply, hwindow]
    · cases s.broadcast <;> by_cases hlt : dt.sequence < s.nextSequence <;>
        simp [hseq, hlt, Rx.reply]

/-- Time makes somebody's session answer exactly when one `expires`. -/
theorem abort_mem_tick (r : Reassembler BUF SESSIONS) (elapsedMs : Nat) :
    (∃ peer abort, (peer, some abort) ∈ (r.tick elapsedMs).1)
      ↔ ∃ i, (r.slots i).session.any (expires elapsedMs) = true := by
  have hslot : ∀ slot : Slot BUF,
      (∃ peer abort, (Reassembler.tickSlot elapsedMs t1TimeoutMs slot).1 = some (peer, some abort))
        ↔ slot.session.any (expires elapsedMs) = true := by
    intro slot
    unfold Reassembler.tickSlot expires
    cases hs : slot.session with
    | none => simp
    | some s =>
      by_cases hle : saturatingAdd 16 s.idleMs elapsedMs ≤ t1TimeoutMs
      · simp [hle, Nat.not_lt.mpr hle]
      · cases hb : s.broadcast <;> simp [hle, hb, Nat.lt_of_not_le hle]
  unfold Reassembler.tick Reassembler.tickWithTimeout
  simp only [List.mem_filterMap, List.mem_finRange, true_and]
  constructor
  · rintro ⟨peer, abort, i, hi⟩
    exact ⟨i, (hslot _).mp ⟨peer, abort, hi⟩⟩
  · rintro ⟨i, hi⟩
    obtain ⟨peer, abort, h⟩ := (hslot _).mpr hi
    exact ⟨peer, abort, i, h⟩

/-! ## §4. One input. -/

theorem allowed_nil (state : ClaimState) : Allowed state [] := by
  cases state with
  | idle => rfl
  | claiming | claimed => trivial
  | cannotClaim =>
    intro f hf
    cases hf

/-- Connection management is allowed exactly to the holder of an address. -/
theorem allowed_tpCm {c : AddressClaimer} {frames : List Frame} (h : ∀ f ∈ frames, f.pgn = .tpCm) :
    Allowed c.state frames ↔ c.isActive = true ∨ frames = [] := by
  cases frames with
  | nil => simp [allowed_nil]
  | cons f fs =>
    have hf : f.pgn = .tpCm := h f (List.mem_cons_self ..)
    have hne : f.pgn ≠ .addressClaimed := by
      rw [hf]
      decide
    cases hs : c.state <;> simp [Allowed, AddressClaimer.isActive, hs, hne]

/-- A claim is allowed to a node that has started, unless it has given up
and claims more than the null address. -/
theorem allowed_claim {c : AddressClaimer} (source : Address) (name : Name)
    (h : c.state = .cannotClaim → source = Address.null) :
    Allowed c.state [addressClaimFrame source name] ↔ c.state ≠ .idle := by
  cases hs : c.state with
  | idle => simp [Allowed]
  | claiming | claimed => simp [Allowed]
  | cannotClaim =>
    simp [Allowed, pgn_addressClaimFrame, sourceAddress_addressClaimFrame, h hs]

variable {n n' : Node BUF SESSIONS} {i : Input} {out : Output}

/-- The reassembler's answer, built into a frame, is allowed to the holder
of an address. -/
theorem allowed_lift (n : Node BUF SESSIONS) (rx : Rx) (peer : Address) :
    Allowed n.claimState (Output.emitted (.event (lift rx n.address peer)))
      ↔ n.claimer.isActive = true ∨ rx.reply.isSome = false := by
  rw [emitted_lift]
  cases hreply : rx.reply with
  | none => simp [allowed_nil]
  | some cm =>
    obtain ⟨f, hf, hpgn, -⟩ := tpCmFrame_eq n.address peer cm
    rw [Option.bind_some, hf, Option.toList_some]
    rw [claimState, allowed_tpCm (by simpa using hpgn)]
    simp

/-- The frames a tick puts out: one for each expired session. -/
theorem mem_emitted_tick (elapsedMs : Nat) {f : Frame} :
    f ∈ (n.tick elapsedMs).1 ↔ ∃ peer abort, (peer, some abort) ∈ (n.reassembler.tick elapsedMs).1
      ∧ tpCmFrame n.address peer abort = some f := by
  rw [(tick_eq n elapsedMs).1, List.mem_filterMap]
  constructor
  · rintro ⟨⟨peer, abort⟩, hmem, hf⟩
    obtain ⟨cm, rfl, hf⟩ := Option.bind_eq_some_iff.mp hf
    exact ⟨peer, cm, hmem, hf⟩
  · rintro ⟨peer, abort, hmem, hf⟩
    exact ⟨(peer, some abort), hmem, hf⟩

theorem pgn_mem_tick {elapsedMs : Nat} {f : Frame} (h : f ∈ (n.tick elapsedMs).1) :
    f.pgn = .tpCm ∧ f.sourceAddress = n.address := by
  obtain ⟨peer, abort, -, hf⟩ := (mem_emitted_tick elapsedMs).mp h
  obtain ⟨f', hf', hpgn, hsrc, -⟩ := tpCmFrame_eq n.address peer abort
  rw [hf, Option.some.injEq] at hf'
  subst hf'
  exact ⟨hpgn, hsrc⟩

/-- Only aborts go out when time passes. -/
theorem payload_mem_tick {elapsedMs : Nat} {f : Frame} (h : f ∈ (n.tick elapsedMs).1) :
    ∃ pgn, f.payload = (TpCm.abort .timeout pgn).encode := by
  obtain ⟨peer, abort, hmem, hf⟩ := (mem_emitted_tick elapsedMs).mp h
  obtain ⟨f', hf', -, -, -, hpayload⟩ := tpCmFrame_eq n.address peer abort
  rw [hf, Option.some.injEq] at hf'
  subst hf'
  unfold Reassembler.tick Reassembler.tickWithTimeout at hmem
  obtain ⟨i, -, hi⟩ := List.mem_filterMap.mp hmem
  unfold Reassembler.tickSlot at hi
  split at hi
  next => cases hi
  next session _ =>
    dsimp only at hi
    split at hi
    next => cases hi
    next =>
      simp only [Option.some.injEq, Prod.mk.injEq] at hi
      obtain ⟨-, hi⟩ := hi
      split at hi
      next =>
        injection hi with hi
        subst hi
        exact ⟨session.pgn, hpayload⟩
      next => cases hi

theorem tick_eq_nil (elapsedMs : Nat) :
    (n.tick elapsedMs).1 = []
      ↔ ¬ ∃ i, (n.reassembler.slots i).session.any (expires elapsedMs) = true := by
  rw [← abort_mem_tick, List.eq_nil_iff_forall_not_mem]
  constructor
  · rintro h ⟨peer, abort, hmem⟩
    obtain ⟨f, hf, -, -⟩ := tpCmFrame_eq n.address peer abort
    exact h f ((mem_emitted_tick elapsedMs).mpr ⟨peer, abort, hmem, hf⟩)
  · intro h f hf
    obtain ⟨peer, abort, hmem, -⟩ := (mem_emitted_tick elapsedMs).mp hf
    exact h ⟨peer, abort, hmem⟩

/-- **One input of traffic keeps to what the claim state allows exactly
when it does not make the node speak.** -/
theorem allowed_iff (h : n.WF) (hstep : step n i = .ok (out, n')) (hi : i.isTraffic = true) :
    Allowed n.claimState out.emitted ↔ speaks n i = false := by
  cases i with
  | start | commandedAddress | giveUpAddress => cases hi
  | tick elapsedMs =>
    simp only [step, Except.ok.injEq, Prod.mk.injEq] at hstep
    obtain ⟨rfl, -⟩ := hstep
    show Allowed n.claimer.state (n.tick elapsedMs).1 ↔ _
    rw [allowed_tpCm (fun f hf => (pgn_mem_tick hf).1), tick_eq_nil]
    simp only [speaks]
    cases n.claimer.isActive <;> simp
  | frame f =>
    simp only [step, onFrame_eq, bind_eq_ok, Prod.exists, pure_eq_ok, Except.ok.injEq,
      Prod.mk.injEq] at hstep
    obtain ⟨event, n₁, hframe, rfl, rfl⟩ := hstep
    cases hroute : n.route f with
    | ignore =>
      simp only [hroute, Except.ok.injEq, Prod.mk.injEq] at hframe
      obtain ⟨rfl, -⟩ := hframe
      simp [speaks, hroute, Output.emitted, allowed_nil]
    | application =>
      simp only [hroute, Except.ok.injEq, Prod.mk.injEq] at hframe
      obtain ⟨rfl, -⟩ := hframe
      simp [speaks, hroute, Output.emitted, allowed_nil]
    | claimRequest =>
      simp only [hroute, Except.ok.injEq] at hframe
      have hevent : event = (n.actOnClaim (.announce n.claimer.currentClaim)).1 := by rw [hframe]
      rw [hevent, emitted_actOnClaim]
      show Allowed n.claimer.state [addressClaimFrame n.claimer.address n.claimer.name] ↔ _
      rw [allowed_claim _ _ h.claimer.silent]
      simp [speaks, hroute, claimState]
    | addressClaimed name =>
      simp only [hroute, Except.ok.injEq] at hframe
      have hevent : event = (actOnClaim { n with claimer := (n.claimer.onAddressClaimed
          f.sourceAddress name).2 } (n.claimer.onAddressClaimed f.sourceAddress name).1).1 := by
        rw [hframe]
      rw [hevent, emitted_actOnClaim]
      simp only [speaks, hroute, claimState]
      rcases n.claimer.onAddressClaimed_cases f.sourceAddress name with
        ⟨hname, heq⟩ | ⟨-, hfight, heq⟩ | ⟨hname, hsrc, hstate, -, heq⟩
        | ⟨hname, hsrc, hstate, -, next, -, -, heq⟩ | ⟨hname, hsrc, hstate, -, -, heq⟩ <;>
        rw [heq] <;> dsimp only
      · simp [hname, allowed_nil]
      · rcases hfight with hsrc | hstate
        · simp [hsrc, address, allowed_nil]
        · simp [hstate, allowed_nil]
      -- the node answers the claim
      · rw [allowed_claim _ _ (fun h => absurd h hstate)]
        simp [hname, hsrc, address]
      · rw [allowed_claim _ _ (fun h => absurd h hstate)]
        simp [hname, hsrc, address]
      · rw [allowed_claim _ _ (fun h => absurd h hstate)]
        simp [hname, hsrc, address]
    | connection cm =>
      simp only [hroute, Except.ok.injEq, Prod.mk.injEq] at hframe
      obtain ⟨rfl, -⟩ := hframe
      have hreply := reply_onCm BUF (n.reassembler.room f.sourceAddress) f.sourceAddress
        (n.reassembler.transferOf f.sourceAddress) cm
      rw [allowed_lift, (Reassembler.onTpCm_refines h.receiver f.sourceAddress cm).1]
      cases cm with
      | rts size packets maxPacketsPerCts pgn =>
        rw [hreply.mpr ⟨_, _, _, _, rfl⟩]
        simp [speaks, hroute]
      | bam | cts | endOfMsgAck | abort =>
        have hnone := mt hreply.mp (by simp)
        simp [speaks, hroute, hnone]
    | data dt =>
      obtain ⟨r', hok, -⟩ := Reassembler.onTpDt_refines h.receiver f.sourceAddress dt
      simp only [hroute, hok, ok_bind, Except.ok.injEq, Prod.mk.injEq] at hframe
      obtain ⟨rfl, -⟩ := hframe
      rw [allowed_lift, reply_onDt, ← Reassembler.sessionOf_eq]
      simp only [speaks, hroute]
      cases n.claimer.isActive <;> simp

/-- Whatever a node puts out at an input is its claim, or connection
management from the address it has before that input. -/
theorem emitted_cases (h : n.WF) (hstep : step n i = .ok (out, n')) {f : Frame}
    (hf : f ∈ out.emitted) :
    (∃ source name, f = addressClaimFrame source name)
      ∨ i.isTraffic = true ∧ f.pgn = .tpCm ∧ f.sourceAddress = n.address := by
  have hclaim : ∀ (n : Node BUF SESSIONS) action,
      f ∈ Output.emitted (.event (n.actOnClaim action).1) →
      ∃ source name, f = addressClaimFrame source name := by
    intro n action hf
    rw [emitted_actOnClaim] at hf
    cases action with
    | idle => cases hf
    | announce claim => exact ⟨_, _, List.mem_singleton.mp hf⟩
  have hlift : ∀ rx peer, f ∈ Output.emitted (.event (lift rx n.address peer)) →
      f.pgn = .tpCm ∧ f.sourceAddress = n.address := by
    intro rx peer hf
    obtain ⟨cm, -, hpgn, hsrc, -, -⟩ := mem_emitted_lift hf
    exact ⟨hpgn, hsrc⟩
  cases i with
  | start =>
    simp only [step, Except.ok.injEq, Prod.mk.injEq] at hstep
    obtain ⟨rfl, -⟩ := hstep
    exact Or.inl ⟨_, _, List.mem_singleton.mp hf⟩
  | giveUpAddress =>
    simp only [step, Except.ok.injEq, Prod.mk.injEq] at hstep
    obtain ⟨rfl, -⟩ := hstep
    exact Or.inl ⟨_, _, List.mem_singleton.mp hf⟩
  | commandedAddress data =>
    simp only [step, Except.ok.injEq, Prod.mk.injEq] at hstep
    obtain ⟨rfl, -⟩ := hstep
    unfold onCommandedAddress at hf
    split at hf
    · cases hf
    · exact Or.inl ⟨_, _, List.mem_singleton.mp hf⟩
    · cases hf
  | tick elapsedMs =>
    simp only [step, Except.ok.injEq, Prod.mk.injEq] at hstep
    obtain ⟨rfl, -⟩ := hstep
    exact Or.inr ⟨rfl, pgn_mem_tick hf⟩
  | frame f =>
    simp only [step, onFrame_eq, bind_eq_ok, Prod.exists, pure_eq_ok, Except.ok.injEq,
      Prod.mk.injEq] at hstep
    obtain ⟨event, n₁, hframe, rfl, rfl⟩ := hstep
    cases hroute : n.route f with
    | ignore | application =>
      simp only [hroute, Except.ok.injEq, Prod.mk.injEq] at hframe
      obtain ⟨rfl, -⟩ := hframe
      cases hf
    | claimRequest | addressClaimed =>
      simp only [hroute, Except.ok.injEq] at hframe
      exact Or.inl (hclaim _ _ (by rw [hframe]; exact hf))
    | connection cm =>
      simp only [hroute, Except.ok.injEq, Prod.mk.injEq] at hframe
      obtain ⟨rfl, -⟩ := hframe
      exact Or.inr ⟨rfl, hlift _ _ hf⟩
    | data dt =>
      obtain ⟨r', hok, -⟩ := Reassembler.onTpDt_refines h.receiver f.sourceAddress dt
      simp only [hroute, hok, ok_bind, Except.ok.injEq, Prod.mk.injEq] at hframe
      obtain ⟨rfl, -⟩ := hframe
      exact Or.inr ⟨rfl, hlift _ _ hf⟩

/-- An output that announces an address an ECU can hold. -/
def announces (out : Output) : Prop :=
  ∃ g ∈ out.emitted, g.pgn = .addressClaimed ∧ g.sourceAddress.isSpecific = true

theorem announces_claim {a : Address} (name : Name) (ha : a.isSpecific = true)
    (hmem : addressClaimFrame a name ∈ out.emitted) : announces out := by
  refine ⟨_, hmem, pgn_addressClaimFrame a name, ?_⟩
  rw [sourceAddress_addressClaimFrame]
  exact ha

/-- A node that holds an address after it heard a claim held it before, or
moved to another one and announces that. -/
theorem announces_of_addressClaimed {source : Address} {name : Name} {event : Event}
    (hframe : { n with claimer := (n.claimer.onAddressClaimed source name).2 }.actOnClaim
      (n.claimer.onAddressClaimed source name).1 = (event, n'))
    (hactive : n'.claimer.isActive = true) :
    n.claimer.isActive = true ∨ announces (.event event) := by
  have hclaimer : n'.claimer = (n.claimer.onAddressClaimed source name).2 := by
    have hsame := actOnClaim_claimer { n with claimer := (n.claimer.onAddressClaimed
      source name).2 } (n.claimer.onAddressClaimed source name).1
    rw [hframe] at hsame
    exact hsame
  have hout : Output.emitted (.event event)
      = match (n.claimer.onAddressClaimed source name).1 with
        | .idle => []
        | .announce claim => [addressClaimFrame claim.source claim.name] := by
    rw [← emitted_actOnClaim { n with claimer := (n.claimer.onAddressClaimed source name).2 },
      hframe]
  rw [hclaimer] at hactive
  rcases n.claimer.onAddressClaimed_cases source name with
    ⟨-, heq⟩ | ⟨-, -, heq⟩ | ⟨-, -, -, -, heq⟩ | ⟨-, -, -, -, next, hnext, -, heq⟩
    | ⟨-, -, -, -, -, heq⟩ <;> rw [heq] at hactive hout
  · exact Or.inl hactive
  · rw [AddressClaimer.heard_isActive] at hactive
    exact Or.inl hactive
  · rw [AddressClaimer.heard_isActive] at hactive
    exact Or.inl hactive
  -- the node moves to another address
  · refine Or.inr (announces_claim n.claimer.name (isSpecific_of_nextFreeAddress hnext) ?_)
    rw [hout]
    exact List.mem_singleton_self _
  · cases hactive

/-- **A node that comes to hold an address announces it.** -/
theorem announces_of_active (hstep : step n i = .ok (out, n'))
    (hactive : n'.claimer.isActive = true) : n.claimer.isActive = true ∨ announces out := by
  cases i with
  | start =>
    simp only [step, Except.ok.injEq, Prod.mk.injEq] at hstep
    obtain ⟨rfl, rfl⟩ := hstep
    rcases n.claimer.claim_cases with ⟨-, heq⟩ | ⟨hs, heq⟩
    · have hno : n.start.2.claimer = n.claimer.giveUp.2 := congrArg Prod.snd heq
      rw [hno] at hactive
      cases hactive
    · have hframe : n.start.1 = addressClaimFrame n.claimer.address n.claimer.name := by
        show addressClaimFrame n.claimer.claim.1.source n.claimer.claim.1.name = _
        rw [heq]
        rfl
      refine Or.inr (announces_claim n.claimer.name hs ?_)
      rw [hframe]
      exact List.mem_singleton_self _
  | giveUpAddress =>
    simp only [step, Except.ok.injEq, Prod.mk.injEq] at hstep
    obtain ⟨-, rfl⟩ := hstep
    cases hactive
  | commandedAddress data =>
    simp only [step, Except.ok.injEq, Prod.mk.injEq] at hstep
    obtain ⟨rfl, rfl⟩ := hstep
    rw [(onCommandedAddress_eq n data).1] at hactive
    rcases n.claimer.onCommandedAddress_cases data with ⟨heq, -⟩ | ⟨heq, -⟩ | ⟨a, ha, heq⟩
    · rw [heq] at hactive
      exact Or.inl hactive
    · rw [heq] at hactive
      exact Or.inl hactive
    · refine Or.inr (announces_claim n.claimer.name ha ?_)
      simp [onCommandedAddress, heq, Output.emitted]
  | tick elapsedMs =>
    simp only [step, Except.ok.injEq, Prod.mk.injEq] at hstep
    obtain ⟨-, rfl⟩ := hstep
    left
    rcases tick_claimer n elapsedMs with hc | hc <;> rw [hc] at hactive
    · exact hactive
    · unfold AddressClaimer.contentionWindowElapsed at hactive
      split at hactive
      next hs => simp [AddressClaimer.isActive, eq_of_beq hs]
      next => exact hactive
  | frame f =>
    simp only [step, onFrame_eq, bind_eq_ok, Prod.exists, pure_eq_ok, Except.ok.injEq,
      Prod.mk.injEq] at hstep
    obtain ⟨event, n₁, hframe, rfl, rfl⟩ := hstep
    cases hroute : n.route f with
    | ignore | application =>
      simp only [hroute, Except.ok.injEq, Prod.mk.injEq] at hframe
      obtain ⟨-, rfl⟩ := hframe
      exact Or.inl hactive
    | claimRequest =>
      simp only [hroute, Except.ok.injEq] at hframe
      have hsame : n₁.claimer = n.claimer := by
        rw [← actOnClaim_claimer n (.announce n.claimer.currentClaim), hframe]
      rw [hsame] at hactive
      exact Or.inl hactive
    | connection cm =>
      simp only [hroute, Except.ok.injEq, Prod.mk.injEq] at hframe
      obtain ⟨-, rfl⟩ := hframe
      exact Or.inl hactive
    | data dt =>
      simp only [hroute, bind_eq_ok, Prod.exists, Except.ok.injEq, Prod.mk.injEq] at hframe
      obtain ⟨rx, r', -, -, rfl⟩ := hframe
      exact Or.inl hactive
    | addressClaimed name =>
      simp only [hroute, Except.ok.injEq] at hframe
      exact announces_of_addressClaimed hframe hactive

/-! ## §5. Whole runs. -/

/-- **A node that holds an address has announced one.** -/
theorem announced {name : Name} {preferred : Address} {tr : List (Entry BUF SESSIONS)}
    (h : Machine.Trace Node.step (new name preferred) tr n) (hactive : n.claimer.isActive = true) :
    ∃ a ∈ tr, announces a.out := by
  induction h with
  | nil => cases hactive
  | @snoc tr s s' e o _ hstep ih =>
    rcases announces_of_active hstep hactive with hbefore | hnow
    · obtain ⟨a, ha, hann⟩ := ih hbefore
      exact ⟨a, List.mem_append_left _ ha, hann⟩
    · exact ⟨_, List.mem_append_right _ (List.mem_singleton_self _), hnow⟩

/-- **A node without an address is silent exactly as long as nothing makes
it speak.** -/
theorem silent_iff (name : Name) (preferred : Address) (inputs : List Input) :
    ∃ tr, ∃ n : Node BUF SESSIONS, Machine.run step (new name preferred) inputs = .ok (tr, n)
      ∧ (Silent tr ↔ ∀ e ∈ tr, speaks e.before e.event = false) := by
  have h₀ : (new name preferred : Node BUF SESSIONS).WF := wf_new name preferred
  obtain ⟨tr, n, hrun, -⟩ := run_ok h₀ inputs
  refine ⟨tr, n, hrun, fun h e he => ?_, fun h => ⟨fun e he hi => ?_, ?_⟩⟩
  · obtain ⟨pre, post, htr⟩ := List.append_of_mem he
    obtain ⟨-, hwf, hstep⟩ := entry_of_run h₀ hrun htr
    by_cases hi : e.event.isTraffic = true
    · exact (allowed_iff hwf hstep hi).mp (h.traffic e he hi)
    · -- the application's own calls never count
      cases hev : e.event with
      | frame | tick => simp [hev, Input.isTraffic] at hi
      | start | commandedAddress | giveUpAddress => rfl
  · obtain ⟨pre, post, htr⟩ := List.append_of_mem he
    obtain ⟨-, hwf, hstep⟩ := entry_of_run h₀ hrun htr
    exact (allowed_iff hwf hstep hi).mpr (h e he)
  · intro pre e post f htr hf hpgn
    obtain ⟨hpre, hwf, hstep⟩ := entry_of_run h₀ hrun htr
    have hspeaks := h e (by simp [htr])
    rcases emitted_cases hwf hstep hf with ⟨source, name, rfl⟩ | ⟨hi, -, hsrc⟩
    · rw [pgn_addressClaimFrame] at hpgn
      cases hpgn
    · -- only the holder of an address may send connection management
      have hactive : e.before.claimer.isActive = true := by
        have hallowed := (allowed_iff hwf hstep hi).mpr hspeaks
        cases hs : e.before.claimer.state with
        | claiming | claimed => simp [AddressClaimer.isActive, hs]
        | idle =>
          simp only [claimState, hs, Allowed] at hallowed
          rw [hallowed] at hf
          cases hf
        | cannotClaim =>
          simp only [claimState, hs, Allowed] at hallowed
          have hclaimed := (hallowed f hf).1
          rw [hpgn] at hclaimed
          cases hclaimed
      have hspecific := hwf.claimer.active hactive
      rw [hsrc]
      exact ⟨Address.ne_null_of_isSpecific hspecific, Address.ne_global_of_isSpecific hspecific,
        announced hpre hactive⟩

/-- A node that gave up its address sends an abort from the null address
when the session it had opened runs out of time. -/
theorem abort_from_null_address :
    ∃ tr, ∃ n : Node 16 1,
      Machine.run step (new ⟨1⟩ ⟨0x80⟩) [.start, .tick 250,
          .frame (Frame.fromPayload ⟨0x1CEC8010, by decide⟩ (TpCm.rts 9 2 0xFF .dm1).encode),
          .giveUpAddress, .tick 1000] = .ok (tr, n)
        ∧ (∃ e ∈ tr, e.before.claimState = .cannotClaim
            ∧ e.out = .frames (tpCmFrame Address.null ⟨0x10⟩ (.abort .timeout .dm1)).toList)
        ∧ ¬ Silent tr := by
  obtain ⟨tr, n, hrun, -⟩ := run_ok (wf_new ⟨1⟩ ⟨0x80⟩ : (new ⟨1⟩ ⟨0x80⟩ : Node 16 1).WF)
    [.start, .tick 250,
      .frame (Frame.fromPayload ⟨0x1CEC8010, by decide⟩ (TpCm.rts 9 2 0xFF .dm1).encode),
      .giveUpAddress, .tick 1000]
  have hlast : (Machine.run step (new ⟨1⟩ ⟨0x80⟩ : Node 16 1) [.start, .tick 250,
      .frame (Frame.fromPayload ⟨0x1CEC8010, by decide⟩ (TpCm.rts 9 2 0xFF .dm1).encode),
      .giveUpAddress, .tick 1000]).map (fun x => x.1.getLast?.map fun e =>
        (e.event, e.before.claimState, e.out))
      = .ok (some (.tick 1000, .cannotClaim,
          .frames (tpCmFrame Address.null ⟨0x10⟩ (.abort .timeout .dm1)).toList)) := by
    decide +kernel
  rw [hrun] at hlast
  simp only [Except.map, Except.ok.injEq, Option.map_eq_some_iff, Prod.mk.injEq] at hlast
  obtain ⟨e, he, hev, hstate, hout⟩ := hlast
  have hmem := List.mem_of_getLast? he
  refine ⟨tr, n, hrun, ⟨e, hmem, hstate, hout⟩, fun h => ?_⟩
  obtain ⟨f, hf, hpgn, -⟩ := tpCmFrame_eq Address.null ⟨0x10⟩ (.abort .timeout .dm1)
  have hallowed := h.traffic e hmem (by rw [hev]; rfl)
  rw [hstate, hout, hf] at hallowed
  have hclaimed := (hallowed f (List.mem_singleton_self f)).1
  rw [hpgn] at hclaimed
  cases hclaimed

end Node

end SaeJ1939
