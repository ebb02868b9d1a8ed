/-
  SaeJ1939.Node.Node — a whole ECU: address claiming, reassembly and
  dispatch (`node.rs`, `Node`).

  A node is an address claimer, a reassembler and a timer.  Its methods
  return what they put out with the node they leave behind; only
  `onFrame` reaches code that could panic.

  Main results:
    * `onFrame_eq` — what a frame does depends only on its `Route`.
    * `step_spec` — every input returns, keeps the invariant `Node.WF`,
      and drives the reassembler by the call `callOf` names, if any.
    * `run_ok` — no run of inputs panics.
-/
import SaeJ1939.Core.AddressClaim
import SaeJ1939.Core.Request
import SaeJ1939.Tp.Lifetime

namespace SaeJ1939

open Checked AddressClaim Tp

/-- How long other ECUs have to contest an address claim, in ms. -/
def addressClaimWindowMs : Nat := 250

/-! ## §1. Frames a node puts out. -/

/-- The Address Claimed broadcast for `name` from `source`. -/
def addressClaimFrame (source : Address) (name : Name) : Frame :=
  Frame.fromPayload (Id.broadcast .default .addressClaimed source) name.toBytes

/-- A TP.CM frame from `source` to `destination`. -/
def tpCmFrame (source destination : Address) (cm : TpCm) : Option Frame :=
  match Id.fromParts .lowest .tpCm destination source with
  | .ok id => some (Frame.fromPayload id cm.encode)
  | .error _ => none

/-- What a node wants after handling a frame. -/
inductive Event where
  /-- Nothing to do. -/
  | idle
  /-- Put this frame on the bus. -/
  | transmit (frame : Frame)
  /-- A complete message arrived; transmit the reply if there is one. -/
  | message (pgn : Pgn) (source : Address) (data : List UInt8) (reply : Option Frame)
  deriving DecidableEq

/-- One node: a NAME, an address, and the machinery to keep them. -/
structure Node (BUF SESSIONS : Nat) where
  claimer : AddressClaimer
  reassembler : Reassembler BUF SESSIONS
  /-- Milliseconds since the current claim was broadcast. -/
  claimElapsedMs : Nat

namespace Node

variable {BUF SESSIONS : Nat}

/-! ## §2. The methods. -/

/-- A node that will try to claim `preferred`. -/
def new (name : Name) (preferred : Address) : Node BUF SESSIONS :=
  ⟨AddressClaimer.new name preferred, Reassembler.new, 0⟩

def address (n : Node BUF SESSIONS) : Address := n.claimer.address

def claimState (n : Node BUF SESSIONS) : ClaimState := n.claimer.state

/-- Whether the address is claimed and may be used. -/
def hasAddress (n : Node BUF SESSIONS) : Bool := n.claimState == .claimed

/-- Broadcast the initial address claim. -/
def start (n : Node BUF SESSIONS) : Frame × Node BUF SESSIONS :=
  let (claim, claimer) := n.claimer.claim
  (addressClaimFrame claim.source claim.name, { n with claimer, claimElapsedMs := 0 })

/-- Advance the node's timers, returning the frames that have to go out. -/
def tick (n : Node BUF SESSIONS) (elapsedMs : Nat) : List Frame × Node BUF SESSIONS :=
  let n :=
    if n.claimer.state == .claiming then
      let n := { n with claimElapsedMs := saturatingAdd 16 n.claimElapsedMs elapsedMs }
      if n.claimElapsedMs ≥ addressClaimWindowMs then
        { n with claimer := n.claimer.contentionWindowElapsed }
      else n
    else n
  let source := n.claimer.address
  let (timeouts, reassembler) := n.reassembler.tick elapsedMs
  (timeouts.filterMap fun (peer, abort) => abort.bind (tpCmFrame source peer),
    { n with reassembler })

/-- Turn a claim outcome into an event; a fresh claim reopens the
contention window. -/
def actOnClaim (n : Node BUF SESSIONS) : ClaimAction → Event × Node BUF SESSIONS
  | .idle => (.idle, n)
  | .announce claim =>
      let n := if n.claimer.state == .claiming then { n with claimElapsedMs := 0 } else n
      (.transmit (addressClaimFrame claim.source claim.name), n)

/-- Turn a reassembler outcome into an event, building any frame it asked
to have sent. -/
def lift (outcome : Rx) (address peer : Address) : Event :=
  match outcome with
  | .idle => .idle
  | .send cm =>
      match tpCmFrame address peer cm with
      | some frame => .transmit frame
      | none => .idle
  | .message pgn source data ack =>
      .message pgn source data (ack.bind fun cm => tpCmFrame address peer cm)

/-- Handle one frame off the bus. -/
def onFrame (n : Node BUF SESSIONS) (frame : Frame) : Exec (Event × Node BUF SESSIONS) :=
  let id := frame.id
  let source := id.sourceAddress
  let group := id.pgn
  if !id.isAddressedTo n.claimer.address then .ok (.idle, n)
  else if group = .addressClaimed then
    let (action, claimer) := n.claimer.onAddressClaimed source (Name.fromBytes frame.payload)
    .ok ({ n with claimer }.actOnClaim action)
  else if group = .request ∧ Request.decode frame.data = .ok ⟨.addressClaimed⟩ then
    -- a request for our NAME is ours to answer
    let (action, claimer) := n.claimer.onRequest
    .ok ({ n with claimer }.actOnClaim action)
  else if group = .tpCm then
    match TpCm.decode frame.payload with
    | .ok cm =>
        match cm, id.isBroadcast with
        | .rts .., true =>
            -- every ECU that answered a broadcast RTS would put a CTS on the bus
            .ok (.idle, n)
        | cm, _ =>
            let (outcome, reassembler) := n.reassembler.onTpCm source cm
            .ok (lift outcome n.claimer.address source, { n with reassembler })
    -- a malformed connection-management frame is not worth aborting over
    | .error _ => .ok (.idle, n)
  else if group = .tpDt then do
    let (outcome, reassembler) ← n.reassembler.onTpDt source (TpDt.decode frame.payload)
    return (lift outcome n.claimer.address source, { n with reassembler })
  else .ok (.message group source frame.data none, n)

/-- Act on a Commanded Address message. -/
def onCommandedAddress (n : Node BUF SESSIONS) (data : List UInt8) :
    Result (Option Frame) × Node BUF SESSIONS :=
  match n.claimer.onCommandedAddress data with
  | (.error e, claimer) => (.error e, { n with claimer })
  | (.ok (.announce claim), claimer) =>
      (.ok (some (addressClaimFrame claim.source claim.name)),
        { n with claimer, claimElapsedMs := 0 })
  | (.ok .idle, claimer) => (.ok none, { n with claimer })

/-- Give up this node's address. -/
def giveUpAddress (n : Node BUF SESSIONS) : Frame × Node BUF SESSIONS :=
  let (claim, claimer) := n.claimer.giveUp
  (addressClaimFrame claim.source claim.name, { n with claimer })

/-! ## §3. The node as a machine. -/

/-- A call on a node. -/
inductive Input where
  | frame (frame : Frame)
  | tick (elapsedMs : Nat)
  | start
  | commandedAddress (data : List UInt8)
  | giveUpAddress
  deriving DecidableEq

/-- What a call returns. -/
inductive Output where
  | event (event : Event)
  | frames (frames : List Frame)
  | claim (frame : Frame)
  | command (result : Result (Option Frame))
  deriving DecidableEq

/-- One call. -/
def step : Machine.Step (Node BUF SESSIONS) Input Output
  | n, .frame frame => do
      let (event, n) ← n.onFrame frame
      return (.event event, n)
  | n, .tick elapsedMs => .ok (.frames (n.tick elapsedMs).1, (n.tick elapsedMs).2)
  | n, .start => .ok (.claim n.start.1, n.start.2)
  | n, .commandedAddress data =>
      .ok (.command (n.onCommandedAddress data).1, (n.onCommandedAddress data).2)
  | n, .giveUpAddress => .ok (.claim n.giveUpAddress.1, n.giveUpAddress.2)

/-- One call of a run. -/
abbrev Entry (BUF SESSIONS : Nat) := Machine.Entry (Node BUF SESSIONS) Input Output

/-! ## §4. Dispatch. -/

/-- Where a frame goes. -/
inductive Route where
  /-- Not for this node, or not worth acting on. -/
  | ignore
  /-- To the claimer: another ECU's claim. -/
  | addressClaimed (name : Name)
  /-- To the claimer: somebody asks for our claim. -/
  | claimRequest
  /-- To the reassembler: connection management. -/
  | connection (cm : TpCm)
  /-- To the reassembler: a data packet. -/
  | data (dt : TpDt)
  /-- To the application. -/
  | application
  deriving DecidableEq

/-- Whether a connection-management message is one the node drops: an RTS
to everybody. -/
def isBroadcastRts (frame : Frame) : TpCm → Bool
  | .rts .. => frame.id.isBroadcast
  | _ => false

/-- Where the node sends a frame. -/
def route (n : Node BUF SESSIONS) (frame : Frame) : Route :=
  if !frame.id.isAddressedTo n.claimer.address then .ignore
  else if frame.id.pgn = .addressClaimed then .addressClaimed (Name.fromBytes frame.payload)
  else if frame.id.pgn = .request ∧ Request.decode frame.data = .ok ⟨.addressClaimed⟩ then .claimRequest
  else if frame.id.pgn = .tpCm then
    match TpCm.decode frame.payload with
    | .ok cm => if isBroadcastRts frame cm then .ignore else .connection cm
    | .error _ => .ignore
  else if frame.id.pgn = .tpDt then .data (TpDt.decode frame.payload)
  else .application

/-- **What a frame does depends only on its route.** -/
theorem onFrame_eq (n : Node BUF SESSIONS) (frame : Frame) :
    n.onFrame frame = match n.route frame with
      | .ignore => .ok (.idle, n)
      | .addressClaimed name =>
          .ok ({ n with claimer := (n.claimer.onAddressClaimed frame.sourceAddress name).2 }.actOnClaim
            (n.claimer.onAddressClaimed frame.sourceAddress name).1)
      | .claimRequest => .ok (n.actOnClaim (.announce n.claimer.currentClaim))
      | .connection cm =>
          .ok (lift (n.reassembler.onTpCm frame.sourceAddress cm).1 n.address frame.sourceAddress,
            { n with reassembler := (n.reassembler.onTpCm frame.sourceAddress cm).2 })
      | .data dt => do
          let (outcome, reassembler) ← n.reassembler.onTpDt frame.sourceAddress dt
          return (lift outcome n.address frame.sourceAddress, { n with reassembler })
      | .application => .ok (.message frame.pgn frame.sourceAddress frame.data none, n) := by
  unfold onFrame route
  by_cases h₁ : (!frame.id.isAddressedTo n.claimer.address) = true
  · simp only [if_pos h₁]
  simp only [if_neg h₁]
  by_cases h₂ : frame.id.pgn = Pgn.addressClaimed
  · simp only [if_pos h₂, Frame.sourceAddress]
  simp only [if_neg h₂]
  by_cases h₃ : frame.id.pgn = Pgn.request
      ∧ Request.decode frame.data = .ok ⟨.addressClaimed⟩
  · simp only [if_pos h₃]
    rfl
  simp only [if_neg h₃]
  by_cases h₄ : frame.id.pgn = Pgn.tpCm
  · simp only [if_pos h₄]
    cases TpCm.decode frame.payload with
    | error e => rfl
    | ok cm =>
      cases cm with
      | rts size packets maxPacketsPerCts pgn =>
        -- only the RTS looks at the destination
        cases hb : frame.id.isBroadcast <;>
          simp [isBroadcastRts, hb, Frame.sourceAddress, address]
      | cts | endOfMsgAck | bam | abort =>
        simp [isBroadcastRts, Frame.sourceAddress, address]
  simp only [if_neg h₄]
  by_cases h₅ : frame.id.pgn = Pgn.tpDt
  · simp only [if_pos h₅]
    rfl
  simp only [if_neg h₅]
  rfl

variable {n : Node BUF SESSIONS} {f : Frame}

/-- Connection management for the node goes to the reassembler. -/
theorem route_connection {cm : TpCm} (haddr : f.id.isAddressedTo n.address = true)
    (hpgn : f.pgn = .tpCm) (hdecode : TpCm.decode f.payload = .ok cm)
    (hrts : isBroadcastRts f cm = false) : n.route f = .connection cm := by
  have hid : f.id.pgn = .tpCm := hpgn
  have h₁ : Pgn.tpCm ≠ Pgn.addressClaimed := by decide
  have h₂ : Pgn.tpCm ≠ Pgn.request := by decide
  unfold address at haddr
  simp only [route, haddr, Bool.not_true, Bool.false_eq_true, if_false, hid, h₁, h₂, false_and,
    if_true, hdecode, hrts]

/-- A data packet for the node goes to the reassembler. -/
theorem route_data (haddr : f.id.isAddressedTo n.address = true) (hpgn : f.pgn = .tpDt) :
    n.route f = .data (TpDt.decode f.payload) := by
  have hid : f.id.pgn = .tpDt := hpgn
  have h₁ : Pgn.tpDt ≠ Pgn.addressClaimed := by decide
  have h₂ : Pgn.tpDt ≠ Pgn.request := by decide
  have h₃ : Pgn.tpDt ≠ Pgn.tpCm := by decide
  unfold address at haddr
  simp only [route, haddr, Bool.not_true, Bool.false_eq_true, if_false, hid, h₁, h₂, h₃, false_and,
    if_true]

/-- An RTS to everybody is dropped. -/
theorem route_broadcastRts {size packets maxPacketsPerCts : Nat} {pgn : Pgn} (hpgn : f.pgn = .tpCm)
    (hdecode : TpCm.decode f.payload = .ok (.rts size packets maxPacketsPerCts pgn))
    (hb : f.id.isBroadcast = true) : n.route f = .ignore := by
  have hid : f.id.pgn = .tpCm := hpgn
  have h₁ : Pgn.tpCm ≠ Pgn.addressClaimed := by decide
  have h₂ : Pgn.tpCm ≠ Pgn.request := by decide
  unfold route
  split
  · rfl
  · simp only [hid, h₁, h₂, false_and, if_false, if_true, hdecode, isBroadcastRts, hb]

/-- Only a data packet goes where data packets go. -/
theorem pgn_of_route_data {dt : TpDt} (h : n.route f = .data dt) : f.pgn = .tpDt := by
  unfold route at h
  split at h
  · cases h
  split at h
  · cases h
  split at h
  · cases h
  split at h
  · split at h
    · split at h <;> cases h
    · cases h
  split at h
  · assumption
  · cases h

/-- Only connection management that makes sense goes where it goes. -/
theorem of_route_connection {cm : TpCm} (h : n.route f = .connection cm) :
    f.pgn = .tpCm ∧ TpCm.decode f.payload = .ok cm := by
  unfold route at h
  split at h
  · cases h
  split at h
  · cases h
  split at h
  · cases h
  split at h
  next hcm =>
    split at h
    next cm' hdecode =>
      split at h
      next => cases h
      next =>
        injection h with heq
        rw [heq] at hdecode
        exact ⟨hcm, hdecode⟩
    next => cases h
  next => split at h <;> cases h

/-- An RTS that is handed on was not sent to everybody. -/
theorem not_isBroadcast_of_route {size packets maxPacketsPerCts : Nat} {pgn : Pgn}
    (h : n.route f = .connection (.rts size packets maxPacketsPerCts pgn)) :
    f.id.isBroadcast = false := by
  unfold route at h
  split at h
  · cases h
  split at h
  · cases h
  split at h
  · cases h
  split at h
  · split at h
    next cm _ =>
      split at h
      next => cases h
      next hrts =>
        injection h with hcm
        rw [hcm] at hrts
        exact Bool.eq_false_iff.mpr hrts
    next => cases h
  split at h <;> cases h

/-- What the node does not consume itself goes to the application. -/
theorem route_application (haddr : f.id.isAddressedTo n.address = true)
    (hclaim : f.pgn ≠ .addressClaimed) (hcm : f.pgn ≠ .tpCm) (hdt : f.pgn ≠ .tpDt)
    (hrequest : ¬ (f.pgn = .request ∧ Request.decode f.data = .ok ⟨.addressClaimed⟩)) :
    n.route f = .application := by
  unfold Frame.pgn at hclaim hcm hdt hrequest
  unfold address at haddr
  simp only [route, haddr, Bool.not_true, Bool.false_eq_true, if_false, hclaim, hrequest, hcm, hdt]

/-! ## §5. What one call does. -/

/-- The claimer holds a specific address while it is claiming or holding
one, and the null address once it cannot claim. -/
structure ClaimerWF (c : AddressClaimer) : Prop where
  active : c.isActive = true → c.address.isSpecific = true
  silent : c.state = .cannotClaim → c.address = Address.null

/-- The invariant of a node. -/
structure WF (n : Node BUF SESSIONS) : Prop where
  claimer : ClaimerWF n.claimer
  receiver : n.reassembler.WF

theorem claimerWF_new (name : Name) (preferred : Address) :
    ClaimerWF (AddressClaimer.new name preferred) :=
  ⟨fun h => (by cases h), fun h => (by cases h)⟩

theorem wf_new (name : Name) (preferred : Address) : (new name preferred : Node BUF SESSIONS).WF :=
  ⟨claimerWF_new name preferred, Reassembler.wf_new⟩

theorem claimerWF_giveUp (c : AddressClaimer) : ClaimerWF c.giveUp.2 :=
  ⟨fun h => (by cases h), fun _ => rfl⟩

theorem claimerWF_claiming {c : AddressClaimer} {a : Address} (h : a.isSpecific = true) :
    ClaimerWF { c with address := a, state := .claiming } :=
  ⟨fun _ => h, fun h => by cases h⟩

theorem claimerWF_heard {c : AddressClaimer} (h : ClaimerWF c) (a : Address) :
    ClaimerWF (c.heard a) := by
  refine ⟨fun ha => ?_, fun hs => ?_⟩
  · rw [AddressClaimer.heard_isActive] at ha
    rw [AddressClaimer.heard_address]
    exact h.active ha
  · rw [AddressClaimer.heard_state] at hs
    rw [AddressClaimer.heard_address]
    exact h.silent hs

theorem isSpecific_of_nextFreeAddress {c : AddressClaimer} {a : Address}
    (h : c.nextFreeAddress = some a) : a.isSpecific = true := by
  have hmem := List.mem_of_find?_eq_some h
  obtain ⟨k, hk, rfl⟩ := List.mem_map.mp hmem
  unfold AddressClaimer.nextFreeAddress at h
  simp only [List.mem_range'_1, dynamicAddressStart, dynamicAddressEnd] at hk
  show decide ((Address.ofNat k).asU8 < 0xFE) = true
  rw [Address.asU8_ofNat, decide_eq_true_eq]
  omega

theorem claimerWF_onAddressClaimed {c : AddressClaimer} (h : ClaimerWF c) (source : Address)
    (name : Name) : ClaimerWF (c.onAddressClaimed source name).2 := by
  rcases c.onAddressClaimed_cases source name with
    ⟨-, heq⟩ | ⟨-, -, heq⟩ | ⟨-, -, -, -, heq⟩ | ⟨-, -, -, -, next, hnext, -, heq⟩
    | ⟨-, -, -, -, -, heq⟩ <;> rw [heq]
  · exact h
  · exact claimerWF_heard h source
  · exact claimerWF_heard h source
  · exact claimerWF_claiming (isSpecific_of_nextFreeAddress hnext)
  · exact claimerWF_giveUp _

theorem claimerWF_onCommandedAddress {c : AddressClaimer} (h : ClaimerWF c) (data : List UInt8) :
    ClaimerWF (c.onCommandedAddress data).2 := by
  rcases c.onCommandedAddress_cases data with ⟨heq, -⟩ | ⟨heq, -⟩ | ⟨a, ha, heq⟩ <;> rw [heq]
  · exact h
  · exact h
  · exact claimerWF_claiming ha

theorem claimerWF_claim {c : AddressClaimer} : ClaimerWF c.claim.2 := by
  rcases c.claim_cases with ⟨-, heq⟩ | ⟨hs, heq⟩ <;> rw [heq]
  · exact claimerWF_giveUp c
  · exact claimerWF_claiming hs

theorem claimerWF_contentionWindowElapsed {c : AddressClaimer} (h : ClaimerWF c) :
    ClaimerWF c.contentionWindowElapsed := by
  unfold AddressClaimer.contentionWindowElapsed
  split
  next hs =>
    -- a claim that was not contested is held
    have hactive : c.isActive = true := by
      rw [AddressClaimer.isActive, hs, Bool.true_or]
    exact ⟨fun _ => h.active hactive, fun h => by cases h⟩
  next => exact h

@[simp] theorem actOnClaim_claimer (n : Node BUF SESSIONS) (action : ClaimAction) :
    (n.actOnClaim action).2.claimer = n.claimer := by
  cases action with
  | idle => rfl
  | announce claim =>
    unfold actOnClaim
    dsimp only
    split <;> rfl

@[simp] theorem actOnClaim_reassembler (n : Node BUF SESSIONS) (action : ClaimAction) :
    (n.actOnClaim action).2.reassembler = n.reassembler := by
  cases action with
  | idle => rfl
  | announce claim =>
    unfold actOnClaim
    dsimp only
    split <;> rfl

/-- The claimer after a tick: its contention window may have closed. -/
theorem tick_claimer (n : Node BUF SESSIONS) (elapsedMs : Nat) :
    (n.tick elapsedMs).2.claimer = n.claimer
      ∨ (n.tick elapsedMs).2.claimer = n.claimer.contentionWindowElapsed := by
  unfold tick
  dsimp only
  split
  · split
    · exact Or.inr rfl
    · exact Or.inl rfl
  · exact Or.inl rfl

/-- A tick leaves the address alone. -/
theorem tick_eq (n : Node BUF SESSIONS) (elapsedMs : Nat) :
    (n.tick elapsedMs).1 = (n.reassembler.tick elapsedMs).1.filterMap
        (fun x => x.2.bind (tpCmFrame n.address x.1))
      ∧ (n.tick elapsedMs).2.reassembler = (n.reassembler.tick elapsedMs).2 := by
  have haddr : n.claimer.contentionWindowElapsed.address = n.claimer.address := by
    unfold AddressClaimer.contentionWindowElapsed
    split <;> rfl
  unfold tick
  dsimp only
  split
  · split
    · dsimp only
      rw [haddr]
      exact ⟨rfl, rfl⟩
    · exact ⟨rfl, rfl⟩
  · exact ⟨rfl, rfl⟩

/-- A commanded address is between the command and the claimer. -/
theorem onCommandedAddress_eq (n : Node BUF SESSIONS) (data : List UInt8) :
    (n.onCommandedAddress data).2.claimer = (n.claimer.onCommandedAddress data).2
      ∧ (n.onCommandedAddress data).2.reassembler = n.reassembler := by
  unfold onCommandedAddress
  rcases n.claimer.onCommandedAddress data with ⟨_ | _ | _, claimer⟩ <;> exact ⟨rfl, rfl⟩

/-- **Connection management acts on the transfer of its sender**, and on
nothing else. -/
theorem onFrame_connection {cm : TpCm} (h : n.WF) (hroute : n.route f = .connection cm) :
    ∃ n', n.onFrame f = .ok (lift (Transfer.onCm BUF (n.reassembler.room f.sourceAddress)
          f.sourceAddress (n.reassembler.transferOf f.sourceAddress) cm).1 n.address
          f.sourceAddress, n')
      ∧ n'.WF ∧ n'.claimer = n.claimer
      ∧ Reassembler.Focused n.reassembler n'.reassembler f.sourceAddress
          (Transfer.onCm BUF (n.reassembler.room f.sourceAddress) f.sourceAddress
            (n.reassembler.transferOf f.sourceAddress) cm).2 := by
  obtain ⟨hreply, hfocus⟩ := Reassembler.onTpCm_refines h.receiver f.sourceAddress cm
  refine ⟨{ n with reassembler := (n.reassembler.onTpCm f.sourceAddress cm).2 }, ?_,
    ⟨h.claimer, hfocus.wf⟩, rfl, hfocus⟩
  rw [onFrame_eq, hroute]
  simp only [hreply]

/-- **A data packet acts on the transfer of its sender**, and on nothing
else. -/
theorem onFrame_data {dt : TpDt} (h : n.WF) (hroute : n.route f = .data dt) :
    ∃ n', n.onFrame f = .ok (lift
          (Transfer.onDt (n.reassembler.transferOf f.sourceAddress) dt).1 n.address
          f.sourceAddress, n')
      ∧ n'.WF ∧ n'.claimer = n.claimer
      ∧ Reassembler.Focused n.reassembler n'.reassembler f.sourceAddress
          (Transfer.onDt (n.reassembler.transferOf f.sourceAddress) dt).2 := by
  obtain ⟨r', hok, hfocus⟩ := Reassembler.onTpDt_refines h.receiver f.sourceAddress dt
  refine ⟨{ n with reassembler := r' }, ?_, ⟨h.claimer, hfocus.wf⟩, rfl, hfocus⟩
  rw [onFrame_eq, hroute]
  simp only [hok, ok_bind, pure_eq_ok]

/-- The call an input makes on the reassembler. -/
def callOf (n : Node BUF SESSIONS) : Input → Option Reassembler.Call
  | .frame f =>
      match n.route f with
      | .connection cm => some (.tpCm f.sourceAddress cm)
      | .data dt => some (.tpDt f.sourceAddress dt)
      | _ => none
  | .tick elapsedMs => some (.tick elapsedMs t1TimeoutMs)
  | _ => none

/-- What the node puts out when its reassembler answers. -/
def outputOf (n : Node BUF SESSIONS) : Input → Reassembler.Reply → Output
  | .frame f, .rx rx => .event (lift rx n.address f.sourceAddress)
  | .tick _, .timeouts timeouts =>
      .frames (timeouts.filterMap fun x => x.2.bind (tpCmFrame n.address x.1))
  | _, _ => .event .idle

/-- **What one input does**: it returns, keeps the invariant, and makes at
most one call on the reassembler, whose answer it passes on. -/
theorem step_spec (h : n.WF) (i : Input) :
    ∃ out n', step n i = .ok (out, n') ∧ n'.WF ∧
      match n.callOf i with
      | none => n'.reassembler = n.reassembler
      | some c => ∃ reply, Reassembler.step n.reassembler c = .ok (reply, n'.reassembler)
          ∧ out = n.outputOf i reply ∧ (∀ f, i = .frame f → n'.claimer = n.claimer) := by
  cases i with
  | frame f =>
    simp only [step, onFrame_eq, callOf]
    cases hroute : n.route f with
    | ignore => exact ⟨_, n, rfl, h, rfl⟩
    | addressClaimed name =>
      refine ⟨_, _, rfl, ⟨?_, ?_⟩, ?_⟩
      · rw [actOnClaim_claimer]
        exact claimerWF_onAddressClaimed h.claimer _ _
      · rw [actOnClaim_reassembler]
        exact h.receiver
      · exact actOnClaim_reassembler _ _
    | claimRequest =>
      refine ⟨_, _, rfl, ⟨?_, ?_⟩, ?_⟩
      · rw [actOnClaim_claimer]
        exact h.claimer
      · rw [actOnClaim_reassembler]
        exact h.receiver
      · exact actOnClaim_reassembler _ _
    | connection cm =>
      have hr := (Reassembler.onTpCm_refines h.receiver f.sourceAddress cm).2.wf
      exact ⟨_, _, rfl, ⟨h.claimer, hr⟩, _, rfl, rfl, fun _ _ => rfl⟩
    | data dt =>
      obtain ⟨r', hok, hfocus⟩ := Reassembler.onTpDt_refines h.receiver f.sourceAddress dt
      simp only [hok, ok_bind, pure_eq_ok]
      refine ⟨_, _, rfl, ⟨h.claimer, hfocus.wf⟩, ?_⟩
      refine ⟨.rx (Transfer.onDt (n.reassembler.transferOf f.sourceAddress) dt).1, ?_, rfl,
        fun _ _ => rfl⟩
      simp only [Reassembler.step, hok, ok_bind, pure_eq_ok]
    | application => exact ⟨_, n, rfl, h, rfl⟩
  | tick elapsedMs =>
    obtain ⟨hout, hreceiver⟩ := tick_eq n elapsedMs
    refine ⟨_, _, rfl, ⟨?_, ?_⟩, .timeouts (n.reassembler.tick elapsedMs).1, ?_, ?_,
      fun f hf => by cases hf⟩
    · rcases tick_claimer n elapsedMs with hc | hc <;> rw [hc]
      · exact h.claimer
      · exact claimerWF_contentionWindowElapsed h.claimer
    · rw [hreceiver]
      exact (Reassembler.tick_refines h.receiver elapsedMs t1TimeoutMs).1
    · rw [hreceiver]
      rfl
    · rw [hout]
      rfl
  | start => exact ⟨_, _, rfl, ⟨claimerWF_claim, h.receiver⟩, rfl⟩
  | commandedAddress data =>
    obtain ⟨hclaimer, hreceiver⟩ := onCommandedAddress_eq n data
    refine ⟨_, _, rfl, ⟨?_, ?_⟩, hreceiver⟩
    · rw [hclaimer]
      exact claimerWF_onCommandedAddress h.claimer data
    · rw [hreceiver]
      exact h.receiver
  | giveUpAddress => exact ⟨_, _, rfl, ⟨claimerWF_giveUp _, h.receiver⟩, rfl⟩

/-- A frame panics in no well-formed node. -/
theorem onFrame_total (h : n.WF) (f : Frame) : ∃ event n', n.onFrame f = .ok (event, n') := by
  obtain ⟨out, n', hstep, -⟩ := step_spec h (.frame f)
  unfold step at hstep
  dsimp only at hstep
  cases hcall : n.onFrame f with
  | ok x => exact ⟨x.1, x.2, rfl⟩
  | error p =>
    rw [hcall] at hstep
    cases hstep

/-! ## §6. Whole runs. -/

variable {n' : Node BUF SESSIONS} {i : Input} {out : Output}

/-- `step_spec`, read off a call that returned. -/
theorem WF.step (h : n.WF) (hstep : step n i = .ok (out, n')) : n'.WF ∧
    match n.callOf i with
    | none => n'.reassembler = n.reassembler
    | some c => ∃ reply, Reassembler.step n.reassembler c = .ok (reply, n'.reassembler)
        ∧ out = n.outputOf i reply ∧ (∀ f, i = .frame f → n'.claimer = n.claimer) := by
  obtain ⟨out', n'', hstep', hspec⟩ := step_spec h i
  rw [hstep] at hstep'
  injection hstep' with hstep'
  injection hstep' with h₁ h₂
  subst h₁ h₂
  exact hspec

/-- A state some run of calls leads to. -/
def Reachable (name : Name) (preferred : Address) (n : Node BUF SESSIONS) : Prop :=
  Machine.Reachable step (new name preferred) n

/-- **Every reachable node satisfies the invariant.** -/
theorem Reachable.wf {name : Name} {preferred : Address} (h : Reachable name preferred n) : n.WF :=
  Machine.Reachable.invariant (fun _ _ _ _ hs hstep => (hs.step hstep).1) (wf_new name preferred) h

/-- **No run of calls panics.** -/
theorem run_ok (h : n.WF) (is : List Input) :
    ∃ tr n', Machine.run Node.step n is = .ok (tr, n') ∧ n'.WF := by
  refine Machine.run_ok (fun s i hs => ?_) is h
  obtain ⟨out, n', hstep, hwf, -⟩ := step_spec hs i
  exact ⟨out, n', hstep, hwf⟩

/-- The state before an entry of a run, and the step taken from it. -/
theorem entry_of_run {tr pre post : List (Entry BUF SESSIONS)} {e : Entry BUF SESSIONS}
    {is : List Input} (h : n.WF) (hrun : Machine.run Node.step n is = .ok (tr, n'))
    (htr : tr = pre ++ e :: post) :
    Machine.Trace Node.step n pre e.before ∧ e.before.WF
      ∧ Node.step e.before e.event = .ok (e.out, e.after) := by
  subst htr
  obtain ⟨hpre, hstep⟩ := (Machine.run_trace hrun).1.split
  exact ⟨hpre, hpre.invariant (fun _ _ _ _ hs hstep => (hs.step hstep).1) h, hstep⟩

end Node

end SaeJ1939
