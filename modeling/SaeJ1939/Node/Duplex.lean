/-
  SaeJ1939.Node.Duplex — two nodes, each sending the other a long message
  (`node.rs`; `Peer` is the one of the tests in `multi_node.rs`).

  Frames arrive in order on either side, and a side offers each one first
  to its outgoing message and then to its node.  A frame from the peer may
  belong to either of the two transfers.

  Main results:
    * `OneWay` — the invariant of one transfer: in every phase, what both
      ends hold and which of its frames are on their way.
    * `Tracks.pull`, `Tracks.deliver` — every move takes one transfer to
      its next phase and leaves the other where it is.
    * `both_directions_complete` — every interleaving ends, after the same
      number of moves, with both messages delivered once.
-/
import SaeJ1939.Node.Addressed

namespace SaeJ1939

open Checked Tp

/-! ## §1. Two sides. -/

/-- One side: a node, and the message it sends. -/
structure Peer (BUF SESSIONS : Nat) where
  node : Node BUF SESSIONS
  outgoing : Outgoing
  /-- Every message delivered so far. -/
  received : List (Pgn × Address × List UInt8)

namespace Peer

variable {BUF SESSIONS : Nat}

/-- Pull every frame that is ready; a window has at most 255. -/
def pull (p : Peer BUF SESSIONS) : Exec (List Frame × Peer BUF SESSIONS) := do
  let (frames, outgoing) ← Outgoing.drain 256 p.outgoing
  return (frames, { p with outgoing })

/-- Handle a frame from the other side, and return the frames to send
back. -/
def handle (p : Peer BUF SESSIONS) (frame : Frame) : Exec (List Frame × Peer BUF SESSIONS) := do
  let (progress, outgoing) ← p.outgoing.onFrame frame
  let p := { p with outgoing }
  match progress with
  | .ready => p.pull
  | .complete | .aborted _ => return ([], p)
  -- not part of the outgoing message, so it is ordinary traffic
  | .idle => do
      let (event, node) ← p.node.onFrame frame
      let p := { p with node }
      match event with
      | .idle => return ([], p)
      | .transmit reply => return ([reply], p)
      | .message pgn source data reply =>
          return (reply.toList, { p with received := p.received ++ [(pgn, source, data)] })

end Peer

/-- Two sides and the frames on their way to each, in order. -/
structure Duplex (BUF SESSIONS : Bool → Nat) where
  peer : (side : Bool) → Peer (BUF side) (SESSIONS side)
  inbox : Bool → List Frame

/-- What happens next. -/
inductive Duplex.Move where
  /-- A side pulls the frames that are ready and sends them. -/
  | pull (side : Bool)
  /-- The next frame on its way to a side arrives. -/
  | deliver (side : Bool)
  deriving DecidableEq

namespace Duplex

variable {BUF SESSIONS : Bool → Nat}

/-- Both sides before anything is sent. -/
def initial (start : (side : Bool) → Node (BUF side) (SESSIONS side)) (outgoing : Bool → Outgoing) :
    Duplex BUF SESSIONS :=
  ⟨fun side => ⟨start side, outgoing side, []⟩, fun _ => []⟩

/-- A side has become `p`, with `rest` still on its way to it, and has sent
`frames`. -/
def after (d : Duplex BUF SESSIONS) (side : Bool) (p : Peer (BUF side) (SESSIONS side))
    (rest frames : List Frame) : Duplex BUF SESSIONS :=
  ⟨Function.update d.peer side p,
    Function.update (Function.update d.inbox side rest) (!side) (d.inbox (!side) ++ frames)⟩

/-- One move; it puts out the frames that are sent. -/
def step : Machine.Step (Duplex BUF SESSIONS) Move (List Frame)
  | d, .pull side => do
      let (frames, p) ← (d.peer side).pull
      return (frames, d.after side p (d.inbox side) frames)
  | d, .deliver side =>
      match d.inbox side with
      | [] => .ok ([], d)
      | frame :: rest => do
          let (frames, p) ← (d.peer side).handle frame
          return (frames, d.after side p rest frames)

/-- One move of a run. -/
abbrev Entry (BUF SESSIONS : Bool → Nat) := Machine.Entry (Duplex BUF SESSIONS) Move (List Frame)

/-- Whether a move did anything: a frame arrived, or frames were sent. -/
def effective (e : Entry BUF SESSIONS) : Bool :=
  match e.event with
  | .pull _ => !e.out.isEmpty
  | .deliver side => !(e.before.inbox side).isEmpty

/-- No move does anything any more. -/
def Ended (d : Duplex BUF SESSIONS) : Prop :=
  ∀ i out d', step d i = .ok (out, d') → effective ⟨d, i, out, d'⟩ = false

variable {d : Duplex BUF SESSIONS} {side : Bool} {p : Peer (BUF side) (SESSIONS side)}
  {rest frames : List Frame}

@[simp] theorem after_peer : (d.after side p rest frames).peer side = p :=
  Function.update_self ..

@[simp] theorem after_peer_not : (d.after side p rest frames).peer (!side) = d.peer (!side) :=
  Function.update_of_ne (Bool.not_ne_self side) ..

@[simp] theorem after_inbox : (d.after side p rest frames).inbox side = rest := by
  show Function.update (Function.update d.inbox side rest) (!side) _ side = rest
  rw [Function.update_of_ne (Bool.self_ne_not side), Function.update_self]

@[simp] theorem after_inbox_not :
    (d.after side p rest frames).inbox (!side) = d.inbox (!side) ++ frames :=
  Function.update_self ..

end Duplex

/-! ## §2. The phases of a transfer. -/

/-- Whether a frame goes from the sender of a transfer to its receiver: a
request to send, or a packet. -/
def Frame.isForward (f : Frame) : Bool := f.pgn == .tpDt || f.payload 0 == 0x10

/-- Whether a frame aborts a transfer. -/
def Frame.isAbort (f : Frame) : Bool :=
  f.pgn == .tpCm && match TpCm.decode f.payload with
    | .ok (.abort ..) => true
    | _ => false

/-- How far a transfer has come. -/
inductive Phase where
  /-- Nothing has been sent. -/
  | fresh
  /-- The request to send is on its way. -/
  | requested
  /-- The grant is on its way back. -/
  | granted
  /-- The first `k` packets have arrived, and the rest are on their way. -/
  | streaming (k : Nat)
  /-- The message was delivered; the acknowledgement is on its way back. -/
  | acknowledged
  /-- Both ends are through. -/
  | done
  deriving DecidableEq

namespace Phase

/-- The frames of the transfer on their way to its receiver. -/
def ahead (m : Sent) (destination : Address) : Phase → List Frame
  | requested => [m.request destination]
  | streaming k => (List.range' (k + 1) (m.packets - k)).map (m.packetTo destination)
  | fresh | granted | acknowledged | done => []

/-- The frames of the transfer on their way back to its sender. -/
def back (m : Sent) (destination : Address) : Phase → List Frame
  | granted => [m.grant destination]
  | acknowledged => [m.acknowledgement destination]
  | fresh | requested | streaming _ | done => []

/-- What the sender holds. -/
def Sender (m : Sent) (destination : Address) (o : Outgoing) : Phase → Prop
  | fresh => o.Sends m destination false 1 0 false
  | requested | granted => o.Sends m destination true 1 0 false
  | streaming _ | acknowledged => o.Sends m destination true (1 + m.packets) 0 false
  | done => o.Sends m destination true (1 + m.packets) 0 true

/-- What the receiver holds; it began as `r₀`. -/
def Receiver {BUF SESSIONS : Nat} (m : Sent) (r₀ : Reassembler BUF SESSIONS)
    (n : Node BUF SESSIONS) : Phase → Prop
  | fresh | requested => n.reassembler = r₀
  | granted => n.Receiving m 0
  | streaming k => k < m.packets ∧ n.Receiving m k
  | acknowledged | done => n.reassembler.transferOf m.source = none

/-- What has been delivered. -/
def delivered (m : Sent) : Phase → List (Pgn × Address × List UInt8)
  | fresh | requested | granted | streaming _ => []
  | acknowledged | done => [(m.pgn, m.source, m.data)]

/-- How many moves a transfer of `packets` packets still takes. -/
def remaining (packets : Nat) : Phase → Nat
  | fresh => packets + 4
  | requested => packets + 3
  | granted => packets + 2
  | streaming k => packets - k + 1
  | acknowledged => 1
  | done => 0

end Phase

/-- A transfer that has begun has no frames ready. -/
theorem Phase.Sender.closed {φ : Phase} {m : Sent} {destination : Address} {o : Outgoing}
    (h : φ.Sender m destination o) (hfresh : φ ≠ .fresh) : o.nextFrame = .ok (none, o) := by
  cases φ with
  | fresh => exact absurd rfl hfresh
  | requested | granted | streaming _ | acknowledged | done =>
    exact Outgoing.Sends.nextFrame_closed h

section Frames

variable {m : Sent} {destination : Address} {i : Nat}

/-- A message starts with its control byte. -/
theorem encode_zero (cm : TpCm) : cm.encode 0 = cm.controlByte := rfl

/-- A connection-management frame goes forward if it is a request. -/
theorem isForward_tpCm (source : Address) (cm : TpCm) :
    (tpFrame .tpCm source destination cm.encode).isForward = (cm.controlByte == 0x10) := by
  unfold Frame.isForward
  rw [pgn_tpFrame isPdu1_tpCm, tpFrame, Frame.payload_fromPayload, encode_zero]
  exact Bool.false_or _

theorem isForward_request : (m.request destination).isForward = true := isForward_tpCm ..

theorem isForward_packetTo : (m.packetTo destination i).isForward = true := by
  unfold Frame.isForward
  rw [Sent.packetTo, pgn_tpFrame isPdu1_tpDt]
  exact Bool.true_or _

theorem isForward_grant : (m.grant destination).isForward = false := isForward_tpCm ..

theorem isForward_acknowledgement : (m.acknowledgement destination).isForward = false :=
  isForward_tpCm ..

/-- The frames of a transfer on their way to its receiver go forward. -/
theorem Phase.isForward_ahead {φ : Phase} {f : Frame} (h : f ∈ φ.ahead m destination) :
    f.isForward = true := by
  cases φ with
  | requested =>
    rw [List.mem_singleton.mp h]
    exact isForward_request
  | streaming k =>
    obtain ⟨i, -, rfl⟩ := List.mem_map.mp h
    exact isForward_packetTo
  | fresh | granted | acknowledged | done => cases h

/-- Those on their way back do not. -/
theorem Phase.isForward_back {φ : Phase} {f : Frame} (h : f ∈ φ.back m destination) :
    f.isForward = false := by
  cases φ with
  | granted =>
    rw [List.mem_singleton.mp h]
    exact isForward_grant
  | acknowledged =>
    rw [List.mem_singleton.mp h]
    exact isForward_acknowledgement
  | fresh | requested | streaming _ | done => cases h

/-- The first frame on its way to the receiver, and the rest. -/
theorem Phase.ahead_eq_cons {φ : Phase} {f : Frame} {fs : List Frame}
    (h : φ.ahead m destination = f :: fs) :
    (φ = .requested ∧ f = m.request destination ∧ fs = [])
      ∨ ∃ k, φ = .streaming k ∧ f = m.packetTo destination (k + 1)
        ∧ fs = (List.range' (k + 1 + 1) (m.packets - (k + 1))).map (m.packetTo destination) := by
  cases φ with
  | requested =>
    injection h with hf hfs
    exact Or.inl ⟨rfl, hf.symm, hfs.symm⟩
  | streaming k =>
    change (List.range' (k + 1) (m.packets - k)).map (m.packetTo destination) = f :: fs at h
    cases hleft : m.packets - k with
    | zero =>
      rw [hleft] at h
      cases h
    | succ left =>
      rw [hleft, List.range'_succ, List.map_cons] at h
      injection h with hf hfs
      have hrest : m.packets - (k + 1) = left := by omega
      exact Or.inr ⟨k, rfl, hf.symm, by rw [hrest, hfs]⟩
  | fresh | granted | acknowledged | done => cases h

/-- The first frame on its way back, and the rest. -/
theorem Phase.back_eq_cons {φ : Phase} {f : Frame} {fs : List Frame}
    (h : φ.back m destination = f :: fs) :
    fs = [] ∧ (φ = .granted ∧ f = m.grant destination
      ∨ φ = .acknowledged ∧ f = m.acknowledgement destination) := by
  cases φ with
  | granted =>
    injection h with hf hfs
    exact ⟨hfs.symm, Or.inl ⟨rfl, hf.symm⟩⟩
  | acknowledged =>
    injection h with hf hfs
    exact ⟨hfs.symm, Or.inr ⟨rfl, hf.symm⟩⟩
  | fresh | requested | streaming _ | done => cases h

/-- **No frame of a transfer aborts anything.** -/
theorem Phase.not_isAbort {f : Frame} (φ : Phase) (hm : m.Long)
    (h : f ∈ φ.ahead m destination ∨ f ∈ φ.back m destination) : f.isAbort = false := by
  unfold Frame.isAbort
  rcases h with h | h
  · cases φ with
    | requested =>
      rw [List.mem_singleton.mp h, hm.decode_request, Bool.and_false]
    | streaming k =>
      obtain ⟨i, -, rfl⟩ := List.mem_map.mp h
      rw [Sent.packetTo, pgn_tpFrame isPdu1_tpDt]
      exact Bool.false_and _
    | fresh | granted | acknowledged | done => cases h
  · cases φ with
    | granted => rw [List.mem_singleton.mp h, m.decode_grant, Bool.and_false]
    | acknowledged => rw [List.mem_singleton.mp h, hm.decode_acknowledgement, Bool.and_false]
    | fresh | requested | streaming _ | done => cases h

end Frames

/-! ## §3. The invariant. -/

namespace Duplex

variable {BUF SESSIONS : Bool → Nat}

/-- What the two sides begin with: messages that fit the other side's node,
which has room for them and is not receiving from this one. -/
structure Setting (start : (side : Bool) → Node (BUF side) (SESSIONS side)) (m : Bool → Sent) :
    Prop where
  wf : ∀ s, (start s).WF
  specific : ∀ s, (start s).address.isBroadcast = false
  source : ∀ s, (m s).source = (start s).address
  long : ∀ s, (m s).Long
  fits : ∀ s r, r = (!s) → (m s).data.length ≤ BUF r
  room : ∀ s r, r = (!s) → (start r).reassembler.room (m s).source = true
  idle : ∀ s r, r = (!s) → (start r).reassembler.transferOf (m s).source = none

/-- **The transfer of `m` from `s` to `r` is in the phase `φ`.** -/
structure OneWay (start : (side : Bool) → Node (BUF side) (SESSIONS side)) (m : Sent) (φ : Phase)
    (d : Duplex BUF SESSIONS) (s r : Bool) : Prop where
  sender : φ.Sender m (start r).address (d.peer s).outgoing
  receiver : φ.Receiver m (start r).reassembler (d.peer r).node
  ahead : (d.inbox r).filter Frame.isForward = φ.ahead m (start r).address
  back : (d.inbox s).filter (fun f => !f.isForward) = φ.back m (start r).address
  received : (d.peer r).received = φ.delivered m

/-- **The invariant**: each transfer is in its phase, and the nodes are as
they were but for the two transfers. -/
structure Tracks (start : (side : Bool) → Node (BUF side) (SESSIONS side)) (m : Bool → Sent)
    (φ : Bool → Phase) (d : Duplex BUF SESSIONS) : Prop where
  node : ∀ s r, r = (!s) → (start r).MovesFor (d.peer r).node (m s).source
  transfer : ∀ s r, r = (!s) → OneWay start (m s) (φ s) d s r

variable {start : (side : Bool) → Node (BUF side) (SESSIONS side)} {m : Bool → Sent}
  {φ : Bool → Phase} {φ' : Phase} {d : Duplex BUF SESSIONS} {x : Bool}
  {p : Peer (BUF x) (SESSIONS x)} {rest frames : List Frame}

/-- The node of a side keeps its address. -/
theorem Tracks.address (h : Tracks start m φ d) (x : Bool) :
    (d.peer x).node.address = (start x).address := by
  have hclaimer := (h.node (!x) x (Bool.not_not x).symm).claimer
  unfold Node.address
  rw [hclaimer]

/-- **A side moves its own transfer on.**  What it sends goes forward, and
what it took from its inbox did not, so the other transfer is as it was. -/
theorem Tracks.sender_moves (h : Tracks start m φ d) (hnode : p.node = (d.peer x).node)
    (hreceived : p.received = (d.peer x).received)
    (hrest : rest.filter Frame.isForward = (d.inbox x).filter Frame.isForward)
    (hsender : φ'.Sender (m x) (start (!x)).address p.outgoing)
    (hreceiver : φ'.Receiver (m x) (start (!x)).reassembler (d.peer (!x)).node)
    (hahead : (φ x).ahead (m x) (start (!x)).address ++ frames
      = φ'.ahead (m x) (start (!x)).address)
    (hback : rest.filter (fun f => !f.isForward) = φ'.back (m x) (start (!x)).address)
    (hdelivered : φ'.delivered (m x) = (φ x).delivered (m x)) :
    Tracks start m (Function.update φ x φ') (d.after x p rest frames) := by
  have hforward : ∀ f ∈ frames, f.isForward = true := by
    intro f hf
    have hmem : f ∈ φ'.ahead (m x) (start (!x)).address := hahead ▸ List.mem_append_right _ hf
    exact Phase.isForward_ahead hmem
  have hown := h.transfer x (!x) rfl
  have hother := h.transfer (!x) x (Bool.not_not x).symm
  constructor
  · intro s r hr
    rcases Bool.eq_or_eq_not s x with rfl | hs
    · subst hr
      rw [after_peer_not]
      exact h.node s (!s) rfl
    · obtain rfl : r = x := by rw [hr, hs, Bool.not_not]
      subst hs
      rw [after_peer, hnode]
      exact h.node (!r) r (Bool.not_not r).symm
  · intro s r hr
    rcases Bool.eq_or_eq_not s x with rfl | hs
    · -- the transfer that moves
      subst hr
      rw [Function.update_self]
      refine ⟨?_, ?_, ?_, ?_, ?_⟩
      · rw [after_peer]
        exact hsender
      · rw [after_peer_not]
        exact hreceiver
      · rw [after_inbox_not, List.filter_append, hown.ahead, List.filter_eq_self.mpr hforward]
        exact hahead
      · rw [after_inbox]
        exact hback
      · rw [after_peer_not, hdelivered]
        exact hown.received
    · -- the other one
      obtain rfl : r = x := by rw [hr, hs, Bool.not_not]
      subst hs
      rw [Function.update_of_ne (Bool.not_ne_self r)]
      have hnone : frames.filter (fun f => !f.isForward) = [] := by
        refine List.filter_eq_nil_iff.mpr fun f hf => ?_
        rw [hforward f hf]
        decide
      refine ⟨?_, ?_, ?_, ?_, ?_⟩
      · rw [after_peer_not]
        exact hother.sender
      · rw [after_peer, hnode]
        exact hother.receiver
      · rw [after_inbox, hrest]
        exact hother.ahead
      · rw [after_inbox_not, List.filter_append, hnone, List.append_nil]
        exact hother.back
      · rw [after_peer, hreceived]
        exact hother.received

/-- **A side moves the transfer to it on.**  What it sends goes back, and
what it took from its inbox went forward, so its own transfer is as it
was. -/
theorem Tracks.receiver_moves (h : Tracks start m φ d)
    (houtgoing : p.outgoing = (d.peer x).outgoing)
    (hnode : (d.peer x).node.MovesFor p.node (m (!x)).source)
    (hrest : rest.filter (fun f => !f.isForward)
      = (d.inbox x).filter (fun f => !f.isForward))
    (hsender : φ'.Sender (m (!x)) (start x).address (d.peer (!x)).outgoing)
    (hreceiver : φ'.Receiver (m (!x)) (start x).reassembler p.node)
    (hahead : rest.filter Frame.isForward = φ'.ahead (m (!x)) (start x).address)
    (hback : (φ (!x)).back (m (!x)) (start x).address ++ frames
      = φ'.back (m (!x)) (start x).address)
    (hreceived : p.received = φ'.delivered (m (!x))) :
    Tracks start m (Function.update φ (!x) φ') (d.after x p rest frames) := by
  have hbackward : ∀ f ∈ frames, f.isForward = false := by
    intro f hf
    have hmem : f ∈ φ'.back (m (!x)) (start x).address := hback ▸ List.mem_append_right _ hf
    exact Phase.isForward_back hmem
  have hown := h.transfer x (!x) rfl
  have hother := h.transfer (!x) x (Bool.not_not x).symm
  constructor
  · intro s r hr
    rcases Bool.eq_or_eq_not s x with rfl | hs
    · subst hr
      rw [after_peer_not]
      exact h.node s (!s) rfl
    · obtain rfl : r = x := by rw [hr, hs, Bool.not_not]
      subst hs
      have hbefore := h.node (!r) r (Bool.not_not r).symm
      rw [after_peer]
      exact ⟨hnode.wf, hnode.claimer.trans hbefore.claimer,
        fun a ha => (hnode.others a ha).trans (hbefore.others a ha)⟩
  · intro s r hr
    rcases Bool.eq_or_eq_not s x with rfl | hs
    · -- the transfer that stays
      subst hr
      rw [Function.update_of_ne (Bool.self_ne_not s)]
      have hnone : frames.filter Frame.isForward = [] := by
        refine List.filter_eq_nil_iff.mpr fun f hf => ?_
        rw [hbackward f hf]
        exact Bool.false_ne_true
      refine ⟨?_, ?_, ?_, ?_, ?_⟩
      · rw [after_peer, houtgoing]
        exact hown.sender
      · rw [after_peer_not]
        exact hown.receiver
      · rw [after_inbox_not, List.filter_append, hnone, List.append_nil]
        exact hown.ahead
      · rw [after_inbox, hrest]
        exact hown.back
      · rw [after_peer_not]
        exact hown.received
    · -- the one that moves
      obtain rfl : r = x := by rw [hr, hs, Bool.not_not]
      subst hs
      rw [Function.update_self]
      refine ⟨?_, ?_, ?_, ?_, ?_⟩
      · rw [after_peer_not]
        exact hsender
      · rw [after_peer]
        exact hreceiver
      · rw [after_inbox]
        exact hahead
      · have hself : frames.filter (fun f => !f.isForward) = frames := by
          refine List.filter_eq_self.mpr fun f hf => ?_
          rw [hbackward f hf]
          rfl
        rw [after_inbox_not, List.filter_append, hother.back, hself]
        exact hback
      · rw [after_peer]
        exact hreceived

/-! ## §4. One move. -/

/-- How many moves both transfers still take. -/
def total (m : Bool → Sent) (φ : Bool → Phase) : Nat :=
  (φ false).remaining (m false).packets + (φ true).remaining (m true).packets

/-- Moving one transfer on changes the total by what that transfer takes. -/
theorem total_update (m : Bool → Sent) (φ : Bool → Phase) (s : Bool) (φ' : Phase) :
    total m (Function.update φ s φ') + (φ s).remaining (m s).packets
      = total m φ + φ'.remaining (m s).packets := by
  unfold total
  cases s with
  | false =>
    rw [Function.update_self, Function.update_of_ne (by decide)]
    omega
  | true =>
    rw [Function.update_self, Function.update_of_ne (by decide)]
    omega

/-- What a move leads to: it returns, the invariant holds in new phases, no
abort is sent, and the move counts exactly if it did anything. -/
def Leads (start : (side : Bool) → Node (BUF side) (SESSIONS side)) (m : Bool → Sent)
    (φ : Bool → Phase) (d : Duplex BUF SESSIONS) (i : Move) : Prop :=
  ∃ out d' φ', step d i = .ok (out, d') ∧ Tracks start m φ' d'
    ∧ (∀ f ∈ out, f.isAbort = false)
    ∧ (if effective ⟨d, i, out, d'⟩ then 1 else 0) + total m φ' = total m φ

/-- **Pulling frames** announces a transfer that is fresh, and otherwise
does nothing. -/
theorem Tracks.pull (h : Tracks start m φ d) (hset : Setting start m) (x : Bool) :
    Leads start m φ d (.pull x) := by
  have hown := h.transfer x (!x) rfl
  by_cases hfresh : φ x = .fresh
  · -- the request to send goes out
    have hsender := hown.sender
    have hreceiver := hown.receiver
    rw [hfresh] at hsender hreceiver
    obtain ⟨o', hdrain, ho'⟩ := hsender.announce (show 1 < 256 by decide)
    have hstep : step d (.pull x) = .ok ([(m x).request (start (!x)).address],
        d.after x { d.peer x with outgoing := o' } (d.inbox x)
          [(m x).request (start (!x)).address]) := by
      simp only [step, Peer.pull, hdrain, ok_bind, pure_eq_ok]
    refine ⟨_, _, Function.update φ x .requested, hstep, ?_, ?_, ?_⟩
    · refine h.sender_moves rfl rfl rfl ho' hreceiver ?_ ?_ ?_
      · rw [hfresh]
        rfl
      · rw [hown.back, hfresh]
        rfl
      · rw [hfresh]
        rfl
    · intro f hf
      exact Phase.not_isAbort .requested (hset.long x) (Or.inl hf)
    · have htotal := total_update m φ x .requested
      rw [hfresh] at htotal
      simp only [Phase.remaining] at htotal
      simp only [effective, List.isEmpty_cons, Bool.not_false, if_true]
      omega
  · -- no window is open
    have hnone : (d.peer x).outgoing.nextFrame = .ok (none, (d.peer x).outgoing) :=
      Phase.Sender.closed hown.sender hfresh
    have hstep : step d (.pull x) = .ok ([], d.after x (d.peer x) (d.inbox x) []) := by
      simp only [step, Peer.pull, Outgoing.drain_none hnone, ok_bind, pure_eq_ok]
    have hsame : Tracks start m (Function.update φ x (φ x))
        (d.after x (d.peer x) (d.inbox x) []) :=
      h.sender_moves rfl rfl rfl hown.sender hown.receiver (List.append_nil _) hown.back rfl
    rw [Function.update_eq_self] at hsame
    refine ⟨_, _, φ, hstep, hsame, ?_, ?_⟩
    · intro f hf
      cases hf
    · simp only [effective, List.isEmpty_nil, Bool.not_true, Bool.false_eq_true, if_false,
        Nat.zero_add]

/-- A frame that arrives and takes one transfer to its next phase. -/
theorem leads_of_deliver {f : Frame} {s : Bool} (hin : d.inbox x = f :: rest)
    (hhandle : (d.peer x).handle f = .ok (frames, p))
    (htracks : Tracks start m (Function.update φ s φ') (d.after x p rest frames))
    (habort : ∀ g ∈ frames, g.isAbort = false)
    (hremaining : φ'.remaining (m s).packets + 1 = (φ s).remaining (m s).packets) :
    Leads start m φ d (.deliver x) := by
  have hstep : step d (.deliver x) = .ok (frames, d.after x p rest frames) := by
    simp only [step, hin, hhandle, ok_bind, pure_eq_ok]
  have htotal := total_update m φ s φ'
  refine ⟨_, _, _, hstep, htracks, habort, ?_⟩
  simp only [effective, hin, List.isEmpty_cons, Bool.not_false, if_true]
  omega

/-- **A grant arrives** and is answered with all the packets. -/
theorem Tracks.deliver_grant (h : Tracks start m φ d) (hset : Setting start m)
    (hphase : φ x = .granted) (hin : d.inbox x = (m x).grant (start (!x)).address :: rest)
    (hback : rest.filter (fun f => !f.isForward) = []) :
    Leads start m φ d (.deliver x) := by
  have hown := h.transfer x (!x) rfl
  have hsender := hown.sender
  have hreceiver := hown.receiver
  rw [hphase] at hsender hreceiver
  have hb := (hset.long x).packets_bounds
  obtain ⟨o₁, hready, h₁⟩ := hsender.grant (hset.long x)
  obtain ⟨o', hdrain, h'⟩ := h₁.drain (Nat.le_refl 1) (Nat.le_of_eq (Nat.add_comm ..))
    (show (m x).packets < 256 by omega)
  have hhandle : (d.peer x).handle ((m x).grant (start (!x)).address)
      = .ok ((List.range' 1 (m x).packets).map ((m x).packetTo (start (!x)).address),
        { d.peer x with outgoing := o' }) := by
    simp only [Peer.handle, hready, ok_bind, Peer.pull, hdrain, pure_eq_ok]
  have hforward : ((m x).grant (start (!x)).address).isForward = false := isForward_grant
  have htracks : Tracks start m (Function.update φ x (.streaming 0))
      (d.after x { d.peer x with outgoing := o' } rest
        ((List.range' 1 (m x).packets).map ((m x).packetTo (start (!x)).address))) := by
    refine h.sender_moves rfl rfl ?_ h' ⟨by omega, hreceiver⟩ ?_ hback ?_
    · rw [hin, List.filter_cons, hforward, if_neg Bool.false_ne_true]
    · rw [hphase]
      rfl
    · rw [hphase]
      rfl
  refine leads_of_deliver hin hhandle htracks ?_ ?_
  · intro f hf
    exact Phase.not_isAbort (.streaming 0) (hset.long x) (Or.inl hf)
  · rw [hphase]
    rfl

/-- **An acknowledgement arrives** and completes the transfer. -/
theorem Tracks.deliver_acknowledgement (h : Tracks start m φ d) (hset : Setting start m)
    (hphase : φ x = .acknowledged)
    (hin : d.inbox x = (m x).acknowledgement (start (!x)).address :: rest)
    (hback : rest.filter (fun f => !f.isForward) = []) :
    Leads start m φ d (.deliver x) := by
  have hown := h.transfer x (!x) rfl
  have hsender := hown.sender
  have hreceiver := hown.receiver
  rw [hphase] at hsender hreceiver
  obtain ⟨o', hcomplete, h'⟩ := hsender.acknowledge (hset.long x)
  have hhandle : (d.peer x).handle ((m x).acknowledgement (start (!x)).address)
      = .ok ([], { d.peer x with outgoing := o' }) := by
    simp only [Peer.handle, hcomplete, ok_bind, pure_eq_ok]
  have hforward : ((m x).acknowledgement (start (!x)).address).isForward = false :=
    isForward_acknowledgement
  have htracks : Tracks start m (Function.update φ x .done)
      (d.after x { d.peer x with outgoing := o' } rest []) := by
    refine h.sender_moves rfl rfl ?_ h' hreceiver ?_ hback ?_
    · rw [hin, List.filter_cons, hforward, if_neg Bool.false_ne_true]
    · rw [hphase]
      rfl
    · rw [hphase]
      rfl
  refine leads_of_deliver hin hhandle htracks ?_ ?_
  · intro f hf
    cases hf
  · rw [hphase]
    rfl

/-- The node of a side satisfies the invariant of nodes. -/
theorem Tracks.wf (h : Tracks start m φ d) (x : Bool) : (d.peer x).node.WF :=
  (h.node (!x) x (Bool.not_not x).symm).wf

/-- **A request to send arrives** and is granted. -/
theorem Tracks.deliver_request (h : Tracks start m φ d) (hset : Setting start m)
    (hphase : φ (!x) = .requested) (hin : d.inbox x = (m (!x)).request (start x).address :: rest)
    (hahead : rest.filter Frame.isForward = []) : Leads start m φ d (.deliver x) := by
  have hother := h.transfer (!x) x (Bool.not_not x).symm
  have hsender := hother.sender
  have hreceiver := hother.receiver
  have hback := hother.back
  have hreceived := hother.received
  rw [hphase] at hsender hreceiver hback hreceived
  -- the node's reassembler is still the one it began with
  change (d.peer x).node.reassembler = (start x).reassembler at hreceiver
  have haddress := h.address x
  have hlong := hset.long (!x)
  have hroom : (d.peer x).node.reassembler.room (m (!x)).source = true := by
    rw [hreceiver]
    exact hset.room (!x) x (Bool.not_not x).symm
  have hnone : (d.peer x).node.reassembler.transferOf (m (!x)).source = none := by
    rw [hreceiver]
    exact hset.idle (!x) x (Bool.not_not x).symm
  have hglobal : (d.peer x).node.address.isBroadcast = false := by
    rw [haddress]
    exact hset.specific x
  obtain ⟨n', hok, hmoves, hreceiving⟩ := Node.receives_request (h.wf x) hlong
    (hset.fits (!x) x (Bool.not_not x).symm) hglobal hroom hnone
  rw [haddress] at hok
  have hidle := Outgoing.onFrame_request (d.peer x).outgoing hlong (start x).address
  have hhandle : (d.peer x).handle ((m (!x)).request (start x).address)
      = .ok ([(m (!x)).grant (start x).address], { d.peer x with node := n' }) := by
    simp only [Peer.handle, hidle, ok_bind, hok, pure_eq_ok]
  have htracks : Tracks start m (Function.update φ (!x) .granted)
      (d.after x { d.peer x with node := n' } rest [(m (!x)).grant (start x).address]) := by
    refine h.receiver_moves rfl hmoves ?_ hsender hreceiving hahead ?_ hreceived
    · rw [hin, List.filter_cons, isForward_request, if_neg (by decide)]
    · rw [hphase]
      rfl
  refine leads_of_deliver hin hhandle htracks ?_ ?_
  · intro f hf
    exact Phase.not_isAbort .granted hlong (Or.inr hf)
  · rw [hphase]
    rfl

/-- **A packet arrives**; the last one delivers the message. -/
theorem Tracks.deliver_packet {k : Nat} (h : Tracks start m φ d) (hset : Setting start m)
    (hphase : φ (!x) = .streaming k)
    (hin : d.inbox x = (m (!x)).packetTo (start x).address (k + 1) :: rest)
    (hahead : rest.filter Frame.isForward
      = (List.range' (k + 1 + 1) ((m (!x)).packets - (k + 1))).map
          ((m (!x)).packetTo (start x).address)) : Leads start m φ d (.deliver x) := by
  have hother := h.transfer (!x) x (Bool.not_not x).symm
  have hsender := hother.sender
  have hreceiver := hother.receiver
  have hreceived := hother.received
  rw [hphase] at hsender hreceiver hreceived
  obtain ⟨hk, hreceiving⟩ := hreceiver
  have haddress := h.address x
  have hlong := hset.long (!x)
  have hidle : (d.peer x).outgoing.onFrame ((m (!x)).packetTo (start x).address (k + 1))
      = .ok (.idle, (d.peer x).outgoing) := Outgoing.onFrame_packetTo ..
  have hrest : rest.filter (fun f => !f.isForward)
      = (d.inbox x).filter (fun f => !f.isForward) := by
    rw [hin, List.filter_cons, isForward_packetTo, if_neg (by decide)]
  obtain ⟨n', hmoves, hmore, hlast⟩ := Node.receives_packet (h.wf x) hlong hk hreceiving
  rw [haddress] at hmore hlast
  by_cases hend : k + 1 = (m (!x)).packets
  · -- the last packet: the message is delivered and acknowledged
    obtain ⟨hok, hnone⟩ := hlast hend
    have hhandle : (d.peer x).handle ((m (!x)).packetTo (start x).address (k + 1))
        = .ok ([(m (!x)).acknowledgement (start x).address],
          { d.peer x with
            node := n'
            received := (d.peer x).received
              ++ [((m (!x)).pgn, (m (!x)).source, (m (!x)).data)] }) := by
      simp only [Peer.handle, hidle, ok_bind, hok, pure_eq_ok, Option.toList_some]
    have htracks : Tracks start m (Function.update φ (!x) .acknowledged)
        (d.after x
          { d.peer x with
            node := n'
            received := (d.peer x).received
              ++ [((m (!x)).pgn, (m (!x)).source, (m (!x)).data)] }
          rest [(m (!x)).acknowledgement (start x).address]) := by
      refine h.receiver_moves rfl hmoves hrest hsender hnone ?_ ?_ ?_
      · rw [hahead, hend, Nat.sub_self]
        rfl
      · rw [hphase]
        rfl
      · rw [hreceived]
        rfl
    refine leads_of_deliver hin hhandle htracks ?_ ?_
    · intro f hf
      exact Phase.not_isAbort .acknowledged hlong (Or.inr hf)
    · rw [hphase]
      show 1 + 1 = (m (!x)).packets - k + 1
      omega
  · -- more packets are on their way
    have hlt : k + 1 < (m (!x)).packets := by omega
    obtain ⟨hok, hreceiving'⟩ := hmore hlt
    have hhandle : (d.peer x).handle ((m (!x)).packetTo (start x).address (k + 1))
        = .ok ([], { d.peer x with node := n' }) := by
      simp only [Peer.handle, hidle, ok_bind, hok, pure_eq_ok]
    have htracks : Tracks start m (Function.update φ (!x) (.streaming (k + 1)))
        (d.after x { d.peer x with node := n' } rest []) := by
      refine h.receiver_moves rfl hmoves hrest hsender ⟨hlt, hreceiving'⟩ hahead ?_ hreceived
      rw [hphase]
      rfl
    refine leads_of_deliver hin hhandle htracks ?_ ?_
    · intro f hf
      cases hf
    · rw [hphase]
      show (m (!x)).packets - (k + 1) + 1 + 1 = (m (!x)).packets - k + 1
      omega

/-- **A frame that arrives** belongs to one of the two transfers, and takes
it to its next phase. -/
theorem Tracks.deliver (h : Tracks start m φ d) (hset : Setting start m) (x : Bool) :
    Leads start m φ d (.deliver x) := by
  cases hin : d.inbox x with
  | nil =>
    -- nothing arrives
    refine ⟨[], d, φ, ?_, h, ?_, ?_⟩
    · simp only [step, hin]
    · intro f hf
      cases hf
    · simp only [effective, hin, List.isEmpty_nil, Bool.not_true, Bool.false_eq_true, if_false,
        Nat.zero_add]
  | cons f rest =>
    cases hforward : f.isForward with
    | true =>
      -- a frame of the transfer to this side
      have hahead := (h.transfer (!x) x (Bool.not_not x).symm).ahead
      rw [hin, List.filter_cons, if_pos hforward] at hahead
      rcases Phase.ahead_eq_cons hahead.symm with ⟨hphase, rfl, hrest⟩ | ⟨k, hphase, rfl, hrest⟩
      · exact h.deliver_request hset hphase hin hrest
      · exact h.deliver_packet hset hphase hin hrest
    | false =>
      -- a frame of this side's own transfer
      have hback := (h.transfer x (!x) rfl).back
      have hbackward : (!f.isForward) = true := by
        rw [hforward]
        rfl
      rw [hin, List.filter_cons, if_pos hbackward] at hback
      rcases Phase.back_eq_cons hback.symm with ⟨hrest, ⟨hphase, rfl⟩ | ⟨hphase, rfl⟩⟩
      · exact h.deliver_grant hset hphase hin hrest
      · exact h.deliver_acknowledgement hset hphase hin hrest

/-- **Every move keeps the invariant.** -/
theorem Tracks.step (h : Tracks start m φ d) (hset : Setting start m) (i : Move) :
    Leads start m φ d i := by
  cases i with
  | pull x => exact h.pull hset x
  | deliver x => exact h.deliver hset x

/-! ## §5. Whole runs. -/

/-- **Every run keeps the invariant**, sends no abort, and its moves that
did anything are those the transfers no longer have to take. -/
theorem Tracks.run (h : Tracks start m φ d) (hset : Setting start m) (moves : List Move) :
    ∃ tr d' φ', Machine.run Duplex.step d moves = .ok (tr, d') ∧ Tracks start m φ' d'
      ∧ (∀ e ∈ tr, ∀ f ∈ e.out, f.isAbort = false)
      ∧ tr.countP effective + total m φ' = total m φ := by
  induction moves generalizing d φ with
  | nil =>
    refine ⟨[], d, φ, rfl, h, ?_, ?_⟩
    · intro e he
      cases he
    · exact Nat.zero_add _
  | cons i moves ih =>
    obtain ⟨out, d₁, φ₁, hstep, h₁, habort, hcount⟩ := h.step hset i
    obtain ⟨tr, d', φ', hrun, h', haborts, hcounts⟩ := ih h₁
    refine ⟨⟨d, i, out, d₁⟩ :: tr, d', φ', ?_, h', ?_, ?_⟩
    · simp only [Machine.run, hstep, ok_bind, hrun, pure_eq_ok]
    · intro e he
      rcases List.mem_cons.mp he with rfl | he
      · exact habort
      · exact haborts e he
    · rw [List.countP_cons]
      omega

/-- A transfer of which nothing is ready and nothing on its way is done. -/
theorem OneWay.done {m : Sent} {φ : Phase} {s r : Bool} (h : OneWay start m φ d s r)
    (hfresh : φ ≠ .fresh) (hs : d.inbox s = []) (hr : d.inbox r = []) : φ = .done := by
  have hahead := h.ahead
  have hback := h.back
  have hreceiver := h.receiver
  rw [hr] at hahead
  rw [hs] at hback
  cases φ with
  | fresh => exact absurd rfl hfresh
  | requested => cases hahead
  | granted => cases hback
  | streaming k =>
    -- a packet is missing, so one is on its way
    obtain ⟨hk, -⟩ := hreceiver
    obtain ⟨left, hleft⟩ : ∃ left, m.packets - k = left + 1 :=
      Nat.exists_eq_succ_of_ne_zero (by omega)
    change [] = (List.range' (k + 1) (m.packets - k)).map _ at hahead
    rw [hleft] at hahead
    cases hahead
  | acknowledged => cases hback
  | done => rfl

/-- **A run has ended** exactly when both transfers are done. -/
theorem Tracks.ended_iff (h : Tracks start m φ d) (hset : Setting start m) :
    d.Ended ↔ total m φ = 0 := by
  constructor
  · intro hended
    have hinbox : ∀ s, d.inbox s = [] := by
      intro s
      obtain ⟨out, d', -, hstep, -⟩ := h.deliver hset s
      have hnot := hended _ _ _ hstep
      simpa [effective] using hnot
    have hbegun : ∀ s, φ s ≠ .fresh := by
      intro s hfresh
      have hsender := (h.transfer s (!s) rfl).sender
      rw [hfresh] at hsender
      obtain ⟨o', hdrain, -⟩ := hsender.announce (show 1 < 256 by decide)
      have hstep : Duplex.step d (.pull s) = .ok ([(m s).request (start (!s)).address],
          d.after s { d.peer s with outgoing := o' } (d.inbox s)
            [(m s).request (start (!s)).address]) := by
        simp only [Duplex.step, Peer.pull, hdrain, ok_bind, pure_eq_ok]
      exact absurd (hended _ _ _ hstep) (by simp [effective])
    have hdone : ∀ s, φ s = .done := fun s =>
      (h.transfer s (!s) rfl).done (hbegun s) (hinbox s) (hinbox (!s))
    unfold total
    rw [hdone, hdone]
    rfl
  · intro hzero i out d' hstep
    obtain ⟨out₁, d₁, φ₁, hstep₁, -, -, hcount⟩ := h.step hset i
    rw [hstep, Except.ok.injEq, Prod.mk.injEq] at hstep₁
    obtain ⟨rfl, rfl⟩ := hstep₁
    cases heffective : effective ⟨d, i, out, d'⟩ with
    | false => rfl
    | true =>
      rw [heffective, if_pos rfl] at hcount
      omega

/-- A transfer that takes no more moves is done. -/
theorem done_of_total (h : total m φ = 0) (s : Bool) : φ s = .done := by
  have hzero : (φ s).remaining (m s).packets = 0 := by
    unfold total at h
    cases s <;> omega
  cases hφ : φ s with
  | done => rfl
  | fresh | requested | granted | streaming _ | acknowledged =>
    rw [hφ] at hzero
    cases hzero

/-- Before anything is sent, both transfers are fresh. -/
theorem tracks_initial (hset : Setting start m) {outgoing : Bool → Outgoing}
    (hsends : ∀ s, (outgoing s).Sends (m s) (start (!s)).address false 1 0 false) :
    Tracks start m (fun _ => .fresh) (initial start outgoing) := by
  constructor
  · intro s r _
    exact ⟨hset.wf r, rfl, fun a _ => rfl⟩
  · intro s r hr
    subst hr
    exact ⟨hsends s, rfl, rfl, rfl, rfl⟩

/-- A node that is receiving from nobody has no session. -/
theorem session_eq_none {BUF SESSIONS : Nat} {r : Reassembler BUF SESSIONS} :
    (∀ i, (r.slots i).session = none) ↔ ∀ a, r.transferOf a = none := by
  constructor
  · intro h a
    refine Reassembler.transferOf_eq_none.mpr (SlotTable.find_eq_none.mpr fun i => ?_)
    unfold Slot.key
    rw [h i]
    exact fun h => by cases h
  · intro h i
    cases hs : (r.slots i).session with
    | none => rfl
    | some s =>
      have hkey : (r.slots i).key = some s.source := Reassembler.key_eq_some.mpr ⟨s, hs, rfl⟩
      have hfind := Reassembler.transferOf_eq_none.mp (h s.source)
      exact absurd hkey (SlotTable.find_eq_none.mp hfind i)

theorem isReceivingFrom_eq_false {BUF SESSIONS : Nat} {r : Reassembler BUF SESSIONS} {a : Address} :
    r.isReceivingFrom a = false ↔ r.transferOf a = none := by
  rw [Reassembler.isReceivingFrom, Reassembler.slotOf_eq_find, Reassembler.transferOf_eq_none]
  exact Option.isSome_eq_false_iff.trans Option.isNone_iff_eq_none

/-- **Transfers in both directions complete.**  Two nodes hold claimed
addresses (that they differ is not even needed), have a free slot and are
not receiving from each other; each sends the other a message that fits,
of any two groups.  Then in every
interleaving no call panics and no abort is sent; exactly one move for
each announcement and for each frame does anything, after which nothing is
left to do; and then each node has delivered the other's message once,
both outgoing messages are complete, and no session is left. -/
theorem both_directions_complete {name : Bool → Name} {preferred : Bool → Address}
    {start : (side : Bool) → Node (BUF side) (SESSIONS side)}
    (hreach : ∀ s, (start s).Reachable (name s) (preferred s))
    (hclaimed : ∀ s, (start s).claimState = .claimed)
    (hfree : ∀ s, ∃ i, ((start s).reassembler.slots i).session = none)
    (hidle : ∀ s, (start s).reassembler.isReceivingFrom (start (!s)).address = false)
    (pgn : Bool → Pgn) {data : Bool → List UInt8}
    (hmin : ∀ s, 9 ≤ (data s).length) (hmax : ∀ s, (data s).length ≤ 1785)
    (hfits : ∀ s, (data s).length ≤ BUF (!s)) :
    ∃ outgoing : Bool → Outgoing,
      (∀ s, Outgoing.new (pgn s) (start s).address (start (!s)).address (data s)
        = .ok (outgoing s))
      ∧ ∀ moves, ∃ tr d, Machine.run step (initial start outgoing) moves = .ok (tr, d)
        ∧ (∀ e ∈ tr, ∀ f ∈ e.out, f.isAbort = false)
        ∧ tr.countP effective
            ≤ packetCount (data false).length + packetCount (data true).length + 8
        ∧ (d.Ended ↔ tr.countP effective
            = packetCount (data false).length + packetCount (data true).length + 8)
        ∧ (d.Ended → ∀ s,
          (d.peer (!s)).received = [(pgn s, (start s).address, data s)]
          ∧ (d.peer s).outgoing.isComplete = true
          ∧ (d.peer s).node.reassembler.isReceivingFrom (start (!s)).address = false
          ∧ ((∀ i, ((start s).reassembler.slots i).session = none) →
            ∀ i, ((d.peer s).node.reassembler.slots i).session = none)) := by
  let m : Bool → Sent := fun s => ⟨pgn s, (start s).address, data s⟩
  have hspecific : ∀ s, (start s).address.isBroadcast = false := by
    intro s
    have hactive : (start s).claimer.isActive = true := by
      have hstate : (start s).claimer.state = .claimed := hclaimed s
      rw [AddressClaim.AddressClaimer.isActive, hstate]
      rfl
    have hne := Address.ne_global_of_isSpecific ((hreach s).wf.claimer.active hactive)
    rw [Bool.eq_false_iff, ne_eq, Address.isBroadcast_iff]
    exact hne
  have hset : Setting start m := by
    refine ⟨fun s => (hreach s).wf, hspecific, fun s => rfl, fun s => ⟨hmin s, hmax s⟩, ?_, ?_, ?_⟩
    · intro s r hr
      subst hr
      exact hfits s
    · intro s r _
      exact Reassembler.room_eq_true.mpr (Or.inr (hfree r))
    · intro s r hr
      subst hr
      have hnone := hidle (!s)
      rw [Bool.not_not] at hnone
      exact isReceivingFrom_eq_false.mp hnone
  choose outgoing hnew hsends using
    fun s => Outgoing.sends_new (m := m s) (hset.long s) (hspecific (!s))
  refine ⟨outgoing, hnew, fun moves => ?_⟩
  obtain ⟨tr, d, φ, hrun, htracks, haborts, hcount⟩ :=
    (tracks_initial hset hsends).run hset moves
  have htotal : total m (fun _ => .fresh)
      = packetCount (data false).length + packetCount (data true).length + 8 := by
    show packetCount (data false).length + 4 + (packetCount (data true).length + 4) = _
    omega
  have hended := htracks.ended_iff hset
  rw [htotal] at hcount
  refine ⟨tr, d, hrun, haborts, by omega, by rw [hended]; omega, fun hend s => ?_⟩
  -- both transfers are done
  have hdone := done_of_total (hended.mp hend)
  have hown := htracks.transfer s (!s) rfl
  have hother := htracks.transfer (!s) s (Bool.not_not s).symm
  rw [hdone] at hown hother
  have hnone : (d.peer s).node.reassembler.transferOf (start (!s)).address = none := hother.receiver
  refine ⟨hown.received, hown.sender.isComplete, isReceivingFrom_eq_false.mpr hnone,
    fun hempty => ?_⟩
  refine session_eq_none.mpr fun a => ?_
  by_cases ha : a = (start (!s)).address
  · rw [ha]
    exact hnone
  · rw [(htracks.node (!s) s (Bool.not_not s).symm).others a ha]
    exact session_eq_none.mp hempty a

/-- Two nodes with their addresses claimed. -/
def twoNodes : Bool → Node 16 1
  | false => ((Node.new ⟨1⟩ ⟨0x80⟩).start.2.tick 250).2
  | true => ((Node.new ⟨2⟩ ⟨0x90⟩).start.2.tick 250).2

theorem reachable_twoNodes (s : Bool) :
    (twoNodes s).Reachable (cond s ⟨2⟩ ⟨1⟩) (cond s ⟨0x90⟩ ⟨0x80⟩) := by
  cases s with
  | false => exact ⟨[.start, .tick 250], _, rfl⟩
  | true => exact ⟨[.start, .tick 250], _, rfl⟩

/-- Nine bytes of the same group for the other node. -/
def nineBytes (s : Bool) : Outgoing :=
  ⟨.dm1, .default, (twoNodes s).address, (twoNodes (!s)).address, .multi
    { pgn := .dm1
      data := List.replicate 9 0
      packets := packetCount 9
      nextSequence := 1
      windowRemaining := 0
      broadcast := false
      complete := false
      maxPacketsPerCts := 0xFF
      size_ge := by decide
      size_le := by decide
      packets_eq := rfl } false⟩

/-- Both announce first, and then hear each other in turn. -/
def inTurn : List Move :=
  [.pull false, .pull true, .deliver true, .deliver false, .deliver true, .deliver false,
    .deliver true, .deliver false, .deliver true, .deliver false, .deliver true, .deliver false]

/-- Nine bytes each way, both of the same group. -/
theorem both_directions_complete_nine_bytes :
    ∃ outgoing tr, ∃ d : Duplex (fun _ => 16) (fun _ => 1),
      (∀ s, Outgoing.new .dm1 (twoNodes s).address (twoNodes (!s)).address (List.replicate 9 0)
        = .ok (outgoing s))
      ∧ Machine.run step (initial twoNodes outgoing) inTurn = .ok (tr, d)
      ∧ ∀ s, (d.peer (!s)).received = [(.dm1, (twoNodes s).address, List.replicate 9 0)]
        ∧ (d.peer s).outgoing.isComplete = true := by
  obtain ⟨outgoing, hnew, hall⟩ := both_directions_complete reachable_twoNodes
    (by decide) (fun s => ⟨0, by cases s <;> rfl⟩) (by decide) (fun _ => .dm1)
    (show ∀ _ : Bool, 9 ≤ (List.replicate 9 (0 : UInt8)).length by decide) (by decide) (by decide)
  obtain ⟨tr, d, hrun, -, -, hended, hfinal⟩ := hall inTurn
  have hcount : (Machine.run step
      (initial twoNodes nineBytes : Duplex (fun _ => 16) (fun _ => 1)) inTurn).map
        (fun x => x.1.countP effective) = .ok 12 := by decide +kernel
  have hsame : outgoing = nineBytes := by
    funext s
    have hnine : Outgoing.new .dm1 (twoNodes s).address (twoNodes (!s)).address
        (List.replicate 9 0) = .ok (nineBytes s) := by cases s <;> rfl
    exact Except.ok.inj ((hnew s).symm.trans hnine)
  rw [← hsame, hrun] at hcount
  have hend : d.Ended := hended.mpr (Except.ok.inj hcount)
  refine ⟨outgoing, tr, d, hnew, hrun, fun s => ?_⟩
  obtain ⟨hreceived, hcomplete, -, -⟩ := hfinal hend s
  exact ⟨hreceived, hcomplete⟩

end Duplex

end SaeJ1939
