/-
  SaeJ1939.Host.Reaction — what a frame comes to at an ECU (`ecu.rs`,
  `Ecu::dispatch`).

  Which message a frame completes, and which frames the ECU has to send
  before it can hand that message on, is settled by the route the frame
  takes, the transfer of its sender and what the ECU holds at that moment.
  Here both are read off the state before the frame.

  Main results:
    * `Node.onFrame_reaction` — the event a frame comes to at a node.
    * `busOf_dispatch` — dispatching a frame returns exactly if the bus
      takes all the frames that it is offered.
    * `balances_dispatch` — whether it returns or fails, what is in hand
      afterwards is the message that the frame completes.
-/
import SaeJ1939.Host.Exchange

namespace SaeJ1939

open Checked

/-! ## §1. What a frame comes to. -/

/-- **The event a frame comes to at a node**, by its route and the transfer
of its sender. -/
def Node.reaction {BUF SESSIONS : Nat} (n : Node BUF SESSIONS) (f : Frame) : Event :=
  match n.route f with
  | .application => .message f.pgn f.sourceAddress f.data none
  | .connection cm => lift (Tp.Transfer.onCm BUF (n.reassembler.room f.sourceAddress)
      f.sourceAddress (n.reassembler.transferOf f.sourceAddress) cm).1 n.address f.sourceAddress
  | .data dt => lift (Tp.Transfer.onDt (n.reassembler.transferOf f.sourceAddress) dt).1
      n.address f.sourceAddress
  | .claimRequest => (n.actOnClaim (.announce n.claimer.currentClaim)).1
  | .addressClaimed name =>
      (n.actOnClaim (n.claimer.onAddressClaimed f.sourceAddress name).1).1
  | .ignore => .idle

/-- What the claimer asks for is announced by any node alike. -/
theorem Node.actOnClaim_event {BUF SESSIONS : Nat} (n n' : Node BUF SESSIONS)
    (action : AddressClaim.ClaimAction) : (n.actOnClaim action).1 = (n'.actOnClaim action).1 := by
  cases action with
  | idle | announce => rfl

/-- **It is what the node makes of the frame**; a message leaves the claim
of the node alone. -/
theorem Node.onFrame_reaction {BUF SESSIONS : Nat} {n : Node BUF SESSIONS} (h : n.WF)
    (f : Frame) :
    ∃ n', n.onFrame f = .ok (n.reaction f, n')
      ∧ ∀ pgn source data reply, n.reaction f = .message pgn source data reply →
        n'.claimer = n.claimer := by
  have heq := n.onFrame_eq f
  unfold reaction
  cases hroute : n.route f with
  | ignore | application =>
    rw [hroute] at heq
    exact ⟨n, heq, fun _ _ _ _ _ => rfl⟩
  | connection cm =>
    obtain ⟨n', hok, -, hclaimer, -⟩ := onFrame_connection h hroute
    exact ⟨n', hok, fun _ _ _ _ _ => hclaimer⟩
  | data dt =>
    obtain ⟨n', hok, -, hclaimer, -⟩ := onFrame_data h hroute
    exact ⟨n', hok, fun _ _ _ _ _ => hclaimer⟩
  | claimRequest =>
    rw [hroute] at heq
    exact ⟨_, heq, fun _ _ _ _ hmessage => (actOnClaim_ne_message _ _ _ _ _ _ hmessage).elim⟩
  | addressClaimed name =>
    rw [hroute] at heq
    let action := (n.claimer.onAddressClaimed f.sourceAddress name).1
    let heard := { n with claimer := (n.claimer.onAddressClaimed f.sourceAddress name).2 }
    have hevent : n.onFrame f = .ok ((n.actOnClaim action).1, (heard.actOnClaim action).2) := by
      rw [n.actOnClaim_event heard]
      exact heq
    exact ⟨_, hevent, fun _ _ _ _ hmessage => (actOnClaim_ne_message _ _ _ _ _ _ hmessage).elim⟩

namespace Host.Ecu

open AddressClaim Custody Diagnostics Fallible
open Etp (EtpCm EtpDt)

variable {β α γ : Type} {BUF SESSIONS : Nat} {w w' : Watched β BUF SESSIONS}

/-- What the extended transfer of its sender makes of a frame. -/
def etpOutcome (e : Ecu β BUF SESSIONS) (f : Frame) : Etp.Rx :=
  if !f.id.isAddressedTo e.node.address then .idle
  else if f.pgn = .etpCm then
    (EtpCm.decode f.payload).toOption.elim .idle fun cm =>
      (Etp.Transfer.onCm etpBuffer e.etp.room f.sourceAddress (e.etp.transferOf f.sourceAddress)
        cm).1
  else (Etp.Transfer.onDt (e.etp.transferOf f.sourceAddress) (EtpDt.decode f.payload)).1

/-- **The message a frame completes**, if it completes one. -/
def completed (e : Ecu β BUF SESSIONS) (f : Frame) : Option Message :=
  if IsExtended f then Replay.messageOf (etpOutcome e f) else passedOn (e.node.reaction f)

/-- An extended frame is acted on as that outcome says. -/
theorem dispatch_etp [Bus β] {f : Frame} (hwf : w.etp.WF) (hext : IsExtended f) :
    ∃ r, dispatch f w = actOnEtp f.sourceAddress (etpOutcome w.toEcu f) { w with etp := r } := by
  unfold etpOutcome
  rcases ignores_or_reassembles hwf hext with hignored | ⟨haddr, outcome, r, hr, -⟩
  · refine ⟨w.etp, ?_⟩
    rw [dispatch_ignored hext hignored]
    rcases hignored with haddr | ⟨hcm, e, hdecode⟩
    · rw [haddr]
      rfl
    · rw [if_pos hcm, hdecode]
      split <;> rfl
  · refine ⟨r, ?_⟩
    rw [dispatch_reassembles haddr hr, haddr, Bool.not_true, if_neg Bool.false_ne_true]
    rcases hr with ⟨hcm, cm, hdecode, hcall⟩ | ⟨hdt, hcall⟩
    · rw [if_pos hcm, hdecode]
      rcases Etp.Reassembler.onEtpCm_refines hwf f.sourceAddress cm with
        ⟨r', hok, -⟩ | ⟨hpanic, -⟩
      · cases hok.symm.trans hcall
        rfl
      · cases hpanic.symm.trans hcall
    · have hne : f.pgn ≠ .etpCm := by
        rw [hdt]
        decide
      rw [if_neg hne]
      obtain ⟨r', hok, -⟩ :=
        Etp.Reassembler.onEtpDt_refines hwf f.sourceAddress (EtpDt.decode f.payload)
      cases hok.symm.trans hcall
      rfl

/-! ## §2. What it sends. -/

/-- What becomes of the frames an outgoing message puts out, as far as it
goes: what is left of it, and the bus afterwards. -/
def emitTaken [Bus β] (paced : Bool) : Nat → Bool → Outgoing → β → Option (Outgoing × β)
  | 0, _, _, _ => none
  | bound + 1, first, o, bus =>
      o.nextFrame.toOption.bind fun x =>
        x.1.elim (some (x.2, bus)) fun frame =>
          (takes paced first [frame] bus).bind (emitTaken paced bound false x.2)

/-- What becomes of a message to everybody, which only a node with an
address may send. -/
def broadcastTaken [Bus β] (n : Node BUF SESSIONS) (group : Pgn) (data : List UInt8)
    (priority : Priority) (bus : β) : Option β :=
  if n.hasAddress then
    (Outgoing.new group n.address Address.global data).toOption.bind fun o =>
      (emitTaken o.needsPacing (o.frameCount + 1) true (o.withPriority priority) bus).map Prod.snd
  else none

/-- The frame of an acknowledgement. -/
def acknowledgementFrame (source requester : Address) (ack : Acknowledgement) : Option Frame :=
  (Id.fromParts .default .acknowledgement requester source).toOption.map fun id =>
    Frame.fromPayload id ack.encode

instance (group : Pgn) : Decidable (IsReport group) := inferInstanceAs (Decidable (_ ∨ _))

/-- What becomes of the answer to a diagnostic request. -/
def answerTaken [Bus β] (e : Ecu β BUF SESSIONS) (requester : Address) (group : Pgn) (bus : β) :
    Option β :=
  let source := e.node.address
  if IsReport group then
    broadcastTaken e.node group (answerData e group) .default bus
  else if group = .dm3 then
    takes false true (acknowledgementFrame source requester (Dm3.acknowledge source)).toList bus
  else if group = .dm11 then
    (takes false true (acknowledgementFrame source requester (Dm11.acknowledge source)).toList
      bus).bind (broadcastTaken e.node .dm1 (reportData e.faults.clearActive) .default)
  else some bus

/-- The claim a Commanded Address makes the node send. -/
def commandedClaim (n : Node BUF SESSIONS) (message : Message) : Option Frame :=
  if message.pgn = .commandedAddress then (n.onCommandedAddress message.data).1.toOption.join
  else none

/-- What becomes of the answer to a message, if it is a request. -/
def requestTaken [Bus β] (e : Ecu β BUF SESSIONS) (message : Message) (bus : β) : Option β :=
  if message.pgn = .request ∧ e.node.hasAddress = true then
    (Request.decode message.data).toOption.elim (some bus) fun request =>
      answerTaken e message.source request.pgn bus
  else some bus

/-- What becomes of the frames that acting on a message takes. -/
def messageTaken [Bus β] (e : Ecu β BUF SESSIONS) (message : Message) (bus : β) : Option β :=
  (takes false true (commandedClaim e.node message).toList bus).bind (requestTaken e message)

/-- **What becomes of the frames that dispatching a frame takes**: the bus
afterwards, or none if one of them is refused. -/
def dispatchTaken [Bus β] (e : Ecu β BUF SESSIONS) (f : Frame) : Option β :=
  if IsExtended f then
    takes false true ((replyOf (etpOutcome e f)).bind
      (etpCmFrame e.node.address f.sourceAddress)).toList e.bus
  else
    (takes false true (frameOf (e.node.reaction f)).toList e.bus).bind fun bus =>
      (passedOn (e.node.reaction f)).elim (some bus) fun message => messageTaken e message bus

/-- What a message makes an ECU send depends on its claim, and on what it
would report. -/
theorem commandedClaim_congr {n n' : Node BUF SESSIONS} (h : n'.claimer = n.claimer)
    (message : Message) : commandedClaim n' message = commandedClaim n message := by
  unfold commandedClaim Node.onCommandedAddress
  rw [h]
  rcases n.claimer.onCommandedAddress message.data with ⟨e | action, claimer⟩
  · rfl
  · cases action with
    | idle | announce => rfl

theorem messageTaken_congr [Bus β] {e e' : Ecu β BUF SESSIONS}
    (hclaimer : e'.node.claimer = e.node.claimer) (hfaults : e'.faults = e.faults)
    (hlevel : e'.obdCompliance = e.obdCompliance) (message : Message) (bus : β) :
    messageTaken e' message bus = messageTaken e message bus := by
  unfold messageTaken requestTaken answerTaken answerData broadcastTaken Node.hasAddress
    Node.claimState Node.address
  rw [commandedClaim_congr hclaimer, hclaimer, hfaults, hlevel]

/-! ## §3. The bus a program leaves behind. -/

/-- The bus a program leaves behind, if it returns. -/
def busOf : EStateM.Result Failure (Watched β BUF SESSIONS) α → Option β
  | .ok _ w => some w.bus
  | .error _ _ => none

/-- **Sequencing**: the second part is offered to the bus the first one
leaves behind. -/
theorem busOf_bind {x : Prog β BUF SESSIONS α} {f : α → Prog β BUF SESSIONS γ} {given : Option β}
    {rest : β → Option β} (hx : busOf (x w) = given)
    (hf : ∀ a w', x w = .ok a w' → busOf (f a w') = rest w'.bus) :
    busOf ((x >>= f) w) = given.bind rest := by
  rw [bind_run, ← hx]
  cases hrun : x w with
  | ok a w' => exact hf a w' hrun
  | error e w' => rfl

/-- What is returned does not matter. -/
theorem busOf_pure (x : Prog β BUF SESSIONS α) (c : γ) (w : Watched β BUF SESSIONS) :
    busOf ((x >>= fun _ => pure c) w) = busOf (x w) := by
  rw [bind_run]
  cases x w with
  | ok | error => rfl

theorem busOf_of_offers {given : Option β}
    {r : EStateM.Result Failure (Watched β BUF SESSIONS) Unit} (h : Offers given w r) :
    busOf r = given := by
  cases given with
  | some bus =>
    obtain ⟨w', rfl, rfl, -⟩ := h
    rfl
  | none =>
    obtain ⟨e, w', rfl, -⟩ := h
    rfl

variable [Bus β]

theorem busOf_sendFrames (frames : List Frame) (w : Watched β BUF SESSIONS) :
    busOf (frames.forM sendFrame w) = takes false true frames w.bus :=
  busOf_of_offers (offers_forM true frames w)

theorem busOf_sendFrame (f : Frame) (w : Watched β BUF SESSIONS) :
    busOf (sendFrame f w) = takes false true [f] w.bus := by
  rw [← busOf_sendFrames]
  exact (busOf_pure (sendFrame f) () w).symm

theorem busOf_sendEtpCm (destination : Address) (cm : EtpCm) (w : Watched β BUF SESSIONS) :
    busOf (sendEtpCm destination cm w)
      = takes false true (etpCmFrame w.node.address destination cm).toList w.bus := by
  obtain ⟨id, hid⟩ := Id.exists_fromParts .lowest destination w.node.address
    (show Pgn.etpCm.isPdu1 = true by decide)
  have hrun : sendEtpCm destination cm w
      = (valid (Id.fromParts .lowest .etpCm destination w.node.address) >>= fun id =>
          sendFrame (Frame.fromPayload id cm.encode)) w := rfl
  unfold etpCmFrame
  rw [hrun, hid]
  exact busOf_sendFrame (Frame.fromPayload id cm.encode) w

/-- Acting on an extended frame sends one message at most. -/
theorem busOf_actOnEtp (source : Address) (outcome : Etp.Rx) (w : Watched β BUF SESSIONS) :
    busOf (actOnEtp source outcome w)
      = takes false true ((replyOf outcome).bind (etpCmFrame w.node.address source)).toList
          w.bus := by
  cases outcome with
  | idle => rfl
  | send cm =>
    show busOf (((sendEtpCm source cm >>= fun _ => pure PUnit.unit) >>= fun _ => pure none) w) = _
    rw [busOf_pure, busOf_pure, busOf_sendEtpCm]
    rfl
  | message pgn src data ack =>
    let completed : Watched β BUF SESSIONS :=
      { w with log := w.log ++ [.completed ⟨pgn, src, data⟩] }
    show busOf (((sendEtpCm source ack >>= fun _ => pure PUnit.unit) >>= fun _ =>
      pure (some (⟨pgn, src, data⟩ : Message))) completed) = _
    rw [busOf_pure, busOf_pure, busOf_sendEtpCm]
    rfl

/-! ## §4. Acting on a message. -/

/-- Sending what an outgoing message puts out. -/
theorem busOf_pushFrames (paced : Bool) (bound : Nat) (first : Bool) (o : Outgoing)
    (w : Watched β BUF SESSIONS) :
    busOf (pushFrames paced bound first o w)
      = (emitTaken paced bound first o w.bus).map Prod.snd := by
  induction bound generalizing first o w with
  | zero => rfl
  | succ bound ih =>
    unfold pushFrames emitTaken
    cases hnext : o.nextFrame with
    | error p => rfl
    | ok x =>
      obtain ⟨_ | frame, o'⟩ := x
      · rfl
      · show busOf ((pause paced first >>= fun _ => sendFrame frame >>= fun _ =>
          pushFrames paced bound false o') w)
          = ((takes paced first [frame] w.bus).bind (emitTaken paced bound false o')).map Prod.snd
        rw [bind_ok (pause_run paced first w), Option.map_bind]
        exact busOf_bind (busOf_sendFrame frame _) fun _ w' _ => ih false o' w'

theorem busOf_broadcast (group : Pgn) (data : List UInt8) (priority : Priority)
    (w : Watched β BUF SESSIONS) :
    busOf (broadcastWithPriority group data priority w)
      = broadcastTaken w.node group data priority w.bus := by
  unfold broadcastTaken
  show busOf ((checkMayTransmit >>= fun _ => _) w) = _
  by_cases hheld : w.node.hasAddress = true
  · rw [if_pos hheld, bind_ok (checkMayTransmit_held hheld)]
    show busOf ((valid (Outgoing.new group w.node.address Address.global data) >>= fun _ => _) w)
      = _
    cases Outgoing.new group w.node.address Address.global data with
    | error e => rfl
    | ok o => exact busOf_pushFrames _ _ _ _ w
  · rw [if_neg hheld, bind_run, checkMayTransmit_silent hheld]
    rfl

theorem busOf_acknowledge (requester : Address) (ack : Acknowledgement)
    (w : Watched β BUF SESSIONS) :
    busOf (acknowledge requester ack w)
      = takes false true (acknowledgementFrame w.node.address requester ack).toList w.bus := by
  obtain ⟨id, hid⟩ := Id.exists_fromParts .default requester w.node.address
    (show Pgn.acknowledgement.isPdu1 = true by decide)
  have hrun : acknowledge requester ack w
      = (valid (Id.fromParts .default .acknowledgement requester w.node.address) >>= fun id =>
          sendFrame (Frame.fromPayload id ack.encode)) w := rfl
  unfold acknowledgementFrame
  rw [hrun, hid]
  exact busOf_sendFrame (Frame.fromPayload id ack.encode) w

/-- Answering a diagnostic request. -/
theorem busOf_answer (requester : Address) (group : Pgn) (w : Watched β BUF SESSIONS) :
    busOf (answerDiagnosticRequest requester ⟨group⟩ w)
      = answerTaken w.toEcu requester group w.bus := by
  unfold answerTaken
  dsimp only
  by_cases hreport : IsReport group
  · rw [if_pos hreport, answer_run hreport, busOf_pure]
    exact busOf_broadcast group _ .default w
  rw [if_neg hreport]
  simp only [IsReport, not_or] at hreport
  obtain ⟨hdm1, hdm2, hdm5⟩ := hreport
  unfold answerDiagnosticRequest
  rw [if_neg hdm1, if_neg hdm2, if_neg hdm5]
  by_cases hdm3 : group = .dm3
  · rw [if_pos hdm3, if_pos hdm3]
    let cleared : Watched β BUF SESSIONS :=
      { w with faults := w.faults.clearPreviouslyActive }
    show busOf ((acknowledge requester (Dm3.acknowledge w.node.address) >>= fun _ => pure true)
      cleared) = _
    rw [busOf_pure, busOf_acknowledge]
  rw [if_neg hdm3, if_neg hdm3]
  by_cases hdm11 : group = .dm11
  · rw [if_pos hdm11, if_pos hdm11]
    let cleared : Watched β BUF SESSIONS := { w with faults := w.faults.clearActive }
    show busOf ((acknowledge requester (Dm11.acknowledge w.node.address) >>= fun _ =>
      sendDm1 >>= fun _ => pure true) cleared) = _
    refine busOf_bind (busOf_acknowledge requester _ cleared) fun _ w' hrun => ?_
    have hsends := sends_acknowledge requester (Dm11.acknowledge w.node.address) cleared
    rw [hrun] at hsends
    have hsame : w' = { cleared with bus := w'.bus, log := w'.log } := hsends.same
    have hsent := busOf_broadcast .dm1 (reportData w'.faults) .default w'
    rw [hsame] at hsent ⊢
    rw [busOf_pure, sendDm1_run]
    exact hsent
  · rw [if_neg hdm11, if_neg hdm11]
    rfl

/-- Answering a message, if it is a request. -/
theorem busOf_obeyRequest (message : Message) (w : Watched β BUF SESSIONS) :
    busOf (obeyRequest message w) = requestTaken w.toEcu message w.bus := by
  have hget : (get : Prog β BUF SESSIONS _) w = .ok w w := rfl
  unfold obeyRequest requestTaken
  rw [bind_ok hget]
  by_cases hmine : message.pgn = .request ∧ w.node.hasAddress = true
  · rw [if_pos (by rw [hmine.2, decide_eq_true hmine.1]; rfl), if_pos hmine]
    cases hdecode : Request.decode message.data with
    | error e => rfl
    | ok request =>
      show busOf ((answerDiagnosticRequest message.source request >>= fun _ => pure ()) w) = _
      rw [busOf_pure]
      exact busOf_answer message.source request.pgn w
  · have hnot : ¬ (decide (message.pgn = .request) && w.node.hasAddress) = true := by
      rwa [Bool.and_eq_true, decide_eq_true_iff]
    rw [if_neg hnot, if_neg hmine]
    rfl

/-- Moving to a commanded address. -/
theorem busOf_obeyCommandedAddress (message : Message) (w : Watched β BUF SESSIONS) :
    busOf (obeyCommandedAddress message w)
      = takes false true (commandedClaim w.node message).toList w.bus := by
  unfold obeyCommandedAddress commandedClaim
  by_cases hmine : message.pgn = .commandedAddress
  · rw [if_pos hmine, if_pos hmine]
    rcases hmove : w.node.onCommandedAddress message.data with ⟨moved, n⟩
    rw [bind_ok (onNode_ok (a := moved) (n := n) (congrArg Except.ok hmove))]
    cases moved with
    | error e => rfl
    | ok claim =>
      cases claim with
      | none => rfl
      | some claim => exact busOf_sendFrame claim _
  · rw [if_neg hmine, if_neg hmine]
    rfl

/-- Acting on a message, whatever is returned then. -/
theorem busOf_obey (message : Message) (c : α) (w : Watched β BUF SESSIONS) :
    busOf ((obeyCommandedAddress message >>= fun _ => obeyDm13 message >>= fun _ =>
      obeyRequest message >>= fun _ => pure c) w) = messageTaken w.toEcu message w.bus := by
  refine busOf_bind (busOf_obeyCommandedAddress message w) fun _ w' hrun => ?_
  let heeded : Watched β BUF SESSIONS :=
    { w' with schedule := scheduleAfter message w'.schedule }
  show busOf ((obeyRequest message >>= fun _ => pure c) heeded) = _
  rw [busOf_pure, busOf_obeyRequest]
  show requestTaken w'.toEcu message w'.bus = _
  -- a commanded address is no request, and nothing else moves the node
  by_cases hmine : message.pgn = .commandedAddress
  · have hnot : message.pgn ≠ .request := by
      rw [hmine]
      decide
    unfold requestTaken
    rw [if_neg fun h => hnot h.1, if_neg fun h => hnot h.1]
  · have hsame : obeyCommandedAddress message w = .ok () w := by
      unfold obeyCommandedAddress
      rw [if_neg hmine]
      rfl
    cases hsame.symm.trans hrun
    rfl

/-! ## §5. Dispatching. -/

theorem busOf_actOnEvent (event : Event) (w : Watched β BUF SESSIONS) :
    busOf (actOnEvent event w) = (takes false true (frameOf event).toList w.bus).bind fun bus =>
      (passedOn event).elim (some bus) fun message => messageTaken w.toEcu message bus := by
  cases event with
  | idle => rfl
  | transmit reply =>
    show busOf ((sendFrame reply >>= fun _ => pure none) w)
      = (takes false true [reply] w.bus).bind some
    rw [busOf_pure, busOf_sendFrame, Option.bind_fun_some]
  | message pgn source data reply =>
    let message : Message := ⟨pgn, source, data⟩
    let taken : Watched β BUF SESSIONS := { w with log := w.log ++ [.completed message] }
    show busOf ((reply.toList.forM sendFrame >>= fun _ => obeyCommandedAddress message >>= fun _ =>
      obeyDm13 message >>= fun _ => obeyRequest message >>= fun _ => pure (some message)) taken) = _
    refine busOf_bind (busOf_sendFrames reply.toList taken) fun _ w' hrun => ?_
    have hsends : Moves (Sends fun _ _ => True)
        (reply.toList.forM sendFrame : Prog β BUF SESSIONS PUnit) :=
      Moves.forM fun _ _ _ => sends_frame trivial
    have hsame := hsends taken
    rw [hrun] at hsame
    have hw' : w' = { taken with bus := w'.bus, log := w'.log } := hsame.same
    rw [busOf_obey]
    show messageTaken w'.toEcu message w'.bus = messageTaken w.toEcu message w'.bus
    generalize w'.bus = bus at hw'
    rw [hw']
    rfl

/-- **Dispatching a frame returns exactly if the bus takes all that it is
offered.** -/
theorem busOf_dispatch (hwf : w.toEcu.WF) (f : Frame) :
    busOf (dispatch f w) = dispatchTaken w.toEcu f := by
  unfold dispatchTaken
  by_cases hext : IsExtended f
  · obtain ⟨r, hrun⟩ := dispatch_etp hwf.etp hext
    rw [if_pos hext, hrun, busOf_actOnEtp]
  · obtain ⟨n, hok, hclaimer⟩ := Node.onFrame_reaction hwf.node f
    have hnoted : noted f w = { w with inventory := (noted f w).inventory } :=
      (recordClaim_run f w).2
    rw [if_neg hext, dispatch_node hext hok, busOf_actOnEvent, hnoted]
    cases hevent : w.node.reaction f with
    | idle | transmit => rfl
    | message pgn source data reply =>
      let acted : Watched β BUF SESSIONS :=
        { w with inventory := (noted f w).inventory, node := n }
      have hsame : acted.node.claimer = w.node.claimer := hclaimer _ _ _ _ hevent
      refine congrArg (Option.bind _) (funext fun bus => ?_)
      exact messageTaken_congr hsame rfl rfl ⟨pgn, source, data⟩ bus

/-! ## §6. What is in hand afterwards. -/

omit [Bus β] in
/-- A message that is completed stays in hand while other things are
done. -/
theorem balances_complete (m : Message) (held : List Message) {x : Prog β BUF SESSIONS α}
    (hx : Moves (Idle books) x) (w : Watched β BUF SESSIONS) :
    Balances books held (m :: held) w (after ((complete m >>= fun _ => x) w)) := by
  have hcarries : Carries books held (complete m : Prog β BUF SESSIONS Unit) fun _ left =>
      left = m :: held := carries_complete m
  obtain ⟨left, rfl, hcomplete⟩ := hcarries w
  exact hcomplete.trans (hx { w with log := w.log ++ [.completed m] }).balances

theorem balances_actOnEvent (event : Event) (held : List Message) (w : Watched β BUF SESSIONS) :
    Balances books held ((passedOn event).toList ++ held) w (after (actOnEvent event w)) := by
  cases event with
  | idle => exact (Idle.refl w).balances
  | transmit reply =>
    have hidle : Moves (Idle books) (actOnEvent (.transmit reply)
        : Prog β BUF SESSIONS (Option Message)) :=
      (idle_sendFrame reply).bind fun _ => Moves.pure _
    exact (hidle w).balances
  | message pgn source data reply =>
    let m : Message := ⟨pgn, source, data⟩
    refine balances_complete m held ?_ w
    refine (Moves.forM fun f _ => idle_sendFrame f).bind fun _ => ?_
    refine ((obeys_commandedAddress m).weaken fun _ _ h => h.idle).bind fun _ => ?_
    refine ((obeys_dm13 m).weaken fun _ _ h => h.idle).bind fun _ => ?_
    exact ((obeys_request m).weaken fun _ _ h => h.idle).bind fun _ => Moves.pure _

theorem balances_actOnEtp (source : Address) (outcome : Etp.Rx) (held : List Message)
    (w : Watched β BUF SESSIONS) :
    Balances books held ((Replay.messageOf outcome).toList ++ held) w
      (after (actOnEtp source outcome w)) := by
  cases outcome with
  | idle => exact (Idle.refl w).balances
  | send cm =>
    have hidle : Moves (Idle books) (actOnEtp source (.send cm)
        : Prog β BUF SESSIONS (Option Message)) :=
      (Moves.pure _).bind fun _ => (Moves.forM fun cm _ => idle_etpCm source cm).bind fun _ =>
        Moves.pure _
    exact (hidle w).balances
  | message pgn src data ack =>
    refine balances_complete ⟨pgn, src, data⟩ held ?_ w
    exact (Moves.forM fun cm _ => idle_etpCm source cm).bind fun _ => Moves.pure _

/-- **What is in hand once a frame has been dispatched** is what the frame
completes, whether its reply was taken or not. -/
theorem balances_dispatch (hwf : w.toEcu.WF) (f : Frame) (held : List Message) :
    Balances books held ((completed w.toEcu f).toList ++ held) w (after (dispatch f w)) := by
  unfold completed
  by_cases hext : IsExtended f
  · obtain ⟨r, hrun⟩ := dispatch_etp hwf.etp hext
    have hidle : Idle books w { w with etp := r } := idle_of_same rfl rfl
    rw [if_pos hext, hrun]
    exact hidle.balances.trans (balances_actOnEtp _ _ held _)
  · obtain ⟨n, hok, -⟩ := Node.onFrame_reaction hwf.node f
    have hnoted : Idle books w { noted f w with node := n } := by
      rw [(recordClaim_run f w).2]
      exact idle_of_same rfl rfl
    rw [if_neg hext, dispatch_node hext hok]
    exact hnoted.balances.trans (balances_actOnEvent _ held _)

/-- That is what it returns. -/
theorem dispatch_value (hwf : w.toEcu.WF) {f : Frame} {m : Option Message}
    (h : dispatch f w = .ok m w') : m = completed w.toEcu f := by
  have hcarries : Carries books [] (dispatch f : Prog β BUF SESSIONS _) fun m left =>
      left = m.toList ++ [] := carries_dispatch f
  have hreturned := hcarries w
  have hbalances := balances_dispatch hwf f []
  rw [h] at hreturned hbalances
  obtain ⟨left, rfl, hleft⟩ := hreturned
  have hperm := hleft.left_perm hbalances
  rw [List.append_nil, List.append_nil] at hperm
  cases hm : completed w.toEcu f with
  | none =>
    rw [hm] at hperm
    exact Option.toList_eq_nil_iff.mp (List.perm_nil.mp hperm)
  | some message =>
    rw [hm] at hperm
    exact Option.toList_eq_singleton_iff.mp (List.perm_singleton.mp hperm)

end Host.Ecu

end SaeJ1939
