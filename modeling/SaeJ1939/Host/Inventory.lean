/-
  SaeJ1939.Host.Inventory — who else is on the bus.

  An ECU enters every Address Claimed it takes off the bus into its
  inventory, in whichever call the frame arrives: while polling, scanning,
  waiting for an answer, or in the middle of a transfer.  So the inventory
  says of each address who claimed it last, and a scan returns just that.

  Main results:
    * `enters_dispatch`, `enters_react` — a frame that has been received
      is entered, whatever it is received for.
    * `entered_call` — no call leaves a claim out, also if it fails.
    * `inventory_is_last_claims` — the inventory of every reachable state.
-/
import SaeJ1939.Lib.Ledger
import SaeJ1939.Host.Payloads

namespace SaeJ1939.Host.Ecu

open AddressClaim Checked Diagnostics Fallible Ledger

variable {β α : Type} {BUF SESSIONS : Nat} {w w' w'' : Watched β BUF SESSIONS}

/-! ## §1. Claims. -/

/-- The frames that are taken off the bus. -/
def receivedFrame : Happening BUF SESSIONS → Option Frame
  | .received f _ => some f
  | _ => none

/-- Who claims which address in a frame.  The null address is nobody's. -/
def claimIn (f : Frame) : Option (Address × Name) :=
  if f.pgn = .addressClaimed ∧ f.sourceAddress.isSpecific = true then
    some (f.sourceAddress, Name.fromBytes f.payload)
  else none

/-- The inventory, and the log it follows. -/
def inventoryOf : Ledger (Watched β BUF SESSIONS) (Happening BUF SESSIONS) Frame
    (Address → Option Name) where
  log w := w.log
  item := receivedFrame
  register w := w.inventory
  enter := enterAt claimIn

/-- Every claim that is received is entered. -/
abbrev Entered (w w' : Watched β BUF SESSIONS) : Prop := inventoryOf.Settles [] w w'

/-- Nothing is received, and the inventory stays. -/
theorem entered_of_silent {done : List (Happening BUF SESSIONS)} (hlog : w'.log = w.log ++ done)
    (hdone : ∀ h ∈ done, receivedFrame h = none) (hinventory : w'.inventory = w.inventory) :
    Entered w w' := by
  have howes : Owes inventoryOf [] w w' :=
    ⟨done, hlog, List.filterMap_eq_nil_iff.mpr hdone, hinventory⟩
  exact howes.nothing

theorem entered_of_same (hlog : w'.log = w.log) (hinventory : w'.inventory = w.inventory) :
    Entered w w' :=
  entered_of_silent (hlog.trans (List.append_nil _).symm) (fun _ h => absurd h List.not_mem_nil)
    hinventory

theorem entered_of_record {h : Happening BUF SESSIONS} (hh : receivedFrame h = none)
    (hlog : w'.log = w.log ++ [h]) (hinventory : w'.inventory = w.inventory) : Entered w w' :=
  entered_of_silent hlog (fun _ hx => List.mem_singleton.mp hx ▸ hh) hinventory

theorem Sends.entered {P : Option Address → Frame → Prop} (h : Sends P w w') : Entered w w' := by
  obtain ⟨done, hlog, hdone⟩ := h.log
  refine entered_of_silent hlog (fun x hx => ?_) (by rw [h.same])
  rcases hdone x hx with ⟨f, rfl, -⟩ | ⟨e, rfl⟩ <;> rfl

/-! ## §2. The parts of a method. -/

theorem entered_fail (e : Failure) : Moves Entered (fail e : Prog β BUF SESSIONS α) :=
  fun w => (sends_fail (P := fun _ _ => True) e w).entered

theorem entered_valid (x : Result α) : Moves Entered (valid x : Prog β BUF SESSIONS α) :=
  fun w => (sends_valid (P := fun _ _ => True) x w).entered

theorem entered_complete (m : Message) : Moves Entered (complete m : Prog β BUF SESSIONS Unit) :=
  fun _ => entered_of_record (h := .completed m) rfl rfl rfl

theorem entered_queue (m : Message) : Moves Entered (queue m : Prog β BUF SESSIONS Unit) :=
  fun _ => entered_of_record (h := .queued m) rfl rfl rfl

theorem entered_queueIfAny (m : Option Message) :
    Moves Entered (queueIfAny m : Prog β BUF SESSIONS Unit) := by
  cases m with
  | none => exact Moves.pure _
  | some m => exact entered_queue m

theorem entered_onNode (f : Node BUF SESSIONS → Exec (α × Node BUF SESSIONS)) :
    Moves Entered (onNode f : Prog β BUF SESSIONS α) := by
  intro w
  unfold onNode
  cases f w.node with
  | ok x => exact entered_of_same rfl rfl
  | error p => exact entered_fail _ w

theorem entered_onEtp (f : Etp.Reassembler etpBuffer 2 → Exec (α × Etp.Reassembler etpBuffer 2)) :
    Moves Entered (onEtp f : Prog β BUF SESSIONS α) := by
  intro w
  unfold onEtp
  cases f w.etp with
  | ok x => exact entered_of_same rfl rfl
  | error p => exact entered_fail _ w

theorem entered_dm13 (message : Message) :
    Moves Entered (obeyDm13 message : Prog β BUF SESSIONS Unit) := fun _ => entered_of_same rfl rfl

/-- **A claim is entered** when it is recorded. -/
theorem enters_recordClaim (f : Frame) (w : Watched β BUF SESSIONS) :
    inventoryOf.Settles [f] w (noted f w) := by
  refine ⟨[], ?_, ?_⟩
  · show (noted f w).log = w.log ++ []
    rw [(recordClaim_run f w).2, List.append_nil]
  · show (noted f w).inventory = enterAt claimIn w.inventory f
    unfold noted recordClaim enterAt claimIn
    split
    · rfl
    · rfl

section Methods

variable [Bus β]

theorem entered_now : Moves Entered (now : Prog β BUF SESSIONS Nat) :=
  fun _ => entered_of_same rfl rfl

theorem entered_sendFrame (f : Frame) : Moves Entered (sendFrame f : Prog β BUF SESSIONS Unit) :=
  fun _ => (sends_frame (P := fun _ _ => True) trivial).entered

theorem entered_drain (bound : Nat) (o : Outgoing) :
    Moves Entered (drain bound o : Prog β BUF SESSIONS Outgoing) :=
  fun _ => (sends_drain (P := fun _ _ => True) fun _ _ => trivial).entered

theorem entered_broadcast (group : Pgn) (data : List UInt8) (priority : Priority) :
    Moves Entered (broadcastWithPriority group data priority : Prog β BUF SESSIONS Unit) :=
  fun w => (sends_broadcast group data priority w).entered

theorem entered_dm1 : Moves Entered (sendDm1 : Prog β BUF SESSIONS Unit) :=
  fun w => (sends_dm1 w).entered

theorem entered_commandedAddress (message : Message) :
    Moves Entered (obeyCommandedAddress message : Prog β BUF SESSIONS Unit) := by
  unfold obeyCommandedAddress
  split
  · refine (entered_onNode _).bind fun answer => ?_
    cases answer with
    | error e => exact Moves.pure _
    | ok claim =>
      cases claim with
      | none => exact Moves.pure _
      | some claim => exact entered_sendFrame claim
  · exact Moves.pure _

theorem entered_diagnosticRequest (requester : Address) (request : Request) :
    Moves Entered (answerDiagnosticRequest requester request : Prog β BUF SESSIONS Bool) := by
  have hack : ∀ ack, Moves Entered (acknowledge requester ack : Prog β BUF SESSIONS Unit) :=
    fun ack w => (sends_acknowledge requester ack w).entered
  have hclear : ∀ f : FaultLog faultCapacity → FaultLog faultCapacity,
      Moves Entered (modify fun w => { w with faults := f w.faults } : Prog β BUF SESSIONS Unit) :=
    fun _ _ => entered_of_same rfl rfl
  unfold answerDiagnosticRequest
  split
  · exact entered_dm1.bind fun _ => Moves.pure _
  split
  · exact Moves.bind (fun w => (sends_dm2 w).entered) fun _ => Moves.pure _
  split
  · exact Moves.bind (fun w => (sends_dm5 w).entered) fun _ => Moves.pure _
  split
  · exact (hclear _).bind fun _ => Moves.get.bind fun w => (hack _).bind fun _ => Moves.pure _
  split
  · exact (hclear _).bind fun _ => Moves.get.bind fun w => (hack _).bind fun _ =>
      entered_dm1.bind fun _ => Moves.pure _
  · exact Moves.pure _

theorem entered_request (message : Message) :
    Moves Entered (obeyRequest message : Prog β BUF SESSIONS Unit) := by
  refine Moves.get.bind fun w => ?_
  split
  · cases Request.decode message.data with
    | ok request =>
      exact (entered_diagnosticRequest message.source request).bind fun _ => Moves.pure _
    | error e => exact Moves.pure _
  · exact Moves.pure _

theorem entered_actOnEvent (event : Event) :
    Moves Entered (actOnEvent event : Prog β BUF SESSIONS (Option Message)) := by
  cases event with
  | idle => exact Moves.pure _
  | transmit reply => exact (entered_sendFrame reply).bind fun _ => Moves.pure _
  | message pgn source data reply =>
    refine (entered_complete _).bind fun _ => ?_
    refine (Moves.forM fun f _ => entered_sendFrame f).bind fun _ => ?_
    refine (entered_commandedAddress _).bind fun _ => (entered_dm13 _).bind fun _ => ?_
    exact (entered_request _).bind fun _ => Moves.pure _

theorem entered_actOnEtp (source : Address) (outcome : Etp.Rx) :
    Moves Entered (actOnEtp source outcome : Prog β BUF SESSIONS (Option Message)) := by
  refine (Moves.forM fun m _ => entered_complete m).bind fun _ => ?_
  refine (Moves.forM fun cm _ w => (sends_etpCm source cm w).entered).bind fun _ => ?_
  exact Moves.pure _

theorem entered_dispatchEtp (f : Frame) :
    Moves Entered (dispatchEtp f : Prog β BUF SESSIONS (Option (Option Message))) := by
  have hact : ∀ outcome, Moves Entered (do
      return some (← actOnEtp f.sourceAddress outcome)
        : Prog β BUF SESSIONS (Option (Option Message))) :=
    fun outcome => (entered_actOnEtp f.sourceAddress outcome).bind fun _ => Moves.pure _
  unfold dispatchEtp
  split
  · exact Moves.pure _
  refine Moves.get.bind fun w => ?_
  split
  · exact Moves.pure _
  split
  · cases Etp.EtpCm.decode f.payload with
    | error e => exact Moves.pure _
    | ok cm => exact (entered_onEtp _).bind hact
  · exact (entered_onEtp _).bind hact

/-! ## §3. Frames off the bus. -/

/-- **Dispatching a frame enters the claim in it**, also if the dispatch
fails. -/
theorem enters_dispatch (f : Frame) (w : Watched β BUF SESSIONS) :
    inventoryOf.Settles [f] w (after (dispatch f w)) := by
  unfold dispatch
  rw [bind_ok (recordClaim_run f w).1]
  refine (enters_recordClaim f w).trans (((entered_dispatchEtp f).bind fun message => ?_) _)
  cases message with
  | some message => exact Moves.pure _
  | none => exact (entered_onNode _).bind entered_actOnEvent

/-- **So does reacting to a frame in a transfer**: the frames a transfer
takes for itself are no claims. -/
theorem enters_react (f : Frame) (o : Outgoing) (deadline : Nat)
    {again : Outgoing → Nat → Prog β BUF SESSIONS Unit} (h : ∀ o t, Moves Entered (again o t))
    (w : Watched β BUF SESSIONS) :
    inventoryOf.Settles [f] w (after (react f o deadline again w)) := by
  cases hheeds : o.heeds f with
  | false =>
    have hidle : exec (o.onFrame f) w = .ok (.idle, o) w := by
      rw [Outgoing.onFrame_not_heeded hheeds]
      rfl
    unfold react
    rw [bind_ok hidle]
    have hmore : ∀ m, Moves Entered (do
        queueIfAny m
        again o deadline : Prog β BUF SESSIONS Unit) :=
      fun m => (entered_queueIfAny m).bind fun _ => h o deadline
    have hdispatch := enters_dispatch f w
    show inventoryOf.Settles [f] w (after ((dispatch f >>= fun m => _) w))
    cases hrun : dispatch f w with
    | ok m w₁ =>
      rw [hrun] at hdispatch
      rw [bind_ok hrun]
      exact hdispatch.trans (hmore m w₁)
    | error e w₁ =>
      rw [hrun] at hdispatch
      rw [bind_error hrun]
      exact hdispatch
  | true =>
    obtain ⟨-, announced, -, told, tx, -, hpgn, -, -, -, -, htold, hon⟩ :=
      Outgoing.onFrame_heeded hheeds
    have hclaim : claimIn f = none := by
      unfold claimIn
      rw [hpgn, if_neg (fun h => absurd h.1 (by decide))]
    refine Ledger.Settles.of_idle (enterAt_of_none hclaim) ?_
    have hexec : exec (o.onFrame f) w
        = .ok (Outgoing.progressOf told, { o with state := .multi tx announced }) w := by
      rw [hon]
      rfl
    unfold react
    rw [bind_ok hexec]
    cases told with
    | idle => exact absurd rfl htold
    | sendData =>
      exact ((entered_drain _ _).bind fun o' => entered_now.bind fun t => h o' _) w
    | complete => exact Ledger.Settles.refl w
    | aborted reason => exact entered_fail _ w

/-- Receiving: what is taken off the bus is owed, and settled by what is
done with it. -/
theorem entered_recv {k : Option Frame → Prog β BUF SESSIONS α} (hnone : Moves Entered (k none))
    (hsome : ∀ f w, inventoryOf.Settles [f] w (after (k (some f) w))) :
    Moves Entered (recvFrame >>= k) := by
  intro w
  obtain ⟨bus, ⟨e, hrun⟩ | hrun | ⟨f, hrun⟩⟩ := recvFrame_cases w
  · rw [bind_error hrun]
    exact entered_of_record (h := .failed (.io e)) rfl rfl rfl
  · rw [bind_ok hrun]
    have hbus : Entered w { w with bus } := entered_of_same rfl rfl
    exact hbus.trans (hnone _)
  · rw [bind_ok hrun]
    have howes : Owes inventoryOf [f] w
        { w with bus, log := w.log ++ [.received f w.node] } := ⟨_, rfl, rfl, rfl⟩
    exact howes.settled (hsome f _)

theorem entered_handshake (destination : Address) (fuel : Nat) (o : Outgoing) (deadline : Nat) :
    Moves Entered (handshake destination fuel o deadline : Prog β BUF SESSIONS Unit) := by
  induction fuel generalizing o deadline with
  | zero => exact Moves.throw _
  | succ fuel ih =>
    unfold handshake
    split
    · exact Moves.pure _
    refine entered_now.bind fun t => ?_
    split
    · exact entered_fail _
    exact entered_recv (ih o deadline) fun f w => enters_react f o deadline ih w

theorem entered_sendTo (fuel : Nat) (destination : Address) (group : Pgn) (data : List UInt8) :
    Moves Entered (sendTo fuel destination group data : Prog β BUF SESSIONS Unit) := by
  unfold sendTo
  split
  · exact entered_broadcast group data .default
  refine Moves.bind (fun w => (sends_checkMayTransmit (P := fun _ _ => True) w).entered)
    fun _ => Moves.get.bind fun _ => ?_
  refine (entered_valid _).bind fun o => (entered_drain _ _).bind fun o' => ?_
  exact entered_now.bind fun t => entered_handshake _ _ _ _

theorem entered_receive : Moves Entered (receive : Prog β BUF SESSIONS (Option Message)) :=
  entered_recv (Moves.pure _) enters_dispatch

/-! ## §4. The calls. -/

theorem entered_sendDue (fuel bound : Nat) :
    Moves Entered (sendDue fuel bound : Prog β BUF SESSIONS Unit) := by
  induction bound with
  | zero => exact Moves.throw _
  | succ bound ih =>
    have hdue : Moves Entered (nextDue : Prog β BUF SESSIONS (Option Due)) :=
      fun _ => entered_of_same rfl rfl
    unfold sendDue
    refine hdue.bind fun due => ?_
    cases due with
    | none => exact Moves.pure _
    | some due =>
      refine Moves.get.bind fun w => ?_
      cases w.payloads (due.pgn, due.destination) with
      | none => exact ih
      | some x =>
        obtain ⟨payload, priority⟩ := x
        dsimp only
        split
        · exact (entered_broadcast _ _ _).bind fun _ => ih
        · exact (entered_sendTo _ _ _ _).bind fun _ => ih

theorem entered_elapsed : Moves Entered (elapsed : Prog β BUF SESSIONS Nat) := by
  refine entered_now.bind fun t => Moves.get.bind fun w => ?_
  dsimp only
  split
  · exact Moves.pure _
  · have htake : Moves Entered (modify fun w' => { w' with lastTick := (w.lastTick.tick t).2 }
        : Prog β BUF SESSIONS Unit) := fun _ => entered_of_same rfl rfl
    have htaken : ∀ ms, Moves Entered (record (.taken ms) : Prog β BUF SESSIONS Unit) :=
      fun ms _ => entered_of_record (h := .taken ms) rfl rfl rfl
    exact htake.bind fun _ => (htaken _).bind fun _ => Moves.pure _

theorem entered_tick (fuel : Nat) : Moves Entered (tick fuel : Prog β BUF SESSIONS Unit) := by
  refine entered_elapsed.bind fun elapsedMs => ?_
  split
  · exact Moves.pure _
  have hnode : Moves Entered (tickNode elapsedMs : Prog β BUF SESSIONS (List Frame)) :=
    fun _ => entered_of_record (h := .passed .node elapsedMs) rfl rfl rfl
  have hetp : Moves Entered (tickEtp elapsedMs
      : Prog β BUF SESSIONS (List Etp.Reassembler.Timeout)) :=
    fun _ => entered_of_record (h := .passed .etp elapsedMs) rfl rfl rfl
  have hfaults : Moves Entered (tickFaults elapsedMs : Prog β BUF SESSIONS Bool) :=
    fun _ => entered_of_record (h := .passed .faults elapsedMs) rfl rfl rfl
  have hschedule : Moves Entered (tickSchedule elapsedMs : Prog β BUF SESSIONS Unit) :=
    fun _ => entered_of_record (h := .passed .schedule elapsedMs) rfl rfl rfl
  have hreport : Moves Entered (report elapsedMs : Prog β BUF SESSIONS Unit) := by
    refine Moves.get.bind fun w => ?_
    split
    · refine hfaults.bind fun due => ?_
      split
      · exact entered_dm1
      · exact Moves.pure _
    · exact Moves.pure _
  have hpublish : Moves Entered (publish fuel elapsedMs : Prog β BUF SESSIONS Unit) := by
    refine Moves.get.bind fun w => ?_
    split
    · exact hschedule.bind fun _ => entered_sendDue _ _
    · exact Moves.pure _
  refine hnode.bind fun frames => (Moves.forM fun f _ => entered_sendFrame f).bind fun _ => ?_
  refine hetp.bind fun expired => ?_
  refine (Moves.forM fun x _ w => (sends_etpCm x.1 x.2 w).entered).bind fun _ => ?_
  exact hreport.bind fun _ => hpublish

theorem entered_pump (fuel : Nat) :
    Moves Entered (pump fuel : Prog β BUF SESSIONS (Option Message)) :=
  entered_receive.bind fun _ => (entered_tick fuel).bind fun _ => Moves.pure _

theorem entered_poll (fuel : Nat) :
    Moves Entered (poll fuel : Prog β BUF SESSIONS (Option Message)) := by
  refine Moves.get.bind fun w => ?_
  cases w.pending with
  | nil => exact entered_pump fuel
  | cons m pending => exact fun _ => entered_of_same rfl rfl

theorem entered_settle (giveUpAt fuel : Nat) :
    Moves Entered (settle giveUpAt fuel : Prog β BUF SESSIONS Unit) := by
  induction fuel with
  | zero => exact Moves.throw _
  | succ fuel ih =>
    refine entered_now.bind fun t => ?_
    split
    · refine Moves.get.bind fun w => ?_
      split
      · exact Moves.pure _
      · exact (entered_pump fuel).bind fun m => (entered_queueIfAny m).bind fun _ => ih
    · exact Moves.pure _

theorem entered_listen (deadline fuel : Nat) :
    Moves Entered (listen deadline fuel : Prog β BUF SESSIONS Unit) := by
  induction fuel with
  | zero => exact Moves.throw _
  | succ fuel ih =>
    refine entered_now.bind fun t => ?_
    split
    · exact (entered_pump fuel).bind fun m => (entered_queueIfAny m).bind fun _ => ih
    · exact Moves.pure _

theorem entered_await (destination : Address) (requested : Pgn) (deadline fuel : Nat) :
    Moves Entered (await destination requested deadline fuel : Prog β BUF SESSIONS Response) := by
  induction fuel with
  | zero => exact Moves.throw _
  | succ fuel ih =>
    refine entered_now.bind fun t => ?_
    split
    · refine (entered_pump fuel).bind fun m => ?_
      cases m with
      | none => exact ih
      | some m =>
        dsimp only
        cases answers destination requested m with
        | some response => exact Moves.pure _
        | none => exact (entered_queue m).bind fun _ => ih
    · exact Moves.pure _

theorem entered_scan (fuel duration : Nat) :
    Moves Entered (scan fuel duration : Prog β BUF SESSIONS (List (Address × Name))) := by
  refine Moves.bind (fun w => (sends_request Address.global .addressClaimed w).entered) fun _ => ?_
  refine entered_now.bind fun t => ?_
  exact (entered_listen _ fuel).bind fun _ => Moves.get.bind fun w => Moves.pure _

/-- **No call leaves a claim out**, whether it returns or fails. -/
theorem entered_call (fuel : Nat) (op : Op) :
    Moves Entered (call fuel op : Prog β BUF SESSIONS Unit) := by
  have hfail : ∀ (e : Failure) (w : Watched β BUF SESSIONS),
      Entered w (after ((fail e : Prog β BUF SESSIONS Unit) w)) := fun e w => entered_fail e w
  cases op with
  | claimAddress =>
    refine (entered_onNode _).bind fun claim => (entered_sendFrame claim).bind fun _ => ?_
    exact entered_now.bind fun t => entered_settle _ fuel
  | poll => exact (entered_poll fuel).bind fun _ => Moves.pure _
  | request destination requested => exact fun w => (sends_request destination requested w).entered
  | broadcastWithPriority group data priority => exact entered_broadcast group data priority
  | sendTo destination group data => exact entered_sendTo fuel destination group data
  | sendEvery group destination data period =>
    intro w
    show Entered w (after (sendEvery group destination data period w))
    rcases ecu_sendEvery_cases w group destination data period with ⟨-, e, hrun⟩ | ⟨-, -, hrun⟩
    · rw [hrun]
      exact hfail e w
    · rw [hrun]
      exact entered_of_same rfl rfl
  | setPeriodicPriority group destination priority =>
    intro w
    show Entered w (after (setPeriodicPriority group destination priority w))
    rcases setPeriodicPriority_cases w group destination priority with
      ⟨-, e, hrun⟩ | ⟨data, old, -, hrun⟩
    · rw [hrun]
      exact hfail e w
    · rw [hrun]
      exact entered_of_same rfl rfl
  | updatePeriodicTo group destination data =>
    intro w
    show Entered w (after (updatePeriodicTo group destination data w))
    rcases updatePeriodicTo_cases w group destination data with ⟨-, e, hrun⟩ | ⟨-, hrun⟩
    · rw [hrun]
      exact hfail e w
    · rw [hrun]
      exact entered_of_same rfl rfl
  | stopPeriodic | suspendBroadcasts | resumeBroadcasts | clearFault | faultsMut
  | setObdCompliance => exact fun _ => entered_of_same rfl rfl
  | setFault spn fmi lamp =>
    intro w
    have hset : Entered w { w with faults := (w.faults.set spn fmi lamp).2 } :=
      entered_of_same rfl rfl
    exact hset.trans (entered_valid _ _)
  | sendDm1 => exact entered_dm1
  | sendDm2 => exact fun w => (sends_dm2 w).entered
  | sendDm5 => exact fun w => (sends_dm5 w).entered
  | scan duration => exact (entered_scan fuel duration).bind fun _ => Moves.pure _
  | requestWait destination requested timeout =>
    refine Moves.bind ?_ fun _ => Moves.pure _
    refine Moves.bind (fun w => (sends_request destination requested w).entered) fun _ => ?_
    exact entered_now.bind fun _ => entered_await _ _ _ _

end Methods

/-! ## §5. The inventory. -/

/-- The NAMEs that claim an address, in the order they are heard. -/
def namesClaiming (a : Address) (frames : List Frame) : List Name :=
  (frames.filter fun f => f.pgn = .addressClaimed ∧ f.sourceAddress = a).map
    fun f => Name.fromBytes f.payload

/-- The frames an ECU has taken off the bus. -/
def receivedFrames (w : Watched β BUF SESSIONS) : List Frame := w.log.filterMap receivedFrame

theorem namesClaiming_cons (a : Address) (f : Frame) (frames : List Frame) :
    namesClaiming a (f :: frames)
      = (if f.pgn = .addressClaimed ∧ f.sourceAddress = a then [Name.fromBytes f.payload] else [])
        ++ namesClaiming a frames := by
  unfold namesClaiming
  rw [List.filter_cons]
  by_cases hclaim : f.pgn = .addressClaimed ∧ f.sourceAddress = a
  · rw [if_pos (decide_eq_true hclaim), if_pos hclaim]
    rfl
  · rw [if_neg (by rw [decide_eq_false hclaim]; exact Bool.false_ne_true), if_neg hclaim]
    rfl

/-- An address of an ECU is entered whenever it is claimed, and no other
is. -/
theorem valuesAt_claimIn (a : Address) (frames : List Frame) :
    valuesAt claimIn a frames = if a.isSpecific then namesClaiming a frames else [] := by
  induction frames with
  | nil => cases a.isSpecific <;> rfl
  | cons f frames ih =>
    rw [valuesAt_cons, ih, namesClaiming_cons]
    unfold claimIn
    by_cases hclaim : f.pgn = .addressClaimed ∧ f.sourceAddress = a
    · obtain ⟨hpgn, rfl⟩ := hclaim
      have hnames : (if f.pgn = .addressClaimed ∧ f.sourceAddress = f.sourceAddress then
          [Name.fromBytes f.payload] else []) = [Name.fromBytes f.payload] := if_pos ⟨hpgn, rfl⟩
      rw [hnames]
      cases hspecific : f.sourceAddress.isSpecific with
      | false =>
        rw [if_neg (fun h => absurd h.2 Bool.false_ne_true)]
        rfl
      | true =>
        rw [if_pos ⟨hpgn, rfl⟩]
        show (if _ = f.sourceAddress then _ else none : Option Name).toList ++ _ = _
        rw [if_pos rfl]
        rfl
    · have hnames : (if f.pgn = .addressClaimed ∧ f.sourceAddress = a then
          [Name.fromBytes f.payload] else []) = [] := if_neg hclaim
      rw [hnames]
      have hother : ((if f.pgn = .addressClaimed ∧ f.sourceAddress.isSpecific = true then
          some (f.sourceAddress, Name.fromBytes f.payload) else none).bind
          fun x => if x.1 = a then some x.2 else none) = none := by
        split
        next h => exact if_neg fun ha => hclaim ⟨h.1, ha⟩
        next => rfl
      rw [hother]
      rfl

section Runs

variable [Bus β]

/-- **The inventory follows the log** in every reachable state. -/
theorem Reachable.upToDate {name : Name} {preferred : Address}
    (h : Reachable name preferred w) : UpToDate inventoryOf (fun _ => none) w := by
  induction h with
  | new bus => rfl
  | call hw fuel op ih => exact ih.settled (entered_call fuel op _)
  | bus hw bus ih => exact ih

omit [Bus β] in
theorem inventory_eq (h : UpToDate inventoryOf (fun _ => none) w) (a : Address) :
    w.inventory a
      = if a.isSpecific then (namesClaiming a (receivedFrames w)).getLast? else none := by
  have hvalues := foldl_update_apply claimIn (receivedFrames w) (fun _ => none) a
  rw [valuesAt_claimIn, Option.or_none] at hvalues
  refine (congrFun h a).trans (hvalues.trans ?_)
  cases a.isSpecific <;> rfl

omit [Bus β] in
theorem mem_inventoryList {x : Address × Name} :
    x ∈ inventoryList w ↔ w.inventory x.1 = some x.2 := by
  obtain ⟨a, name⟩ := x
  unfold inventoryList
  rw [List.mem_filterMap]
  constructor
  · rintro ⟨i, -, hi⟩
    rw [Option.map_eq_some_iff] at hi
    obtain ⟨n, hn, hsame⟩ := hi
    rw [Prod.mk.injEq] at hsame
    obtain ⟨rfl, rfl⟩ := hsame
    exact hn
  · intro h
    refine ⟨a.asU8, List.mem_range.mpr a.asU8_lt, ?_⟩
    rw [Address.ofNat_asU8, show w.inventory a = some name from h]
    rfl

omit [Bus β] in
/-- The inventory is listed in address order, each address once. -/
theorem inventoryList_sorted (w : Watched β BUF SESSIONS) :
    (inventoryList w).Pairwise fun x y => x.1.asU8 < y.1.asU8 := by
  unfold inventoryList
  rw [List.pairwise_filterMap]
  refine List.Pairwise.imp_of_mem ?_ (List.pairwise_lt_range (n := 256))
  intro i j hi hj hlt x hx y hy
  rw [Option.map_eq_some_iff] at hx hy
  obtain ⟨n, -, rfl⟩ := hx
  obtain ⟨n', -, rfl⟩ := hy
  dsimp only
  rw [List.mem_range] at hi hj
  rw [Address.asU8_ofNat, Address.asU8_ofNat, Nat.mod_eq_of_lt hi, Nat.mod_eq_of_lt hj]
  exact hlt

/-- **The inventory says who claimed each address last**, after any calls,
with any bus, and also if calls failed; no address of nobody is in it.  A
scan returns that, in address order, with the claims heard up to its end. -/
theorem inventory_is_last_claims {name : Name} {preferred : Address}
    (hreach : Reachable name preferred w) :
    (∀ a, w.inventory a
        = if a.isSpecific then (namesClaiming a (receivedFrames w)).getLast? else none)
      ∧ ∀ fuel duration found w', scan fuel duration w = .ok found w' →
        ∃ frames, receivedFrames w' = receivedFrames w ++ frames
          ∧ found.Pairwise (fun x y => x.1.asU8 < y.1.asU8)
          ∧ ∀ a n, (a, n) ∈ found ↔ a.isSpecific = true
            ∧ (namesClaiming a (receivedFrames w ++ frames)).getLast? = some n := by
  refine ⟨inventory_eq hreach.upToDate, fun fuel duration found w' hscan => ?_⟩
  have hentered := entered_scan fuel duration w
  have hdate := hreach.upToDate.settled hentered
  rw [hscan, after_ok] at hentered hdate
  obtain ⟨done, hlog, -⟩ := hentered
  -- a scan ends by listing the inventory
  have hfound : found = inventoryList w' := by
    obtain ⟨-, w₁, -, h⟩ := of_bind_ok hscan
    obtain ⟨t, w₂, -, h⟩ := of_bind_ok h
    obtain ⟨-, w₃, -, h⟩ := of_bind_ok h
    cases h
    rfl
  have hreceived : receivedFrames w' = receivedFrames w ++ done.filterMap receivedFrame := by
    show w'.log.filterMap receivedFrame = _
    rw [show w'.log = w.log ++ done from hlog, List.filterMap_append]
    rfl
  refine ⟨_, hreceived, hfound ▸ inventoryList_sorted w', fun a n => ?_⟩
  rw [hfound, mem_inventoryList]
  dsimp only
  rw [inventory_eq hdate a, hreceived]
  cases a.isSpecific with
  | false => simp
  | true => simp

end Runs

/-- An address that is claimed by one ECU and then by another, and a claim
from the null address. -/
def threeClaims : FakeBus :=
  ⟨[addressClaimFrame ⟨5⟩ ⟨7⟩, addressClaimFrame ⟨5⟩ ⟨8⟩, addressClaimFrame Address.null ⟨9⟩],
    [], 0, 0⟩

/-- An ECU that has heard them. -/
def heardThree : Watched FakeBus 64 2 :=
  after (call 4 .poll (after (call 4 .poll (after (call 4 .poll
    ⟨Ecu.new threeClaims ⟨2⟩ ⟨0xF9⟩, []⟩)))))

/-- The later claim stands, and the null address is nobody's. -/
theorem inventory_is_last_claims_of_three :
    heardThree.inventory ⟨5⟩ = some ⟨8⟩ ∧ heardThree.inventory Address.null = none := by
  have hreach : Reachable ⟨2⟩ ⟨0xF9⟩ heardThree :=
    (((Reachable.new threeClaims).call 4 .poll).call 4 .poll).call 4 .poll
  obtain ⟨hinventory, -⟩ := inventory_is_last_claims hreach
  constructor
  · rw [hinventory]
    decide +kernel
  · rw [hinventory]
    rfl

end SaeJ1939.Host.Ecu
