/-
  SaeJ1939.Host.Payloads — every scheduled message has a payload.

  What is sent, and when, is kept in two places: the schedule, which knows
  no payloads, and a map beside it.  Four calls write both, one after the
  other and with early returns between; nothing else an ECU does touches
  the map or what is registered.

  Main results:
    * `untouched_poll` — receiving, sending and letting time pass leave
      the payloads and what is registered alone.
    * `Reachable.covered` — the messages with a payload are those the
      schedule has registered.
    * `refused_iff` — which calls fail; they change neither.
    * `pollOr_eq` — no message that is due lacks its payload.
    * `payloads_matched` — all of it, in every reachable state.
-/
import SaeJ1939.Host.Clocks
import SaeJ1939.Schedule.Suspension

namespace SaeJ1939.Host.Ecu

open AddressClaim Checked Diagnostics Fallible

variable {β α : Type} {BUF SESSIONS : Nat} {w w' w'' : Watched β BUF SESSIONS}

/-! ## §1. What leaves the schedule and its payloads alone. -/

/-- The messages the schedule has registered. -/
def registered (w : Watched β BUF SESSIONS) : List Schedule.Key :=
  w.schedule.entries.map Schedule.Entry.key

/-- No payload changes, and nothing is registered or removed. -/
structure Untouched (w w' : Watched β BUF SESSIONS) : Prop where
  payloads : w'.payloads = w.payloads
  registered : registered w' = registered w

instance : IsPreorder (Watched β BUF SESSIONS) Untouched where
  refl _ := ⟨rfl, rfl⟩
  trans _ _ _ h h' := ⟨h'.payloads.trans h.payloads, h'.registered.trans h.registered⟩

theorem Sends.untouched {P : Option Address → Frame → Prop} (h : Sends P w w') :
    Untouched w w' := by
  rw [h.same]
  exact ⟨rfl, rfl⟩

theorem untouched_fail (e : Failure) : Moves Untouched (fail e : Prog β BUF SESSIONS α) :=
  fun _ => ⟨rfl, rfl⟩

theorem untouched_exec (x : Exec α) : Moves Untouched (exec x : Prog β BUF SESSIONS α) :=
  fun w => (sends_exec (P := fun _ _ => True) x w).untouched

theorem untouched_valid (x : Result α) : Moves Untouched (valid x : Prog β BUF SESSIONS α) :=
  fun w => (sends_valid (P := fun _ _ => True) x w).untouched

theorem untouched_record (h : Happening BUF SESSIONS) :
    Moves Untouched (record h : Prog β BUF SESSIONS Unit) := fun _ => ⟨rfl, rfl⟩

theorem untouched_queue (m : Message) : Moves Untouched (queue m : Prog β BUF SESSIONS Unit) :=
  fun _ => ⟨rfl, rfl⟩

theorem untouched_queueIfAny (m : Option Message) :
    Moves Untouched (queueIfAny m : Prog β BUF SESSIONS Unit) := by
  cases m with
  | none => exact Moves.pure _
  | some m => exact untouched_queue m

theorem untouched_onNode (f : Node BUF SESSIONS → Exec (α × Node BUF SESSIONS)) :
    Moves Untouched (onNode f : Prog β BUF SESSIONS α) := by
  intro w
  unfold onNode
  cases f w.node with
  | ok x => exact ⟨rfl, rfl⟩
  | error p => exact untouched_fail _ w

theorem untouched_onEtp (f : Etp.Reassembler etpBuffer 2 → Exec (α × Etp.Reassembler etpBuffer 2)) :
    Moves Untouched (onEtp f : Prog β BUF SESSIONS α) := by
  intro w
  unfold onEtp
  cases f w.etp with
  | ok x => exact ⟨rfl, rfl⟩
  | error p => exact untouched_fail _ w

theorem untouched_recordClaim (f : Frame) :
    Moves Untouched (recordClaim f : Prog β BUF SESSIONS Unit) := by
  intro w
  obtain ⟨hrun, hsame⟩ := recordClaim_run f w
  rw [hrun, after_ok, hsame]
  exact ⟨rfl, rfl⟩

/-- A change of the schedule that registers nothing and removes nothing. -/
theorem untouched_schedule {s : Schedule scheduleCapacity}
    (h : s.entries.map Schedule.Entry.key = registered w) :
    Untouched w { w with schedule := s } := ⟨rfl, h⟩

theorem untouched_nextDue : Moves Untouched (nextDue : Prog β BUF SESSIONS (Option Due)) :=
  fun w => untouched_schedule (Schedule.keys_nextDue w.schedule)

theorem untouched_tickSchedule (elapsedMs : Nat) :
    Moves Untouched (tickSchedule elapsedMs : Prog β BUF SESSIONS Unit) :=
  fun w => ⟨rfl, Schedule.keys_tick w.schedule elapsedMs⟩

theorem untouched_dm13 (message : Message) :
    Moves Untouched (obeyDm13 message : Prog β BUF SESSIONS Unit) := by
  intro w
  refine untouched_schedule ?_
  rcases scheduleAfter_cases message w.schedule with heq | heq | heq <;> rw [heq]
  · exact Schedule.keys_suspend _ _
  · rfl
  · rfl

/-! ## §2. Receiving and sending. -/

variable [Bus β]

theorem untouched_now : Moves Untouched (now : Prog β BUF SESSIONS Nat) := fun _ => ⟨rfl, rfl⟩

theorem untouched_sendFrame (f : Frame) :
    Moves Untouched (sendFrame f : Prog β BUF SESSIONS Unit) :=
  fun _ => (sends_frame (P := fun _ _ => True) trivial).untouched

theorem untouched_recvFrame : Moves Untouched (recvFrame : Prog β BUF SESSIONS (Option Frame)) := by
  intro w
  obtain ⟨bus, ⟨e, hrun⟩ | hrun | ⟨f, hrun⟩⟩ := recvFrame_cases w <;> rw [hrun] <;>
    exact ⟨rfl, rfl⟩

theorem untouched_drain (bound : Nat) (o : Outgoing) :
    Moves Untouched (drain bound o : Prog β BUF SESSIONS Outgoing) :=
  fun _ => (sends_drain (P := fun _ _ => True) fun _ _ => trivial).untouched

theorem untouched_broadcast (group : Pgn) (data : List UInt8) (priority : Priority) :
    Moves Untouched (broadcastWithPriority group data priority : Prog β BUF SESSIONS Unit) :=
  fun w => (sends_broadcast group data priority w).untouched

theorem untouched_dm1 : Moves Untouched (sendDm1 : Prog β BUF SESSIONS Unit) :=
  fun w => (sends_dm1 w).untouched

theorem untouched_commandedAddress (message : Message) :
    Moves Untouched (obeyCommandedAddress message : Prog β BUF SESSIONS Unit) := by
  unfold obeyCommandedAddress
  split
  · refine (untouched_onNode _).bind fun answer => ?_
    cases answer with
    | error e => exact Moves.pure _
    | ok claim =>
      cases claim with
      | none => exact Moves.pure _
      | some claim => exact untouched_sendFrame claim
  · exact Moves.pure _

theorem untouched_diagnosticRequest (requester : Address) (request : Request) :
    Moves Untouched (answerDiagnosticRequest requester request : Prog β BUF SESSIONS Bool) := by
  have hack : ∀ ack, Moves Untouched (acknowledge requester ack : Prog β BUF SESSIONS Unit) :=
    fun ack w => (sends_acknowledge requester ack w).untouched
  have hclear : ∀ f : FaultLog faultCapacity → FaultLog faultCapacity,
      Moves Untouched (modify fun w => { w with faults := f w.faults }
        : Prog β BUF SESSIONS Unit) := fun _ _ => ⟨rfl, rfl⟩
  unfold answerDiagnosticRequest
  split
  · exact untouched_dm1.bind fun _ => Moves.pure _
  split
  · exact Moves.bind (fun w => (sends_dm2 w).untouched) fun _ => Moves.pure _
  split
  · exact Moves.bind (fun w => (sends_dm5 w).untouched) fun _ => Moves.pure _
  split
  · exact (hclear _).bind fun _ => Moves.get.bind fun w => (hack _).bind fun _ => Moves.pure _
  split
  · exact (hclear _).bind fun _ => Moves.get.bind fun w => (hack _).bind fun _ =>
      untouched_dm1.bind fun _ => Moves.pure _
  · exact Moves.pure _

theorem untouched_request (message : Message) :
    Moves Untouched (obeyRequest message : Prog β BUF SESSIONS Unit) := by
  refine Moves.get.bind fun w => ?_
  split
  · cases Request.decode message.data with
    | ok request =>
      exact (untouched_diagnosticRequest message.source request).bind fun _ => Moves.pure _
    | error e => exact Moves.pure _
  · exact Moves.pure _

theorem untouched_actOnEvent (event : Event) :
    Moves Untouched (actOnEvent event : Prog β BUF SESSIONS (Option Message)) := by
  cases event with
  | idle => exact Moves.pure _
  | transmit reply => exact (untouched_sendFrame reply).bind fun _ => Moves.pure _
  | message pgn source data reply =>
    refine (untouched_record _).bind fun _ => ?_
    refine (Moves.forM fun f _ => untouched_sendFrame f).bind fun _ => ?_
    refine (untouched_commandedAddress _).bind fun _ => (untouched_dm13 _).bind fun _ => ?_
    exact (untouched_request _).bind fun _ => Moves.pure _

theorem untouched_actOnEtp (source : Address) (outcome : Etp.Rx) :
    Moves Untouched (actOnEtp source outcome : Prog β BUF SESSIONS (Option Message)) := by
  refine (Moves.forM fun m _ => untouched_record _).bind fun _ => ?_
  refine (Moves.forM fun cm _ w => (sends_etpCm source cm w).untouched).bind fun _ => ?_
  exact Moves.pure _

theorem untouched_dispatchEtp (f : Frame) :
    Moves Untouched (dispatchEtp f : Prog β BUF SESSIONS (Option (Option Message))) := by
  have hact : ∀ outcome, Moves Untouched (do
      return some (← actOnEtp f.sourceAddress outcome)
        : Prog β BUF SESSIONS (Option (Option Message))) :=
    fun outcome => (untouched_actOnEtp f.sourceAddress outcome).bind fun _ => Moves.pure _
  unfold dispatchEtp
  split
  · exact Moves.pure _
  refine Moves.get.bind fun w => ?_
  split
  · exact Moves.pure _
  split
  · cases Etp.EtpCm.decode f.payload with
    | error e => exact Moves.pure _
    | ok cm => exact (untouched_onEtp _).bind hact
  · exact (untouched_onEtp _).bind hact

theorem untouched_dispatch (f : Frame) :
    Moves Untouched (dispatch f : Prog β BUF SESSIONS (Option Message)) := by
  refine (untouched_recordClaim f).bind fun _ => (untouched_dispatchEtp f).bind fun message => ?_
  cases message with
  | some message => exact Moves.pure _
  | none => exact (untouched_onNode _).bind untouched_actOnEvent

theorem untouched_react (f : Frame) (o : Outgoing) (deadline : Nat)
    {again : Outgoing → Nat → Prog β BUF SESSIONS Unit} (h : ∀ o t, Moves Untouched (again o t)) :
    Moves Untouched (react f o deadline again) := by
  refine (untouched_exec _).bind fun x => ?_
  obtain ⟨progress, o'⟩ := x
  cases progress with
  | ready =>
    refine (untouched_drain _ _).bind fun o'' => ?_
    exact untouched_now.bind fun t => h o'' _
  | complete => exact Moves.pure _
  | aborted reason => exact untouched_fail _
  | idle =>
    refine (untouched_dispatch f).bind fun m => ?_
    exact (untouched_queueIfAny m).bind fun _ => h o' deadline

theorem untouched_handshake (destination : Address) (fuel : Nat) (o : Outgoing) (deadline : Nat) :
    Moves Untouched (handshake destination fuel o deadline : Prog β BUF SESSIONS Unit) := by
  induction fuel generalizing o deadline with
  | zero => exact Moves.throw _
  | succ fuel ih =>
    unfold handshake
    split
    · exact Moves.pure _
    refine untouched_now.bind fun t => ?_
    split
    · exact untouched_fail _
    refine untouched_recvFrame.bind fun frame => ?_
    cases frame with
    | none => exact ih o deadline
    | some f => exact untouched_react f o deadline ih

theorem untouched_sendTo (fuel : Nat) (destination : Address) (group : Pgn) (data : List UInt8) :
    Moves Untouched (sendTo fuel destination group data : Prog β BUF SESSIONS Unit) := by
  unfold sendTo
  split
  · exact untouched_broadcast group data .default
  refine Moves.bind (fun w => (sends_checkMayTransmit (P := fun _ _ => True) w).untouched)
    fun _ => Moves.get.bind fun _ => ?_
  refine (untouched_valid _).bind fun o => (untouched_drain _ _).bind fun o' => ?_
  exact untouched_now.bind fun t => untouched_handshake _ _ _ _

theorem untouched_sendDue (fuel bound : Nat) :
    Moves Untouched (sendDue fuel bound : Prog β BUF SESSIONS Unit) := by
  induction bound with
  | zero => exact Moves.throw _
  | succ bound ih =>
    unfold sendDue
    refine untouched_nextDue.bind fun due => ?_
    cases due with
    | none => exact Moves.pure _
    | some due =>
      refine Moves.get.bind fun w => ?_
      cases w.payloads (due.pgn, due.destination) with
      | none => exact ih
      | some x =>
        obtain ⟨payload, priority⟩ := x
        dsimp only
        split
        · exact (untouched_broadcast _ _ _).bind fun _ => ih
        · exact (untouched_sendTo _ _ _ _).bind fun _ => ih

/-! ## §3. Letting time pass. -/

theorem untouched_elapsed : Moves Untouched (elapsed : Prog β BUF SESSIONS Nat) := by
  refine untouched_now.bind fun t => Moves.get.bind fun w => ?_
  dsimp only
  split
  · exact Moves.pure _
  · have htake : Moves Untouched (modify fun w' => { w' with lastTick := (w.lastTick.tick t).2 }
        : Prog β BUF SESSIONS Unit) := fun _ => ⟨rfl, rfl⟩
    exact htake.bind fun _ => (untouched_record _).bind fun _ => Moves.pure _

theorem untouched_report (elapsedMs : Nat) :
    Moves Untouched (report elapsedMs : Prog β BUF SESSIONS Unit) := by
  refine Moves.get.bind fun w => ?_
  split
  · have htick : Moves Untouched (tickFaults elapsedMs : Prog β BUF SESSIONS Bool) :=
      fun _ => ⟨rfl, rfl⟩
    refine htick.bind fun due => ?_
    split
    · exact untouched_dm1
    · exact Moves.pure _
  · exact Moves.pure _

theorem untouched_publish (fuel elapsedMs : Nat) :
    Moves Untouched (publish fuel elapsedMs : Prog β BUF SESSIONS Unit) := by
  refine Moves.get.bind fun w => ?_
  split
  · exact (untouched_tickSchedule elapsedMs).bind fun _ => untouched_sendDue _ _
  · exact Moves.pure _

/-- What comes before the schedule is advanced. -/
theorem untouched_pass_of {elapsedMs : Nat} {y : Prog β BUF SESSIONS Unit}
    (hy : Moves Untouched y) : Moves Untouched (do
      (← tickNode elapsedMs).forM sendFrame
      (← tickEtp elapsedMs).forM fun (peer, abort) => sendEtpCm peer abort
      report elapsedMs
      y : Prog β BUF SESSIONS Unit) := by
  have hnode : Moves Untouched (tickNode elapsedMs : Prog β BUF SESSIONS (List Frame)) :=
    fun _ => ⟨rfl, rfl⟩
  have hetp : Moves Untouched (tickEtp elapsedMs
      : Prog β BUF SESSIONS (List Etp.Reassembler.Timeout)) := fun _ => ⟨rfl, rfl⟩
  refine hnode.bind fun frames => (Moves.forM fun f _ => untouched_sendFrame f).bind fun _ => ?_
  refine hetp.bind fun expired => ?_
  refine (Moves.forM fun x _ w => (sends_etpCm x.1 x.2 w).untouched).bind fun _ => ?_
  exact (untouched_report elapsedMs).bind fun _ => hy

theorem untouched_pass (fuel elapsedMs : Nat) :
    Moves Untouched (pass fuel elapsedMs : Prog β BUF SESSIONS Unit) :=
  untouched_pass_of (untouched_publish fuel elapsedMs)

theorem untouched_tick (fuel : Nat) : Moves Untouched (tick fuel : Prog β BUF SESSIONS Unit) := by
  refine untouched_elapsed.bind fun elapsedMs => ?_
  split
  · exact Moves.pure _
  · exact untouched_pass fuel elapsedMs

theorem untouched_receive : Moves Untouched (receive : Prog β BUF SESSIONS (Option Message)) := by
  refine untouched_recvFrame.bind fun frame => ?_
  cases frame with
  | none => exact Moves.pure _
  | some f => exact untouched_dispatch f

theorem untouched_pump (fuel : Nat) :
    Moves Untouched (pump fuel : Prog β BUF SESSIONS (Option Message)) :=
  untouched_receive.bind fun _ => (untouched_tick fuel).bind fun _ => Moves.pure _

/-- **Polling leaves the payloads and what is registered alone.** -/
theorem untouched_poll (fuel : Nat) :
    Moves Untouched (poll fuel : Prog β BUF SESSIONS (Option Message)) := by
  refine Moves.get.bind fun w => ?_
  cases w.pending with
  | nil => exact untouched_pump fuel
  | cons m pending => exact fun _ => ⟨rfl, rfl⟩

/-! ## §4. The other calls. -/

theorem untouched_settle (giveUpAt fuel : Nat) :
    Moves Untouched (settle giveUpAt fuel : Prog β BUF SESSIONS Unit) := by
  induction fuel with
  | zero => exact Moves.throw _
  | succ fuel ih =>
    refine untouched_now.bind fun t => ?_
    split
    · refine Moves.get.bind fun w => ?_
      split
      · exact Moves.pure _
      · refine (untouched_pump fuel).bind fun m => ?_
        exact (untouched_queueIfAny m).bind fun _ => ih
    · exact Moves.pure _

theorem untouched_listen (deadline fuel : Nat) :
    Moves Untouched (listen deadline fuel : Prog β BUF SESSIONS Unit) := by
  induction fuel with
  | zero => exact Moves.throw _
  | succ fuel ih =>
    refine untouched_now.bind fun t => ?_
    split
    · exact (untouched_pump fuel).bind fun m => (untouched_queueIfAny m).bind fun _ => ih
    · exact Moves.pure _

theorem untouched_await (destination : Address) (requested : Pgn) (deadline fuel : Nat) :
    Moves Untouched (await destination requested deadline fuel
      : Prog β BUF SESSIONS Response) := by
  induction fuel with
  | zero => exact Moves.throw _
  | succ fuel ih =>
    refine untouched_now.bind fun t => ?_
    split
    · refine (untouched_pump fuel).bind fun m => ?_
      cases m with
      | none => exact ih
      | some m =>
        dsimp only
        cases answers destination requested m with
        | some response => exact Moves.pure _
        | none => exact (untouched_queue m).bind fun _ => ih
    · exact Moves.pure _

/-- The message a call registers, updates or stops. -/
def Op.periodicKey : Op → Option Schedule.Key
  | .sendEvery group destination _ _ => some (group, destination)
  | .setPeriodicPriority group destination _ => some (group, destination)
  | .updatePeriodicTo group destination _ => some (group, destination)
  | .stopPeriodic group destination => some (group, destination)
  | _ => none

/-- **Every other call** leaves the payloads and what is registered
alone. -/
theorem untouched_call (fuel : Nat) {op : Op} (hop : op.periodicKey = none) :
    Moves Untouched (call fuel op : Prog β BUF SESSIONS Unit) := by
  have hrequest : ∀ destination requested, Moves Untouched (request destination requested
      : Prog β BUF SESSIONS Unit) :=
    fun destination requested w => (sends_request destination requested w).untouched
  cases op with
  | sendEvery | setPeriodicPriority | updatePeriodicTo | stopPeriodic => cases hop
  | claimAddress =>
    refine (untouched_onNode _).bind fun claim => (untouched_sendFrame claim).bind fun _ => ?_
    exact untouched_now.bind fun t => untouched_settle _ fuel
  | poll => exact (untouched_poll fuel).bind fun _ => Moves.pure _
  | request destination requested => exact hrequest destination requested
  | broadcastWithPriority group data priority => exact untouched_broadcast group data priority
  | sendTo destination group data => exact untouched_sendTo fuel destination group data
  | suspendBroadcasts timeout =>
    exact fun w => untouched_schedule (Schedule.keys_suspend w.schedule _)
  | resumeBroadcasts | clearFault | faultsMut | setObdCompliance => exact fun _ => ⟨rfl, rfl⟩
  | setFault spn fmi lamp =>
    intro w
    have hset : Untouched w { w with faults := (w.faults.set spn fmi lamp).2 } := ⟨rfl, rfl⟩
    exact trans_of Untouched hset (untouched_valid _ _)
  | sendDm1 => exact untouched_dm1
  | sendDm2 => exact fun w => (sends_dm2 w).untouched
  | sendDm5 => exact fun w => (sends_dm5 w).untouched
  | scan duration =>
    refine Moves.bind ?_ fun _ => Moves.pure _
    refine (hrequest _ _).bind fun _ => untouched_now.bind fun t => ?_
    exact (untouched_listen _ fuel).bind fun _ => Moves.get.bind fun w => Moves.pure _
  | requestWait destination requested timeout =>
    refine Moves.bind ?_ fun _ => Moves.pure _
    exact (hrequest _ _).bind fun _ => untouched_now.bind fun _ => untouched_await _ _ _ _

/-! ## §5. The four calls that write both. -/

section Periodic

omit [Bus β]

/-- The priority a message has been given, or the default. -/
def priorityOf (w : Watched β BUF SESSIONS) (k : Schedule.Key) : Priority :=
  match w.payloads k with
  | some (_, priority) => priority
  | none => .default

/-- The ECU with another payload for one message. -/
def stored (w : Watched β BUF SESSIONS) (k : Schedule.Key) (x : Option (List UInt8 × Priority)) :
    Watched β BUF SESSIONS :=
  { w with payloads := Function.update w.payloads k x }

/-- **Everything a registration can do**: it fails, or the schedule takes
the message and its payload is stored, at the priority it had. -/
theorem ecu_sendEvery_cases (w : Watched β BUF SESSIONS) (group : Pgn) (destination : Address)
    (data : List UInt8) (period : Nat) :
    ((0xFFFF < period / 1000
        ∨ ∃ e, (w.schedule.sendEvery group destination (period / 1000)).1 = .error e)
      ∧ ∃ e, sendEvery group destination data period w = fail e w)
    ∨ (¬ 0xFFFF < period / 1000
      ∧ (w.schedule.sendEvery group destination (period / 1000)).1 = .ok ()
      ∧ sendEvery group destination data period w
        = .ok () { stored w (group, destination)
            (some (data, priorityOf w (group, destination))) with
            schedule := (w.schedule.sendEvery group destination (period / 1000)).2 }) := by
  unfold sendEvery
  by_cases hlong : period / 1000 > 0xFFFF
  · rw [if_pos hlong]
    exact Or.inl ⟨Or.inl hlong, _, rfl⟩
  rw [if_neg hlong]
  show (_ ∧ ∃ e, (valid (w.schedule.sendEvery group destination (period / 1000)).1 >>= fun _ => _)
      { w with schedule := (w.schedule.sendEvery group destination (period / 1000)).2 } = fail e w)
    ∨ (_ ∧ _ ∧ (valid (w.schedule.sendEvery group destination (period / 1000)).1 >>= fun _ => _)
      { w with schedule := (w.schedule.sendEvery group destination (period / 1000)).2 } = _)
  rcases w.schedule.sendEvery_cases group destination (period / 1000) with
    ⟨e, ho⟩ | ⟨index, hlt, -, -, ho⟩ | ⟨-, -, -, ho⟩ <;> rw [ho]
  · exact Or.inl ⟨Or.inr ⟨e, rfl⟩, _, rfl⟩
  · exact Or.inr ⟨hlong, rfl, rfl⟩
  · exact Or.inr ⟨hlong, rfl, rfl⟩

theorem setPeriodicPriority_cases (w : Watched β BUF SESSIONS) (group : Pgn)
    (destination : Address) (priority : Priority) :
    (w.payloads (group, destination) = none
      ∧ ∃ e, setPeriodicPriority group destination priority w = fail e w)
    ∨ ∃ data old, w.payloads (group, destination) = some (data, old)
      ∧ setPeriodicPriority group destination priority w
        = .ok () (stored w (group, destination) (some (data, priority))) := by
  show (_ ∧ ∃ e, (match w.payloads (group, destination) with
      | some (data, _) => _
      | none => _ : Prog β BUF SESSIONS Unit) w = fail e w) ∨ ∃ data old, _ ∧ (match
        w.payloads (group, destination) with
      | some (data, _) => _
      | none => _ : Prog β BUF SESSIONS Unit) w = _
  cases w.payloads (group, destination) with
  | none => exact Or.inl ⟨rfl, _, rfl⟩
  | some x =>
    obtain ⟨data, old⟩ := x
    exact Or.inr ⟨data, old, rfl, rfl⟩

theorem updatePeriodicTo_cases (w : Watched β BUF SESSIONS) (group : Pgn) (destination : Address)
    (data : List UInt8) :
    (w.schedule.contains group destination = false
      ∧ ∃ e, updatePeriodicTo group destination data w = fail e w)
    ∨ (w.schedule.contains group destination = true
      ∧ updatePeriodicTo group destination data w
        = .ok () (stored w (group, destination)
            (some (data, priorityOf w (group, destination))))) := by
  show (_ ∧ ∃ e, (if w.schedule.contains group destination = true then _ else _
      : Prog β BUF SESSIONS Unit) w = fail e w)
    ∨ (_ ∧ (if w.schedule.contains group destination = true then _ else _
      : Prog β BUF SESSIONS Unit) w = _)
  cases w.schedule.contains group destination with
  | false => exact Or.inl ⟨rfl, _, rfl⟩
  | true => exact Or.inr ⟨rfl, rfl⟩

/-! ## §6. The two containers agree. -/

/-- The messages with a payload are those that are registered. -/
def Covered (w : Watched β BUF SESSIONS) : Prop :=
  ∀ k, (w.payloads k).isSome = true ↔ k ∈ registered w

theorem Untouched.covered (h : Untouched w w') (hw : Covered w) : Covered w' := by
  intro k
  rw [h.payloads, h.registered]
  exact hw k

theorem Covered.contains (h : Covered w) (k : Schedule.Key) :
    (w.payloads k).isSome = w.schedule.contains k.1 k.2 := by
  rw [Bool.eq_iff_iff, Schedule.contains_iff]
  exact h k

theorem payloads_stored (k k' : Schedule.Key) (x : Option (List UInt8 × Priority)) :
    (stored w k x).payloads k' = if k' = k then x else w.payloads k' :=
  Function.update_apply ..

/-- A new payload for a message that is registered. -/
theorem Covered.stored (h : Covered w) {k : Schedule.Key} (hk : k ∈ registered w)
    (x : List UInt8 × Priority) : Covered (stored w k (some x)) := by
  intro k'
  show ((Ecu.stored w k (some x)).payloads k').isSome = true ↔ k' ∈ registered w
  rw [payloads_stored]
  by_cases hkey : k' = k
  · rw [if_pos hkey, hkey]
    exact iff_of_true rfl hk
  · rw [if_neg hkey]
    exact h k'

/-- A registration that the schedule takes. -/
theorem Covered.sendEvery (h : Covered w) {group : Pgn} {destination : Address} {periodMs : Nat}
    (hok : (w.schedule.sendEvery group destination periodMs).1 = .ok ())
    (x : List UInt8 × Priority) :
    Covered { Ecu.stored w (group, destination) (some x) with
      schedule := (w.schedule.sendEvery group destination periodMs).2 } := by
  have hkeys := Schedule.keys_sendEvery w.schedule group destination periodMs
  rw [hok] at hkeys
  intro k
  show ((Ecu.stored w (group, destination) (some x)).payloads k).isSome = true
    ↔ k ∈ (w.schedule.sendEvery group destination periodMs).2.entries.map Schedule.Entry.key
  have hregister : (w.schedule.sendEvery group destination periodMs).2.entries.map
      Schedule.Entry.key
        = if (group, destination) ∈ registered w then registered w
          else registered w ++ [(group, destination)] := hkeys
  rw [hregister, payloads_stored]
  have hold := h k
  by_cases hkey : k = (group, destination)
  · rw [if_pos hkey]
    refine iff_of_true rfl ?_
    split
    next hin => exact hkey ▸ hin
    next => exact List.mem_append_right _ (List.mem_singleton.mpr hkey)
  · rw [if_neg hkey, hold]
    split
    · exact Iff.rfl
    · rw [List.mem_append, List.mem_singleton]
      exact ⟨Or.inl, fun hin => hin.resolve_right hkey⟩

/-- A message that is stopped. -/
theorem Covered.remove (h : Covered w) (hwf : w.schedule.WF) (group : Pgn)
    (destination : Address) :
    Covered { Ecu.stored w (group, destination) none with
      schedule := (w.schedule.remove group destination).2 } := by
  intro k
  show ((Ecu.stored w (group, destination) none).payloads k).isSome = true
    ↔ k ∈ (w.schedule.remove group destination).2.entries.map Schedule.Entry.key
  rw [Schedule.keys_remove hwf, hwf.nodup.mem_erase_iff, payloads_stored]
  by_cases hkey : k = (group, destination)
  · rw [if_pos hkey]
    exact iff_of_false (fun hsome => (nomatch hsome)) fun hin => hin.1 hkey
  · rw [if_neg hkey, h k]
    exact ⟨fun hin => ⟨hkey, hin⟩, fun hin => hin.2⟩

/-- A call that fails at once. -/
theorem untouched_of_fail {x : Prog β BUF SESSIONS α} {e : Failure} (h : x w = fail e w) :
    Untouched w (after (x w)) := by
  rw [h]
  exact ⟨rfl, rfl⟩

end Periodic

/-- **Every call keeps the containers in agreement**, whether it returns or
fails. -/
theorem covered_call (fuel : Nat) (op : Op) (hwf : w.toEcu.WF) (h : Covered w) :
    Covered (after (call fuel op w)) := by
  by_cases hop : op.periodicKey = none
  · exact (untouched_call fuel hop w).covered h
  cases op with
  | sendEvery group destination data period =>
    show Covered (after (sendEvery group destination data period w))
    rcases ecu_sendEvery_cases w group destination data period with
      ⟨-, e, hfail⟩ | ⟨-, hok, hrun⟩
    · exact (untouched_of_fail hfail).covered h
    · rw [hrun]
      exact h.sendEvery hok _
  | setPeriodicPriority group destination priority =>
    show Covered (after (setPeriodicPriority group destination priority w))
    rcases setPeriodicPriority_cases w group destination priority with
      ⟨-, e, hfail⟩ | ⟨data, old, hold, hrun⟩
    · exact (untouched_of_fail hfail).covered h
    · rw [hrun]
      refine h.stored ((h _).mp ?_) _
      rw [hold]
      rfl
  | updatePeriodicTo group destination data =>
    show Covered (after (updatePeriodicTo group destination data w))
    rcases updatePeriodicTo_cases w group destination data with
      ⟨-, e, hfail⟩ | ⟨hcontains, hrun⟩
    · exact (untouched_of_fail hfail).covered h
    · rw [hrun]
      exact h.stored (Schedule.contains_iff.mp hcontains) _
  | stopPeriodic group destination => exact h.remove hwf.schedule group destination
  | _ => exact absurd rfl hop

/-- **In every reachable state** the messages with a payload are those that
are registered. -/
theorem Reachable.covered {name : Name} {preferred : Address} (h : Reachable name preferred w) :
    Covered w := by
  induction h with
  | new bus => exact fun k => iff_of_false (fun h => (nomatch h)) List.not_mem_nil
  | call h fuel op ih => exact covered_call fuel op h.wf ih
  | bus _ _ ih => exact ih

/-! ## §7. Nothing that is due is skipped. -/

/-- `sendDue`, doing `skip` about a message that has no payload. -/
def sendDueOr (skip : Prog β BUF SESSIONS Unit) (fuel : Nat) : Nat → Prog β BUF SESSIONS Unit
  | 0 => throw .outOfFuel
  | bound + 1 => do
      match ← nextDue with
      | none => pure ()
      | some due =>
          match (← get).payloads (due.pgn, due.destination) with
          | none => skip
          | some (payload, priority) =>
              if due.destination.isBroadcast then
                broadcastWithPriority due.pgn payload priority
              else sendTo fuel due.destination due.pgn payload
              sendDueOr skip fuel bound

/-- `publish` with `sendDueOr`. -/
def publishOr (skip : Prog β BUF SESSIONS Unit) (fuel elapsedMs : Nat) :
    Prog β BUF SESSIONS Unit := do
  if (← get).node.hasAddress then
    tickSchedule elapsedMs
    sendDueOr skip fuel (scheduleCapacity + 1)

/-- `pass` with `publishOr`. -/
def passOr (skip : Prog β BUF SESSIONS Unit) (fuel elapsedMs : Nat) :
    Prog β BUF SESSIONS Unit := do
  (← tickNode elapsedMs).forM sendFrame
  (← tickEtp elapsedMs).forM fun (peer, abort) => sendEtpCm peer abort
  report elapsedMs
  publishOr skip fuel elapsedMs

/-- `tick` with `passOr`. -/
def tickOr (skip : Prog β BUF SESSIONS Unit) (fuel : Nat) : Prog β BUF SESSIONS Unit := do
  let elapsedMs ← elapsed
  if elapsedMs = 0 then return
  else passOr skip fuel elapsedMs

/-- `pump` with `tickOr`. -/
def pumpOr (skip : Prog β BUF SESSIONS Unit) (fuel : Nat) :
    Prog β BUF SESSIONS (Option Message) := do
  let message ← receive
  tickOr skip fuel
  return message

/-- `poll` with `pumpOr`. -/
def pollOr (skip : Prog β BUF SESSIONS Unit) (fuel : Nat) :
    Prog β BUF SESSIONS (Option Message) := do
  match (← get).pending with
  | message :: pending =>
      modify fun w => { w with pending }
      return some message
  | [] => pumpOr skip fuel

omit [Bus β] in
/-- Beginning alike, with what leaves the containers alone. -/
theorem covered_congr {γ : Type} {x : Prog β BUF SESSIONS α} {f g : α → Prog β BUF SESSIONS γ}
    (hx : Moves Untouched x) (h : Covered w) (hfg : ∀ a w', Covered w' → f a w' = g a w') :
    (x >>= f) w = (x >>= g) w :=
  hx.bind_congr (fun _ _ h => h.covered) h hfg

omit [Bus β] in
/-- A message that is due has a payload. -/
theorem Covered.payload_of_due (h : Covered w) {due : Due}
    (hdue : w.schedule.nextDue.1 = some due) :
    ∃ x, w.payloads (due.pgn, due.destination) = some x := by
  refine Option.isSome_iff_exists.mp ((h _).mpr ?_)
  rcases w.schedule.nextDue_cases with ⟨-, ho⟩ | ⟨index, hlt, -, ho⟩
  · rw [ho] at hdue
    cases hdue
  · rw [ho] at hdue
    obtain rfl := Option.some.inj hdue
    exact List.mem_map_of_mem (List.getElem_mem hlt)

/-- **Sending what is due never finds a message without a payload.** -/
theorem sendDueOr_eq (skip : Prog β BUF SESSIONS Unit) (fuel bound : Nat) (h : Covered w) :
    sendDueOr skip fuel bound w = sendDue fuel bound w := by
  induction bound generalizing w with
  | zero => rfl
  | succ bound ih =>
    unfold sendDueOr sendDue
    refine bind_congr_run fun due w' hrun => ?_
    injection hrun with hdue hw'
    have hpayloads : w'.payloads = w.payloads := by rw [← hw']
    have hcovered : Covered w' := by
      rw [← hw']
      exact (untouched_nextDue w).covered h
    cases due with
    | none => rfl
    | some due =>
      obtain ⟨⟨payload, priority⟩, hpayload⟩ := h.payload_of_due hdue
      show (match w'.payloads (due.pgn, due.destination) with
        | none => _
        | some (payload, priority) => _ : Prog β BUF SESSIONS Unit) w'
        = (match w'.payloads (due.pgn, due.destination) with
        | none => _
        | some (payload, priority) => _ : Prog β BUF SESSIONS Unit) w'
      rw [hpayloads, hpayload]
      dsimp only
      split
      · exact covered_congr (untouched_broadcast _ _ _) hcovered fun _ _ h' => ih h'
      · exact covered_congr (untouched_sendTo _ _ _ _) hcovered fun _ _ h' => ih h'

theorem publishOr_eq (skip : Prog β BUF SESSIONS Unit) (fuel elapsedMs : Nat) (h : Covered w) :
    publishOr skip fuel elapsedMs w = publish fuel elapsedMs w := by
  unfold publishOr publish
  refine covered_congr Moves.get h fun v w' h' => ?_
  split
  · exact covered_congr (untouched_tickSchedule _) h' fun _ _ h'' => sendDueOr_eq skip _ _ h''
  · rfl

theorem passOr_eq (skip : Prog β BUF SESSIONS Unit) (fuel elapsedMs : Nat) (h : Covered w) :
    passOr skip fuel elapsedMs w = pass fuel elapsedMs w := by
  have hnode : Moves Untouched (tickNode elapsedMs : Prog β BUF SESSIONS (List Frame)) :=
    fun _ => ⟨rfl, rfl⟩
  have hetp : Moves Untouched (tickEtp elapsedMs
      : Prog β BUF SESSIONS (List Etp.Reassembler.Timeout)) := fun _ => ⟨rfl, rfl⟩
  unfold passOr pass
  refine covered_congr hnode h fun frames w₁ h₁ => ?_
  refine covered_congr (Moves.forM fun f _ => untouched_sendFrame f) h₁ fun _ w₂ h₂ => ?_
  refine covered_congr hetp h₂ fun expired w₃ h₃ => ?_
  refine covered_congr (Moves.forM fun x _ w => (sends_etpCm x.1 x.2 w).untouched) h₃
    fun _ w₄ h₄ => ?_
  exact covered_congr (untouched_report elapsedMs) h₄ fun _ _ h₅ => publishOr_eq skip _ _ h₅

theorem tickOr_eq (skip : Prog β BUF SESSIONS Unit) (fuel : Nat) (h : Covered w) :
    tickOr skip fuel w = tick fuel w := by
  unfold tickOr tick
  refine covered_congr untouched_elapsed h fun elapsedMs w' h' => ?_
  split
  · rfl
  · exact passOr_eq skip fuel elapsedMs h'

theorem pumpOr_eq (skip : Prog β BUF SESSIONS Unit) (fuel : Nat) (h : Covered w) :
    pumpOr skip fuel w = pump fuel w := by
  unfold pumpOr pump
  refine covered_congr untouched_receive h fun m w' h' => ?_
  rw [bind_run, bind_run, tickOr_eq skip fuel h']

/-- **No poll finds a message that is due without a payload**: whatever
were done about one, every poll would run as it does. -/
theorem pollOr_eq (skip : Prog β BUF SESSIONS Unit) (fuel : Nat) (h : Covered w) :
    pollOr skip fuel w = poll fuel w := by
  unfold pollOr poll
  refine covered_congr Moves.get h fun v w' h' => ?_
  cases v.pending with
  | nil => exact pumpOr_eq skip fuel h'
  | cons message pending => rfl

/-! ## §8. Calls that fail, and priorities that stay. -/

/-- What a call on a scheduled message is refused for: a bad period, a full
schedule, or a message that is not scheduled. -/
def Refuses (w : Watched β BUF SESSIONS) : Op → Prop
  | .sendEvery group destination _ period =>
      period / 1000 = 0 ∨ 0xFFFF < period / 1000
        ∨ w.schedule.contains group destination = false
          ∧ w.schedule.entries.length = scheduleCapacity
  | .setPeriodicPriority group destination _ => w.schedule.contains group destination = false
  | .updatePeriodicTo group destination _ => w.schedule.contains group destination = false
  | _ => False

/-- **A call on a scheduled message fails** exactly if it is refused, and
then changes neither container. -/
theorem refused_iff (fuel : Nat) {op : Op} (hop : op.periodicKey ≠ none) (h : Covered w) :
    ((∃ e w', call fuel op w = .error e w') ↔ Refuses w op)
      ∧ ∀ e w', call fuel op w = .error e w' →
        w'.payloads = w.payloads ∧ w'.schedule = w.schedule := by
  -- what fails has done nothing but to note it
  have hfailed : ∀ {x : Prog β BUF SESSIONS Unit} {e : Failure}, x w = fail e w →
      (∃ e w', x w = .error e w')
        ∧ ∀ e w', x w = .error e w' → w'.payloads = w.payloads ∧ w'.schedule = w.schedule := by
    intro x e hfail
    rw [hfail]
    refine ⟨⟨_, _, rfl⟩, fun e' w' hrun => ?_⟩
    cases hrun
    exact ⟨rfl, rfl⟩
  have hreturned : ∀ {x : Prog β BUF SESSIONS Unit} {w₁}, x w = .ok () w₁ →
      ¬ (∃ e w', x w = .error e w') := by
    intro x w₁ hok
    rw [hok]
    rintro ⟨e, w', hrun⟩
    cases hrun
  cases op with
  | sendEvery group destination data period =>
    show ((∃ e w', sendEvery group destination data period w = .error e w') ↔ _) ∧ _
    have hrefused := w.schedule.sendEvery_refused_iff group destination (period / 1000)
    rcases ecu_sendEvery_cases w group destination data period with
      ⟨hwhy, e, hfail⟩ | ⟨hshort, hok, hrun⟩
    · obtain ⟨hfails, hsame⟩ := hfailed hfail
      refine ⟨iff_of_true hfails ?_, hsame⟩
      rcases hwhy with hlong | herror
      · exact Or.inr (Or.inl hlong)
      · rcases hrefused.mp herror with hzero | hfull
        · exact Or.inl hzero
        · exact Or.inr (Or.inr hfull)
    · have hno := hreturned hrun
      refine ⟨iff_of_false hno ?_, fun e w' hrun' => absurd ⟨e, w', hrun'⟩ hno⟩
      have haccepted : ¬ ∃ e, (w.schedule.sendEvery group destination (period / 1000)).1
          = .error e := by
        rw [hok]
        rintro ⟨e, he⟩
        cases he
      rintro (hzero | hlong | hfull)
      · exact haccepted (hrefused.mpr (Or.inl hzero))
      · exact hshort hlong
      · exact haccepted (hrefused.mpr (Or.inr hfull))
  | setPeriodicPriority group destination priority =>
    show ((∃ e w', setPeriodicPriority group destination priority w = .error e w')
      ↔ w.schedule.contains group destination = false) ∧ _
    rw [← h.contains (group, destination)]
    rcases setPeriodicPriority_cases w group destination priority with
      ⟨hnone, e, hfail⟩ | ⟨data, old, hsome, hrun⟩
    · obtain ⟨hfails, hsame⟩ := hfailed hfail
      refine ⟨iff_of_true hfails ?_, hsame⟩
      rw [hnone]
      rfl
    · have hno := hreturned hrun
      refine ⟨iff_of_false hno ?_, fun e w' hrun' => absurd ⟨e, w', hrun'⟩ hno⟩
      rw [hsome]
      exact Bool.noConfusion
  | updatePeriodicTo group destination data =>
    show ((∃ e w', updatePeriodicTo group destination data w = .error e w')
      ↔ w.schedule.contains group destination = false) ∧ _
    rcases updatePeriodicTo_cases w group destination data with
      ⟨hnot, e, hfail⟩ | ⟨hcontains, hrun⟩
    · obtain ⟨hfails, hsame⟩ := hfailed hfail
      exact ⟨iff_of_true hfails hnot, hsame⟩
    · have hno := hreturned hrun
      refine ⟨iff_of_false hno ?_, fun e w' hrun' => absurd ⟨e, w', hrun'⟩ hno⟩
      rw [hcontains]
      exact Bool.noConfusion
  | stopPeriodic group destination =>
    refine ⟨iff_of_false ?_ id, ?_⟩
    · rintro ⟨e, w', hrun⟩
      cases hrun
    · intro e w' hrun
      cases hrun
  | _ => exact absurd rfl hop

/-- A call that neither stops a message nor sets its priority. -/
def Op.KeepsPriority (k : Schedule.Key) : Op → Prop
  | .setPeriodicPriority group destination _ => (group, destination) ≠ k
  | .stopPeriodic group destination => (group, destination) ≠ k
  | _ => True

/-- **A call keeps the priority of a message** that it neither stops nor
gives another one. -/
theorem priority_call (fuel : Nat) {op : Op} {k : Schedule.Key} (hop : op.KeepsPriority k)
    {data : List UInt8} {priority : Priority} (hk : w.payloads k = some (data, priority)) :
    ∃ data', (after (call fuel op w)).payloads k = some (data', priority) := by
  -- a payload stored for some message, at the priority that message had
  have hstored : ∀ (k' : Schedule.Key) (data' : List UInt8), ∃ data'',
      (stored w k' (some (data', priorityOf w k'))).payloads k = some (data'', priority) := by
    intro k' data'
    rw [payloads_stored]
    by_cases hkey : k = k'
    · subst hkey
      rw [if_pos rfl]
      unfold priorityOf
      rw [hk]
      exact ⟨data', rfl⟩
    · rw [if_neg hkey]
      exact ⟨data, hk⟩
  by_cases hperiodic : op.periodicKey = none
  · refine ⟨data, ?_⟩
    rw [(untouched_call fuel hperiodic w).payloads]
    exact hk
  cases op with
  | sendEvery group destination data' period =>
    show ∃ data'', (after (sendEvery group destination data' period w)).payloads k = _
    rcases ecu_sendEvery_cases w group destination data' period with
      ⟨-, e, hfail⟩ | ⟨-, -, hrun⟩
    · rw [(untouched_of_fail hfail).payloads]
      exact ⟨data, hk⟩
    · rw [hrun]
      exact hstored (group, destination) data'
  | setPeriodicPriority group destination priority' =>
    show ∃ data'', (after (setPeriodicPriority group destination priority' w)).payloads k = _
    rcases setPeriodicPriority_cases w group destination priority' with
      ⟨-, e, hfail⟩ | ⟨data', old, -, hrun⟩
    · rw [(untouched_of_fail hfail).payloads]
      exact ⟨data, hk⟩
    · rw [hrun, after_ok, payloads_stored, if_neg fun h => hop h.symm]
      exact ⟨data, hk⟩
  | updatePeriodicTo group destination data' =>
    show ∃ data'', (after (updatePeriodicTo group destination data' w)).payloads k = _
    rcases updatePeriodicTo_cases w group destination data' with ⟨-, e, hfail⟩ | ⟨-, hrun⟩
    · rw [(untouched_of_fail hfail).payloads]
      exact ⟨data, hk⟩
    · rw [hrun]
      exact hstored (group, destination) data'
  | stopPeriodic group destination =>
    refine ⟨data, ?_⟩
    show (stored w (group, destination) none).payloads k = _
    rw [payloads_stored, if_neg fun h => hop h.symm]
    exact hk
  | _ => exact absurd rfl hperiodic

/-- What follows a state, by calls that satisfy `ok`, whatever the bus does
during and between them. -/
inductive Later (ok : Op → Prop) (w : Watched β BUF SESSIONS) : Watched β BUF SESSIONS → Prop where
  | here : Later ok w w
  | call {v : Watched β BUF SESSIONS} (h : Later ok w v) (fuel : Nat) (op : Op) (hop : ok op) :
      Later ok w (after (call fuel op v))
  | bus {v : Watched β BUF SESSIONS} (h : Later ok w v) (bus : β) : Later ok w { v with bus := bus }

/-- **The priority of a message stays** as long as it is neither stopped
nor given another one. -/
theorem priority_later {k : Schedule.Key} {data : List UInt8} {priority : Priority}
    (hk : w.payloads k = some (data, priority)) (h : Later (Op.KeepsPriority k) w w') :
    ∃ data', w'.payloads k = some (data', priority) := by
  induction h with
  | here => exact ⟨data, hk⟩
  | call _ fuel op hop ih =>
    obtain ⟨data', hk'⟩ := ih
    exact priority_call fuel hop hk'
  | bus _ _ ih => exact ih

/-- **Schedule and payloads match**: as containers, in what is sent, in
what is refused, and in the priorities. -/
structure Matched (w : Watched β BUF SESSIONS) : Prop where
  /-- A message has a payload exactly if it is registered. -/
  covered : ∀ k : Schedule.Key, (w.payloads k).isSome = w.schedule.contains k.1 k.2
  /-- Whatever were done about a message without payload, no poll would
  run otherwise. -/
  none_skipped : ∀ (skip : Prog β BUF SESSIONS Unit) fuel, pollOr skip fuel w = poll fuel w
  /-- A call on a scheduled message fails exactly if it is refused, and
  then changes neither. -/
  refused : ∀ fuel (op : Op), op.periodicKey ≠ none →
    ((∃ e w', call fuel op w = .error e w') ↔ Refuses w op)
      ∧ ∀ e w', call fuel op w = .error e w' →
        w'.payloads = w.payloads ∧ w'.schedule = w.schedule
  /-- A priority that is set stays until another one is set, or the
  message is stopped. -/
  priority : ∀ fuel (k : Schedule.Key) priority v,
    call fuel (.setPeriodicPriority k.1 k.2 priority) w = .ok () v →
      ∀ w', Later (Op.KeepsPriority k) v w' → ∃ data, w'.payloads k = some (data, priority)

/-- **Every scheduled message has a payload**, in every reachable state. -/
theorem payloads_matched {name : Name} {preferred : Address} (h : Reachable name preferred w) :
    Matched w where
  covered := h.covered.contains
  none_skipped := fun skip fuel => pollOr_eq skip fuel h.covered
  refused := fun fuel _ hop => refused_iff fuel hop h.covered
  priority := by
    intro fuel k priority v hset w' hlater
    have hrun : setPeriodicPriority k.1 k.2 priority w = .ok () v := hset
    rcases setPeriodicPriority_cases w k.1 k.2 priority with
      ⟨-, e, hfail⟩ | ⟨data, old, -, hok⟩
    · cases hfail.symm.trans hrun
    · have hv : v = stored w k (some (data, priority)) := by
        rw [hok] at hrun
        injection hrun with _ hv
        exact hv.symm
      have hk : v.payloads k = some (data, priority) := by
        rw [hv, payloads_stored, if_pos rfl]
      exact priority_later hk hlater

/-- An ECU that has claimed its address and broadcasts engine speed every
fifty milliseconds. -/
theorem payloads_matched_claimed :
    Matched (after (call 1 (.sendEvery (Pgn.newMasked 0xF004) Address.global
      [0xFF, 0x87, 0x96, 0xE0, 0x2E, 0xFF, 0xFF, 0xFF] 50000) claimed)) :=
  payloads_matched (claimed_reachable.call 1 _)

end SaeJ1939.Host.Ecu
