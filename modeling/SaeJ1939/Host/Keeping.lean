/-
  SaeJ1939.Host.Keeping — what becomes of a message once it is complete.

  A message that a frame completes is in hand until it is returned or
  queued.  Meanwhile the ECU may have to send: an acknowledgement, the
  answer to a request, and after the frame whatever has become due, which
  may be a transfer with a handshake of its own.  A send that fails ends
  the call, and what is in hand is dropped with it.

  Main results:
    * `carries_dispatch`, `carries_sendTo`, `carries_pump` — what the parts
      of a call have in hand.
    * `carries_perform` — what a call has in hand when it returns is what it
      hands over.
-/
import SaeJ1939.Host.GlobalRts
import SaeJ1939.Host.Running
import SaeJ1939.Lib.Custody

namespace SaeJ1939.Host

open AddressClaim Checked Custody Fallible Etp

namespace Ecu

variable {β α : Type} {BUF SESSIONS : Nat} {w w' : Watched β BUF SESSIONS}

/-! ## §1. The books of an ECU. -/

/-- The message an entry of the log says was completed. -/
def completes : Happening BUF SESSIONS → Option Message
  | .completed message => some message
  | _ => none

/-- The message an entry of the log says was queued. -/
def queues : Happening BUF SESSIONS → Option Message
  | .queued message => some message
  | _ => none

/-- Messages are taken in when they are completed, and put away when they
are queued. -/
def books : Books (Watched β BUF SESSIONS) (Happening BUF SESSIONS) Message where
  log w := w.log
  taken := completes
  filed := queues
  store w := w.pending

/-- An entry of the log that is about no message. -/
def Silent (h : Happening BUF SESSIONS) : Prop := completes h = none ∧ queues h = none

/-- A change of anything but the queue and the log. -/
theorem idle_of_same (hpending : w'.pending = w.pending) (hlog : w'.log = w.log) :
    Idle books w w' :=
  ⟨[], hlog.trans (List.append_nil _).symm, hpending, fun _ h => (by cases h)⟩

/-- One entry that is about no message. -/
theorem idle_of_silent {h : Happening BUF SESSIONS} (hh : Silent h)
    (hpending : w'.pending = w.pending) (hlog : w'.log = w.log ++ [h]) : Idle books w w' :=
  ⟨[h], hlog, hpending, fun _ hx => List.mem_singleton.mp hx ▸ hh⟩

theorem Sends.idle {P : Option Address → Frame → Prop} (h : Sends P w w') : Idle books w w' := by
  obtain ⟨done, hlog, hdone⟩ := h.log
  refine ⟨done, hlog, ?_, fun x hx => ?_⟩
  · rw [h.same]
    rfl
  · rcases hdone x hx with ⟨f, rfl, -⟩ | ⟨e, rfl⟩ <;> exact ⟨rfl, rfl⟩

theorem Obeys.idle (h : Obeys w w') : Idle books w w' := by
  obtain ⟨done, hlog, hdone⟩ := h.log
  refine ⟨done, hlog, h.pending, fun x hx => ?_⟩
  have hharmless := hdone x hx
  cases x with
  | sent | failed => exact ⟨rfl, rfl⟩
  | _ => exact hharmless.elim

/-! ## §2. Parts that handle no message. -/

theorem idle_record {h : Happening BUF SESSIONS} (hh : Silent h) :
    Moves (Idle books) (record h : Prog β BUF SESSIONS Unit) :=
  fun _ => idle_of_silent hh rfl rfl

theorem idle_fail (e : Failure) : Moves (Idle books) (fail e : Prog β BUF SESSIONS α) :=
  (idle_record ⟨rfl, rfl⟩).bind fun _ => Moves.throw _

theorem idle_exec (x : Exec α) : Moves (Idle books) (exec x : Prog β BUF SESSIONS α) :=
  fun w => (sends_exec (P := fun _ _ => True) x w).idle

theorem idle_valid (x : Result α) : Moves (Idle books) (valid x : Prog β BUF SESSIONS α) :=
  fun w => (sends_valid (P := fun _ _ => True) x w).idle

theorem idle_onNode (f : Node BUF SESSIONS → Exec (α × Node BUF SESSIONS)) :
    Moves (Idle books) (onNode f : Prog β BUF SESSIONS α) := by
  intro w
  unfold onNode
  cases f w.node with
  | ok x => exact idle_of_same rfl rfl
  | error p => exact idle_fail _ w

theorem idle_onEtp (f : Etp.Reassembler etpBuffer 2 → Exec (α × Etp.Reassembler etpBuffer 2)) :
    Moves (Idle books) (onEtp f : Prog β BUF SESSIONS α) := by
  intro w
  unfold onEtp
  cases f w.etp with
  | ok x => exact idle_of_same rfl rfl
  | error p => exact idle_fail _ w

theorem idle_recordClaim (f : Frame) :
    Moves (Idle books) (recordClaim f : Prog β BUF SESSIONS Unit) := by
  intro w
  obtain ⟨hrun, hsame⟩ := recordClaim_run f w
  rw [hrun, after_ok, hsame]
  exact idle_of_same rfl rfl

theorem idle_nextDue : Moves (Idle books) (nextDue : Prog β BUF SESSIONS (Option Due)) :=
  fun _ => idle_of_same rfl rfl

theorem idle_tickNode (elapsedMs : Nat) :
    Moves (Idle books) (tickNode elapsedMs : Prog β BUF SESSIONS (List Frame)) :=
  fun _ => idle_of_silent (h := .passed .node elapsedMs) ⟨rfl, rfl⟩ rfl rfl

theorem idle_tickEtp (elapsedMs : Nat) :
    Moves (Idle books) (tickEtp elapsedMs : Prog β BUF SESSIONS (List Etp.Reassembler.Timeout)) :=
  fun _ => idle_of_silent (h := .passed .etp elapsedMs) ⟨rfl, rfl⟩ rfl rfl

theorem idle_tickFaults (elapsedMs : Nat) :
    Moves (Idle books) (tickFaults elapsedMs : Prog β BUF SESSIONS Bool) :=
  fun _ => idle_of_silent (h := .passed .faults elapsedMs) ⟨rfl, rfl⟩ rfl rfl

theorem idle_tickSchedule (elapsedMs : Nat) :
    Moves (Idle books) (tickSchedule elapsedMs : Prog β BUF SESSIONS Unit) :=
  fun _ => idle_of_silent (h := .passed .schedule elapsedMs) ⟨rfl, rfl⟩ rfl rfl

/-! ## §3. Completing a message, and queueing it. -/

variable {held : List Message}

/-- A message is completed. -/
theorem carries_complete (m : Message) :
    Carries books held (complete m : Prog β BUF SESSIONS Unit) fun _ left => left = m :: held := by
  intro w
  refine ⟨m :: held, rfl, [.completed m], rfl, (List.append_nil _).symm, ?_⟩
  exact (List.perm_append_singleton m held).symm

/-- A message is queued. -/
theorem carries_queue (m : Message) :
    Carries books (m :: held) (queue m : Prog β BUF SESSIONS Unit) fun _ left => left = held := by
  intro w
  refine ⟨held, rfl, [.queued m], rfl, rfl, ?_⟩
  show (m :: held).Perm (m :: held ++ [])
  rw [List.append_nil]

theorem carries_queueIfAny (m : Option Message) :
    Carries books (m.toList ++ held) (queueIfAny m : Prog β BUF SESSIONS Unit)
      fun _ left => left = held := by
  cases m with
  | none => exact Carries.pure rfl
  | some m => exact carries_queue m

/-! ## §4. Parts that transmit. -/

variable [Bus β]

theorem idle_now : Moves (Idle books) (now : Prog β BUF SESSIONS Nat) :=
  fun _ => idle_of_same rfl rfl

theorem idle_sendFrame (f : Frame) :
    Moves (Idle books) (sendFrame f : Prog β BUF SESSIONS Unit) :=
  fun _ => (sends_frame (P := fun _ _ => True) trivial).idle

theorem idle_recvFrame : Moves (Idle books) (recvFrame : Prog β BUF SESSIONS (Option Frame)) := by
  intro w
  obtain ⟨bus, ⟨e, hrun⟩ | hrun | ⟨f, hrun⟩⟩ := recvFrame_cases w <;> rw [hrun]
  · exact idle_of_silent (h := .failed (.io e)) ⟨rfl, rfl⟩ rfl rfl
  · exact idle_of_same rfl rfl
  · exact idle_of_silent (h := .received f w.node) ⟨rfl, rfl⟩ rfl rfl

theorem idle_drain (bound : Nat) (o : Outgoing) :
    Moves (Idle books) (drain bound o : Prog β BUF SESSIONS Outgoing) :=
  fun _ => (sends_drain (P := fun _ _ => True) fun _ _ => trivial).idle

theorem idle_broadcast (group : Pgn) (data : List UInt8) (priority : Priority) :
    Moves (Idle books) (broadcastWithPriority group data priority : Prog β BUF SESSIONS Unit) :=
  fun w => (sends_broadcast group data priority w).idle

theorem idle_etpCm (destination : Address) (cm : EtpCm) :
    Moves (Idle books) (sendEtpCm destination cm : Prog β BUF SESSIONS Unit) :=
  fun w => (sends_etpCm destination cm w).idle

theorem idle_request (destination : Address) (requested : Pgn) :
    Moves (Idle books) (request destination requested : Prog β BUF SESSIONS Unit) :=
  fun w => (sends_request destination requested w).idle

theorem idle_elapsed : Moves (Idle books) (elapsed : Prog β BUF SESSIONS Nat) := by
  refine idle_now.bind fun t => Moves.get.bind fun w => ?_
  dsimp only
  split
  · exact Moves.pure _
  · have htake : Moves (Idle books) (modify fun w' => { w' with lastTick := (w.lastTick.tick t).2 }
        : Prog β BUF SESSIONS Unit) := fun _ => idle_of_same rfl rfl
    exact htake.bind fun _ => (idle_record ⟨rfl, rfl⟩).bind fun _ => Moves.pure _

theorem idle_report (elapsedMs : Nat) :
    Moves (Idle books) (report elapsedMs : Prog β BUF SESSIONS Unit) := by
  refine Moves.get.bind fun w => ?_
  split
  · refine (idle_tickFaults elapsedMs).bind fun due => ?_
    split
    · exact fun w => (sends_dm1 w).idle
    · exact Moves.pure _
  · exact Moves.pure _

/-! ## §5. Receiving. -/

/-- **What an event of the node completes is returned.** -/
theorem carries_actOnEvent (event : Event) :
    Carries books held (actOnEvent event : Prog β BUF SESSIONS (Option Message))
      fun m left => left = m.toList ++ held := by
  cases event with
  | idle => exact Carries.pure rfl
  | transmit reply => exact Carries.bind_idle (idle_sendFrame reply) fun _ => Carries.pure rfl
  | message pgn source data reply =>
    refine (carries_complete _).bind fun _ mid hmid => ?_
    refine Carries.bind_idle (Moves.forM fun f _ => idle_sendFrame f) fun _ => ?_
    refine Carries.bind_idle ((obeys_commandedAddress _).weaken fun _ _ h => h.idle) fun _ => ?_
    refine Carries.bind_idle ((obeys_dm13 _).weaken fun _ _ h => h.idle) fun _ => ?_
    refine Carries.bind_idle ((obeys_request _).weaken fun _ _ h => h.idle) fun _ => ?_
    exact Carries.pure hmid

/-- So is what an extended transfer completes. -/
theorem carries_actOnEtp (source : Address) (outcome : Etp.Rx) :
    Carries books held (actOnEtp source outcome : Prog β BUF SESSIONS (Option Message))
      fun m left => left = m.toList ++ held := by
  have hsend : Moves (Idle books) ((replyOf outcome).toList.forM (sendEtpCm source)
      : Prog β BUF SESSIONS Unit) := Moves.forM fun cm _ => idle_etpCm source cm
  have hcomplete : Carries books held ((Replay.messageOf outcome).toList.forM complete
      : Prog β BUF SESSIONS Unit)
      fun _ left => left = (Replay.messageOf outcome).toList ++ held := by
    cases Replay.messageOf outcome with
    | none => exact Carries.pure rfl
    | some m => exact (carries_complete m).bind fun _ mid hmid => Carries.pure hmid
  refine hcomplete.bind fun _ mid hmid => ?_
  exact Carries.bind_idle hsend fun _ => Carries.pure hmid

theorem carries_dispatchEtp (f : Frame) :
    Carries books held (dispatchEtp f : Prog β BUF SESSIONS (Option (Option Message)))
      fun m left => left = m.join.toList ++ held := by
  have hact : ∀ outcome, Carries books held (do
      return some (← actOnEtp f.sourceAddress outcome)
        : Prog β BUF SESSIONS (Option (Option Message))) fun m left => left = m.join.toList ++ held :=
    fun outcome => (carries_actOnEtp f.sourceAddress outcome).bind fun _ _ h => Carries.pure h
  unfold dispatchEtp
  split
  · exact Carries.pure rfl
  refine Carries.bind_idle Moves.get fun w => ?_
  split
  · exact Carries.pure rfl
  split
  · cases EtpCm.decode f.payload with
    | error e => exact Carries.pure rfl
    | ok cm => exact Carries.bind_idle (idle_onEtp _) hact
  · exact Carries.bind_idle (idle_onEtp _) hact

/-- **What a frame completes is returned.** -/
theorem carries_dispatch (f : Frame) :
    Carries books held (dispatch f : Prog β BUF SESSIONS (Option Message))
      fun m left => left = m.toList ++ held := by
  refine Carries.bind_idle (idle_recordClaim f) fun _ => ?_
  refine (carries_dispatchEtp f).bind fun message mid hmid => ?_
  cases message with
  | some message => exact Carries.pure hmid
  | none =>
    have hheld : mid = held := hmid
    rw [hheld]
    exact Carries.bind_idle (idle_onNode _) carries_actOnEvent

/-- During a transfer, what a frame completes is queued. -/
theorem carries_react (f : Frame) (o : Outgoing) (deadline : Nat)
    {again : Outgoing → Nat → Prog β BUF SESSIONS Unit}
    (h : ∀ o t, Carries books held (again o t) fun _ left => left = held) :
    Carries books held (react f o deadline again) fun _ left => left = held := by
  refine Carries.bind_idle (idle_exec _) fun x => ?_
  obtain ⟨progress, o'⟩ := x
  cases progress with
  | ready =>
    refine Carries.bind_idle (idle_drain _ _) fun o'' => ?_
    exact Carries.bind_idle idle_now fun t => h o'' _
  | complete => exact Carries.pure rfl
  | aborted reason => exact Carries.of_idle (idle_fail _)
  | idle =>
    refine (carries_dispatch f).bind fun m mid hmid => ?_
    rw [hmid]
    refine (carries_queueIfAny m).bind fun _ mid' hmid' => ?_
    rw [hmid']
    exact h o' deadline

theorem carries_handshake (destination : Address) (fuel : Nat) (o : Outgoing) (deadline : Nat) :
    Carries books held (handshake destination fuel o deadline : Prog β BUF SESSIONS Unit)
      fun _ left => left = held := by
  induction fuel generalizing o deadline with
  | zero => exact Carries.throw _
  | succ fuel ih =>
    unfold handshake
    split
    · exact Carries.pure rfl
    refine Carries.bind_idle idle_now fun t => ?_
    split
    · exact Carries.of_idle (idle_fail _)
    refine Carries.bind_idle idle_recvFrame fun frame => ?_
    cases frame with
    | none => exact ih o deadline
    | some f => exact carries_react f o deadline ih

/-- **Sending to one ECU leaves in hand what was**, and queues the rest. -/
theorem carries_sendTo (fuel : Nat) (destination : Address) (group : Pgn) (data : List UInt8) :
    Carries books held (sendTo fuel destination group data : Prog β BUF SESSIONS Unit)
      fun _ left => left = held := by
  unfold sendTo
  split
  · exact Carries.of_idle (idle_broadcast group data .default)
  have hcheck : Moves (Idle books) (checkMayTransmit : Prog β BUF SESSIONS Unit) :=
    fun w => (sends_checkMayTransmit (P := fun _ _ => True) w).idle
  refine Carries.bind_idle hcheck fun _ => Carries.bind_idle Moves.get fun w => ?_
  refine Carries.bind_idle (idle_valid _) fun o => Carries.bind_idle (idle_drain _ _) fun o' => ?_
  exact Carries.bind_idle idle_now fun t => carries_handshake _ _ _ _

theorem carries_sendDue (fuel bound : Nat) :
    Carries books held (sendDue fuel bound : Prog β BUF SESSIONS Unit)
      fun _ left => left = held := by
  induction bound with
  | zero => exact Carries.throw _
  | succ bound ih =>
    unfold sendDue
    refine Carries.bind_idle idle_nextDue fun due => ?_
    cases due with
    | none => exact Carries.pure rfl
    | some due =>
      refine Carries.bind_idle Moves.get fun w => ?_
      cases w.payloads (due.pgn, due.destination) with
      | none => exact ih
      | some x =>
        obtain ⟨payload, priority⟩ := x
        dsimp only
        split
        · exact Carries.bind_idle (idle_broadcast _ _ _) fun _ => ih
        · exact (carries_sendTo _ _ _ _).bind_kept ih

/-! ## §6. Time, and the loops around it. -/

theorem carries_publish (fuel elapsedMs : Nat) :
    Carries books held (publish fuel elapsedMs : Prog β BUF SESSIONS Unit)
      fun _ left => left = held := by
  refine Carries.bind_idle Moves.get fun w => ?_
  split
  · exact Carries.bind_idle (idle_tickSchedule elapsedMs) fun _ => carries_sendDue _ _
  · exact Carries.pure rfl

theorem carries_tick (fuel : Nat) :
    Carries books held (tick fuel : Prog β BUF SESSIONS Unit) fun _ left => left = held := by
  refine Carries.bind_idle idle_elapsed fun elapsedMs => ?_
  split
  · exact Carries.pure rfl
  refine Carries.bind_idle (idle_tickNode elapsedMs) fun frames => ?_
  refine Carries.bind_idle (Moves.forM fun f _ => idle_sendFrame f) fun _ => ?_
  refine Carries.bind_idle (idle_tickEtp elapsedMs) fun expired => ?_
  refine Carries.bind_idle (Moves.forM fun x _ => idle_etpCm x.1 x.2) fun _ => ?_
  exact Carries.bind_idle (idle_report elapsedMs) fun _ => carries_publish fuel elapsedMs

/-- **A message stays in hand while time passes**, and is returned after. -/
theorem carries_pump (fuel : Nat) :
    Carries books held (pump fuel : Prog β BUF SESSIONS (Option Message))
      fun m left => left = m.toList ++ held := by
  have hreceive : Carries books held (receive : Prog β BUF SESSIONS (Option Message))
      fun m left => left = m.toList ++ held := by
    refine Carries.bind_idle idle_recvFrame fun frame => ?_
    cases frame with
    | none => exact Carries.pure rfl
    | some f => exact carries_dispatch f
  refine hreceive.bind fun m mid hmid => ?_
  refine (carries_tick fuel).bind fun _ mid' hmid' => ?_
  rw [hmid', hmid]
  exact Carries.pure rfl

/-- What a round of a loop receives is queued before the next one. -/
theorem carries_round (fuel : Nat) {again : Prog β BUF SESSIONS α} {Q : α → List Message → Prop}
    (h : Carries books held again Q) :
    Carries books held (do
      queueIfAny (← pump fuel)
      again) Q := by
  refine (carries_pump fuel).bind fun m mid hmid => ?_
  rw [hmid]
  refine (carries_queueIfAny m).bind fun _ mid' hmid' => ?_
  rw [hmid']
  exact h

theorem carries_settle (giveUpAt fuel : Nat) :
    Carries books held (settle giveUpAt fuel : Prog β BUF SESSIONS Unit)
      fun _ left => left = held := by
  induction fuel with
  | zero => exact Carries.throw _
  | succ fuel ih =>
    refine Carries.bind_idle idle_now fun t => ?_
    split
    · refine Carries.bind_idle Moves.get fun w => ?_
      split
      · exact Carries.pure rfl
      · exact carries_round fuel ih
    · exact Carries.pure rfl

theorem carries_listen (deadline fuel : Nat) :
    Carries books held (listen deadline fuel : Prog β BUF SESSIONS Unit)
      fun _ left => left = held := by
  induction fuel with
  | zero => exact Carries.throw _
  | succ fuel ih =>
    refine Carries.bind_idle idle_now fun t => ?_
    split
    · exact carries_round fuel ih
    · exact Carries.pure rfl

/-- What a response hands over: the message that answers the request. -/
def Responds (destination : Address) (requested : Pgn) : Response → List Message → Prop
  | .timedOut, left => left = []
  | response, left => ∃ m, left = [m] ∧ answers destination requested m = some response

theorem answers_ne_timedOut (destination : Address) (requested : Pgn) (m : Message) :
    answers destination requested m ≠ some .timedOut := by
  intro h
  unfold answers at h
  split at h
  · split at h
    · cases h
    · split at h
      · split at h
        · dsimp only at h
          split at h <;> cases h
        · cases h
      · cases h
  · cases h

/-- **An answer is returned, and the rest is queued.** -/
theorem carries_await (destination : Address) (requested : Pgn) (deadline fuel : Nat) :
    Carries books [] (await destination requested deadline fuel : Prog β BUF SESSIONS Response)
      (Responds destination requested) := by
  induction fuel with
  | zero => exact Carries.throw _
  | succ fuel ih =>
    refine Carries.bind_idle idle_now fun t => ?_
    split
    · refine (carries_pump fuel).bind fun m mid hmid => ?_
      rw [hmid]
      cases m with
      | none => exact ih
      | some m =>
        dsimp only
        cases hanswers : answers destination requested m with
        | none =>
          refine (carries_queue m).bind fun _ mid' hmid' => ?_
          rw [hmid']
          exact ih
        | some response =>
          refine Carries.pure ?_
          cases response with
          | timedOut => exact absurd hanswers (answers_ne_timedOut destination requested m)
          | message | acknowledged => exact ⟨m, rfl, hanswers⟩
    · exact Carries.pure rfl

/-! ## §7. The calls that receive. -/

/-- A call during which frames are taken off the bus. -/
inductive Receiving where
  | poll
  | claimAddress
  | scan (duration : Nat)
  | requestWait (destination : Address) (requested : Pgn) (timeout : Nat)
  | sendTo (destination : Address) (group : Pgn) (data : List UInt8)

/-- What such a call returns. -/
inductive Answer where
  | done
  | polled (message : Option Message)
  | response (response : Response)

/-- Make such a call. -/
def perform (fuel : Nat) : Receiving → Prog β BUF SESSIONS Answer
  | .poll => do return .polled (← poll fuel)
  | .claimAddress => do
      claimAddress fuel
      return .done
  | .scan duration => do
      let _ ← scan fuel duration
      return .done
  | .requestWait destination requested timeout => do
      return .response (← requestWait fuel destination requested timeout)
  | .sendTo destination group data => do
      sendTo fuel destination group data
      return .done

/-- The messages an answer hands to the caller.  A response is the message
that answers the request, perhaps decoded. -/
def HandsOver : Receiving → Answer → List Message → Prop
  | _, .done, out => out = []
  | _, .polled m, out => out = m.toList
  | .requestWait destination requested _, .response response, out =>
      Responds destination requested response out
  | _, .response _, _ => False

/-- **Every message should be kept**: those that were queued before and
those completed during the call are handed over or in the queue. -/
def Kept (c : Receiving) (w : Watched β BUF SESSIONS) :
    EStateM.Result Failure (Watched β BUF SESSIONS) Answer → Prop
  | .ok answer w' => ∃ out, HandsOver c answer out
      ∧ (w'.pending ++ out).Perm (w.pending ++ (happened w w').filterMap completes)
  | .error _ w' => w'.pending.Perm (w.pending ++ (happened w w').filterMap completes)

/-- Every such call that starts with the bus has nothing in hand when it
returns but what it hands over. -/
theorem carries_perform (fuel : Nat) (c : Receiving) (hpoll : c ≠ .poll) :
    Carries books [] (perform fuel c : Prog β BUF SESSIONS Answer) (HandsOver c) := by
  cases c with
  | poll => exact absurd rfl hpoll
  | claimAddress =>
    have hclaim : Carries books [] (claimAddress fuel : Prog β BUF SESSIONS Unit)
        fun _ left => left = [] := by
      refine Carries.bind_idle (idle_onNode _) fun claim => ?_
      refine Carries.bind_idle (idle_sendFrame claim) fun _ => ?_
      exact Carries.bind_idle idle_now fun t => carries_settle _ fuel
    exact hclaim.bind fun _ mid hmid => Carries.pure hmid
  | scan duration =>
    have hscan : Carries books [] (scan fuel duration : Prog β BUF SESSIONS _)
        fun _ left => left = [] := by
      refine Carries.bind_idle (idle_request _ _) fun _ => Carries.bind_idle idle_now fun t => ?_
      refine (carries_listen _ fuel).bind_kept ?_
      exact Carries.bind_idle Moves.get fun w => Carries.pure rfl
    exact hscan.bind fun _ mid hmid => Carries.pure hmid
  | requestWait destination requested timeout =>
    have hwait : Carries books [] (requestWait fuel destination requested timeout
        : Prog β BUF SESSIONS Response) (Responds destination requested) :=
      Carries.bind_idle (idle_request _ _) fun _ => Carries.bind_idle idle_now fun t =>
        carries_await destination requested _ fuel
    exact hwait.bind fun _ mid hmid => Carries.pure hmid
  | sendTo destination group data =>
    exact (carries_sendTo fuel destination group data).bind fun _ mid hmid => Carries.pure hmid

theorem poll_empty (fuel : Nat) (h : w.pending = []) : poll fuel w = pump fuel w := by
  have hget : (get : Prog β BUF SESSIONS _) w = .ok w w := rfl
  unfold poll
  rw [bind_ok hget, h]

theorem poll_pending (fuel : Nat) {m : Message} {pending : List Message}
    (h : w.pending = m :: pending) : poll fuel w = .ok (some m) { w with pending } := by
  have hget : (get : Prog β BUF SESSIONS _) w = .ok w w := rfl
  unfold poll
  rw [bind_ok hget, h]
  rfl

end Ecu

end SaeJ1939.Host
