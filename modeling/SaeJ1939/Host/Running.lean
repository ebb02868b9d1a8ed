/-
  SaeJ1939.Host.Running — every call keeps the invariant of an ECU.

  A call may fail at any frame it hands to the bus, so the invariant has
  to hold wherever a method may stop, not only where it returns.

  Main results:
    * `handles_sendTo`, `handles_sendDue` — sending, with all that is
      received meanwhile, gives no address and lets no time pass.
    * `sound_pass` — neither does letting time pass break the invariant.
    * `Reachable.wf` — the invariant holds after every sequence of calls.
-/
import SaeJ1939.Host.Receiving

namespace SaeJ1939.Host.Ecu

open AddressClaim Checked Diagnostics Fallible

variable {β α : Type} {BUF SESSIONS : Nat} {w w' w'' : Watched β BUF SESSIONS}

/-! ## §1. Calls that do not use the bus. -/

theorem handles_queue (m : Message) : Moves Handles (queue m : Prog β BUF SESSIONS Unit) := by
  have hpush : Moves Handles (modify fun w => { w with pending := w.pending ++ [m] }
      : Prog β BUF SESSIONS Unit) := fun w =>
    ⟨fun h => ⟨h.node, h.etp, h.faults, h.schedule⟩, fun h => ⟨h, rfl⟩, id, [],
      (List.append_nil _).symm, fun _ h => (by cases h)⟩
  exact hpush.bind fun _ => handles_record id

theorem handles_queueIfAny (m : Option Message) :
    Moves Handles (queueIfAny m : Prog β BUF SESSIONS Unit) := by
  cases m with
  | none => exact Moves.pure _
  | some m => exact handles_queue m

theorem handles_nextDue : Moves Handles (nextDue : Prog β BUF SESSIONS (Option Due)) := by
  intro w
  refine ⟨fun h => ⟨h.node, h.etp, h.faults, h.schedule.nextDue⟩, fun h => ⟨h, rfl⟩, fun he => ?_,
    [], (List.append_nil _).symm, fun _ h => (by cases h)⟩
  show w.schedule.nextDue.2.entries = []
  rcases w.schedule.nextDue_cases with ⟨-, ho⟩ | ⟨index, hlt, -, -⟩
  · rw [ho]
    exact he
  · rw [he] at hlt
    exact absurd hlt (Nat.not_lt_zero index)

theorem handles_checkMayTransmit : Moves Handles (checkMayTransmit : Prog β BUF SESSIONS Unit) :=
  fun w => (sends_checkMayTransmit (P := fun _ _ => True) w).handles

theorem handles_valid (x : Result α) : Moves Handles (valid x : Prog β BUF SESSIONS α) :=
  fun w => (sends_valid (P := fun _ _ => True) x w).handles

/-- If the invariant holds before, it holds after. -/
def Sound (w w' : Watched β BUF SESSIONS) : Prop := w.toEcu.WF → w'.toEcu.WF

instance : IsPreorder (Watched β BUF SESSIONS) Sound where
  refl _ := id
  trans _ _ _ h h' := fun hwf => h' (h hwf)

theorem sound_of_handles {x : Prog β BUF SESSIONS α} (h : Moves Handles x) : Moves Sound x :=
  h.weaken fun _ _ h => h.wf

/-- A change of the schedule, the faults or anything the invariant does not
mention. -/
theorem sound_of {e : Ecu β BUF SESSIONS} {log : List (Happening BUF SESSIONS)}
    (hnode : w.node.WF → e.node.WF) (hetp : w.etp.WF → e.etp.WF)
    (hfaults : w.faults.WF → e.faults.WF) (hschedule : w.schedule.WF → e.schedule.WF) :
    Sound w ⟨e, log⟩ :=
  fun h => ⟨hnode h.node, hetp h.etp, hfaults h.faults, hschedule h.schedule⟩

theorem sound_tickNode (elapsedMs : Nat) :
    Moves Sound (tickNode elapsedMs : Prog β BUF SESSIONS (List Frame)) :=
  fun _ => sound_of (fun h => (h.step (i := .tick elapsedMs) rfl).1) id id id

theorem sound_tickEtp (elapsedMs : Nat) :
    Moves Sound (tickEtp elapsedMs : Prog β BUF SESSIONS (List Etp.Reassembler.Timeout)) :=
  fun _ => sound_of id (fun h => (Etp.Reassembler.tick_refines h elapsedMs Tp.t3TimeoutMs).1) id id

theorem sound_tickFaults (elapsedMs : Nat) :
    Moves Sound (tickFaults elapsedMs : Prog β BUF SESSIONS Bool) :=
  fun _ => sound_of id id (fun h => h.tick elapsedMs) id

theorem sound_tickSchedule (elapsedMs : Nat) :
    Moves Sound (tickSchedule elapsedMs : Prog β BUF SESSIONS Unit) :=
  fun _ => sound_of id id id fun h => h.tick elapsedMs

theorem sound_ignoring {x : Prog β BUF SESSIONS α} (h : Moves Sound x) :
    Moves Sound (ignoring x) :=
  h.bind fun _ => Moves.pure _

theorem sound_setFault (spn : Nat) (fmi : UInt8) (lamp : Lamp) :
    Moves Sound (setFault spn fmi lamp : Prog β BUF SESSIONS Unit) := by
  intro w
  have hset : Sound w { w with faults := (w.faults.set spn fmi lamp).2 } :=
    sound_of id id (fun h => h.set spn fmi lamp) id
  exact trans_of Sound hset (sound_of_handles (handles_valid _) _)

theorem sound_sendEvery (group : Pgn) (destination : Address) (data : List UInt8) (period : Nat) :
    Moves Sound (sendEvery group destination data period : Prog β BUF SESSIONS Unit) := by
  intro w
  unfold sendEvery
  split
  · exact sound_of_handles (handles_fail _) w
  · have hset : Sound w { w with
        schedule := (w.schedule.sendEvery group destination (period / 1000)).2 } :=
      sound_of id id id fun h => h.sendEvery group destination (period / 1000)
    refine trans_of Sound hset (after_bind (sound_of_handles (handles_valid _) _) ?_)
    exact fun _ _ _ _ => sound_of id id id id

theorem sound_setPeriodicPriority (group : Pgn) (destination : Address) (priority : Priority) :
    Moves Sound (setPeriodicPriority group destination priority : Prog β BUF SESSIONS Unit) := by
  refine Moves.get.bind fun w => ?_
  cases w.payloads (group, destination) with
  | none => exact sound_of_handles (handles_fail _)
  | some x => exact fun _ => sound_of id id id id

theorem sound_updatePeriodicTo (group : Pgn) (destination : Address) (data : List UInt8) :
    Moves Sound (updatePeriodicTo group destination data : Prog β BUF SESSIONS Unit) := by
  refine Moves.get.bind fun w => ?_
  split
  · exact fun _ => sound_of id id id id
  · exact sound_of_handles (handles_fail _)

/-! ## §2. Transmitting. -/

variable [Bus β]

theorem handles_now : Moves Handles (now : Prog β BUF SESSIONS Nat) :=
  fun w => (sends_now (P := fun _ _ => True) w).handles

/-- **Taking a frame off the bus** fails, finds none or notes the frame. -/
theorem recvFrame_cases (w : Watched β BUF SESSIONS) :
    ∃ bus, (∃ e, recvFrame w
          = .error (.io e) { w with bus, log := w.log ++ [.failed (.io e)] })
      ∨ recvFrame w = .ok none { w with bus }
      ∨ ∃ f, recvFrame w = .ok (some f) { w with bus, log := w.log ++ [.received f w.node] } := by
  refine ⟨(Bus.recvFrame w.bus).2, ?_⟩
  unfold recvFrame
  cases hrecv : (Bus.recvFrame w.bus).1 with
  | error e =>
    simp only [hrecv]
    exact Or.inl ⟨e, rfl⟩
  | ok frame =>
    simp only [hrecv]
    cases frame with
    | none => exact Or.inr (Or.inl rfl)
    | some f => exact Or.inr (Or.inr ⟨f, rfl⟩)

omit [Bus β] in
theorem handles_bus (w : Watched β BUF SESSIONS) (bus : β) : Handles w { w with bus } :=
  ⟨fun h => ⟨h.node, h.etp, h.faults, h.schedule⟩, fun h => ⟨h, rfl⟩, id, [],
    (List.append_nil _).symm, fun _ h => (by cases h)⟩

theorem handles_recvFrame : Moves Handles (recvFrame : Prog β BUF SESSIONS (Option Frame)) := by
  intro w
  obtain ⟨bus, ⟨e, hrun⟩ | hrun | ⟨f, hrun⟩⟩ := recvFrame_cases w <;> rw [hrun]
  · exact (handles_bus w bus).trans (handles_record id _)
  · exact handles_bus w bus
  · exact (handles_bus w bus).trans (handles_record id _)

theorem handles_drain (bound : Nat) (o : Outgoing) :
    Moves Handles (drain bound o : Prog β BUF SESSIONS Outgoing) :=
  fun _ => (sends_drain (P := fun _ _ => True) fun _ _ => trivial).handles

theorem handles_broadcast (group : Pgn) (data : List UInt8) (priority : Priority) :
    Moves Handles (broadcastWithPriority group data priority : Prog β BUF SESSIONS Unit) :=
  fun w => (sends_broadcast group data priority w).handles

/-- Acting on a frame during a transfer. -/
theorem handles_react (f : Frame) (o : Outgoing) (deadline : Nat)
    {again : Outgoing → Nat → Prog β BUF SESSIONS Unit} (h : ∀ o t, Moves Handles (again o t)) :
    Moves Handles (react f o deadline again) := by
  refine (handles_exec _).bind fun x => ?_
  obtain ⟨progress, o'⟩ := x
  cases progress with
  | ready =>
    refine (handles_drain _ _).bind fun o'' => ?_
    exact handles_now.bind fun t => h o'' _
  | complete => exact Moves.pure _
  | aborted reason => exact handles_fail _
  | idle =>
    refine (handles_dispatch f).bind fun m => ?_
    exact (handles_queueIfAny m).bind fun _ => h o' deadline

theorem handles_handshake (destination : Address) (fuel : Nat) (o : Outgoing) (deadline : Nat) :
    Moves Handles (handshake destination fuel o deadline : Prog β BUF SESSIONS Unit) := by
  induction fuel generalizing o deadline with
  | zero => exact Moves.throw _
  | succ fuel ih =>
    unfold handshake
    split
    · exact Moves.pure _
    refine handles_now.bind fun t => ?_
    split
    · exact handles_fail _
    refine handles_recvFrame.bind fun frame => ?_
    cases frame with
    | none => exact ih o deadline
    | some f => exact handles_react f o deadline ih

/-- **Sending to one ECU gives no address and lets no time pass.** -/
theorem handles_sendTo (fuel : Nat) (destination : Address) (group : Pgn) (data : List UInt8) :
    Moves Handles (sendTo fuel destination group data : Prog β BUF SESSIONS Unit) := by
  unfold sendTo
  split
  · exact handles_broadcast group data .default
  refine handles_checkMayTransmit.bind fun _ => Moves.get.bind fun _ => ?_
  refine (handles_valid _).bind fun o => (handles_drain _ _).bind fun o' => ?_
  exact handles_now.bind fun t => handles_handshake _ _ _ _

/-- **So does sending what is due.** -/
theorem handles_sendDue (fuel bound : Nat) :
    Moves Handles (sendDue fuel bound : Prog β BUF SESSIONS Unit) := by
  induction bound with
  | zero => exact Moves.throw _
  | succ bound ih =>
    unfold sendDue
    refine handles_nextDue.bind fun due => ?_
    cases due with
    | none => exact Moves.pure _
    | some due =>
      refine Moves.get.bind fun w => ?_
      cases w.payloads (due.pgn, due.destination) with
      | none => exact ih
      | some x =>
        obtain ⟨payload, priority⟩ := x
        dsimp only
        split
        · exact (handles_broadcast _ _ _).bind fun _ => ih
        · exact (handles_sendTo _ _ _ _).bind fun _ => ih

/-! ## §3. Time. -/

theorem sound_elapsed : Moves Sound (elapsed : Prog β BUF SESSIONS Nat) := by
  refine (sound_of_handles handles_now).bind fun t => Moves.get.bind fun w => ?_
  dsimp only
  split
  · exact Moves.pure _
  · have htake : Moves Sound (modify fun w' => { w' with lastTick := (w.lastTick.tick t).2 }
        : Prog β BUF SESSIONS Unit) := fun _ => sound_of id id id id
    have hrecord : Moves Sound (record (.taken (w.lastTick.tick t).1)
        : Prog β BUF SESSIONS Unit) := fun _ => sound_of id id id id
    exact htake.bind fun _ => hrecord.bind fun _ => Moves.pure _

theorem sound_report (elapsedMs : Nat) :
    Moves Sound (report elapsedMs : Prog β BUF SESSIONS Unit) := by
  refine Moves.get.bind fun w => ?_
  split
  · refine (sound_tickFaults elapsedMs).bind fun due => ?_
    split
    · exact fun w => (sends_dm1 w).handles.wf
    · exact Moves.pure _
  · exact Moves.pure _

theorem sound_publish (fuel elapsedMs : Nat) :
    Moves Sound (publish fuel elapsedMs : Prog β BUF SESSIONS Unit) := by
  refine Moves.get.bind fun w => ?_
  split
  · exact (sound_tickSchedule elapsedMs).bind fun _ => sound_of_handles (handles_sendDue _ _)
  · exact Moves.pure _

theorem sound_pass (fuel elapsedMs : Nat) :
    Moves Sound (pass fuel elapsedMs : Prog β BUF SESSIONS Unit) := by
  have hsend : ∀ f, Moves Sound (sendFrame f : Prog β BUF SESSIONS Unit) := fun f w =>
    (sends_frame (P := fun _ _ => True) trivial).handles.wf
  refine (sound_tickNode elapsedMs).bind fun frames => ?_
  refine (Moves.forM fun f _ => hsend f).bind fun _ => ?_
  refine (sound_tickEtp elapsedMs).bind fun expired => ?_
  refine (Moves.forM fun x _ w => (sends_etpCm x.1 x.2 w).handles.wf).bind fun _ => ?_
  exact (sound_report elapsedMs).bind fun _ => sound_publish fuel elapsedMs

theorem sound_tick (fuel : Nat) : Moves Sound (tick fuel : Prog β BUF SESSIONS Unit) := by
  refine sound_elapsed.bind fun elapsedMs => ?_
  split
  · exact Moves.pure _
  · exact sound_pass fuel elapsedMs

theorem sound_pump (fuel : Nat) :
    Moves Sound (pump fuel : Prog β BUF SESSIONS (Option Message)) := by
  have hreceive : Moves Sound (receive : Prog β BUF SESSIONS (Option Message)) := by
    refine (sound_of_handles handles_recvFrame).bind fun frame => ?_
    cases frame with
    | none => exact Moves.pure _
    | some f => exact sound_of_handles (handles_dispatch f)
  exact hreceive.bind fun m => (sound_tick fuel).bind fun _ => Moves.pure _

/-! ## §4. Every call. -/

theorem sound_poll (fuel : Nat) :
    Moves Sound (poll fuel : Prog β BUF SESSIONS (Option Message)) := by
  refine Moves.get.bind fun w => ?_
  cases w.pending with
  | nil => exact sound_pump fuel
  | cons m pending =>
    have hpop : Moves Sound (modify fun w => { w with pending } : Prog β BUF SESSIONS Unit) :=
      fun _ => sound_of id id id id
    exact hpop.bind fun _ => Moves.pure _

theorem sound_settle (giveUpAt fuel : Nat) :
    Moves Sound (settle giveUpAt fuel : Prog β BUF SESSIONS Unit) := by
  induction fuel with
  | zero => exact Moves.throw _
  | succ fuel ih =>
    refine (sound_of_handles handles_now).bind fun t => ?_
    split
    · refine Moves.get.bind fun w => ?_
      split
      · exact Moves.pure _
      · refine (sound_pump fuel).bind fun m => ?_
        exact (sound_of_handles (handles_queueIfAny m)).bind fun _ => ih
    · exact Moves.pure _

theorem sound_claimAddress (fuel : Nat) :
    Moves Sound (claimAddress fuel : Prog β BUF SESSIONS Unit) := by
  have hstart : Moves Sound (onNode fun n => .ok n.start : Prog β BUF SESSIONS Frame) :=
    fun _ => sound_of (fun h => (h.step (i := .start) rfl).1) id id id
  refine hstart.bind fun claim => ?_
  have hsend : Moves Sound (sendFrame claim : Prog β BUF SESSIONS Unit) := fun w =>
    (sends_frame (P := fun _ _ => True) trivial).handles.wf
  refine hsend.bind fun _ => (sound_of_handles handles_now).bind fun t => ?_
  exact sound_settle _ fuel

theorem sound_listen (deadline fuel : Nat) :
    Moves Sound (listen deadline fuel : Prog β BUF SESSIONS Unit) := by
  induction fuel with
  | zero => exact Moves.throw _
  | succ fuel ih =>
    refine (sound_of_handles handles_now).bind fun t => ?_
    split
    · refine (sound_pump fuel).bind fun m => ?_
      exact (sound_of_handles (handles_queueIfAny m)).bind fun _ => ih
    · exact Moves.pure _

theorem sound_request (destination : Address) (requested : Pgn) :
    Moves Sound (request destination requested : Prog β BUF SESSIONS Unit) :=
  fun w => (sends_request destination requested w).handles.wf

theorem sound_scan (fuel duration : Nat) :
    Moves Sound (scan fuel duration : Prog β BUF SESSIONS (List (Address × Name))) := by
  refine (sound_request _ _).bind fun _ => (sound_of_handles handles_now).bind fun t => ?_
  exact (sound_listen _ fuel).bind fun _ => Moves.get.bind fun w => Moves.pure _

theorem sound_await (destination : Address) (requested : Pgn) (deadline fuel : Nat) :
    Moves Sound (await destination requested deadline fuel : Prog β BUF SESSIONS Response) := by
  induction fuel with
  | zero => exact Moves.throw _
  | succ fuel ih =>
    refine (sound_of_handles handles_now).bind fun t => ?_
    split
    · refine (sound_pump fuel).bind fun m => ?_
      cases m with
      | none => exact ih
      | some m =>
        dsimp only
        cases answers destination requested m with
        | some response => exact Moves.pure _
        | none => exact (sound_of_handles (handles_queue m)).bind fun _ => ih
    · exact Moves.pure _

theorem sound_requestWait (fuel : Nat) (destination : Address) (requested : Pgn) (timeout : Nat) :
    Moves Sound (requestWait fuel destination requested timeout : Prog β BUF SESSIONS Response) :=
  (sound_request _ _).bind fun _ => (sound_of_handles handles_now).bind fun _ =>
    sound_await _ _ _ _

/-- **Every call keeps the invariant**, whether it returns or fails. -/
theorem sound_call (fuel : Nat) (op : Op) :
    Moves Sound (call fuel op : Prog β BUF SESSIONS Unit) := by
  cases op with
  | claimAddress => exact sound_claimAddress fuel
  | poll => exact sound_ignoring (sound_poll fuel)
  | request destination requested => exact sound_request destination requested
  | broadcastWithPriority group data priority =>
    exact sound_of_handles (handles_broadcast group data priority)
  | sendTo destination group data =>
    exact sound_of_handles (handles_sendTo fuel destination group data)
  | sendEvery group destination data period => exact sound_sendEvery group destination data period
  | setPeriodicPriority group destination priority =>
    exact sound_setPeriodicPriority group destination priority
  | updatePeriodicTo group destination data => exact sound_updatePeriodicTo group destination data
  | stopPeriodic group destination =>
    exact sound_ignoring fun _ => sound_of id id id fun h => h.remove group destination
  | suspendBroadcasts timeout => exact fun _ => sound_of id id id fun h => h.suspend _
  | resumeBroadcasts => exact fun _ => sound_of id id id fun h => h.apply .resume
  | setFault spn fmi lamp => exact sound_setFault spn fmi lamp
  | clearFault spn fmi => exact sound_ignoring fun _ => sound_of id id (fun h => h.clear spn fmi) id
  | faultsMut op => exact sound_ignoring fun _ => sound_of id id (fun h => h.apply op) id
  | sendDm1 => exact fun w => (sends_dm1 w).handles.wf
  | sendDm2 => exact fun w => (sends_dm2 w).handles.wf
  | sendDm5 => exact fun w => (sends_dm5 w).handles.wf
  | setObdCompliance level => exact fun _ => sound_of id id id id
  | scan duration => exact sound_ignoring (sound_scan fuel duration)
  | requestWait destination requested timeout =>
    exact sound_ignoring (sound_requestWait fuel destination requested timeout)

/-- **The invariant holds in every reachable state.** -/
theorem Reachable.wf {name : Name} {preferred : Address} {w : Watched β BUF SESSIONS}
    (h : Reachable name preferred w) : w.toEcu.WF := by
  induction h with
  | new bus => exact ⟨Node.wf_new name preferred, Etp.Reassembler.wf_new, FaultLog.WF.new,
      Schedule.WF.new⟩
  | call _ fuel op ih => exact sound_call fuel op _ ih
  | bus _ _ ih => exact ⟨ih.node, ih.etp, ih.faults, ih.schedule⟩

end SaeJ1939.Host.Ecu
