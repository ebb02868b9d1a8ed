/-
  SaeJ1939.Host.ServiceTool — reading another ECU's diagnostics (`ecu.rs`,
  the service-tool side).

  Every reading is a request and the wait for its answer; what comes back
  is the parameter group, an acknowledgement or nothing.  Meanwhile the
  tool goes on receiving, and what is no answer is queued.

  Main results:
    * `unqueued_pump` — while nothing is scheduled, receiving a frame and
      letting time pass queue no message.
    * `await_in_order` — the messages that arrive during the wait are
      queued in order, up to the first one that answers.
    * `reading_is_first_answer` — a reading is of the first message that
      answers, and a reading of nothing means that none did.
-/
import SaeJ1939.Diagnostics.Identification
import SaeJ1939.Diagnostics.Reports
import SaeJ1939.Host.Keeping
import SaeJ1939.Host.Payloads

namespace SaeJ1939.Host

open AddressClaim Checked Custody Diagnostics Fallible

/-! ## §1. What a reading returns. -/

/-- The kinds of error a reading returns of its own. -/
inductive ReadErrorKind where
  | unsupported
  | invalidInput
  deriving Repr, DecidableEq

/-- The `io::Error` a reading returns although it was answered. -/
structure ReadError where
  kind : ReadErrorKind
  message : String
  deriving Repr, DecidableEq

/-- What a reading that was not cut short returns. -/
abbrev Read (α : Type) := Except ReadError α

/-- The debug text of an acknowledgement's control byte. -/
def controlText : AckControl → String
  | .acknowledged => "Acknowledged"
  | .notSupported => "NotSupported"
  | .accessDenied => "AccessDenied"
  | .busy => "Busy"
  | .other raw => "Other(" ++ toString raw.toNat ++ ")"

/-- The text of an address. -/
def addressText (a : Address) : String :=
  "0x" ++ (hexDigits 2 a.asU8).toUpper
    ++ (if a = .global then " (global)" else if a = .null then " (null)" else "")

/-- Turn a negative acknowledgement into an error carrying its reason. -/
def refused {α : Type} (ack : Acknowledgement) (what : String) : Read α :=
  .error ⟨.unsupported, toString ack.address.asU8 ++ " declined " ++ what ++ ": "
    ++ controlText ack.control⟩

/-- `.map_err(invalid_input)` -/
def understood {α : Type} : Result α → Read α
  | .ok a => .ok a
  | .error e => .error ⟨.invalidInput, errorText e⟩

/-- One thing a tool reads: the parameter group, what a refusal calls it,
and how the message is understood. -/
structure Reading (α : Type) where
  group : Pgn
  what : String
  parse : Address → Message → Read α

namespace Reading

/-- The active trouble codes. -/
def activeFaults : Reading FaultReport :=
  ⟨.dm1, "DM1", fun _ message => understood (FaultReport.parse message.data)⟩

/-- The fault history. -/
def previouslyActiveFaults : Reading FaultReport :=
  ⟨.dm2, "DM2", fun _ message => understood (FaultReport.parse message.data)⟩

/-- Emissions readiness and fault counts. -/
def readiness : Reading Dm5 where
  group := .dm5
  what := "DM5"
  parse target message :=
    match message.data with
    | b₀ :: b₁ :: b₂ :: b₃ :: b₄ :: b₅ :: b₆ :: b₇ :: _ =>
        .ok (Dm5.decode ![b₀, b₁, b₂, b₃, b₄, b₅, b₆, b₇])
    | data => .error ⟨.invalidInput, "DM5 from " ++ addressText target ++ " was "
        ++ toString data.length ++ " bytes, not 8"⟩

/-- The software versions an ECU reports about itself, as bytes. -/
def softwareIdentification : Reading (List (List UInt8)) :=
  ⟨.softwareIdentification, "software identification", fun _ message =>
    understood ((Identification.SoftwareIdentification.parse message.data).map fun id => id.fields)⟩

/-- What a response comes to. -/
def ofResponse {α : Type} (r : Reading α) (target : Address) : Response → Read (Option α)
  | .message message => (r.parse target message).map some
  | .acknowledged ack => refused ack r.what
  | .timedOut => .ok none

end Reading

/-- What a response to a clear request comes to: whether it was confirmed. -/
def confirmed : Response → Read Bool
  | .acknowledged ack =>
      if ack.control.isPositive then .ok true else refused ack "the clear request"
  -- no data message answers a request that asks for no data
  | .message _ | .timedOut => .ok false

namespace Ecu

variable {β α : Type} {BUF SESSIONS : Nat} {w w' w'' : Watched β BUF SESSIONS}

section Calls

variable [Bus β]

/-- Read something from `target`. -/
def read (r : Reading α) (fuel : Nat) (target : Address) (timeout : Nat) :
    Prog β BUF SESSIONS (Read (Option α)) := do
  return r.ofResponse target (← requestWait fuel target r.group timeout)

/-- Read the active trouble codes from `target`. -/
def readActiveFaults (fuel : Nat) (target : Address) (timeout : Nat) :
    Prog β BUF SESSIONS (Read (Option FaultReport)) := read .activeFaults fuel target timeout

/-- Read the fault history from `target`. -/
def readPreviouslyActiveFaults (fuel : Nat) (target : Address) (timeout : Nat) :
    Prog β BUF SESSIONS (Read (Option FaultReport)) :=
  read .previouslyActiveFaults fuel target timeout

/-- Read emissions readiness and fault counts from `target`. -/
def readReadiness (fuel : Nat) (target : Address) (timeout : Nat) :
    Prog β BUF SESSIONS (Read (Option Dm5)) := read .readiness fuel target timeout

/-- Read the software versions `target` reports about itself. -/
def readSoftwareIdentification (fuel : Nat) (target : Address) (timeout : Nat) :
    Prog β BUF SESSIONS (Read (Option (List (List UInt8)))) :=
  read .softwareIdentification fuel target timeout

/-- Ask `target` to clear codes; whether it confirmed. -/
def clearWith (fuel : Nat) (target : Address) (group : Pgn) (timeout : Nat) :
    Prog β BUF SESSIONS (Read Bool) := do
  return confirmed (← requestWait fuel target group timeout)

/-- Ask `target` to clear its active codes. -/
def clearActiveFaults (fuel : Nat) (target : Address) (timeout : Nat) :
    Prog β BUF SESSIONS (Read Bool) := clearWith fuel target .dm11 timeout

/-- Ask `target` to clear its fault history. -/
def clearPreviouslyActiveFaults (fuel : Nat) (target : Address) (timeout : Nat) :
    Prog β BUF SESSIONS (Read Bool) := clearWith fuel target .dm3 timeout

end Calls

/-! ## §2. Receiving without queueing. -/

/-- If nothing is scheduled, nothing becomes so, and no message is
queued. -/
def Unqueued (w w' : Watched β BUF SESSIONS) : Prop :=
  w.schedule.entries = [] → w'.schedule.entries = [] ∧ w'.pending = w.pending
    ∧ ∃ done, w'.log = w.log ++ done ∧ done.filterMap queues = []

theorem Unqueued.refl (w : Watched β BUF SESSIONS) : Unqueued w w :=
  fun he => ⟨he, rfl, [], (List.append_nil _).symm, rfl⟩

theorem Unqueued.trans (h : Unqueued w w') (h' : Unqueued w' w'') : Unqueued w w'' := by
  intro he
  obtain ⟨he₁, hpending, done, hlog, hdone⟩ := h he
  obtain ⟨he₂, hpending', done', hlog', hdone'⟩ := h' he₁
  refine ⟨he₂, hpending'.trans hpending, done ++ done', ?_, ?_⟩
  · rw [hlog', hlog, List.append_assoc]
  · rw [List.filterMap_append, hdone, hdone']
    rfl

instance : IsPreorder (Watched β BUF SESSIONS) Unqueued where
  refl := Unqueued.refl
  trans _ _ _ := Unqueued.trans

/-- A part that handles no message and leaves what is registered. -/
theorem unqueued_of_idle {x : Prog β BUF SESSIONS α} (hidle : Moves (Idle books) x)
    (hsame : Moves Untouched x) : Moves Unqueued x := by
  intro w he
  obtain ⟨done, hlog, hpending, hdone⟩ := hidle w
  have hkeys : registered (after (x w)) = registered w := (hsame w).registered
  unfold registered at hkeys
  rw [he, List.map_nil, List.map_eq_nil_iff] at hkeys
  exact ⟨hkeys, hpending, done, hlog, List.filterMap_eq_nil_iff.mpr fun x hx => (hdone x hx).2⟩

/-- A message is completed. -/
theorem unqueued_complete (m : Message) :
    Moves Unqueued (complete m : Prog β BUF SESSIONS Unit) :=
  fun _ he => ⟨he, rfl, [.completed m], rfl, rfl⟩

variable [Bus β]

theorem unqueued_actOnEvent (event : Event) :
    Moves Unqueued (actOnEvent event : Prog β BUF SESSIONS (Option Message)) := by
  have hsend : ∀ f, Moves Unqueued (sendFrame f : Prog β BUF SESSIONS Unit) := fun f =>
    unqueued_of_idle (idle_sendFrame f) (untouched_sendFrame f)
  cases event with
  | idle => exact Moves.pure _
  | transmit reply => exact (hsend reply).bind fun _ => Moves.pure _
  | message pgn source data reply =>
    refine (unqueued_complete _).bind fun _ => ?_
    refine (Moves.forM fun f _ => hsend f).bind fun _ => ?_
    refine (unqueued_of_idle ((obeys_commandedAddress _).weaken fun _ _ h => h.idle)
      (untouched_commandedAddress _)).bind fun _ => ?_
    refine (unqueued_of_idle ((obeys_dm13 _).weaken fun _ _ h => h.idle)
      (untouched_dm13 _)).bind fun _ => ?_
    exact (unqueued_of_idle ((obeys_request _).weaken fun _ _ h => h.idle)
      (untouched_request _)).bind fun _ => Moves.pure _

theorem unqueued_actOnEtp (source : Address) (outcome : Etp.Rx) :
    Moves Unqueued (actOnEtp source outcome : Prog β BUF SESSIONS (Option Message)) := by
  have hsend : Moves (Idle books) ((replyOf outcome).toList.forM (sendEtpCm source)
      : Prog β BUF SESSIONS Unit) := Moves.forM fun cm _ => idle_etpCm source cm
  refine (Moves.forM fun m _ => unqueued_complete m).bind fun _ => ?_
  refine (unqueued_of_idle hsend (Moves.forM fun cm _ w => ?_)).bind fun _ => Moves.pure _
  exact (sends_etpCm source cm w).untouched

theorem unqueued_dispatchEtp (f : Frame) :
    Moves Unqueued (dispatchEtp f : Prog β BUF SESSIONS (Option (Option Message))) := by
  have honEtp : ∀ g, Moves Unqueued (onEtp g : Prog β BUF SESSIONS Etp.Rx) := fun g =>
    unqueued_of_idle (idle_onEtp g) (untouched_onEtp g)
  have hact : ∀ outcome, Moves Unqueued (do
      return some (← actOnEtp f.sourceAddress outcome)
        : Prog β BUF SESSIONS (Option (Option Message))) :=
    fun outcome => (unqueued_actOnEtp _ outcome).bind fun _ => Moves.pure _
  unfold dispatchEtp
  split
  · exact Moves.pure _
  refine Moves.get.bind fun w => ?_
  split
  · exact Moves.pure _
  split
  · cases Etp.EtpCm.decode f.payload with
    | error e => exact Moves.pure _
    | ok cm => exact (honEtp _).bind hact
  · exact (honEtp _).bind hact

/-- **Dispatching a frame queues nothing**: what it completes is
returned. -/
theorem unqueued_dispatch (f : Frame) :
    Moves Unqueued (dispatch f : Prog β BUF SESSIONS (Option Message)) := by
  refine (unqueued_of_idle (idle_recordClaim f) (untouched_recordClaim f)).bind fun _ => ?_
  refine (unqueued_dispatchEtp f).bind fun message => ?_
  cases message with
  | some message => exact Moves.pure _
  | none =>
    exact (unqueued_of_idle (idle_onNode _) (untouched_onNode _)).bind unqueued_actOnEvent

omit [Bus β] in
/-- With nothing scheduled, nothing is due. -/
theorem nextDue_unscheduled (he : w.schedule.entries = []) :
    w.schedule.nextDue = (none, w.schedule) := by
  rcases w.schedule.nextDue_cases with ⟨-, ho⟩ | ⟨index, hlt, -, -⟩
  · exact ho
  · rw [he] at hlt
    exact absurd hlt (Nat.not_lt_zero index)

theorem unqueued_sendDue (fuel bound : Nat) :
    Moves Unqueued (sendDue fuel bound : Prog β BUF SESSIONS Unit) := by
  intro w he
  have hrefl := Unqueued.refl w he
  cases bound with
  | zero => exact hrefl
  | succ bound =>
    have hrun : nextDue w = .ok none w := by
      unfold nextDue
      rw [nextDue_unscheduled he]
    unfold sendDue
    rw [bind_ok hrun]
    exact hrefl

theorem unqueued_tick (fuel : Nat) : Moves Unqueued (tick fuel : Prog β BUF SESSIONS Unit) := by
  refine (unqueued_of_idle idle_elapsed untouched_elapsed).bind fun elapsedMs => ?_
  split
  · exact Moves.pure _
  refine (unqueued_of_idle (idle_tickNode elapsedMs) fun _ => ⟨rfl, rfl⟩).bind fun frames => ?_
  refine (Moves.forM fun f _ =>
    unqueued_of_idle (idle_sendFrame f) (untouched_sendFrame f)).bind fun _ => ?_
  refine (unqueued_of_idle (idle_tickEtp elapsedMs) fun _ => ⟨rfl, rfl⟩).bind fun expired => ?_
  refine (Moves.forM fun x _ => unqueued_of_idle (idle_etpCm x.1 x.2) fun w =>
    (sends_etpCm x.1 x.2 w).untouched).bind fun _ => ?_
  refine (unqueued_of_idle (idle_report elapsedMs) (untouched_report elapsedMs)).bind fun _ => ?_
  refine Moves.get.bind fun w => ?_
  split
  · exact (unqueued_of_idle (idle_tickSchedule elapsedMs) (untouched_tickSchedule elapsedMs)).bind
      fun _ => unqueued_sendDue _ _
  · exact Moves.pure _

/-- **Receiving a frame and letting time pass queue nothing**, while
nothing is scheduled. -/
theorem unqueued_pump (fuel : Nat) :
    Moves Unqueued (pump fuel : Prog β BUF SESSIONS (Option Message)) := by
  have hreceive : Moves Unqueued (receive : Prog β BUF SESSIONS (Option Message)) := by
    refine (unqueued_of_idle idle_recvFrame untouched_recvFrame).bind fun frame => ?_
    cases frame with
    | none => exact Moves.pure _
    | some f => exact unqueued_dispatch f
  exact hreceive.bind fun m => (unqueued_tick fuel).bind fun _ => Moves.pure _

/-! ## §3. Waiting for an answer. -/

/-- Between `w` and `w'` the messages `arrived` are completed and `kept`
are queued, each in this order. -/
def Arrived (arrived kept : List Message) (w w' : Watched β BUF SESSIONS) : Prop :=
  w'.pending = w.pending ++ kept ∧ ∃ done, w'.log = w.log ++ done
    ∧ done.filterMap completes = arrived ∧ done.filterMap queues = kept

omit [Bus β] in
theorem Arrived.refl (w : Watched β BUF SESSIONS) : Arrived [] [] w w :=
  ⟨(List.append_nil _).symm, [], (List.append_nil _).symm, rfl, rfl⟩

omit [Bus β] in
theorem Arrived.trans {arrived kept arrived' kept' : List Message} (h : Arrived arrived kept w w')
    (h' : Arrived arrived' kept' w' w'') : Arrived (arrived ++ arrived') (kept ++ kept') w w'' := by
  obtain ⟨hpending, done, hlog, hcompletes, hqueues⟩ := h
  obtain ⟨hpending', done', hlog', hcompletes', hqueues'⟩ := h'
  refine ⟨?_, done ++ done', ?_, ?_, ?_⟩
  · rw [hpending', hpending, List.append_assoc]
  · rw [hlog', hlog, List.append_assoc]
  · rw [List.filterMap_append, hcompletes, hcompletes']
  · rw [List.filterMap_append, hqueues, hqueues']

omit [Bus β] in
theorem Arrived.of_idle (h : Idle books w w') : Arrived [] [] w w' := by
  obtain ⟨done, hlog, hpending, hdone⟩ := h
  exact ⟨hpending.trans (List.append_nil _).symm, done, hlog,
    List.filterMap_eq_nil_iff.mpr fun x hx => (hdone x hx).1,
    List.filterMap_eq_nil_iff.mpr fun x hx => (hdone x hx).2⟩

/-- **One round of receiving**: what is completed is what is returned. -/
theorem arrived_pump (he : w.schedule.entries = []) (fuel : Nat) :
    ∃ arrived, Arrived arrived [] w (after (pump fuel w))
      ∧ (after (pump fuel w)).schedule.entries = []
      ∧ ∀ m w', pump fuel w = .ok m w' → arrived = m.toList := by
  obtain ⟨he', hpending, done, hlog, hqueues⟩ := unqueued_pump fuel w he
  refine ⟨done.filterMap completes,
    ⟨hpending.trans (List.append_nil _).symm, done, hlog, rfl, hqueues⟩, he', ?_⟩
  intro m w' hrun
  have hcarries : Carries books [] (pump fuel : Prog β BUF SESSIONS (Option Message)) _ :=
    carries_pump fuel
  replace hcarries := hcarries w
  rw [hrun] at hcarries hlog
  obtain ⟨left, hleft, done', hlog', -, hperm⟩ := hcarries
  -- both accounts are of the same stretch of the log
  obtain rfl : done' = done := List.append_cancel_left (hlog'.symm.trans hlog)
  have hperm : (done'.filterMap queues ++ left).Perm ([] ++ done'.filterMap completes) := hperm
  rw [hqueues, hleft, List.nil_append, List.nil_append, List.append_nil] at hperm
  cases m with
  | none => exact List.nil_perm.mp hperm
  | some m => exact (List.singleton_perm.mp hperm).symm

/-- **The wait for an answer.**  What arrives is queued in order, up to the
first message that answers, which is returned; if none is, none did. -/
theorem await_in_order (destination : Address) (requested : Pgn) (deadline fuel : Nat)
    (he : w.schedule.entries = []) :
    ∃ others rest, Arrived (others ++ rest) others w
          (after (await destination requested deadline fuel w))
      ∧ (∀ m ∈ others, answers destination requested m = none)
      ∧ ∀ response w', await destination requested deadline fuel w = .ok response w' →
        Responds destination requested response rest := by
  induction fuel generalizing w with
  | zero =>
    exact ⟨[], [], Arrived.refl w, fun _ h => absurd h List.not_mem_nil, fun _ _ h => by cases h⟩
  | succ fuel ih =>
    have hnow : now w = .ok (Bus.now w.bus).1 { w with bus := (Bus.now w.bus).2 } := rfl
    unfold await
    rw [bind_ok hnow]
    have hidle : Arrived [] [] w { w with bus := (Bus.now w.bus).2 } :=
      Arrived.of_idle (idle_of_same rfl rfl)
    split
    · obtain ⟨arrived, hpumped, he₁, hreturned⟩ :=
        arrived_pump (w := { w with bus := (Bus.now w.bus).2 }) he fuel
      have hpumped := hidle.trans hpumped
      rw [List.nil_append, List.nil_append] at hpumped
      cases hrun : pump fuel { w with bus := (Bus.now w.bus).2 } with
      | error e w₁ =>
        rw [hrun] at hpumped
        rw [bind_error hrun]
        exact ⟨[], arrived, hpumped, fun _ h => absurd h List.not_mem_nil, fun _ _ h => by cases h⟩
      | ok m w₁ =>
        rw [hrun] at hpumped he₁
        rw [bind_ok hrun]
        have harrived := hreturned m w₁ hrun
        cases m with
        | none =>
          -- nothing has come: wait on
          obtain ⟨others, rest, hothers, hnone, hresponds⟩ := ih he₁
          have hall := hpumped.trans hothers
          rw [harrived] at hall
          exact ⟨others, rest, hall, hnone, hresponds⟩
        | some m =>
          dsimp only
          cases hanswers : answers destination requested m with
          | some response =>
            refine ⟨[], [m], ?_, fun _ h => absurd h List.not_mem_nil, fun response' w' h => ?_⟩
            · rw [harrived] at hpumped
              exact hpumped
            · injection h with hresponse
              rw [← hresponse]
              cases response with
              | timedOut => exact absurd hanswers (answers_ne_timedOut destination requested m)
              | message | acknowledged => exact ⟨m, rfl, hanswers⟩
          | none =>
            -- no answer: it is queued before the wait goes on
            dsimp only
            have hqueue : queue m w₁ = .ok () { w₁ with
                pending := w₁.pending ++ [m], log := w₁.log ++ [.queued m] } := rfl
            rw [bind_ok hqueue]
            obtain ⟨others, rest, hothers, hnone, hresponds⟩ := ih (w := { w₁ with
                pending := w₁.pending ++ [m], log := w₁.log ++ [.queued m] }) he₁
            have hqueued : Arrived [] [m] w₁ { w₁ with
                pending := w₁.pending ++ [m], log := w₁.log ++ [.queued m] } :=
              ⟨rfl, [.queued m], rfl, rfl, rfl⟩
            have hall := (hpumped.trans hqueued).trans hothers
            rw [harrived] at hall
            refine ⟨m :: others, rest, hall, ?_, hresponds⟩
            exact List.forall_mem_cons.mpr ⟨hanswers, hnone⟩
    · refine ⟨[], [], hidle, fun _ h => absurd h List.not_mem_nil, fun response w' h => ?_⟩
      injection h with hresponse
      rw [← hresponse]
      rfl

/-- The request goes out, and the wait begins. -/
theorem requestWait_in_order (destination : Address) (requested : Pgn) (timeout fuel : Nat)
    (he : w.schedule.entries = []) :
    ∃ others rest, Arrived (others ++ rest) others w
          (after (requestWait fuel destination requested timeout w))
      ∧ (∀ m ∈ others, answers destination requested m = none)
      ∧ ∀ response w', requestWait fuel destination requested timeout w = .ok response w' →
        Responds destination requested response rest := by
  have hidle := Arrived.of_idle (idle_request destination requested w)
  have hsends := sends_request destination requested w
  unfold requestWait
  cases hrun : request destination requested w with
  | error e w₁ =>
    rw [hrun] at hidle
    rw [bind_error hrun]
    exact ⟨[], [], hidle, fun _ h => absurd h List.not_mem_nil, fun _ _ h => by cases h⟩
  | ok u w₁ =>
    rw [hrun] at hidle hsends
    have hnow : now w₁ = .ok (Bus.now w₁.bus).1 { w₁ with bus := (Bus.now w₁.bus).2 } := rfl
    have he₁ : w₁.schedule.entries = [] := hsends.handles.entries he
    obtain ⟨others, rest, hothers, hnone, hresponds⟩ :=
      await_in_order (w := { w₁ with bus := (Bus.now w₁.bus).2 }) destination requested
        ((Bus.now w₁.bus).1 + timeout) fuel he₁
    rw [bind_ok hrun, bind_ok hnow]
    exact ⟨others, rest, hidle.trans ((Arrived.of_idle (idle_of_same rfl rfl)).trans hothers),
      hnone, hresponds⟩

/-- The acknowledgement a message carries, if it is one. -/
def ackOf (message : Message) : Option Acknowledgement :=
  if message.pgn = .acknowledgement then
    match message.data with
    | b₀ :: b₁ :: b₂ :: b₃ :: b₄ :: b₅ :: b₆ :: b₇ :: _ =>
        some (Acknowledgement.decode ![b₀, b₁, b₂, b₃, b₄, b₅, b₆, b₇])
    | _ => none
  else none

/-- **A message answers** if it comes from where it should, and is what was
asked for or an acknowledgement of it. -/
theorem answers_eq_some {destination : Address} {requested : Pgn} {m : Message}
    {response : Response} (h : answers destination requested m = some response) :
    (destination.isBroadcast = true ∨ m.source = destination)
      ∧ (m.pgn = requested ∧ response = .message m
        ∨ m.pgn ≠ requested ∧ ∃ ack, ackOf m = some ack ∧ ack.pgn = requested
          ∧ response = .acknowledged ack) := by
  unfold answers at h
  split at h
  next hsource =>
    rw [Bool.or_eq_true, beq_iff_eq] at hsource
    refine ⟨hsource, ?_⟩
    split at h
    next hpgn =>
      injection h with h
      exact Or.inl ⟨hpgn, h.symm⟩
    next hpgn =>
      split at h
      next hack =>
        split at h
        next b₀ b₁ b₂ b₃ b₄ b₅ b₆ b₇ _ hdata =>
          dsimp only at h
          split at h
          next hasked =>
            have hackOf : ackOf m = some (.decode ![b₀, b₁, b₂, b₃, b₄, b₅, b₆, b₇]) := by
              simp only [ackOf, if_pos hack, hdata]
            injection h with h
            exact Or.inr ⟨hpgn, _, hackOf, hasked, h.symm⟩
          next => cases h
        next => cases h
      next => cases h
  next => cases h

/-- **A reading is of the first message that answers**, whatever the bus
does and whatever the state of the ECU, as long as it transmits nothing on
a schedule.  Of the messages completed during the call, those before it
are queued in the order they came, and none is completed after it.  A
reading of nothing means that no message answered at all. -/
theorem reading_is_first_answer (r : Reading α) (fuel : Nat) (target : Address) (timeout : Nat)
    (w : Watched β BUF SESSIONS) (he : w.schedule.entries = []) :
    ∃ others rest,
      (happened w (after (read r fuel target timeout w))).filterMap completes = others ++ rest
      ∧ (after (read r fuel target timeout w)).pending = w.pending ++ others
      ∧ (∀ m ∈ others, answers target r.group m = none)
      ∧ ∀ x w', read r fuel target timeout w = .ok x w' →
        rest = [] ∧ x = .ok none
        ∨ ∃ m, rest = [m] ∧ (target.isBroadcast = true ∨ m.source = target)
          ∧ (m.pgn = r.group ∧ x = (r.parse target m).map some
            ∨ m.pgn ≠ r.group ∧ ∃ ack, ackOf m = some ack ∧ ack.pgn = r.group
              ∧ x = refused ack r.what) := by
  obtain ⟨others, rest, harrived, hnone, hresponds⟩ :=
    requestWait_in_order target r.group timeout fuel he
  unfold read
  cases hrun : requestWait fuel target r.group timeout w with
  | error e w₁ =>
    rw [hrun, after_error] at harrived
    rw [bind_error hrun, after_error]
    obtain ⟨hpending, done, hlog, hcompletes, -⟩ := harrived
    refine ⟨others, rest, ?_, hpending, hnone, fun _ _ h => by cases h⟩
    rw [happened_eq hlog, hcompletes]
  | ok response w₁ =>
    rw [hrun, after_ok] at harrived
    rw [bind_ok hrun]
    obtain ⟨hpending, done, hlog, hcompletes, -⟩ := harrived
    have hleft := hresponds response w₁ hrun
    refine ⟨others, rest, ?_, hpending, hnone, fun x w' h => ?_⟩
    · show (happened w w₁).filterMap completes = _
      rw [happened_eq hlog, hcompletes]
    · injection h with hx
      rw [← hx]
      cases response with
      | timedOut => exact Or.inl ⟨hleft, rfl⟩
      | message message =>
        obtain ⟨m, hm, hanswers⟩ := hleft
        obtain ⟨hsource, ⟨hpgn, hmessage⟩ | ⟨-, ack, -, -, hack⟩⟩ := answers_eq_some hanswers
        · injection hmessage with hmessage
          rw [hmessage]
          exact Or.inr ⟨m, hm, hsource, Or.inl ⟨hpgn, rfl⟩⟩
        · cases hack
      | acknowledged ack =>
        obtain ⟨m, hm, hanswers⟩ := hleft
        obtain ⟨hsource, ⟨-, hmessage⟩ | ⟨hpgn, ack', hof, hasked, hack⟩⟩ :=
          answers_eq_some hanswers
        · cases hmessage
        · injection hack with hack
          rw [hack]
          exact Or.inr ⟨m, hm, hsource, Or.inr ⟨hpgn, ack', hof, hasked, rfl⟩⟩

/-- A DM1 of one frame, with SPN 100 FMI 1 in it. -/
def dm1From (source : Address) : Frame :=
  Frame.fromPayload (Id.broadcast .default .dm1 source) ![0x10, 0, 0x64, 0, 0x01, 0x81, 0xFF, 0xFF]

/-- The ECU that has claimed its address, on a bus with two DM1. -/
def listening : Watched FakeBus 64 2 :=
  { claimed with bus := ⟨[dm1From ⟨0x22⟩, dm1From ⟨0x11⟩], [], 0, 0⟩ }

/-- Only the DM1 of the ECU that was asked is read; the other one is
queued. -/
theorem reading_is_first_answer_of_two :
    ∃ others rest,
      (happened listening (after (read .activeFaults 4 ⟨0x11⟩ 1000 listening))).filterMap completes
        = others ++ rest
      ∧ (after (read .activeFaults 4 ⟨0x11⟩ 1000 listening)).pending = listening.pending ++ others
      ∧ others = [⟨.dm1, ⟨0x22⟩, [0x10, 0, 0x64, 0, 0x01, 0x81, 0xFF, 0xFF]⟩] := by
  obtain ⟨others, rest, hcompletes, hpending, -⟩ :=
    reading_is_first_answer .activeFaults 4 ⟨0x11⟩ 1000 listening (by decide +kernel)
  refine ⟨others, rest, hcompletes, hpending, ?_⟩
  have hqueued : (after (read .activeFaults 4 ⟨0x11⟩ 1000 listening)).pending
      = [⟨.dm1, ⟨0x22⟩, [0x10, 0, 0x64, 0, 0x01, 0x81, 0xFF, 0xFF]⟩] := by decide +kernel
  have hempty : listening.pending = [] := by decide +kernel
  rw [hqueued, hempty, List.nil_append] at hpending
  exact hpending.symm

end Ecu

end SaeJ1939.Host
