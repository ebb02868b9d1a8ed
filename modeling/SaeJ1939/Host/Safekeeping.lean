/-
  SaeJ1939.Host.Safekeeping — what a bus must take while a message is in
  hand (`ecu.rs`, every call that receives).

  A message is in hand from the frame that completes it until it is queued
  or returned.  What the ECU has to do in between is settled, step by step,
  by the state it is in: a reply, the frames of a tick, a handshake.  If
  the bus fails one of these the message is dropped; with nothing in hand
  the bus may fail whatever it likes.

  Main results:
    * `keeps_handshake`, `keeps_tick`, `keeps_pump` — what the parts of a
      call ask of the bus.
    * `kept_poll_unscheduled` — what that comes to when nothing is scheduled.
    * `kept_iff` — a call keeps every message exactly if the bus takes what
      there is to send while one is in hand.
    * `request_lost` — a request whose answer is refused is lost.
-/
import SaeJ1939.Host.Reaction

namespace SaeJ1939.Host.Ecu

open AddressClaim Checked Custody Diagnostics Fallible

variable {β α : Type} [Bus β] {BUF SESSIONS : Nat} {w w' : Watched β BUF SESSIONS}
  {held : List Message} {holding : Prop}

/-! ## §1. Steps of a call. -/

/-- The time on the clock. -/
def clock (w : Watched β BUF SESSIONS) : Nat := (Bus.now w.bus).1

/-- The ECU once it has looked at the clock. -/
def clocked (w : Watched β BUF SESSIONS) : Watched β BUF SESSIONS :=
  { w with bus := (Bus.now w.bus).2 }

/-- What the bus gives. -/
def offered (w : Watched β BUF SESSIONS) : Except IoError (Option Frame) := (Bus.recvFrame w.bus).1

/-- The ECU once it has read from the bus. -/
def readOff (w : Watched β BUF SESSIONS) : Watched β BUF SESSIONS := after (recvFrame w)

/-- A message is in hand once the frame `f` is dispatched: there was one
before, or the frame completes one. -/
def InHand (holding : Prop) (f : Frame) (w : Watched β BUF SESSIONS) : Prop :=
  holding ∨ (completed w.toEcu f).isSome = true

/-- What a tick of `e` milliseconds does before it turns to the schedule. -/
def passTimers (e : Nat) : Prog β BUF SESSIONS Unit := do
  (← tickNode e).forM sendFrame
  (← tickEtp e).forM fun x => sendEtpCm x.1 x.2
  report e

/-- What becomes of the frames it sends: those of the node, the aborts of
the extended sessions that end, and the report, if one is due. -/
def timersTaken (w : Watched β BUF SESSIONS) (e : Nat) : Option β :=
  let n := (w.node.tick e).2
  (takes false true (w.node.tick e).1 w.bus).bind fun bus =>
    (takes false true (abortFrames n.address (w.etp.tick e Tp.t3TimeoutMs).1) bus).bind fun bus =>
      if n.hasAddress then reportTaken w.faults n.address e bus else some bus

/-! ## §2. What is asked of the bus. -/

/-- What sending the packets that are available asks of the bus, and
waiting anew for the peer then. -/
def SecuresBurst (holding : Prop) (o : Outgoing)
    (again : Outgoing → Nat → Watched β BUF SESSIONS → Prop) (w : Watched β BUF SESSIONS) : Prop :=
  (emitTaken false (o.frameCount + 1) true o w.bus).elim (¬ holding) fun x =>
    let sent := after (drain (o.frameCount + 1) o w)
    again x.1 (clock sent + handshakeTimeout) (clocked sent)

/-- **What acting on a frame during a transfer asks of the bus**, if a
message may be in hand already: a Clear To Send has packets sent, and any
other frame may complete a message. -/
def SecuresReaction (holding : Prop) (f : Frame) (o : Outgoing) (deadline : Nat)
    (again : Outgoing → Nat → Watched β BUF SESSIONS → Prop) (w : Watched β BUF SESSIONS) : Prop :=
  match o.onFrame f with
  | .ok (.complete, _) => True
  -- a Clear To Send, whose frame is not looked at for anything else
  | .ok (.ready, o) => SecuresBurst holding o again w
  | .ok (.idle, o) =>
      (dispatchTaken w.toEcu f).elim (¬ InHand holding f w) fun _ =>
        again o deadline (after ((dispatch f >>= queueIfAny) w))
  | .ok (.aborted _, _) | .error _ => ¬ holding

/-- **What waiting for the peer asks of the bus**: a handshake that fails
may not do so with a message in hand. -/
def SecuresHandshake (holding : Prop) :
    Nat → Outgoing → Nat → Watched β BUF SESSIONS → Prop
  | 0, _, _, _ => ¬ holding
  | fuel + 1, o, deadline, w =>
      o.isComplete = false →
        if clock w ≥ deadline then ¬ holding
        else match offered (clocked w) with
          | .ok (some f) =>
              SecuresReaction holding f o deadline (SecuresHandshake holding fuel)
                (readOff (clocked w))
          | .ok none => SecuresHandshake holding fuel o deadline (readOff (clocked w))
          | .error _ => ¬ holding

/-- What sending to one ECU asks of the bus. -/
def SecuresSendTo (holding : Prop) (fuel : Nat) (destination : Address) (group : Pgn)
    (data : List UInt8) (w : Watched β BUF SESSIONS) : Prop :=
  if destination.isBroadcast then
    holding → (broadcastTaken w.node group data .default w.bus).isSome = true
  else if w.node.hasAddress then
    (Outgoing.new group w.node.address destination data).toOption.elim (¬ holding) fun o =>
      SecuresBurst holding o (SecuresHandshake holding fuel) w
  else ¬ holding

/-- What sending the messages that are due asks of the bus, one after
another. -/
def SecuresDue (holding : Prop) (fuel : Nat) : Nat → Watched β BUF SESSIONS → Prop
  | 0, _ => ¬ holding
  | bound + 1, w =>
      let taken := { w with schedule := w.schedule.nextDue.2 }
      w.schedule.nextDue.1.elim True fun due =>
        -- a message that has no payload is skipped
        (w.payloads (due.pgn, due.destination)).elim (SecuresDue holding fuel bound taken)
          fun x =>
            if due.destination.isBroadcast then
              (broadcastTaken w.node due.pgn x.1 x.2 w.bus).elim (¬ holding) fun _ =>
                SecuresDue holding fuel bound
                  (after (broadcastWithPriority due.pgn x.1 x.2 taken))
            else
              -- to send with a message in hand is to return, and only then is there a next one
              SecuresSendTo holding fuel due.destination due.pgn x.1 taken
                ∧ (SecuresSendTo True fuel due.destination due.pgn x.1 taken →
                  SecuresDue holding fuel bound
                    (after (sendTo fuel due.destination due.pgn x.1 taken)))

/-- What a tick asks of the bus. -/
def SecuresTick (holding : Prop) (fuel : Nat) (w : Watched β BUF SESSIONS) : Prop :=
  measured w ≠ 0 → (timersTaken (timed w) (measured w)).elim (¬ holding) fun _ =>
    let passed := after (passTimers (measured w) (timed w))
    passed.node.hasAddress = true →
      SecuresDue holding fuel (scheduleCapacity + 1) (scheduleTicked passed (measured w))

-- irreducible, so that stating it of a concrete bus does not run the call
/-- **What reading one frame asks of the bus**: the message it completes is
in hand while it is answered, and then for a whole tick. -/
@[irreducible] def SecuresPump (holding : Prop) (fuel : Nat) (w : Watched β BUF SESSIONS) : Prop :=
  match offered w with
  | .ok (some f) =>
      (dispatchTaken (readOff w).toEcu f).elim (¬ InHand holding f (readOff w)) fun _ =>
        SecuresTick (InHand holding f (readOff w)) fuel (after (dispatch f (readOff w)))
  | .ok none => SecuresTick holding fuel (readOff w)
  | .error _ => ¬ holding

/-- The message that arrives with the next frame. -/
def arrival (w : Watched β BUF SESSIONS) : Option Message :=
  (offered w).toOption.join.bind (completed (readOff w).toEcu)

/-- What the rounds of a loop ask of the bus: it goes on while `goesOn`
says so, and until a message `ends` it. -/
def SecuresRounds (goesOn : Nat → Node BUF SESSIONS → Bool) (ends : Message → Bool) :
    Nat → Watched β BUF SESSIONS → Prop
  | 0, _ => True
  | fuel + 1, w =>
      goesOn (clock w) w.node = true →
        -- nothing is in hand when a round begins; it returns if it would with a message in hand
        SecuresPump False fuel (clocked w)
          ∧ (SecuresPump True fuel (clocked w) → (arrival (clocked w)).any ends = false →
            SecuresRounds goesOn ends fuel (after ((pump fuel >>= queueIfAny) (clocked w))))

/-- The claim is not settled yet, and there is time left for it. -/
def unsettled (giveUpAt t : Nat) (n : Node BUF SESSIONS) : Bool :=
  decide (t < giveUpAt) && !(n.hasAddress || n.claimState == .cannotClaim)

/-- What becomes of a request that is offered to the bus. -/
def askTaken (destination : Address) (requested : Pgn) (w : Watched β BUF SESSIONS) : Option β :=
  if w.node.hasAddress then
    (Id.fromParts .default .request destination w.node.address).toOption.bind fun id =>
      (Frame.new id (Request.mk requested).encode).toOption.bind fun f => takes false true [f] w.bus
  else none

/-- The ECU once it has asked. -/
def requesting (destination : Address) (requested : Pgn) (w : Watched β BUF SESSIONS) :
    Watched β BUF SESSIONS :=
  after (request destination requested w)

/-- The ECU once it has claimed its address. -/
def claiming (w : Watched β BUF SESSIONS) : Watched β BUF SESSIONS :=
  after (sendFrame w.node.start.1 { w with node := w.node.start.2 })

/-- **What a call asks of the bus**, with nothing in hand at first. -/
def Secures (fuel : Nat) : Receiving → Watched β BUF SESSIONS → Prop
  | .poll, w => w.pending = [] → SecuresPump False fuel w
  | .claimAddress, w =>
      (takes false true [w.node.start.1] w.bus).isSome = true →
        SecuresRounds (unsettled (clock (claiming w) + claimTimeout)) (fun _ => false) fuel
          (clocked (claiming w))
  | .scan duration, w =>
      (askTaken Address.global .addressClaimed w).isSome = true →
        let asked := requesting Address.global .addressClaimed w
        SecuresRounds (fun t _ => decide (t < clock asked + duration)) (fun _ => false) fuel
          (clocked asked)
  | .requestWait destination requested timeout, w =>
      (askTaken destination requested w).isSome = true →
        let asked := requesting destination requested w
        SecuresRounds (fun t _ => decide (t < clock asked + timeout))
          (fun m => (answers destination requested m).isSome) fuel (clocked asked)
  | .sendTo destination group data, w => SecuresSendTo False fuel destination group data w

/-! ## §3. Parts that only send. -/

variable {γ : Type} {R : γ → List Message → Prop}

omit [Bus β] in
/-- With something in hand, a frame that completes nothing still leaves
something in hand. -/
theorem inHand_iff (hh : held ≠ [] ↔ holding) (f : Frame) (w : Watched β BUF SESSIONS) :
    (completed w.toEcu f).toList ++ held ≠ [] ↔ InHand holding f w := by
  unfold InHand
  rw [← hh]
  cases completed w.toEcu f with
  | none => simp
  | some m => simp

omit [Bus β] in
theorem Sound.of_run {x : Prog β BUF SESSIONS α} {a : α} (h : Moves Sound x)
    (hrun : x w = .ok a w') (hwf : w.toEcu.WF) : w'.toEcu.WF := by
  have hmoves := h w
  rw [hrun] at hmoves
  exact hmoves hwf

omit [Bus β] in
theorem keeps_fail (hh : held ≠ [] ↔ holding) (e : Failure) (w : Watched β BUF SESSIONS) :
    Keeps books held (fail e : Prog β BUF SESSIONS α) w ↔ ¬ holding := by
  have hrun : (fail e : Prog β BUF SESSIONS α) w
      = .error e { w with log := w.log ++ [.failed e] } := rfl
  have hidle := idle_fail (α := α) e w
  rw [hrun] at hidle
  exact keeps_error_iff hh hrun hidle.balances

omit [Bus β] in
/-- **A part that handles no message comes first**: the rest is asked what
it asks of the bus, and if there is no rest nothing may be in hand. -/
theorem keeps_seq {x : Prog β BUF SESSIONS α} {y : α → Prog β BUF SESSIONS γ} {P : Prop}
    (hh : held ≠ [] ↔ holding) (hidle : Moves (Idle books) x)
    (hy : ∀ a, Carries books held (y a) R)
    (hok : ∀ a w', x w = .ok a w' → (Keeps books held (y a) w' ↔ P))
    (hfails : ∀ e w', x w = .error e w' → (P ↔ ¬ holding)) :
    Keeps books held (x >>= y) w ↔ P := by
  have hmoves := hidle w
  cases hrun : x w with
  | ok a w' =>
    rw [hrun] at hmoves
    rw [keeps_after (bind_ok hrun) hmoves.balances (hy a), hok a w' hrun]
  | error e w' =>
    rw [hrun] at hmoves
    rw [keeps_error_iff hh (bind_error hrun) hmoves.balances, hfails e w' hrun]

omit [Bus β] in
/-- It is offered to the bus. -/
theorem keeps_offer {x : Prog β BUF SESSIONS α} {y : α → Prog β BUF SESSIONS γ} {P : Prop}
    {given : Option β} (hh : held ≠ [] ↔ holding) (hgiven : busOf (x w) = given)
    (hidle : Moves (Idle books) x) (hy : ∀ a, Carries books held (y a) R)
    (hok : ∀ a w', x w = .ok a w' → (Keeps books held (y a) w' ↔ P)) :
    Keeps books held (x >>= y) w ↔ given.elim (¬ holding) fun _ => P := by
  rw [← hgiven]
  refine keeps_seq hh hidle hy (fun a w' hrun => ?_) fun e w' hrun => ?_
  · rw [hrun]
    exact hok a w' hrun
  · rw [hrun]
    exact Iff.rfl

omit [Bus β] in
/-- Nothing comes after it. -/
theorem keeps_sends {x : Prog β BUF SESSIONS α} {given : Option β} (hh : held ≠ [] ↔ holding)
    (hgiven : busOf (x w) = given) (hidle : Moves (Idle books) x) :
    Keeps books held x w ↔ (holding → given.isSome = true) := by
  have hmoves := hidle w
  rw [← hgiven]
  cases hrun : x w with
  | ok a w' =>
    exact iff_of_true (keeps_of_ok hrun) fun _ => rfl
  | error e w' =>
    rw [hrun] at hmoves
    rw [keeps_error_iff hh hrun hmoves.balances]
    exact ⟨fun h hholding => absurd hholding h, fun h hholding => by cases h hholding⟩

/-- Sending what is available right now. -/
theorem drain_taken (bound : Nat) (first : Bool) (o : Outgoing) (w : Watched β BUF SESSIONS) :
    emitTaken false bound first o w.bus = match drain bound o w with
      | .ok o' w' => some (o', w'.bus)
      | .error _ _ => none := by
  induction bound generalizing first o w with
  | zero => rfl
  | succ bound ih =>
    unfold emitTaken drain
    cases hnext : o.nextFrame with
    | error p => rfl
    | ok x =>
      obtain ⟨_ | frame, o'⟩ := x
      · rfl
      · have hsent : takes false first [frame] w.bus = busOf (sendFrame frame w) :=
          (busOf_sendFrame frame w).symm
        show (takes false first [frame] w.bus).bind (emitTaken false bound false o')
          = match (sendFrame frame >>= fun _ => drain bound o') w with
            | .ok o' w' => some (o', w'.bus)
            | .error _ _ => none
        rw [hsent, bind_run]
        cases sendFrame frame w with
        | ok u w' => exact ih false o' w'
        | error e w' => rfl

/-! ## §4. Receiving. -/

theorem wf_clocked (hwf : w.toEcu.WF) : (clocked w).toEcu.WF :=
  (handles_bus w (Bus.now w.bus).2).wf hwf

theorem wf_readOff (hwf : w.toEcu.WF) : (readOff w).toEcu.WF := (handles_recvFrame w).wf hwf

theorem idle_clocked (w : Watched β BUF SESSIONS) : Idle books w (clocked w) :=
  idle_of_same rfl rfl

theorem now_run (w : Watched β BUF SESSIONS) : now w = .ok (clock w) (clocked w) := rfl

/-- What the bus gives is received. -/
theorem recvFrame_offered (w : Watched β BUF SESSIONS) :
    match offered w with
    | .ok frame => recvFrame w = .ok frame (readOff w)
    | .error _ => ∃ e w', recvFrame w = .error e w' := by
  unfold offered readOff recvFrame
  rcases Bus.recvFrame w.bus with ⟨e | _ | f, bus⟩
  · exact ⟨_, _, rfl⟩
  · rfl
  · rfl

/-- **During a transfer** what a frame completes is queued, if it can be
dispatched. -/
theorem keeps_dispatch (hh : held ≠ [] ↔ holding) (hwf : w.toEcu.WF) (f : Frame)
    {again : Prog β BUF SESSIONS Unit}
    (hagain : Carries books held again fun _ left => left = held) :
    Keeps books held (dispatch f >>= fun m => queueIfAny m >>= fun _ => again) w
      ↔ (dispatchTaken w.toEcu f).elim (¬ InHand holding f w) fun _ =>
        Keeps books held again (after ((dispatch f >>= queueIfAny) w)) := by
  have hbus := busOf_dispatch hwf f
  have hbalances := balances_dispatch hwf f held
  rw [← hbus]
  cases hrun : dispatch f w with
  | error e w' =>
    rw [hrun] at hbalances
    exact keeps_error_iff (inHand_iff hh f w) (bind_error hrun) hbalances
  | ok m w' =>
    obtain rfl := dispatch_value hwf hrun
    rw [hrun] at hbalances
    have hcarries : Carries books ((completed w.toEcu f).toList ++ held)
        (queueIfAny (completed w.toEcu f) : Prog β BUF SESSIONS Unit) fun _ left => left = held :=
      carries_queueIfAny _
    have hqueue := hcarries w'
    obtain ⟨w'', hqueued⟩ : ∃ w'', queueIfAny (completed w.toEcu f) w' = .ok () w'' := by
      cases completed w.toEcu f with
      | none | some => exact ⟨_, rfl⟩
    rw [hqueued] at hqueue
    -- the message is put away, so that only `held` is left in hand
    obtain ⟨left, rfl, hrest⟩ := hqueue
    rw [bind_ok hrun, hqueued]
    refine keeps_after ?_ (hbalances.trans hrest) hagain
    rw [bind_ok hrun, bind_ok hqueued, after_ok]

/-- Sending packets, and waiting anew. -/
theorem keeps_burst (hh : held ≠ [] ↔ holding) (o : Outgoing)
    {again : Outgoing → Nat → Prog β BUF SESSIONS Unit}
    {secures : Outgoing → Nat → Watched β BUF SESSIONS → Prop}
    (hcarries : ∀ o t, Carries books held (again o t) fun _ left => left = held)
    (hagain : ∀ o t w, w.toEcu.WF → (Keeps books held (again o t) w ↔ secures o t w))
    (hwf : w.toEcu.WF) :
    Keeps books held (drain (o.frameCount + 1) o >>= fun o' => now >>= fun t =>
      again o' (t + handshakeTimeout)) w ↔ SecuresBurst holding o secures w := by
  have hcarries' : ∀ o', Carries books held (now >>= fun t => again o' (t + handshakeTimeout))
      fun _ left => left = held :=
    fun o' => Carries.bind_idle idle_now fun t => hcarries o' _
  unfold SecuresBurst
  rw [drain_taken]
  refine keeps_seq hh (idle_drain _ o) hcarries' (fun o' w' hrun => ?_) fun e w' hrun => ?_
  · have hwf' : w'.toEcu.WF := Sound.of_run (sound_of_handles (handles_drain _ _)) hrun hwf
    rw [hrun]
    exact hagain o' _ (clocked w') (wf_clocked hwf')
  · rw [hrun]
    exact Iff.rfl

theorem keeps_react (hh : held ≠ [] ↔ holding) (f : Frame) (o : Outgoing) (deadline : Nat)
    {again : Outgoing → Nat → Prog β BUF SESSIONS Unit}
    {secures : Outgoing → Nat → Watched β BUF SESSIONS → Prop}
    (hcarries : ∀ o t, Carries books held (again o t) fun _ left => left = held)
    (hagain : ∀ o t w, w.toEcu.WF → (Keeps books held (again o t) w ↔ secures o t w))
    (hwf : w.toEcu.WF) :
    Keeps books held (react f o deadline again) w
      ↔ SecuresReaction holding f o deadline secures w := by
  unfold react SecuresReaction
  cases hreply : o.onFrame f with
  | error p => exact keeps_fail hh (.panic p) w
  | ok x =>
    obtain ⟨progress, o'⟩ := x
    cases progress with
    | complete => exact iff_of_true trivial trivial
    | aborted reason => exact keeps_fail hh (.io (.aborted reason)) w
    | idle =>
      refine (keeps_dispatch hh hwf f (hcarries o' deadline)).trans ?_
      have hwf' : (after ((dispatch f >>= queueIfAny) w)).toEcu.WF :=
        ((handles_dispatch f).bind handles_queueIfAny w).wf hwf
      rw [hagain o' deadline _ hwf']
    | ready => exact keeps_burst hh o' hcarries hagain hwf

/-- **Waiting for the peer** drops nothing exactly if the bus takes what is
sent while a message is in hand. -/
theorem keeps_handshake (hh : held ≠ [] ↔ holding) (destination : Address) (fuel : Nat)
    (o : Outgoing) (deadline : Nat) (hwf : w.toEcu.WF) :
    Keeps books held (handshake destination fuel o deadline) w
      ↔ SecuresHandshake holding fuel o deadline w := by
  -- what is in hand stays the same from one frame to the next: what they complete is queued
  induction fuel generalizing o deadline w with
  | zero =>
    have hrun : handshake destination 0 o deadline w = .error .outOfFuel w := rfl
    exact keeps_error_iff hh hrun (Idle.refl w).balances
  | succ fuel ih =>
    unfold SecuresHandshake
    by_cases hcomplete : o.isComplete = true
    · have hrun : handshake destination (fuel + 1) o deadline w = .ok () w := by
        unfold handshake
        rw [if_pos hcomplete]
        rfl
      refine iff_of_true (keeps_of_ok hrun) fun h => ?_
      rw [hcomplete] at h
      cases h
    have hopen : o.isComplete = false := Bool.eq_false_iff.mpr hcomplete
    rw [forall_prop_of_true hopen]
    have hclock := idle_clocked w
    by_cases hlate : clock w ≥ deadline
    · have hrun : handshake destination (fuel + 1) o deadline w
          = fail (.io (.timedOut destination)) (clocked w) := by
        rw [handshake, if_neg hcomplete, bind_ok (now_run w), if_pos hlate]
      rw [if_pos hlate, keeps_after hrun hclock.balances (Carries.of_idle (idle_fail _))]
      exact keeps_fail hh _ _
    rw [if_neg hlate]
    -- in time, so a frame is read
    have hoffered := recvFrame_offered (clocked w)
    have hread : Idle books w (readOff (clocked w)) := hclock.trans (idle_recvFrame (clocked w))
    have hwf' : (readOff (clocked w)).toEcu.WF := wf_readOff (wf_clocked hwf)
    cases hframe : offered (clocked w) with
    | error e =>
      rw [hframe] at hoffered
      obtain ⟨e', w', hrecv⟩ := hoffered
      have hrun : handshake destination (fuel + 1) o deadline w = .error e' w' := by
        rw [handshake, if_neg hcomplete, bind_ok (now_run w), if_neg hlate, bind_error hrecv]
      have hidle := hclock.trans (idle_recvFrame (clocked w))
      rw [hrecv] at hidle
      exact keeps_error_iff hh hrun hidle.balances
    | ok frame =>
      rw [hframe] at hoffered
      cases frame with
      | none =>
        have hrun : handshake destination (fuel + 1) o deadline w
            = handshake destination fuel o deadline (readOff (clocked w)) := by
          rw [handshake, if_neg hcomplete, bind_ok (now_run w), if_neg hlate, bind_ok hoffered]
        rw [keeps_after hrun hread.balances (carries_handshake destination fuel o deadline)]
        exact ih o deadline hwf'
      | some f =>
        have hcarries : ∀ o t, Carries books held (handshake destination fuel o t
            : Prog β BUF SESSIONS Unit) fun _ left => left = held :=
          carries_handshake destination fuel
        have hrun : handshake destination (fuel + 1) o deadline w
            = react f o deadline (handshake destination fuel) (readOff (clocked w)) := by
          rw [handshake, if_neg hcomplete, bind_ok (now_run w), if_neg hlate, bind_ok hoffered]
        rw [keeps_after hrun hread.balances (carries_react f o deadline hcarries)]
        exact keeps_react hh f o deadline hcarries (fun o t w hwf => ih o t hwf) hwf'

theorem keeps_sendTo (hh : held ≠ [] ↔ holding) (fuel : Nat) (destination : Address) (group : Pgn)
    (data : List UInt8) (hwf : w.toEcu.WF) :
    Keeps books held (sendTo fuel destination group data) w
      ↔ SecuresSendTo holding fuel destination group data w := by
  unfold sendTo SecuresSendTo
  by_cases hall : destination.isBroadcast = true
  · rw [if_pos hall, if_pos hall]
    exact keeps_sends hh (busOf_broadcast group data .default w) (idle_broadcast _ _ _)
  rw [if_neg hall, if_neg hall]
  by_cases hheld : w.node.hasAddress = true
  · rw [if_pos hheld]
    rw [keeps_congr (bind_ok (checkMayTransmit_held hheld))]
    show Keeps books held (valid (Outgoing.new group w.node.address destination data) >>= fun o =>
      drain (o.frameCount + 1) o >>= fun o' => now >>= fun t =>
        handshake destination fuel o' (t + handshakeTimeout)) w ↔ _
    cases Outgoing.new group w.node.address destination data with
    | error e => exact keeps_fail hh (.io (.invalidInput e)) w
    | ok o =>
      exact keeps_burst hh o (carries_handshake destination fuel)
        (fun o t w hwf => keeps_handshake hh destination fuel o t hwf) hwf
  · rw [if_neg hheld]
    have hrun : ∀ y : Unit → Prog β BUF SESSIONS Unit, (checkMayTransmit >>= y) w
        = fail (.io (.notConnected w.node.claimState)) w := by
      intro y
      rw [bind_run, checkMayTransmit_silent hheld]
      rfl
    rw [keeps_congr (hrun _)]
    exact keeps_fail hh _ w

/-! ## §5. What is due. -/

omit [Bus β] in
/-- **A program returns exactly if it drops nothing of what it does not put
away.** -/
theorem returns_iff_of_keeps {x : Prog β BUF SESSIONS α} {P : Prop} {Q : α → List Message → Prop}
    (hx : Carries books [] x Q)
    (h : ∀ held, (held ≠ [] ↔ True) → (Keeps books held x w ↔ P)) : returns (x w) = true ↔ P := by
  -- any message in hand will do
  have hheld : [(⟨.dm1, Address.global, []⟩ : Message)] ≠ [] := List.cons_ne_nil _ _
  rw [← h _ (iff_true_intro hheld), keeps_iff_returns hx hheld]

theorem returns_sendTo {fuel : Nat} {destination : Address} {group : Pgn} {data : List UInt8}
    (hwf : w.toEcu.WF) :
    returns (sendTo fuel destination group data w) = true
      ↔ SecuresSendTo True fuel destination group data w :=
  returns_iff_of_keeps (carries_sendTo fuel destination group data) fun _ hheld =>
    keeps_sendTo hheld fuel destination group data hwf

/-- A message that is due is sent, if it has a payload, and then the next
one. -/
theorem sendDue_run {due : Due} (hdue : nextDue w = .ok (some due) w') (fuel bound : Nat) :
    sendDue fuel (bound + 1) w
      = (w'.payloads (due.pgn, due.destination)).elim (sendDue fuel bound)
        (fun x => if due.destination.isBroadcast then
            broadcastWithPriority due.pgn x.1 x.2 >>= fun _ => sendDue fuel bound
          else sendTo fuel due.destination due.pgn x.1 >>= fun _ => sendDue fuel bound) w' := by
  have hget : (get : Prog β BUF SESSIONS _) w' = .ok w' w' := rfl
  rw [sendDue, bind_ok hdue]
  dsimp only
  rw [bind_ok hget]
  cases w'.payloads (due.pgn, due.destination) with
  | none => rfl
  | some x =>
    obtain ⟨payload, priority⟩ := x
    rfl

/-- **Sending what is due** drops nothing exactly if the bus takes it while
a message is in hand. -/
theorem keeps_sendDue (hh : held ≠ [] ↔ holding) (fuel bound : Nat) (hwf : w.toEcu.WF) :
    Keeps books held (sendDue fuel bound) w ↔ SecuresDue holding fuel bound w := by
  induction bound generalizing w with
  | zero =>
    have hrun : sendDue fuel 0 w = .error .outOfFuel w := rfl
    exact keeps_error_iff hh hrun (Idle.refl w).balances
  | succ bound ih =>
    let taken : Watched β BUF SESSIONS := { w with schedule := w.schedule.nextDue.2 }
    have hnext : nextDue w = .ok w.schedule.nextDue.1 taken := rfl
    have hidle : Idle books w taken := idle_of_same rfl rfl
    have hwf' : taken.toEcu.WF := (handles_nextDue w).wf hwf
    have hrest : Carries books held (sendDue fuel bound : Prog β BUF SESSIONS Unit)
        fun _ left => left = held := carries_sendDue fuel bound
    unfold SecuresDue
    cases hdue : w.schedule.nextDue.1 with
    | none =>
      have hrun : sendDue fuel (bound + 1) w = .ok () taken := by
        rw [sendDue, bind_ok hnext, hdue]
        rfl
      exact iff_of_true (keeps_of_ok hrun) trivial
    | some due =>
      rw [hdue] at hnext
      have hrun := sendDue_run hnext fuel bound
      show _ ↔ (taken.payloads (due.pgn, due.destination)).elim _ _
      cases hpayload : taken.payloads (due.pgn, due.destination) with
      | none =>
        rw [hpayload] at hrun
        rw [keeps_after hrun hidle.balances hrest]
        exact ih hwf'
      | some x =>
        rw [hpayload] at hrun
        change sendDue fuel (bound + 1) w = (if _ then _ else _ : Prog β BUF SESSIONS Unit) taken
          at hrun
        show _ ↔ if _ then _ else _
        by_cases hall : due.destination.isBroadcast = true
        · rw [if_pos hall] at hrun ⊢
          rw [keeps_after hrun hidle.balances (Carries.bind_idle (idle_broadcast _ _ _)
            fun _ => hrest)]
          refine keeps_offer hh (busOf_broadcast due.pgn x.1 x.2 taken) (idle_broadcast _ _ _)
            (fun _ => hrest) fun u w' hsent => ?_
          rw [hsent]
          exact ih (Sound.of_run (sound_of_handles (handles_broadcast _ _ _)) hsent hwf')
        · rw [if_neg hall] at hrun ⊢
          have hsend : Carries books held (sendTo fuel due.destination due.pgn x.1
              : Prog β BUF SESSIONS Unit) fun _ left => left = held := carries_sendTo _ _ _ _
          rw [keeps_after hrun hidle.balances (hsend.bind_kept hrest), keeps_then hsend hrest,
            keeps_sendTo hh fuel due.destination due.pgn x.1 hwf', returns_sendTo hwf']
          refine and_congr_right fun _ => imp_congr_right fun _ => ?_
          exact ih ((handles_sendTo fuel due.destination due.pgn x.1 taken).wf hwf')

/-! ## §6. A tick. -/

/-- What holds of its parts holds of what a tick does first. -/
theorem moves_passTimers {S : Watched β BUF SESSIONS → Watched β BUF SESSIONS → Prop}
    [IsPreorder (Watched β BUF SESSIONS) S] {e : Nat}
    (hnode : Moves S (tickNode e : Prog β BUF SESSIONS _))
    (hsend : ∀ f, Moves S (sendFrame f : Prog β BUF SESSIONS Unit))
    (hetp : Moves S (tickEtp e : Prog β BUF SESSIONS _))
    (hcm : ∀ destination cm, Moves S (sendEtpCm destination cm : Prog β BUF SESSIONS Unit))
    (hreport : Moves S (report e : Prog β BUF SESSIONS Unit)) :
    Moves S (passTimers e : Prog β BUF SESSIONS Unit) := by
  refine hnode.bind fun frames => (Moves.forM fun f _ => hsend f).bind fun _ => ?_
  exact hetp.bind fun expired => (Moves.forM fun x _ => hcm x.1 x.2).bind fun _ => hreport

theorem idle_passTimers (e : Nat) : Moves (Idle books) (passTimers e : Prog β BUF SESSIONS Unit) :=
  moves_passTimers (idle_tickNode e) idle_sendFrame (idle_tickEtp e) idle_etpCm (idle_report e)

theorem sound_passTimers (e : Nat) : Moves Sound (passTimers e : Prog β BUF SESSIONS Unit) :=
  moves_passTimers (sound_tickNode e)
    (fun _ _ => (sends_frame (P := fun _ _ => True) trivial).handles.wf) (sound_tickEtp e)
    (fun destination cm w => (sends_etpCm destination cm w).handles.wf) (sound_report e)

theorem pass_eq (fuel e : Nat) :
    (pass fuel e : Prog β BUF SESSIONS Unit) = passTimers e >>= fun _ => publish fuel e := by
  unfold pass passTimers
  simp only [bind_assoc]

/-- What comes before the schedule is offered to the bus. -/
theorem busOf_passTimers (hwf : w.faults.WF) (e : Nat) :
    busOf (passTimers e w) = timersTaken w e := by
  have hsends : Moves (Sends fun _ _ => True)
      ((w.node.tick e).1.forM sendFrame : Prog β BUF SESSIONS PUnit) :=
    Moves.forM fun _ _ _ => sends_frame trivial
  show busOf (((w.node.tick e).1.forM sendFrame >>= fun _ => tickEtp e >>= fun expired =>
    expired.forM (fun x => sendEtpCm x.1 x.2) >>= fun _ => report e) (nodeTicked w e)) = _
  refine busOf_bind (busOf_sendFrames _ _) fun _ w₁ hrun₁ => ?_
  -- sending moves the bus only, so the aborts and the report are those of the state before
  have hsame₁ := hsends (nodeTicked w e)
  rw [hrun₁] at hsame₁
  have hw₁ : w₁ = { nodeTicked w e with bus := w₁.bus, log := w₁.log } := hsame₁.same
  have hnode₁ : w₁.node = (w.node.tick e).2 := by rw [hw₁]; rfl
  have hetp₁ : w₁.etp = w.etp := by rw [hw₁]; rfl
  have hfaults₁ : w₁.faults = w.faults := by rw [hw₁]; rfl
  have haborts := busOf_of_offers (offers_abortFrames (w := w₁) e)
  rw [hnode₁, hetp₁] at haborts
  show busOf (((w₁.etp.tick e Tp.t3TimeoutMs).1.forM (fun x => sendEtpCm x.1 x.2)
    >>= fun _ => report e) (etpTicked w₁ e)) = _
  rw [hetp₁]
  refine busOf_bind haborts fun _ w₂ hrun₂ => ?_
  have hsame₂ : Sends (fun _ _ => True) (etpTicked w₁ e) w₂ := by
    have hmoves : Moves (Sends fun _ _ => True) ((w.etp.tick e Tp.t3TimeoutMs).1.forM
        (fun x => sendEtpCm x.1 x.2) : Prog β BUF SESSIONS PUnit) :=
      Moves.forM fun x _ w => (sends_etpCm x.1 x.2 w).weaken fun _ _ _ => trivial
    have hsends₂ := hmoves (etpTicked w₁ e)
    rwa [hrun₂] at hsends₂
  have hnode₂ : w₂.node = (w.node.tick e).2 := by rw [hsame₂.node]; exact hnode₁
  have hfaults₂ : w₂.faults = w.faults := by rw [hsame₂.same]; exact hfaults₁
  by_cases hheld : (w.node.tick e).2.hasAddress = true
  · have hreport := busOf_of_offers (offers_report (by rwa [hfaults₂]) (by rwa [hnode₂]) e)
    rw [hnode₂, hfaults₂] at hreport
    rw [if_pos hheld]
    exact hreport
  · have hreport : report e w₂ = .ok () w₂ := by
      show (if w₂.node.hasAddress = true then _ else _ : Prog β BUF SESSIONS Unit) w₂ = _
      rw [hnode₂, if_neg hheld]
      rfl
    rw [if_neg hheld, hreport]
    rfl

theorem keeps_publish (hh : held ≠ [] ↔ holding) (fuel e : Nat) (hwf : w.toEcu.WF) :
    Keeps books held (publish fuel e) w ↔ (w.node.hasAddress = true →
      SecuresDue holding fuel (scheduleCapacity + 1) (scheduleTicked w e)) := by
  by_cases hheld : w.node.hasAddress = true
  · rw [forall_prop_of_true hheld, keeps_after (publish_held hheld fuel e)
      (idle_tickSchedule e w).balances (carries_sendDue _ _)]
    exact keeps_sendDue hh fuel _ (sound_tickSchedule e w hwf)
  · have hrun : publish fuel e w = .ok () w := by
      show (if w.node.hasAddress = true then _ else _ : Prog β BUF SESSIONS Unit) w = _
      rw [if_neg hheld]
      rfl
    exact iff_of_true (keeps_of_ok hrun) fun h => absurd h hheld

/-- **A tick** drops nothing exactly if the bus takes what it sends while a
message is in hand. -/
theorem keeps_tick (hh : held ≠ [] ↔ holding) (fuel : Nat) (hwf : w.toEcu.WF) :
    Keeps books held (tick fuel) w ↔ SecuresTick holding fuel w := by
  have hrun := tick_run fuel w
  unfold SecuresTick
  by_cases hzero : measured w = 0
  · rw [if_pos hzero] at hrun
    exact iff_of_true (keeps_of_ok hrun) fun h => absurd hzero h
  · rw [if_neg hzero, pass_eq] at hrun
    have hwf' : (timed w).toEcu.WF := ⟨hwf.node, hwf.etp, hwf.faults, hwf.schedule⟩
    have htimed : Idle books w (timed w) := idle_of_silent (h := .taken _) ⟨rfl, rfl⟩ rfl rfl
    have hpublish : ∀ _ : Unit, Carries books held (publish fuel (measured w)
        : Prog β BUF SESSIONS Unit) fun _ left => left = held := fun _ => carries_publish _ _
    rw [forall_prop_of_true hzero, keeps_after hrun htimed.balances
      (Carries.bind_idle (idle_passTimers _) hpublish)]
    refine keeps_offer hh (busOf_passTimers hwf'.faults _) (idle_passTimers _) hpublish
      fun u w' hpassed => ?_
    rw [hpassed]
    exact keeps_publish hh fuel _ (Sound.of_run (sound_passTimers _) hpassed hwf')

/-! ## §7. Reading a frame. -/

/-- **Reading one frame** drops nothing exactly if the bus takes what is
sent while a message is in hand, the one of the frame included. -/
theorem keeps_pump (hh : held ≠ [] ↔ holding) (fuel : Nat) (hwf : w.toEcu.WF) :
    Keeps books held (pump fuel) w ↔ SecuresPump holding fuel w := by
  have hoffered := recvFrame_offered w
  have hread : Idle books w (readOff w) := idle_recvFrame w
  have hwf' : (readOff w).toEcu.WF := wf_readOff hwf
  have hticks : ∀ held (m : Option Message), Carries books held
      (tick fuel >>= fun _ => pure m : Prog β BUF SESSIONS _) fun _ left => left = held :=
    fun held m => (carries_tick fuel).bind fun _ mid hmid => Carries.pure hmid
  unfold SecuresPump
  cases hframe : offered w with
  | error e =>
    rw [hframe] at hoffered
    obtain ⟨e', w', hrecv⟩ := hoffered
    have hrun : pump fuel w = .error e' w' := bind_error (bind_error hrecv)
    have hidle := idle_recvFrame w
    rw [hrecv] at hidle
    exact keeps_error_iff hh hrun hidle.balances
  | ok frame =>
    rw [hframe] at hoffered
    cases frame with
    | none =>
      have hrun : pump fuel w = (tick fuel >>= fun _ => pure none) (readOff w) :=
        bind_ok (bind_ok hoffered)
      rw [keeps_after hrun hread.balances (hticks _ _), keeps_pure]
      exact keeps_tick hh fuel hwf'
    | some f =>
      have hbalances := hread.balances.trans (balances_dispatch hwf' f held)
      show _ ↔ (dispatchTaken (readOff w).toEcu f).elim _ _
      rw [← busOf_dispatch hwf' f]
      cases hdispatch : dispatch f (readOff w) with
      | error e w' =>
        have hrun : pump fuel w = .error e w' := bind_error ((bind_ok hoffered).trans hdispatch)
        rw [hdispatch] at hbalances
        exact keeps_error_iff (inHand_iff hh f _) hrun hbalances
      | ok m w' =>
        -- the tick begins with the message of the frame in hand too
        obtain rfl := dispatch_value hwf' hdispatch
        have hrun : pump fuel w
            = (tick fuel >>= fun _ => pure (completed (readOff w).toEcu f)) w' :=
          bind_ok ((bind_ok hoffered).trans hdispatch)
        rw [hdispatch] at hbalances
        rw [keeps_after hrun hbalances (hticks _ _), keeps_pure]
        exact keeps_tick (inHand_iff hh f _) fuel
          (Sound.of_run (sound_of_handles (handles_dispatch f)) hdispatch hwf')

/-- **What is read is what arrives with the next frame.** -/
theorem pump_value (hwf : w.toEcu.WF) {fuel : Nat} {m : Option Message}
    (h : pump fuel w = .ok m w') : m = arrival w := by
  obtain ⟨m', w₁, hreceive, htick⟩ := of_bind_ok h
  obtain ⟨u, w₂, -, hlast⟩ := of_bind_ok htick
  obtain ⟨frame, w₃, hrecv, hdispatch⟩ := of_bind_ok hreceive
  cases hlast
  have hoffered := recvFrame_offered w
  unfold arrival
  cases hframe : offered w with
  | error e =>
    rw [hframe] at hoffered
    obtain ⟨e', w', herror⟩ := hoffered
    cases herror.symm.trans hrecv
  | ok given =>
    rw [hframe] at hoffered
    cases hoffered.symm.trans hrecv
    cases frame with
    | none =>
      cases hdispatch
      rfl
    | some f => exact dispatch_value (wf_readOff hwf) hdispatch

theorem returns_pump {fuel : Nat} (hwf : w.toEcu.WF) :
    returns (pump fuel w) = true ↔ SecuresPump True fuel w :=
  returns_iff_of_keeps (carries_pump fuel) fun _ hheld => keeps_pump hheld fuel hwf

/-! ## §8. The loops. -/

theorem nothing_inHand : ([] : List Message) ≠ [] ↔ False := ⟨fun h => h rfl, False.elim⟩

/-- **One round of a loop**, and what comes after it. -/
theorem keeps_round (fuel : Nat) {again : Prog β BUF SESSIONS γ}
    (hagain : Carries books [] again R) (hwf : w.toEcu.WF) :
    Keeps books [] (pump fuel >>= fun m => queueIfAny m >>= fun _ => again) w
      ↔ SecuresPump False fuel w
        ∧ (SecuresPump True fuel w →
          Keeps books [] again (after ((pump fuel >>= queueIfAny) w))) := by
  have hqueue : ∀ m, Carries books m.toList (queueIfAny m : Prog β BUF SESSIONS Unit)
      fun _ left => left = [] := by
    intro m
    have hcarries : Carries books (m.toList ++ []) (queueIfAny m : Prog β BUF SESSIONS Unit)
        fun _ left => left = [] := carries_queueIfAny m
    rwa [List.append_nil] at hcarries
  have hqueued : ∀ (m : Option Message) (w : Watched β BUF SESSIONS),
      returns (queueIfAny m w) = true := by
    intro m w
    cases m with
    | none | some => rfl
  have hpump : Carries books [] (pump fuel : Prog β BUF SESSIONS _)
      fun m left => left = m.toList := by
    have hcarries : Carries books [] (pump fuel : Prog β BUF SESSIONS _)
        fun m left => left = m.toList ++ [] := carries_pump fuel
    simpa only [List.append_nil] using hcarries
  have hboth : Carries books [] (pump fuel >>= queueIfAny : Prog β BUF SESSIONS Unit)
      fun _ left => left = [] := hpump.bind fun m mid hmid => by
    rw [hmid]
    exact hqueue m
  have hkeeps : Keeps books [] (pump fuel >>= queueIfAny) w ↔ SecuresPump False fuel w := by
    rw [keeps_bind hpump hqueue, keeps_pump nothing_inHand fuel hwf]
    exact and_iff_left fun m w' _ => keeps_of_returns (hqueued m w')
  have hreturns : returns ((pump fuel >>= queueIfAny) w) = true ↔ SecuresPump True fuel w := by
    rw [← returns_pump hwf, bind_run]
    cases pump fuel w with
    | ok m w' => exact iff_of_true (hqueued m w') rfl
    | error e w' => exact Iff.rfl
  rw [← bind_assoc, keeps_then hboth hagain, hkeeps, hreturns]

/-- **A loop that reads a frame in every round**, and queues what it
completes unless that ends it. -/
theorem keeps_rounds {loop : Nat → Prog β BUF SESSIONS γ} {goesOn : Nat → Node BUF SESSIONS → Bool}
    {ends : Message → Bool} (hcarries : ∀ fuel, Carries books [] (loop fuel) R)
    (hfuel : ∀ w, loop 0 w = .error .outOfFuel w)
    (hover : ∀ fuel w, goesOn (clock w) w.node = false → returns (loop (fuel + 1) w) = true)
    (hround : ∀ fuel w, w.toEcu.WF → goesOn (clock w) w.node = true →
      (arrival (clocked w)).any ends = false → loop (fuel + 1) w
        = (pump fuel >>= fun m => queueIfAny m >>= fun _ => loop fuel) (clocked w))
    (hend : ∀ fuel w, w.toEcu.WF → goesOn (clock w) w.node = true →
      (arrival (clocked w)).any ends = true →
        ∃ c, loop (fuel + 1) w = (pump fuel >>= fun _ => pure c) (clocked w))
    (fuel : Nat) (hwf : w.toEcu.WF) :
    Keeps books [] (loop fuel) w ↔ SecuresRounds goesOn ends fuel w := by
  induction fuel generalizing w with
  | zero =>
    rw [keeps_error (hfuel w) (Idle.refl w).balances]
    exact iff_of_true rfl trivial
  | succ fuel ih =>
    unfold SecuresRounds
    have hclock := idle_clocked w
    have hwf' := wf_clocked hwf
    cases hgoes : goesOn (clock w) w.node with
    | false => exact iff_of_true (keeps_of_returns (hover fuel w hgoes)) fun h => by cases h
    | true =>
      rw [forall_prop_of_true rfl]
      cases hends : (arrival (clocked w)).any ends with
      | false =>
        have hnext : (after ((pump fuel >>= queueIfAny) (clocked w))).toEcu.WF :=
          ((sound_pump fuel).bind fun m => sound_of_handles (handles_queueIfAny m)) _ hwf'
        rw [keeps_after (hround fuel w hwf hgoes hends) hclock.balances
          (carries_round fuel (hcarries fuel)), keeps_round fuel (hcarries fuel) hwf', ih hnext,
          forall_prop_of_true rfl]
      | true =>
        obtain ⟨c, hrun⟩ := hend fuel w hwf hgoes hends
        have hpump : Carries books [] (pump fuel >>= fun _ => pure c : Prog β BUF SESSIONS _)
            fun _ _ => True := (carries_pump fuel).bind fun _ _ _ => Carries.pure trivial
        rw [keeps_after hrun hclock.balances hpump, keeps_pure,
          keeps_pump nothing_inHand fuel hwf']
        exact (and_iff_left fun _ h => by cases h).symm

omit [Bus β] in
/-- No message ends a loop that only the clock and the node end. -/
theorem never_ends {m : Option Message} (h : m.any (fun _ => false) = true) : False := by
  cases m with
  | none | some => cases h

theorem keeps_settle (giveUpAt fuel : Nat) (hwf : w.toEcu.WF) :
    Keeps books [] (settle giveUpAt fuel) w
      ↔ SecuresRounds (unsettled giveUpAt) (fun _ => false) fuel w := by
  refine keeps_rounds (carries_settle giveUpAt) (fun _ => rfl) (fun fuel w hover => ?_)
    (fun fuel w _ hgoes _ => ?_) (fun fuel w _ _ hend => ?_) fuel hwf
  · rw [settle, bind_ok (now_run w)]
    by_cases hearly : clock w < giveUpAt
    · have hdone : (w.node.hasAddress || w.node.claimState == .cannotClaim) = true := by
        rw [unsettled, decide_eq_true hearly, Bool.true_and, Bool.not_eq_false'] at hover
        exact hover
      rw [if_pos hearly]
      show returns ((if (w.node.hasAddress || w.node.claimState == .cannotClaim) = true
        then pure () else _ : Prog β BUF SESSIONS Unit) (clocked w)) = true
      rw [if_pos hdone]
      rfl
    · rw [if_neg hearly]
      rfl
  · simp only [unsettled, Bool.and_eq_true, decide_eq_true_eq, Bool.not_eq_true'] at hgoes
    rw [settle, bind_ok (now_run w), if_pos hgoes.1]
    show (if (w.node.hasAddress || w.node.claimState == .cannotClaim) = true
      then pure () else _ : Prog β BUF SESSIONS Unit) (clocked w) = _
    rw [hgoes.2]
    rfl
  · exact (never_ends hend).elim

theorem keeps_listen (deadline fuel : Nat) (hwf : w.toEcu.WF) :
    Keeps books [] (listen deadline fuel) w
      ↔ SecuresRounds (fun t _ => decide (t < deadline)) (fun _ => false) fuel w := by
  refine keeps_rounds (carries_listen deadline) (fun _ => rfl) (fun fuel w hover => ?_)
    (fun fuel w _ hgoes _ => ?_) (fun fuel w _ _ hend => ?_) fuel hwf
  · rw [listen, bind_ok (now_run w), if_neg (of_decide_eq_false hover)]
    rfl
  · rw [listen, bind_ok (now_run w), if_pos (of_decide_eq_true hgoes)]
  · exact (never_ends hend).elim

/-- What is not the answer is queued, and then the next frame is read. -/
theorem keeps_await (destination : Address) (requested : Pgn) (deadline fuel : Nat)
    (hwf : w.toEcu.WF) :
    Keeps books [] (await destination requested deadline fuel) w
      ↔ SecuresRounds (fun t _ => decide (t < deadline))
        (fun m => (answers destination requested m).isSome) fuel w := by
  refine keeps_rounds (carries_await destination requested deadline) (fun _ => rfl)
    (fun fuel w hover => ?_) (fun fuel w hwf hgoes hend => ?_) (fun fuel w hwf hgoes hend => ?_)
    fuel hwf
  · rw [await, bind_ok (now_run w), if_neg (of_decide_eq_false hover)]
    rfl
  · rw [await, bind_ok (now_run w), if_pos (of_decide_eq_true hgoes)]
    refine bind_congr_run fun m w' hrun => ?_
    rw [← pump_value (wf_clocked hwf) hrun] at hend
    cases m with
    | none => rfl
    | some m =>
      have hother : answers destination requested m = none :=
        Option.isNone_iff_eq_none.mp (Option.isSome_eq_false_iff.mp hend)
      dsimp only
      rw [hother]
      rfl
  · rw [Option.any_eq_true] at hend
    obtain ⟨m, harrival, hanswers⟩ := hend
    obtain ⟨response, hresponse⟩ := Option.isSome_iff_exists.mp hanswers
    refine ⟨response, ?_⟩
    rw [await, bind_ok (now_run w), if_pos (of_decide_eq_true hgoes)]
    refine bind_congr_run fun m' w' hrun => ?_
    rw [pump_value (wf_clocked hwf) hrun, harrival]
    dsimp only
    rw [hresponse]

/-! ## §9. With nothing scheduled. -/

theorem unqueued_passTimers (e : Nat) :
    Moves Unqueued (passTimers e : Prog β BUF SESSIONS Unit) :=
  moves_passTimers (unqueued_of_idle (idle_tickNode e) fun _ => ⟨rfl, rfl⟩)
    (fun f => unqueued_of_idle (idle_sendFrame f) (untouched_sendFrame f))
    (unqueued_of_idle (idle_tickEtp e) fun _ => ⟨rfl, rfl⟩)
    (fun destination cm => unqueued_of_idle (idle_etpCm destination cm) fun w =>
      (sends_etpCm destination cm w).untouched)
    (unqueued_of_idle (idle_report e) (untouched_report e))

/-- A tick then sends its own frames only. -/
theorem securesTick_iff (he : w.schedule.entries = []) (fuel : Nat) :
    SecuresTick holding fuel w
      ↔ (measured w ≠ 0 → holding → (timersTaken (timed w) (measured w)).isSome = true) := by
  have hdue : ∀ {w : Watched β BUF SESSIONS} {bound : Nat}, w.schedule.entries = [] →
      SecuresDue holding fuel (bound + 1) w := by
    intro w bound he
    unfold SecuresDue
    rw [nextDue_unscheduled he]
    trivial
  have hpassed : (scheduleTicked (after (passTimers (measured w) (timed w)))
      (measured w)).schedule.entries = [] :=
    (unqueued_of_idle (idle_tickSchedule _) (untouched_tickSchedule _) _
      (unqueued_passTimers _ (timed w) he).1).1
  unfold SecuresTick
  refine imp_congr_right fun _ => ?_
  cases timersTaken (timed w) (measured w) with
  | none => exact ⟨fun h hholding => absurd hholding h, fun h hholding => by cases h hholding⟩
  | some bus => exact iff_of_true (fun _ => hdue hpassed) fun _ => rfl

/-- **Reading a frame then keeps its message** exactly if the bus takes the
replies to the frame, and after them what the tick sends. -/
theorem securesPump_iff {f : Frame} (he : w.schedule.entries = [])
    (hoffered : offered w = .ok (some f)) (hdispatched : after (dispatch f (readOff w)) = w')
    (fuel : Nat) :
    SecuresPump holding fuel w ↔ (InHand holding f (readOff w) →
      (dispatchTaken (readOff w).toEcu f).isSome = true
        ∧ (measured w' ≠ 0 → (timersTaken (timed w') (measured w')).isSome = true)) := by
  have hread : (readOff w).schedule.entries = [] := (handles_recvFrame w).entries he
  have he' : w'.schedule.entries = [] := hdispatched ▸ (handles_dispatch f _).entries hread
  unfold SecuresPump
  rw [hoffered]
  dsimp only
  rw [hdispatched, securesTick_iff he']
  cases dispatchTaken (readOff w).toEcu f with
  | none => exact ⟨fun h hheld => absurd hheld h, fun h hheld => by cases (h hheld).1⟩
  | some bus => exact ⟨fun h hheld => ⟨rfl, fun hlate => h hlate hheld⟩,
      fun h hlate hheld => (h hheld).2 hlate⟩

/-! ## §10. Every call. -/

theorem busOf_request (destination : Address) (requested : Pgn) (w : Watched β BUF SESSIONS) :
    busOf (request destination requested w) = askTaken destination requested w := by
  unfold askTaken
  show busOf ((checkMayTransmit >>= fun _ => _) w) = _
  by_cases hheld : w.node.hasAddress = true
  · rw [if_pos hheld, bind_ok (checkMayTransmit_held hheld)]
    show busOf ((valid (Id.fromParts .default .request destination w.node.address) >>= fun id =>
      valid (Frame.new id (Request.mk requested).encode) >>= sendFrame) w) = _
    cases Id.fromParts .default .request destination w.node.address with
    | error e => rfl
    | ok id =>
      show busOf ((valid (Frame.new id (Request.mk requested).encode) >>= sendFrame) w)
        = (Frame.new id (Request.mk requested).encode).toOption.bind fun f => _
      cases Frame.new id (Request.mk requested).encode with
      | error e => rfl
      | ok f => exact busOf_sendFrame f w
  · rw [if_neg hheld, bind_run, checkMayTransmit_silent hheld]
    rfl

/-- A call that opens by sending something, and then waits. -/
theorem keeps_opening {x : Prog β BUF SESSIONS α} {loop : Nat → Prog β BUF SESSIONS γ}
    {given : Option β} {secures : Nat → Watched β BUF SESSIONS → Prop}
    (hgiven : busOf (x w) = given) (hidle : Moves (Idle books) x) (hsound : Moves Sound x)
    (hcarries : ∀ t, Carries books [] (loop t) R)
    (hloop : ∀ t w, w.toEcu.WF → (Keeps books [] (loop t) w ↔ secures t w)) (hwf : w.toEcu.WF) :
    Keeps books [] (x >>= fun _ => now >>= loop) w
      ↔ (given.isSome = true → secures (clock (after (x w))) (clocked (after (x w)))) := by
  have hwait : ∀ _ : α, Carries books [] (now >>= loop) R :=
    fun _ => Carries.bind_idle idle_now hcarries
  have hnext : ∀ a w', x w = .ok a w' → (Keeps books [] (now >>= loop) w'
      ↔ secures (clock (after (x w))) (clocked (after (x w)))) := by
    intro a w' hrun
    rw [keeps_after (bind_ok (now_run w')) (idle_clocked w').balances (hcarries _),
      hloop _ _ (wf_clocked (Sound.of_run hsound hrun hwf)), hrun, after_ok]
  rw [keeps_offer nothing_inHand hgiven hidle hwait hnext]
  cases given with
  | none => exact iff_of_true not_false fun h => by cases h
  | some bus => exact ⟨fun h _ => h, fun h => h rfl⟩

omit [Bus β] in
/-- **A call keeps every message exactly if it drops none.** -/
theorem kept_iff_keeps {c : Receiving} {x : Prog β BUF SESSIONS Answer}
    (hx : Carries books [] x (HandsOver c)) (w : Watched β BUF SESSIONS) :
    Kept c w (x w) ↔ Keeps books [] x w := by
  have hw := hx w
  cases hrun : x w with
  | ok answer w' =>
    rw [hrun] at hw
    obtain ⟨left, hleft, hbalances⟩ := hw
    obtain ⟨done, hlog, hperm⟩ := hbalances.store_perm
    have hkept : Kept c w (.ok answer w') := by
      refine ⟨left, hleft, ?_⟩
      rw [happened_eq hlog]
      exact hperm
    exact iff_of_true hkept (keeps_of_ok hrun)
  | error e w' =>
    rw [hrun] at hw
    obtain ⟨lost, hbalances⟩ := hw
    -- what the queue lacks is what was in hand at the failure
    obtain ⟨done, hlog, hall⟩ := hbalances.store_perm
    have hperm : (w'.pending ++ lost).Perm (w.pending ++ done.filterMap completes) := hall
    rw [keeps_error hrun hbalances]
    show w'.pending.Perm (w.pending ++ (happened w w').filterMap completes) ↔ lost = []
    rw [happened_eq hlog]
    constructor
    · intro hkept
      have hlength := (hperm.trans hkept.symm).length_eq
      rw [List.length_append] at hlength
      exact List.eq_nil_of_length_eq_zero (by omega)
    · rintro rfl
      rwa [List.append_nil] at hperm

/-- A call of `poll` reads a frame if nothing is queued. -/
theorem kept_poll (fuel : Nat) (hwf : w.toEcu.WF) :
    Kept .poll w (perform fuel .poll w) ↔ (w.pending = [] → SecuresPump False fuel w) := by
  cases hpending : w.pending with
  | nil =>
    have hrun : perform fuel .poll w = (pump fuel >>= fun m => pure (.polled m)
        : Prog β BUF SESSIONS Answer) w := by
      show (poll fuel >>= _) w = (pump fuel >>= _) w
      rw [bind_run, bind_run, poll_empty fuel hpending]
    have hcarries : Carries books [] (pump fuel >>= fun m => pure (.polled m)
        : Prog β BUF SESSIONS Answer) (HandsOver .poll) :=
      (carries_pump fuel).bind fun m mid hmid => Carries.pure (by
        rw [hmid, List.append_nil]
        rfl)
    rw [hrun, kept_iff_keeps hcarries, keeps_pure, keeps_pump nothing_inHand fuel hwf,
      forall_prop_of_true rfl]
  | cons m pending =>
    -- the message that has waited longest is returned
    have hrun : perform fuel .poll w = .ok (.polled (some m)) { w with pending } :=
      bind_ok (poll_pending fuel hpending)
    have hlog : ({ w with pending } : Watched β BUF SESSIONS).log = w.log ++ [] :=
      (List.append_nil _).symm
    rw [hrun]
    refine iff_of_true ⟨[m], rfl, ?_⟩ fun hempty => by cases hempty
    rw [happened_eq hlog, hpending, List.filterMap_nil, List.append_nil]
    exact List.perm_append_singleton m pending

/-- **With nothing scheduled**, a call that finds a frame on the bus keeps
the message of that frame exactly if the bus takes the replies to it, and
what the tick sends then. -/
theorem kept_poll_unscheduled {f : Frame} (fuel : Nat) (hwf : w.toEcu.WF)
    (he : w.schedule.entries = []) (hempty : w.pending = []) (hoffered : offered w = .ok (some f))
    (hdispatched : after (dispatch f (readOff w)) = w') :
    Kept .poll w (perform fuel .poll w) ↔ (completed (readOff w).toEcu f ≠ none →
      (dispatchTaken (readOff w).toEcu f).isSome = true
        ∧ (measured w' ≠ 0 → (timersTaken (timed w') (measured w')).isSome = true)) := by
  rw [kept_poll fuel hwf, forall_prop_of_true hempty, securesPump_iff he hoffered hdispatched]
  unfold InHand
  rw [false_or, Option.isSome_iff_ne_none]

theorem keeps_claimAddress (fuel : Nat) (hwf : w.toEcu.WF) :
    Keeps books [] (claimAddress fuel) w ↔ Secures fuel .claimAddress w := by
  let started : Watched β BUF SESSIONS := { w with node := w.node.start.2 }
  have hstart : claimAddress fuel w = (sendFrame w.node.start.1 >>= fun _ => now >>= fun t =>
      settle (t + claimTimeout) fuel : Prog β BUF SESSIONS Unit) started := rfl
  have hidle : Idle books w started := idle_of_same rfl rfl
  have hwf' : started.toEcu.WF :=
    ⟨(hwf.node.step (i := .start) rfl).1, hwf.etp, hwf.faults, hwf.schedule⟩
  have hcarries : Carries books [] (sendFrame w.node.start.1 >>= fun _ => now >>= fun t =>
      settle (t + claimTimeout) fuel : Prog β BUF SESSIONS Unit) fun _ left => left = [] :=
    Carries.bind_idle (idle_sendFrame _) fun _ => Carries.bind_idle idle_now fun t =>
      carries_settle _ fuel
  rw [keeps_after hstart hidle.balances hcarries]
  exact keeps_opening (busOf_sendFrame _ started) (idle_sendFrame _)
    (fun _ => (sends_frame (P := fun _ _ => True) trivial).handles.wf)
    (fun t => carries_settle (t + claimTimeout) fuel)
    (fun t w hwf => keeps_settle (t + claimTimeout) fuel hwf) hwf'

theorem keeps_scan (fuel duration : Nat) (hwf : w.toEcu.WF) :
    Keeps books [] (scan fuel duration) w ↔ Secures fuel (.scan duration) w := by
  have hlist : Carries books [] (get >>= fun w => pure (inventoryList w)
      : Prog β BUF SESSIONS _) fun _ left => left = [] :=
    Carries.bind_idle Moves.get fun w => Carries.pure rfl
  have hlisten : ∀ t, Carries books [] (listen (t + duration) fuel >>= fun _ =>
      get >>= fun w => pure (inventoryList w) : Prog β BUF SESSIONS _)
      fun _ left => left = [] :=
    fun t => (carries_listen (t + duration) fuel).bind_kept hlist
  have hloop : ∀ t (w : Watched β BUF SESSIONS), w.toEcu.WF →
      (Keeps books [] (listen (t + duration) fuel >>= fun _ =>
        get >>= fun w => pure (inventoryList w)) w
        ↔ SecuresRounds (fun t' _ => decide (t' < t + duration)) (fun _ => false) fuel w) := by
    intro t w hwf
    rw [keeps_then (carries_listen _ fuel) hlist, keeps_listen (t + duration) fuel hwf]
    exact and_iff_left fun _ => trivial
  exact keeps_opening (busOf_request _ _ w) (idle_request _ _) (sound_request _ _) hlisten hloop hwf

theorem keeps_requestWait (fuel : Nat) (destination : Address) (requested : Pgn) (timeout : Nat)
    (hwf : w.toEcu.WF) :
    Keeps books [] (requestWait fuel destination requested timeout) w
      ↔ Secures fuel (.requestWait destination requested timeout) w :=
  keeps_opening (busOf_request destination requested w) (idle_request _ _) (sound_request _ _)
    (fun t => carries_await destination requested (t + timeout) fuel)
    (fun t _ hwf => keeps_await destination requested (t + timeout) fuel hwf) hwf

/-- **A call keeps every message exactly if the bus takes what there is to
send while one is in hand.**  In every state a run of calls leads to, for
every call that receives: what it completes is handed over or queued, and
what was queued before is too, exactly if, whenever a message is in hand,
the bus takes the replies to its frame, the aborts and the report of the
tick that follows, and what is due then, and every handshake comes to its
end. -/
theorem kept_iff {name : Name} {preferred : Address} (h : Reachable name preferred w) (fuel : Nat)
    (c : Receiving) : Kept c w (perform fuel c w) ↔ Secures fuel c w := by
  have hwf := h.wf
  by_cases hpoll : c = .poll
  · subst hpoll
    exact kept_poll fuel hwf
  rw [kept_iff_keeps (carries_perform fuel c hpoll)]
  cases c with
  | poll => exact absurd rfl hpoll
  | claimAddress => exact (keeps_pure _ _ w).trans (keeps_claimAddress fuel hwf)
  | scan duration => exact (keeps_pure _ _ w).trans (keeps_scan fuel duration hwf)
  | requestWait destination requested timeout =>
    exact (keeps_pure _ _ w).trans (keeps_requestWait fuel destination requested timeout hwf)
  | sendTo destination group data =>
    exact (keeps_pure _ _ w).trans (keeps_sendTo nothing_inHand fuel destination group data hwf)

/-- A request to address `0x80` for its diagnostic readiness. -/
def readinessRequest : Frame :=
  Frame.fromPayload ⟨0x18EA8011, by decide⟩ ![0xCE, 0xFE, 0x00, 0xFF, 0xFF, 0xFF, 0xFF, 0xFF]

/-- An ECU with a fault, two seconds after its last tick, on a bus with the
request that takes two frames. -/
def answering : Watched FakeBus 64 2 :=
  { faulty with bus := ⟨[readinessRequest], [true, true], 3000000, 0⟩ }

/-- The request is kept: the bus takes the answer to it, and the report of
the tick that follows. -/
theorem request_kept :
    arrival answering = some ⟨.request, ⟨0x11⟩, [0xCE, 0xFE, 0x00, 0xFF, 0xFF, 0xFF, 0xFF, 0xFF]⟩
      ∧ (sentIn answering (after (perform 1 .poll answering))).length = 2
      ∧ Kept .poll answering (perform 1 .poll answering) := by
  have harrival : arrival answering
      = some ⟨.request, ⟨0x11⟩, [0xCE, 0xFE, 0x00, 0xFF, 0xFF, 0xFF, 0xFF, 0xFF]⟩ := by
    decide +kernel
  have hsent : (sentIn answering (after (perform 1 .poll answering))).length = 2 := by
    decide +kernel
  have hreachable : Reachable ⟨1⟩ (Address.ofNat 0x80) answering := faulty_reachable.bus _
  have hempty : answering.schedule.entries = [] := by decide +kernel
  rw [kept_iff hreachable 1 .poll]
  exact ⟨harrival, hsent, fun _ => (securesPump_iff hempty rfl rfl 1).mpr fun _ =>
    ⟨by decide +kernel, fun _ => by decide +kernel⟩⟩

/-! ## §11. A message that is lost. -/

/-- The ECU that has claimed its address, on a bus with the request that
refuses the answer. -/
def asked : Watched FakeBus 64 2 := { claimed with bus := ⟨[readinessRequest], [false], 0, 0⟩ }

/-- **The request is lost**: it is answered before it is returned, and the
answer is refused. -/
theorem request_lost : Reachable ⟨1⟩ (Address.ofNat 0x80) asked
    ∧ asked.pending = []
    ∧ (after (perform 1 .poll asked)).pending = []
    ∧ (happened asked (after (perform 1 .poll asked))).filterMap completes
      = [⟨.request, ⟨0x11⟩, [0xCE, 0xFE, 0x00, 0xFF, 0xFF, 0xFF, 0xFF, 0xFF]⟩]
    ∧ ¬ Kept .poll asked (perform 1 .poll asked) := by
  have hempty : asked.pending = [] := by decide +kernel
  have hpending : (after (perform 1 .poll asked)).pending = [] := by decide +kernel
  have hcompleted : (happened asked (after (perform 1 .poll asked))).filterMap completes
      = [⟨.request, ⟨0x11⟩, [0xCE, 0xFE, 0x00, 0xFF, 0xFF, 0xFF, 0xFF, 0xFF]⟩] := by decide +kernel
  refine ⟨claimed_reachable.bus _, hempty, hpending, hcompleted, ?_⟩
  have hfails : returns (perform 1 .poll asked) = false := by decide +kernel
  cases hrun : (perform 1 .poll asked : EStateM.Result _ _ _) with
  | ok answer w' =>
    rw [hrun] at hfails
    cases hfails
  | error e w' =>
    rw [hrun, after_error] at hpending hcompleted
    intro hkept
    have hlength := List.Perm.length_eq hkept
    rw [hpending, hempty, hcompleted] at hlength
    cases hlength

end SaeJ1939.Host.Ecu
