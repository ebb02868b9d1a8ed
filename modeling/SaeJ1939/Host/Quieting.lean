/-
  SaeJ1939.Host.Quieting — a service tool asks for quiet (DM13:
  `diagnostics.rs`, `ecu.rs`).

  A tool sets what it asks of some networks and sends the message; an ECU
  obeys what is asked of the data link it is on, or else of the vehicle.
  Of many tools the last that asks for something is obeyed.

  Main results:
    * `command_asking` — the networks of a message are independent.
    * `dispatch_asking` — what an ECU does with one message.
    * `publish_quiet` — nothing is published while a suspension lasts.
    * `quiet_as_told` — any messages, from any tools, and the time after.
-/
import SaeJ1939.Lib.Ledger
import SaeJ1939.Schedule.Suspension
import SaeJ1939.Host.Hearing
import SaeJ1939.Host.GlobalRts

namespace SaeJ1939

open Diagnostics Ledger

/-! ## §1. The message. -/

namespace Diagnostics.Dm13

theorem fromBits_toBits (c : BroadcastCommand) : BroadcastCommand.fromBits c.toBits = c := by
  cases c <;> rfl

theorem fromBits_mask (bits : UInt8) :
    BroadcastCommand.fromBits (bits &&& 0b11) = BroadcastCommand.fromBits bits := by
  simp only [BroadcastCommand.fromBits, UInt8.and_assoc, UInt8.and_self]

/-- Clearing the field of one network leaves the others as they are. -/
theorem clear_shift (byte : UInt8) (n n' : Network) :
    ((byte &&& ~~~(0b11 <<< n.shift)) >>> n'.shift) &&& 0b11
      = if n' = n then 0 else (byte >>> n'.shift) &&& 0b11 := by
  have hmask : (~~~(0b11 <<< n.shift) >>> n'.shift) &&& 0b11 = if n' = n then 0 else 0b11 := by
    cases n <;> cases n' <;> decide
  rw [UInt8.shiftRight_and, UInt8.and_assoc, hmask]
  split
  next => exact UInt8.and_zero
  next => rfl

/-- A command in the field of one network is in that field only. -/
theorem toBits_shift (c : BroadcastCommand) (n n' : Network) :
    ((c.toBits <<< n.shift) >>> n'.shift) &&& 0b11 = if n' = n then c.toBits else 0 := by
  cases c <;> cases n <;> cases n' <;> decide

/-- **Setting what is asked of a network** leaves the others. -/
theorem command_withCommand (d : Dm13) (n n' : Network) (c : BroadcastCommand) :
    (d.withCommand n c).command n' = if n' = n then c else d.command n' := by
  unfold command withCommand
  rw [← fromBits_mask, UInt8.shiftRight_or, byte_or_and, clear_shift, toBits_shift]
  split
  next => rw [UInt8.zero_or, fromBits_toBits]
  next => rw [UInt8.or_zero, fromBits_mask]

/-- A message built by asking something of networks, one after another. -/
def asking (settings : List (Network × BroadcastCommand)) : Dm13 :=
  settings.foldl (fun d s => d.withCommand s.1 s.2) new

/-- What is asked of a network last; nothing, if it is not named. -/
def lastAsked (settings : List (Network × BroadcastCommand)) (n : Network) : BroadcastCommand :=
  (valuesAt some n settings).getLast?.getD .doNotCare

/-- **A message asks of each network what was set for it last**, and of
one that was not named nothing. -/
theorem command_asking (settings : List (Network × BroadcastCommand)) (n : Network) :
    (asking settings).command n = lastAsked settings n := by
  -- the message is a register of the networks
  have hregister : ∀ d : Dm13,
      some ((settings.foldl (fun d s => d.withCommand s.1 s.2) d).command n)
        = settings.foldl (enterAt some) (fun n => some (d.command n)) n := by
    induction settings with
    | nil => exact fun d => rfl
    | cons s settings ih =>
      intro d
      have henter : (fun n => some ((d.withCommand s.1 s.2).command n))
          = enterAt some (fun n => some (d.command n)) s := by
        funext n'
        show some ((d.withCommand s.1 s.2).command n')
          = Function.update (fun n => some (d.command n)) s.1 (some s.2) n'
        rw [command_withCommand, Function.update_apply]
        split <;> rfl
      rw [List.foldl_cons, List.foldl_cons, ih, henter]
  have hnew : some ((new).command n) = some BroadcastCommand.doNotCare := by
    cases n <;> rfl
  have hlast := (hregister new).trans (foldl_update_apply some settings _ n)
  rw [hnew] at hlast
  unfold lastAsked asking
  cases hv : (valuesAt some n settings).getLast? with
  | none =>
    rw [hv] at hlast
    exact Option.some.inj hlast
  | some c =>
    rw [hv] at hlast
    exact Option.some.inj hlast

end Diagnostics.Dm13

/-! ## §2. One message. -/

namespace Host.Ecu

open Diagnostics Dm13 Checked Fallible

variable {β : Type} {BUF SESSIONS : Nat} {w : Watched β BUF SESSIONS}

/-- What an ECU is told by what is asked of the networks: it is on the
data link of the message, and on the vehicle bus. -/
def toldBy (asked : Network → BroadcastCommand) : Option BroadcastCommand :=
  ([.currentDataLink, .vehicle].map asked).find? fun c => c == .stop || c == .start

/-- Obeying what one is told. -/
def obeying (s : Schedule scheduleCapacity) (c : BroadcastCommand) : Schedule scheduleCapacity :=
  if c = .stop then s.suspend Schedule.defaultSuspendMs else s.resume

/-- A message is obeyed as far as it tells this ECU something. -/
theorem onDm13_eq (d : Dm13) (s : Schedule scheduleCapacity) :
    onDm13 d s = (toldBy d.command).elim s (obeying s) := by
  unfold onDm13 toldBy
  simp only [List.map_cons, List.map_nil]
  cases d.command .currentDataLink <;> cases d.command .vehicle <;> rfl

/-- The settings of a message that a tool sends in this frame, to this
address or to all. -/
structure Tells (a : Address) (f : Frame) (settings : List (Network × BroadcastCommand)) :
    Prop where
  pgn : f.pgn = .dm13
  addressed : f.id.isAddressedTo a = true
  data : f.data = (asking settings).encode

/-- Any settings can be sent. -/
theorem exists_tells (a source : Address) (settings : List (Network × BroadcastCommand)) :
    ∃ f, Tells a f settings := by
  have hlength : (asking settings).encode.length ≤ Frame.maxPayload := Nat.le_refl 8
  obtain ⟨f, hf⟩ := Frame.new_ok (Id.broadcast .default .dm13 source) hlength
  obtain ⟨hid, hdata⟩ := Frame.data_new hf
  refine ⟨f, ?_, ?_, hdata⟩
  · rw [Frame.pgn, hid]
    exact Id.pgn_broadcast ..
  · rw [hid]
    exact Id.isAddressedTo_broadcast ..

/-- The ECU once it has obeyed. -/
def obeyedBy (w : Watched β BUF SESSIONS) (told : List BroadcastCommand)
    (messages : List Message) : Watched β BUF SESSIONS :=
  { w with
    schedule := told.foldl obeying w.schedule
    log := w.log ++ messages.map .completed }

/-- Obeying more. -/
theorem obeyedBy_obeyedBy (told told' : List BroadcastCommand) (messages messages' : List Message) :
    obeyedBy (obeyedBy w told messages) told' messages'
      = obeyedBy w (told ++ told') (messages ++ messages') := by
  unfold obeyedBy
  rw [List.map_append, List.append_assoc, List.foldl_append]

variable [Bus β]

/-- **One message**: it is passed on, and obeyed as far as it tells this
ECU something.  Nothing is sent, and nothing else changes. -/
theorem dispatch_asking {f : Frame} {settings : List (Network × BroadcastCommand)}
    (hf : Tells w.node.address f settings) :
    dispatch f w = .ok (some (messageIn f))
      (obeyedBy w (toldBy (lastAsked settings)).toList [messageIn f]) := by
  obtain ⟨hpgn, haddressed, hdata⟩ := hf
  have hnode : ForNode f := by
    unfold ForNode IsExtended
    rw [hpgn]
    decide
  have hroute : w.node.route f = .application := by
    refine Node.route_application haddressed hnode.2 ?_ ?_ fun h => ?_
    · rw [hpgn]
      decide
    · rw [hpgn]
      decide
    · exact absurd (hpgn.symm.trans h.1) (by decide)
  have hframe : w.node.onFrame f = .ok (.message f.pgn f.sourceAddress f.data none, w.node) := by
    rw [Node.onFrame_eq, hroute]
  have hafter : scheduleAfter (messageIn f) w.schedule
      = (toldBy (lastAsked settings)).toList.foldl obeying w.schedule := by
    unfold scheduleAfter messageIn
    rw [if_pos hpgn, hdata]
    show onDm13 (asking settings) w.schedule = _
    rw [onDm13_eq, funext (command_asking settings)]
    cases toldBy (lastAsked settings) <;> rfl
  rw [dispatch_no_request hnode hframe (by rw [hpgn]; decide) (by rw [hpgn]; decide)]
  show EStateM.Result.ok (some (messageIn f)) (heeding w w.node (messageIn f)) = _
  rw [heeding, hafter]
  rfl

/-! ## §3. Messages one after another. -/

/-- **Messages one after another** are obeyed in the order they arrive. -/
theorem dispatchAll_asking {frames : List Frame}
    {settings : List (List (Network × BroadcastCommand))}
    (hframes : List.Forall₂ (Tells w.node.address) frames settings) :
    dispatchAll frames w = .ok (frames.map fun f => some (messageIn f))
      (obeyedBy w (settings.filterMap fun s => toldBy (lastAsked s)) (frames.map messageIn)) := by
  induction frames generalizing w settings with
  | nil =>
    cases hframes
    show EStateM.Result.ok [] w = .ok [] (obeyedBy w [] [])
    unfold obeyedBy
    rw [List.map_nil, List.append_nil]
    rfl
  | cons f frames ih =>
    obtain ⟨s, settings, hf, hmore, rfl⟩ := List.forall₂_cons_left_iff.mp hframes
    have hone := dispatch_asking hf
    have hrest := ih (w := obeyedBy w (toldBy (lastAsked s)).toList [messageIn f]) hmore
    have htold : (toldBy (lastAsked s)).toList ++ settings.filterMap (fun s => toldBy (lastAsked s))
        = (s :: settings).filterMap fun s => toldBy (lastAsked s) := by
      rw [List.filterMap_cons]
      cases toldBy (lastAsked s) <;> rfl
    show (dispatch f >>= fun _ => _) w = _
    rw [bind_ok hone]
    show (dispatchAll frames >>= fun _ => _) _ = _
    rw [bind_ok hrest, obeyedBy_obeyedBy, htold]
    rfl

/-- How long an ECU is quiet once it has obeyed. -/
def quietFor (c : BroadcastCommand) : Nat := if c = .stop then Schedule.defaultSuspendMs else 0

omit [Bus β] in
/-- **The last that is told counts.** -/
theorem suspendedMs_obeying (told : List BroadcastCommand) (s : Schedule scheduleCapacity) :
    (told.foldl obeying s).suspendedMs = (told.getLast?.map quietFor).getD s.suspendedMs := by
  induction told generalizing s with
  | nil => rfl
  | cons c told ih =>
    have hone : (obeying s c).suspendedMs = quietFor c := by
      unfold obeying quietFor
      split <;> rfl
    rw [List.foldl_cons, ih, hone, List.getLast?_cons]
    cases told.getLast? <;> rfl

omit [Bus β] in
/-- Obeying registers no message and removes none. -/
theorem keys_obeying (told : List BroadcastCommand) (s : Schedule scheduleCapacity) :
    (told.foldl obeying s).entries.map (fun e => (e.key, e.periodMs, e.elapsedMs))
      = s.entries.map fun e => (e.key, e.periodMs, e.elapsedMs) := by
  induction told generalizing s with
  | nil => rfl
  | cons c told ih =>
    rw [List.foldl_cons, ih]
    unfold obeying
    split
    next => exact List.map_map.trans rfl
    next => rfl

omit [Bus β] in
theorem wf_obeying {s : Schedule scheduleCapacity} (h : s.WF) (told : List BroadcastCommand) :
    (told.foldl obeying s).WF := by
  induction told generalizing s with
  | nil => exact h
  | cons c told ih =>
    refine ih ?_
    unfold obeying
    split
    next => exact h.suspend _
    next => exact h.apply .resume

/-! ## §4. The quiet. -/

/-- The ECU once time has passed for its schedule. -/
def quietAfter (w : Watched β BUF SESSIONS) (times : List Nat) : Watched β BUF SESSIONS :=
  { w with
    schedule := { w.schedule with suspendedMs := w.schedule.suspendedMs - times.sum }
    log := w.log ++ times.map (.passed .schedule) }

omit [Bus β] in
theorem quietAfter_quietAfter (w : Watched β BUF SESSIONS) (ms : Nat) (times : List Nat) :
    quietAfter (quietAfter w [ms]) times = quietAfter w (ms :: times) := by
  have hsum : w.schedule.suspendedMs - [ms].sum - times.sum
      = w.schedule.suspendedMs - (ms :: times).sum := by
    rw [List.sum_singleton, List.sum_cons, Nat.sub_sub]
  unfold quietAfter
  dsimp only
  rw [hsum, List.append_assoc, ← List.map_append, List.singleton_append]

/-- Time passes, and the suspension lasts: there is nothing to publish. -/
theorem publish_quiet_once {ms : Nat} (fuel : Nat) (hwf : w.schedule.WF)
    (hheld : w.node.hasAddress = true) (hms : ms < w.schedule.suspendedMs) :
    publish fuel ms w = .ok () (quietAfter w [ms]) := by
  have hsuspended : w.schedule.isSuspended = true := decide_eq_true (Nat.zero_lt_of_lt hms)
  have hafter : (w.schedule.tick ms).2 = (quietAfter w [ms]).schedule := by
    rw [Schedule.tick_suspended hsuspended]
    rfl
  have hstill : (w.schedule.tick ms).2.isSuspended = true := by
    rw [Schedule.tick_suspended hsuspended]
    exact decide_eq_true (Nat.sub_pos_of_lt hms)
  have htick : tickSchedule ms w = .ok () (quietAfter w [ms]) := by
    show EStateM.Result.ok () { w with
      schedule := (w.schedule.tick ms).2
      log := w.log ++ [Happening.passed .schedule ms] } = _
    rw [hafter]
    rfl
  have hnone : nextDue (quietAfter w [ms]) = .ok none (quietAfter w [ms]) := by
    have hdue := (hwf.tick ms).nextDue_suspended hstill
    rw [hafter] at hdue
    show EStateM.Result.ok (quietAfter w [ms]).schedule.nextDue.1 { quietAfter w [ms] with
      schedule := (quietAfter w [ms]).schedule.nextDue.2 } = _
    rw [hdue]
  have hsend : sendDue fuel (scheduleCapacity + 1) (quietAfter w [ms])
      = .ok () (quietAfter w [ms]) := by
    show (nextDue >>= fun _ => _) (quietAfter w [ms]) = _
    rw [bind_ok hnone]
    rfl
  show (if w.node.hasAddress then do
      tickSchedule ms
      sendDue fuel (scheduleCapacity + 1)
    else pure () : Prog β BUF SESSIONS Unit) w = _
  rw [if_pos hheld, bind_ok htick]
  exact hsend

/-- **Nothing is published while a suspension lasts**, however the time is
cut, and the messages are as they were. -/
theorem publish_quiet {times : List Nat} (fuel : Nat) (hwf : w.schedule.WF)
    (hheld : w.node.hasAddress = true) (htimes : times.sum < w.schedule.suspendedMs) :
    times.forM (publish fuel) w = .ok () (quietAfter w times) := by
  induction times generalizing w with
  | nil =>
    show EStateM.Result.ok () w = .ok () (quietAfter w [])
    unfold quietAfter
    rw [List.map_nil, List.append_nil]
    rfl
  | cons ms times ih =>
    rw [List.sum_cons] at htimes
    have hms : ms < w.schedule.suspendedMs := by omega
    have hsuspended : w.schedule.isSuspended = true := decide_eq_true (Nat.zero_lt_of_lt hms)
    have hwf' : (quietAfter w [ms]).schedule.WF := by
      have hafter := hwf.tick ms
      rw [Schedule.tick_suspended hsuspended] at hafter
      exact hafter
    have hmore := ih (w := quietAfter w [ms]) hwf' hheld (by
      show times.sum < w.schedule.suspendedMs - (ms + 0)
      omega)
    show (publish fuel ms >>= fun _ => times.forM (publish fuel)) w = _
    rw [bind_ok (publish_quiet_once fuel hwf hheld hms), hmore, quietAfter_quietAfter]

/-- **An ECU is quiet as it was told**, by any messages from any tools:
what was asked last of its data link, or else of the vehicle, counts.  It
passes the messages on and sends nothing, keeps what it has scheduled,
and if the last was to stop, publishes nothing until the time is over. -/
theorem quiet_as_told {name : Name} {preferred : Address} {frames : List Frame}
    {settings : List (List (Network × BroadcastCommand))} (hreach : Reachable name preferred w)
    (hframes : List.Forall₂ (Tells w.node.address) frames settings) :
    ∃ s : Schedule scheduleCapacity,
      dispatchAll frames w = .ok (frames.map fun f => some (messageIn f))
          { w with schedule := s, log := w.log ++ frames.map fun f => .completed (messageIn f) }
      ∧ s.suspendedMs = ((settings.filterMap fun asked => toldBy (lastAsked asked)).getLast?.map
          quietFor).getD w.schedule.suspendedMs
      ∧ s.entries.map (fun e => (e.key, e.periodMs, e.elapsedMs))
          = w.schedule.entries.map (fun e => (e.key, e.periodMs, e.elapsedMs))
      ∧ ∀ (w' : Watched β BUF SESSIONS) (fuel : Nat) (times : List Nat), w'.schedule = s →
          w'.node.hasAddress = true → times.sum < s.suspendedMs →
          times.forM (publish fuel) w' = .ok () (quietAfter w' times) := by
  let told := settings.filterMap fun asked => toldBy (lastAsked asked)
  refine ⟨told.foldl obeying w.schedule, ?_, suspendedMs_obeying told _, keys_obeying told _,
    fun w' fuel times hs hheld htimes => ?_⟩
  · rw [dispatchAll_asking hframes]
    unfold obeyedBy
    rw [List.map_map]
    rfl
  · have hwf' : w'.schedule.WF := by
      rw [hs]
      exact wf_obeying hreach.wf.schedule told
    refine publish_quiet fuel hwf' hheld ?_
    rw [hs]
    exact htimes

/-- One tool asks the vehicle to stop, another the implement to start: the
ECU is quiet for five seconds. -/
theorem quiet_as_told_by_two : ∃ frames : List Frame, frames.length = 2
    ∧ ∃ s : Schedule scheduleCapacity, s.suspendedMs = 5000
      ∧ dispatchAll frames claimed = .ok (frames.map fun f => some (messageIn f)) { claimed with
          schedule := s
          log := claimed.log ++ frames.map fun f => .completed (messageIn f) } := by
  obtain ⟨stop, hstop⟩ := exists_tells claimed.node.address ⟨0xF9⟩ [(.vehicle, .stop)]
  obtain ⟨start, hstart⟩ := exists_tells claimed.node.address ⟨0xFA⟩ [(.implement, .start)]
  obtain ⟨s, hrun, hquiet, -⟩ := quiet_as_told claimed_reachable (.cons hstop (.cons hstart .nil))
  exact ⟨[stop, start], rfl, s, hquiet, hrun⟩

end Host.Ecu

end SaeJ1939
