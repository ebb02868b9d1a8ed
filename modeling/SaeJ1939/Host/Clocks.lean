/-
  SaeJ1939.Host.Clocks — what a tick owes the timers, and what a refused
  frame makes it forget.

  A tick takes its milliseconds off the clock first, then advances four
  timers in turn, sending what each asks for before it turns to the next.
  A frame the bus refuses ends the tick, and the timers that are left
  never hear of the time.

  Main results:
    * `pass_accepted`, `pass_refused` — which timers a tick reaches, by
      which frames the bus takes.
    * `delivers_iff` — in a run of ticks all time is delivered exactly when
      the bus takes every frame that stands before a timer; the timers are
      then where the elapsed times alone put them.
    * `time_is_lost` — an abort that is refused loses the time of the three
      timers behind it.
-/
import SaeJ1939.Host.GlobalRts
import SaeJ1939.Diagnostics.Reports

namespace SaeJ1939.Host

open AddressClaim Checked Diagnostics Fallible
open Etp (EtpCm)

namespace Ecu

variable {β : Type} {BUF SESSIONS : Nat} {w w' w'' : Watched β BUF SESSIONS}
  {ts ts' : List (Happening BUF SESSIONS)}

/-! ## §1. Time. -/

/-- Whether an entry of the log is about time. -/
def isTime : Happening BUF SESSIONS → Bool
  | .taken _ | .passed _ _ => true
  | _ => false

theorem isTime_iff {h : Happening BUF SESSIONS} : isTime h = true ↔ IsTime h := by
  cases h with
  | taken | passed => exact iff_of_true rfl trivial
  | sent | received | completed | queued | failed => exact iff_of_false Bool.false_ne_true id

/-- What the log gains from `w` to `w'` says this about time. -/
def Times (ts : List (Happening BUF SESSIONS)) (w w' : Watched β BUF SESSIONS) : Prop :=
  ∃ done, w'.log = w.log ++ done ∧ done.filter isTime = ts

theorem Times.trans (h : Times ts w w') (h' : Times ts' w' w'') : Times (ts ++ ts') w w'' := by
  obtain ⟨done, hlog, rfl⟩ := h
  obtain ⟨done', hlog', rfl⟩ := h'
  exact ⟨done ++ done', by rw [hlog', hlog, List.append_assoc], List.filter_append ..⟩

theorem Handles.times (h : Handles w w') : Times [] w w' := by
  obtain ⟨done, hlog, hdone⟩ := h.log
  refine ⟨done, hlog, List.filter_eq_nil_iff.mpr fun x hx => ?_⟩
  rw [isTime_iff]
  exact hdone x hx

theorem Times.eq (h : Times ts w w') : (happened w w').filter isTime = ts := by
  obtain ⟨done, hlog, hts⟩ := h
  rw [happened_eq hlog, hts]

/-- The parts of an ECU that keep time. -/
structure Clocks (BUF SESSIONS : Nat) where
  node : Node BUF SESSIONS
  etp : Etp.Reassembler etpBuffer 2
  faults : FaultLog faultCapacity
  schedule : Schedule scheduleCapacity

def clocks (w : Watched β BUF SESSIONS) : Clocks BUF SESSIONS :=
  ⟨w.node, w.etp, w.faults, w.schedule⟩

/-- Time passes for all of them, for the last two if there is an address. -/
def Clocks.advance (c : Clocks BUF SESSIONS) (e : Nat) : Clocks BUF SESSIONS where
  node := (c.node.tick e).2
  etp := (c.etp.tick e Tp.t3TimeoutMs).2
  faults := if (c.node.tick e).2.hasAddress then (c.faults.tick e).2 else c.faults
  schedule := if (c.node.tick e).2.hasAddress then (c.schedule.tick e).2 else c.schedule

theorem Clocks.advance_held {c : Clocks BUF SESSIONS} {e : Nat}
    (h : (c.node.tick e).2.hasAddress = true) :
    c.advance e = ⟨(c.node.tick e).2, (c.etp.tick e Tp.t3TimeoutMs).2, (c.faults.tick e).2,
      (c.schedule.tick e).2⟩ := by
  unfold Clocks.advance
  rw [if_pos h, if_pos h]

theorem Clocks.advance_silent {c : Clocks BUF SESSIONS} {e : Nat}
    (h : (c.node.tick e).2.hasAddress = false) :
    c.advance e = ⟨(c.node.tick e).2, (c.etp.tick e Tp.t3TimeoutMs).2, c.faults, c.schedule⟩ := by
  have hnot : ¬ (c.node.tick e).2.hasAddress = true := by
    rw [h]
    exact Bool.false_ne_true
  unfold Clocks.advance
  rw [if_neg hnot, if_neg hnot]

/-- What a tick of `e` milliseconds owes the timers. -/
def owed (n : Node BUF SESSIONS) (e : Nat) : List (Happening BUF SESSIONS) :=
  [.passed .node e, .passed .etp e]
    ++ if (n.tick e).2.hasAddress then [.passed .faults e, .passed .schedule e] else []

/-- The ECU once the node has been advanced. -/
def nodeTicked (w : Watched β BUF SESSIONS) (e : Nat) : Watched β BUF SESSIONS :=
  { w with node := (w.node.tick e).2, log := w.log ++ [.passed .node e] }

/-- The ECU once its extended sessions have been advanced. -/
def etpTicked (w : Watched β BUF SESSIONS) (e : Nat) : Watched β BUF SESSIONS :=
  { w with etp := (w.etp.tick e Tp.t3TimeoutMs).2, log := w.log ++ [.passed .etp e] }

/-- The ECU once its fault log has been advanced. -/
def faultsTicked (w : Watched β BUF SESSIONS) (e : Nat) : Watched β BUF SESSIONS :=
  { w with faults := (w.faults.tick e).2, log := w.log ++ [.passed .faults e] }

/-- The ECU once its schedule has been advanced. -/
def scheduleTicked (w : Watched β BUF SESSIONS) (e : Nat) : Watched β BUF SESSIONS :=
  { w with schedule := (w.schedule.tick e).2, log := w.log ++ [.passed .schedule e] }

theorem times_nodeTicked (w : Watched β BUF SESSIONS) (e : Nat) :
    Times [.passed .node e] w (nodeTicked w e) := ⟨_, rfl, rfl⟩

theorem times_etpTicked (w : Watched β BUF SESSIONS) (e : Nat) :
    Times [.passed .etp e] w (etpTicked w e) := ⟨_, rfl, rfl⟩

theorem times_faultsTicked (w : Watched β BUF SESSIONS) (e : Nat) :
    Times [.passed .faults e] w (faultsTicked w e) := ⟨_, rfl, rfl⟩

theorem times_scheduleTicked (w : Watched β BUF SESSIONS) (e : Nat) :
    Times [.passed .schedule e] w (scheduleTicked w e) := ⟨_, rfl, rfl⟩

/-! ## §2. Clocks that stand alike. -/

/-- Two schedules differ at most in what is due. -/
def SamePhases (s s' : Schedule scheduleCapacity) : Prop :=
  s'.entries.map Schedule.Entry.drop = s.entries.map Schedule.Entry.drop
    ∧ s'.suspendedMs = s.suspendedMs

/-- The clocks stand alike; what is due may have been sent or not. -/
structure Clocks.Alike (c c' : Clocks BUF SESSIONS) : Prop where
  node : c'.node = c.node
  etp : c'.etp = c.etp
  faults : c'.faults = c.faults
  schedule : SamePhases c.schedule c'.schedule

theorem Clocks.Alike.refl (c : Clocks BUF SESSIONS) : c.Alike c := ⟨rfl, rfl, rfl, rfl, rfl⟩

theorem Clocks.Alike.trans {c c' c'' : Clocks BUF SESSIONS} (h : c.Alike c') (h' : c'.Alike c'') :
    c.Alike c'' :=
  ⟨h'.node.trans h.node, h'.etp.trans h.etp, h'.faults.trans h.faults,
    h'.schedule.1.trans h.schedule.1, h'.schedule.2.trans h.schedule.2⟩

/-- A timer goes on whether or not its message was sent. -/
theorem drop_advance (e : Nat) (x : Schedule.Entry) :
    (x.advance e).drop = (x.drop.advance e).drop := by
  unfold Schedule.Entry.advance Schedule.Entry.drop
  dsimp only
  split <;> rfl

/-- Time passes alike for clocks that stand alike. -/
theorem Clocks.Alike.advance {c c' : Clocks BUF SESSIONS} (h : c.Alike c') (e : Nat) :
    (c.advance e).Alike (c'.advance e) := by
  obtain ⟨node, etp, faults, schedule⟩ := c
  obtain ⟨node', etp', faults', schedule'⟩ := c'
  obtain ⟨hnode, hetp, hfaults, hentries, hsuspended⟩ := h
  dsimp only at hnode hetp hfaults hentries hsuspended
  subst hnode hetp hfaults
  have hphases : SamePhases (schedule.tick e).2 (schedule'.tick e).2 := by
    have hmap : ∀ entries : List Schedule.Entry,
        (entries.map (Schedule.Entry.advance e)).map Schedule.Entry.drop
          = ((entries.map Schedule.Entry.drop).map (Schedule.Entry.advance e)).map
              Schedule.Entry.drop := by
      intro entries
      rw [List.map_map, List.map_map, List.map_map]
      exact List.map_congr_left fun x _ => drop_advance e x
    unfold Schedule.tick
    rw [hsuspended]
    split
    · exact ⟨hentries, rfl⟩
    · refine ⟨?_, rfl⟩
      show (schedule'.entries.map _).map _ = (schedule.entries.map _).map _
      rw [hmap, hmap schedule.entries, hentries]
  refine ⟨rfl, rfl, rfl, ?_⟩
  show SamePhases (if _ then _ else _) (if _ then _ else _)
  split
  · exact hphases
  · exact ⟨hentries, hsuspended⟩

/-- If nothing is received between two states, the clocks stand alike. -/
def Undisturbed (w w' : Watched β BUF SESSIONS) : Prop :=
  ∃ done, w'.log = w.log ++ done
    ∧ ((∀ f n, Happening.received f n ∉ done) → (clocks w).Alike (clocks w'))

instance : IsPreorder (Watched β BUF SESSIONS) Undisturbed where
  refl w := ⟨[], (List.append_nil _).symm, fun _ => Clocks.Alike.refl _⟩
  trans _ _ _ h h' := by
    obtain ⟨done, hlog, hclocks⟩ := h
    obtain ⟨done', hlog', hclocks'⟩ := h'
    refine ⟨done ++ done', by rw [hlog', hlog, List.append_assoc], fun hquiet => ?_⟩
    have hleft := hclocks fun f n hf => hquiet f n (List.mem_append_left _ hf)
    have hright := hclocks' fun f n hf => hquiet f n (List.mem_append_right _ hf)
    exact hleft.trans hright

theorem Sends.undisturbed {P : Option Address → Frame → Prop} (h : Sends P w w') :
    Undisturbed w w' := by
  obtain ⟨done, hlog, -⟩ := h.log
  refine ⟨done, hlog, fun _ => ?_⟩
  rw [h.same]
  exact Clocks.Alike.refl _

/-- Taking a message that is due leaves every phase alone. -/
theorem undisturbed_nextDue : Moves Undisturbed (nextDue : Prog β BUF SESSIONS (Option Due)) := by
  intro w
  refine ⟨[], (List.append_nil _).symm, fun _ => ⟨rfl, rfl, rfl, ?_⟩⟩
  show SamePhases w.schedule w.schedule.nextDue.2
  unfold Schedule.nextDue
  split
  · exact ⟨rfl, rfl⟩
  · refine ⟨List.ext_getElem? fun i => ?_, rfl⟩
    rw [List.getElem?_map, List.getElem?_map, List.getElem?_modify]
    cases w.schedule.entries[i]? with
    | none => split <;> rfl
    | some x => split <;> rfl

/-! ## §3. What the bus takes. -/

/-- The bus takes these frames one after another, with a pause before each
but the first if they are `spaced`: the bus afterwards. -/
def takes {β : Type} [Bus β] (spaced : Bool) : Bool → List Frame → β → Option β
  | _, [], bus => some bus
  | first, frame :: frames, bus =>
      let bus := if spaced && !first then Bus.sleep bamPacketInterval bus else bus
      match Bus.sendFrame frame bus with
      | (.ok (), bus) => takes spaced false frames bus
      | (.error _, _) => none

/-- A program that only hands frames to the bus ends as the bus answers:
it returns if the bus has taken them all. -/
def Offers (given : Option β) (w : Watched β BUF SESSIONS)
    (r : EStateM.Result Failure (Watched β BUF SESSIONS) Unit) : Prop :=
  match given with
  | some bus => ∃ w', r = .ok () w' ∧ w'.bus = bus ∧ Sends (fun _ _ => True) w w'
  | none => ∃ e w', r = .error e w' ∧ Sends (fun _ _ => True) w w'

theorem offers_pure (w : Watched β BUF SESSIONS) : Offers (some w.bus) w (.ok () w) :=
  ⟨w, rfl, rfl, Sends.refl w⟩

/-- What comes before the rest changes nothing but the bus and the log. -/
theorem Offers.of_sends {given : Option β}
    {r : EStateM.Result Failure (Watched β BUF SESSIONS) Unit}
    (hs : Sends (fun _ _ => True) w w') (h : Offers given w' r) : Offers given w r := by
  cases given with
  | none =>
    obtain ⟨e, w'', hrun, hsends⟩ := h
    exact ⟨e, w'', hrun, hs.trans hsends⟩
  | some bus =>
    obtain ⟨w'', hrun, hbus, hsends⟩ := h
    exact ⟨w'', hrun, hbus, hs.trans hsends⟩

/-- What follows frames that are taken. -/
theorem Offers.bind_some {x y : Prog β BUF SESSIONS Unit} {bus : β}
    (h : Offers (some bus) w (x w)) :
    ∃ w', (x >>= fun _ => y) w = y w' ∧ w'.bus = bus ∧ Sends (fun _ _ => True) w w' := by
  obtain ⟨w', hrun, hbus, hsends⟩ := h
  exact ⟨w', bind_ok hrun, hbus, hsends⟩

/-- Nothing follows a frame that is refused. -/
theorem Offers.bind_none {x y : Prog β BUF SESSIONS Unit} (h : Offers none w (x w)) :
    Times [] w (after ((x >>= fun _ => y) w)) := by
  obtain ⟨e, w', hrun, hsends⟩ := h
  rw [bind_error hrun]
  exact hsends.handles.times

variable [Bus β]

/-- One frame, and what follows if it is taken. -/
theorem offers_cons (frame : Frame) (rest : β → Option β) {y : Prog β BUF SESSIONS Unit}
    (hy : ∀ w', Sends (fun _ _ => True) w w' → Offers (rest w'.bus) w' (y w')) :
    Offers (match Bus.sendFrame frame w.bus with
      | (.ok (), bus) => rest bus
      | (.error _, _) => none) w ((sendFrame frame >>= fun _ => y) w) := by
  have hsends := sends_frame (P := fun _ _ => True) (w := w) (f := frame) trivial
  rw [bind_run]
  unfold sendFrame at hsends ⊢
  rcases hanswer : Bus.sendFrame frame w.bus with ⟨e | _, bus⟩
  · simp only [hanswer] at hsends ⊢
    exact ⟨_, _, rfl, hsends⟩
  · simp only [hanswer] at hsends ⊢
    exact (hy _ hsends).of_sends hsends

/-- Sending a list of frames. -/
theorem offers_forM (first : Bool) (frames : List Frame) (w : Watched β BUF SESSIONS) :
    Offers (takes false first frames w.bus) w (frames.forM sendFrame w) := by
  induction frames generalizing first w with
  | nil => exact offers_pure w
  | cons frame frames ih =>
    show Offers _ w ((sendFrame frame >>= fun _ => frames.forM sendFrame) w)
    exact offers_cons frame (takes false false frames) fun w' _ => ih false w'

/-- The pause before a frame. -/
theorem pause_run (paced first : Bool) (w : Watched β BUF SESSIONS) :
    pause paced first w = .ok () { w with
      bus := if paced && !first then Bus.sleep bamPacketInterval w.bus else w.bus } := by
  unfold pause
  split <;> rfl

/-- Sending what an outgoing message puts out, as far as it goes. -/
theorem offers_pushFrames {paced first : Bool} {bound : Nat} {o o' : Outgoing}
    {frames : List Frame} (hdrain : o.drain bound = .ok (frames, o'))
    (hend : frames.length < bound) (w : Watched β BUF SESSIONS) :
    Offers (takes paced first frames w.bus) w (pushFrames paced bound first o w) := by
  induction bound generalizing first o frames w with
  | zero => exact absurd hend (Nat.not_lt_zero _)
  | succ bound ih =>
    unfold Outgoing.drain at hdrain
    cases hnext : o.nextFrame with
    | error p =>
      rw [hnext] at hdrain
      cases hdrain
    | ok x =>
      have hexec : exec o.nextFrame w = .ok x w := by
        rw [hnext]
        rfl
      rw [hnext] at hdrain
      show Offers _ w ((exec o.nextFrame >>= fun _ => _) w)
      rw [bind_ok hexec]
      obtain ⟨_ | frame, o₁⟩ := x
      · cases hdrain
        exact offers_pure w
      · simp only [ok_bind, bind_eq_ok, Prod.exists, pure_eq_ok, Except.ok.injEq,
          Prod.mk.injEq] at hdrain
        obtain ⟨frames', o₂, hrest, rfl, rfl⟩ := hdrain
        show Offers _ w ((pause paced first >>= fun _ => _) w)
        rw [bind_ok (pause_run paced first w)]
        let slept : Watched β BUF SESSIONS := { w with
          bus := if paced && !first then Bus.sleep bamPacketInterval w.bus else w.bus }
        have hslept : Sends (fun _ _ => True) w slept :=
          ⟨rfl, [], (List.append_nil _).symm, fun _ h => (nomatch h)⟩
        refine Offers.of_sends hslept ?_
        exact offers_cons (w := slept) frame (takes paced false frames') fun w' _ =>
          ih hrest (Nat.lt_of_succ_lt_succ hend) w'

/-! ## §4. What a tick sends. -/

/-- The frame of an extended connection-management message. -/
def etpCmFrame (source destination : Address) (cm : EtpCm) : Option Frame :=
  match Id.fromParts .lowest .etpCm destination source with
  | .ok id => some (Frame.fromPayload id cm.encode)
  | .error _ => none

/-- Sending the aborts of the sessions that have ended. -/
theorem offers_aborts (first : Bool) (expired : List Etp.Reassembler.Timeout)
    (w : Watched β BUF SESSIONS) :
    Offers (takes false first (expired.filterMap fun x => etpCmFrame w.node.address x.1 x.2)
      w.bus) w ((expired.forM fun x => sendEtpCm x.1 x.2) w) := by
  induction expired generalizing first w with
  | nil => exact offers_pure w
  | cons x expired ih =>
    obtain ⟨peer, abort⟩ := x
    obtain ⟨id, hid⟩ := Id.exists_fromParts .lowest peer w.node.address
      (show Pgn.etpCm.isPdu1 = true by decide)
    have hframe : ∃ frame, etpCmFrame w.node.address peer abort = some frame
        ∧ sendEtpCm peer abort w = sendFrame frame w := by
      have hrun : sendEtpCm peer abort w
          = (valid (Id.fromParts .lowest .etpCm peer w.node.address) >>= fun id =>
              sendFrame (Frame.fromPayload id abort.encode)) w := rfl
      unfold etpCmFrame
      rw [hrun, hid]
      exact ⟨_, rfl, rfl⟩
    obtain ⟨frame, hframe, hrun⟩ := hframe
    have hframes : (((peer, abort) :: expired).filterMap fun x =>
          etpCmFrame w.node.address x.1 x.2)
        = frame :: expired.filterMap fun x => etpCmFrame w.node.address x.1 x.2 :=
      List.filterMap_cons_some hframe
    rw [hframes]
    have hbind : ((⟨peer, abort⟩ :: expired : List Etp.Reassembler.Timeout).forM fun x =>
          sendEtpCm x.1 x.2) w
        = (sendFrame frame >>= fun _ => expired.forM fun x => sendEtpCm x.1 x.2) w := by
      show (sendEtpCm peer abort >>= fun _ => expired.forM fun x => sendEtpCm x.1 x.2) w = _
      rw [bind_run, bind_run, hrun]
    rw [hbind]
    refine offers_cons frame (takes false false _) fun w' hs => ?_
    have hrest := ih false w'
    rwa [hs.node] at hrest

/-- The frames an outgoing message to everybody puts out. -/
def framesOf (o : Outgoing) : List Frame :=
  match o.drain (o.frameCount + 1) with
  | .ok (frames, _) => frames
  | .error _ => []

/-- Every message to everybody puts out what `framesOf` says. -/
theorem drain_framesOf {group : Pgn} {source : Address} {data : List UInt8} {o : Outgoing}
    (hnew : Outgoing.new group source Address.global data = .ok o) :
    ∃ o', o.drain (o.frameCount + 1) = .ok (framesOf o, o')
      ∧ (framesOf o).length < o.frameCount + 1 := by
  have hframes : ∀ {frames o'}, o.drain (o.frameCount + 1) = .ok (frames, o') →
      frames.length < o.frameCount + 1 → ∃ o', o.drain (o.frameCount + 1) = .ok (framesOf o, o')
        ∧ (framesOf o).length < o.frameCount + 1 := by
    intro frames o' hdrain hlt
    have hof : framesOf o = frames := by
      unfold framesOf
      rw [hdrain]
    rw [hof]
    exact ⟨o', hdrain, hlt⟩
  by_cases hshort : data.length ≤ Frame.maxPayload
  · obtain ⟨o₁, f, hnew₁, hcount, -, o', hdrain, -⟩ :=
      Outgoing.drain_single ⟨group, source, data⟩ hshort
    obtain rfl : o₁ = o := Except.ok.inj (hnew₁.symm.trans hnew)
    refine hframes (hdrain _ (Nat.lt_succ_self _)) ?_
    rw [hcount]
    exact Nat.lt_succ_self 1
  · have hrange := Outgoing.length_of_new_global hshort hnew
    obtain ⟨o₁, hnew₁, hcount, o', hdrain, -⟩ :=
      Outgoing.drain_broadcast ⟨group, source, data⟩ hrange.1 hrange.2
    obtain rfl : o₁ = o := Except.ok.inj (hnew₁.symm.trans hnew)
    refine hframes (hdrain _ (Nat.lt_succ_self _)) ?_
    rw [hcount, List.length_cons, List.length_map, List.length_range']
    omega

/-- Sending a message to everybody from an address that is held: all its
frames, spaced if it is a BAM. -/
theorem offers_broadcast {group : Pgn} {data : List UInt8} {o : Outgoing}
    (hheld : w.node.hasAddress = true)
    (hnew : Outgoing.new group w.node.address Address.global data = .ok o) :
    Offers (takes o.needsPacing true (framesOf o) w.bus) w (broadcast group data w) := by
  have hvalid : valid (Outgoing.new group w.node.address Address.global data) w = .ok o w := by
    rw [hnew]
    rfl
  have hpriority : o.withPriority .default = o := by
    rw [← (Outgoing.new_fields hnew).1]
    rfl
  have hrun : broadcast group data w = pushFrames o.needsPacing (o.frameCount + 1) true o w := by
    show (checkMayTransmit >>= fun _ => _) w = _
    rw [bind_ok (checkMayTransmit_held hheld)]
    show (valid (Outgoing.new group w.node.address Address.global data) >>= fun _ => _) w = _
    rw [bind_ok hvalid, hpriority]
  obtain ⟨o', hdrain, hlt⟩ := drain_framesOf hnew
  rw [hrun]
  exact offers_pushFrames hdrain hlt w

/-- The active faults, as they go out. -/
def reportData (log : FaultLog faultCapacity) : List UInt8 :=
  payload log.lamps (if log.active.length = 0 then [Dtc.default] else log.active)

theorem dm1_eq (log : FaultLog faultCapacity) :
    log.dm1 (List.replicate log.dm1Len 0) = (.ok log.dm1Len, reportData log)
      ∧ (reportData log).length = log.dm1Len := by
  have hencode : ∀ dtcs : List Dtc, encodedLen dtcs.length = log.dm1Len →
      encode log.lamps dtcs (List.replicate log.dm1Len 0)
        = (.ok log.dm1Len, payload log.lamps dtcs)
      ∧ (payload log.lamps dtcs).length = log.dm1Len := by
    intro dtcs hlen
    have hroom : encodedLen dtcs.length ≤ (List.replicate log.dm1Len (0 : UInt8)).length := by
      rw [List.length_replicate, hlen]
    rw [encode_ok log.lamps dtcs hroom, hlen, List.drop_of_length_le (by simp), List.append_nil]
    exact ⟨rfl, (length_payload ..).trans hlen⟩
  unfold FaultLog.dm1 reportData
  by_cases hnone : log.active.length = 0
  · rw [if_pos hnone, if_pos hnone]
    refine hencode [Dtc.default] ?_
    unfold FaultLog.dm1Len
    rw [hnone]
    rfl
  · rw [if_neg hnone, if_neg hnone]
    exact hencode log.active (encodedLen_eq_payloadLen hnone)

/-- A report always fits a message. -/
theorem new_report {log : FaultLog faultCapacity} (hwf : log.WF) (source : Address) :
    ∃ o, Outgoing.new .dm1 source Address.global (reportData log) = .ok o := by
  have hlen := (dm1_eq log).2
  have hactive : log.active.length ≤ 32 := hwf.active_le
  by_cases hshort : (reportData log).length ≤ Frame.maxPayload
  · obtain ⟨o, -, hnew, -⟩ := Outgoing.drain_single ⟨.dm1, source, reportData log⟩ hshort
    exact ⟨o, hnew⟩
  · have hmax : log.dm1Len ≤ 130 := by
      unfold FaultLog.dm1Len payloadLen
      dsimp only
      split <;> split <;> omega
    have hrange : Tp.minMessageSize ≤ (reportData log).length
        ∧ (reportData log).length ≤ Tp.maxMessageSize := by
      unfold Frame.maxPayload at hshort
      unfold Tp.minMessageSize Tp.maxMessageSize
      omega
    obtain ⟨o, hnew, -⟩ := Outgoing.drain_broadcast ⟨.dm1, source, reportData log⟩ hrange.1 hrange.2
    exact ⟨o, hnew⟩

/-- A report is sent as a message to everybody. -/
theorem sendDm1_run (w : Watched β BUF SESSIONS) :
    sendDm1 w = broadcast .dm1 (reportData w.faults) w := by
  obtain ⟨hdm1, hlen⟩ := dm1_eq w.faults
  have hslice : slice (reportData w.faults) 0 w.faults.dm1Len = .ok (reportData w.faults) := by
    rw [slice_zero_ok (Nat.le_of_eq hlen.symm), List.take_of_length_le (Nat.le_of_eq hlen)]
  have hrun : sendDm1 w = (valid (w.faults.dm1 (List.replicate w.faults.dm1Len 0)).1 >>= fun len =>
      exec (slice (w.faults.dm1 (List.replicate w.faults.dm1Len 0)).2 0 len) >>= fun data =>
        broadcast .dm1 data) w := rfl
  rw [hrun, hdm1]
  show (exec (slice (reportData w.faults) 0 w.faults.dm1Len) >>= fun data =>
    broadcast .dm1 data) w = _
  rw [hslice]
  rfl

/-- The frames of the aborts of the extended sessions that have ended. -/
def abortFrames (source : Address) (expired : List Etp.Reassembler.Timeout) : List Frame :=
  expired.filterMap fun x => etpCmFrame source x.1 x.2

/-- What becomes of the report of the active faults, if one is due after
`e` milliseconds. -/
def reportTaken (log : FaultLog faultCapacity) (source : Address) (e : Nat) (bus : β) : Option β :=
  if (log.tick e).1 then
    match Outgoing.new .dm1 source Address.global (reportData (log.tick e).2) with
    | .ok o => takes o.needsPacing true (framesOf o) bus
    | .error _ => none
  else some bus

/-- The bus takes the aborts of the extended sessions that end within `e`
milliseconds, and then the report, if one is due. -/
def AcceptsReports (w : Watched β BUF SESSIONS) (e : Nat) : Prop :=
  ∃ bus, takes false true (abortFrames w.node.address (w.etp.tick e Tp.t3TimeoutMs).1) w.bus
      = some bus
    ∧ (reportTaken w.faults w.node.address e bus).isSome = true

/-- The bus takes every frame that a tick of `e` milliseconds sends before
it turns to another timer. -/
def Accepts (w : Watched β BUF SESSIONS) (e : Nat) : Prop :=
  ∃ bus, takes false true (w.node.tick e).1 w.bus = some bus
    ∧ ((w.node.tick e).2.hasAddress = true →
      AcceptsReports { nodeTicked w e with bus := bus } e)

/-! ## §5. The timers a tick reaches. -/

/-- What is left of a tick once the node's frames are out. -/
def afterNode (fuel e : Nat) : Prog β BUF SESSIONS Unit := do
  (← tickEtp e).forM fun x => sendEtpCm x.1 x.2
  report e
  publish fuel e

theorem pass_run (fuel e : Nat) (w : Watched β BUF SESSIONS) :
    pass fuel e w = ((w.node.tick e).1.forM sendFrame >>= fun _ => afterNode fuel e)
      (nodeTicked w e) := rfl

theorem afterNode_run (fuel e : Nat) (w : Watched β BUF SESSIONS) :
    afterNode fuel e w = (((w.etp.tick e Tp.t3TimeoutMs).1.forM fun x => sendEtpCm x.1 x.2)
      >>= fun _ => report e >>= fun _ => publish fuel e) (etpTicked w e) := rfl

theorem report_held (hheld : w.node.hasAddress = true) (e : Nat) :
    report e w = (if (w.faults.tick e).1 then sendDm1 else pure () : Prog β BUF SESSIONS Unit)
      (faultsTicked w e) := by
  show (if w.node.hasAddress = true then _ else _ : Prog β BUF SESSIONS Unit) w = _
  rw [if_pos hheld]
  rfl

theorem publish_held (hheld : w.node.hasAddress = true) (fuel e : Nat) :
    publish fuel e w = sendDue fuel (scheduleCapacity + 1) (scheduleTicked w e) := by
  show (if w.node.hasAddress = true then _ else _ : Prog β BUF SESSIONS Unit) w = _
  rw [if_pos hheld]
  rfl

/-- Without an address nothing is reported or published. -/
theorem report_silent (hheld : w.node.hasAddress = false) (fuel e : Nat) :
    (report e >>= fun _ => publish fuel e) w = .ok () w := by
  have hreport : report e w = .ok () w := by
    show (if w.node.hasAddress = true then _ else _ : Prog β BUF SESSIONS Unit) w = _
    rw [hheld]
    rfl
  rw [bind_ok hreport]
  show (if w.node.hasAddress = true then _ else _ : Prog β BUF SESSIONS Unit) w = _
  rw [hheld]
  rfl

/-- The fault log is advanced first, whatever becomes of the report. -/
theorem offers_report (hwf : w.faults.WF) (hheld : w.node.hasAddress = true) (e : Nat) :
    Offers (reportTaken w.faults w.node.address e w.bus) (faultsTicked w e) (report e w) := by
  rw [report_held hheld]
  unfold reportTaken
  split
  · obtain ⟨o, hnew⟩ := new_report (hwf.tick e) w.node.address
    rw [hnew, sendDm1_run]
    exact offers_broadcast (w := faultsTicked w e) hheld hnew
  · exact offers_pure (faultsTicked w e)

/-- Without an address the extended sessions are the last to hear of the
time. -/
theorem afterNode_silent (hheld : w.node.hasAddress = false) (fuel e : Nat) :
    Times [.passed .etp e] w (after (afterNode fuel e w))
      ∧ clocks (after (afterNode fuel e w))
        = ⟨w.node, (w.etp.tick e Tp.t3TimeoutMs).2, w.faults, w.schedule⟩ := by
  have hend : Sends (fun _ _ => True) (etpTicked w e) (after (afterNode fuel e w)) := by
    rw [afterNode_run]
    refine after_bind ?_ fun _ w' _ hs => ?_
    · exact (Moves.forM fun x _ w => (sends_etpCm x.1 x.2 w).weaken fun _ _ _ => trivial) _
    · have hheld' : w'.node.hasAddress = false := by rwa [hs.node]
      rw [report_silent hheld']
      exact Sends.refl w'
  refine ⟨(times_etpTicked w e).trans hend.handles.times, ?_⟩
  rw [hend.same]
  rfl

/-- The aborts of the extended sessions that end, offered to the bus. -/
theorem offers_abortFrames (e : Nat) :
    Offers (takes false true (abortFrames w.node.address (w.etp.tick e Tp.t3TimeoutMs).1) w.bus)
      (etpTicked w e) (((w.etp.tick e Tp.t3TimeoutMs).1.forM fun x => sendEtpCm x.1 x.2)
        (etpTicked w e)) :=
  offers_aborts true (w.etp.tick e Tp.t3TimeoutMs).1 (etpTicked w e)

/-- Once the aborts are taken, the report is next, with an address and a
fault log that have not changed. -/
theorem afterNode_aborted (hwf : w.faults.WF) (hheld : w.node.hasAddress = true) {e : Nat}
    {bus : β}
    (htaken : takes false true (abortFrames w.node.address (w.etp.tick e Tp.t3TimeoutMs).1) w.bus
      = some bus) (fuel : Nat) :
    ∃ w₁, afterNode fuel e w = (report e >>= fun _ => publish fuel e) w₁
      ∧ Sends (fun _ _ => True) (etpTicked w e) w₁ ∧ w₁.node.hasAddress = true
      ∧ Offers (reportTaken w.faults w.node.address e bus) (faultsTicked w₁ e) (report e w₁) := by
  have haborts := offers_abortFrames (w := w) e
  rw [htaken] at haborts
  obtain ⟨w₁, hrun₁, hbus₁, hs₁⟩ := haborts.bind_some (y := report e >>= fun _ => publish fuel e)
  have hheld₁ : w₁.node.hasAddress = true := by rwa [hs₁.node]
  have hfaults₁ : w₁.faults = w.faults := by
    rw [hs₁.same]
    rfl
  have hnode₁ : w₁.node = w.node := hs₁.node
  have hreports := offers_report (by rwa [hfaults₁]) hheld₁ e
  rw [hfaults₁, hnode₁, hbus₁] at hreports
  rw [afterNode_run, hrun₁]
  exact ⟨w₁, rfl, hs₁, hheld₁, hreports⟩

/-- With an address, and a bus that takes the frames in between, every
timer hears of it. -/
theorem afterNode_accepted (hwf : w.faults.WF) (hheld : w.node.hasAddress = true) {e : Nat}
    (h : AcceptsReports w e) (fuel : Nat) :
    ∃ v, Times [.passed .etp e, .passed .faults e, .passed .schedule e] w v
      ∧ clocks v = ⟨w.node, (w.etp.tick e Tp.t3TimeoutMs).2, (w.faults.tick e).2,
          (w.schedule.tick e).2⟩
      ∧ afterNode fuel e w = sendDue fuel (scheduleCapacity + 1) v := by
  obtain ⟨bus, htaken, hreport⟩ := h
  obtain ⟨w₁, hrun₁, hs₁, hheld₁, hreports⟩ := afterNode_aborted hwf hheld htaken fuel
  obtain ⟨bus', hbus'⟩ := Option.isSome_iff_exists.mp hreport
  rw [hbus'] at hreports
  obtain ⟨w₂, hrun₂, -, hs₂⟩ := hreports
  have hheld₂ : w₂.node.hasAddress = true := by
    rw [hs₂.node]
    exact hheld₁
  refine ⟨scheduleTicked w₂ e, ?_, ?_, ?_⟩
  · have htimes := ((times_etpTicked w e).trans hs₁.handles.times).trans
      ((times_faultsTicked w₁ e).trans hs₂.handles.times)
    exact htimes.trans (times_scheduleTicked w₂ e)
  · unfold clocks scheduleTicked
    rw [hs₂.same]
    unfold faultsTicked
    rw [hs₁.same]
    rfl
  · rw [hrun₁, bind_ok hrun₂, publish_held hheld₂]

/-- With an address, a frame that is refused keeps the time from the
schedule. -/
theorem afterNode_refused (hwf : w.faults.WF) (hheld : w.node.hasAddress = true) {e : Nat}
    (h : ¬ AcceptsReports w e) (fuel : Nat) :
    Times [.passed .etp e] w (after (afterNode fuel e w))
      ∨ Times [.passed .etp e, .passed .faults e] w (after (afterNode fuel e w)) := by
  cases htaken : takes false true (abortFrames w.node.address (w.etp.tick e Tp.t3TimeoutMs).1)
      w.bus with
  | none =>
    have haborts := offers_abortFrames (w := w) e
    rw [htaken] at haborts
    rw [afterNode_run]
    exact Or.inl ((times_etpTicked w e).trans haborts.bind_none)
  | some bus =>
    obtain ⟨w₁, hrun₁, hs₁, -, hreports⟩ := afterNode_aborted hwf hheld htaken fuel
    cases hreport : reportTaken w.faults w.node.address e bus with
    | some bus' => exact absurd ⟨bus, htaken, by rw [hreport, Option.isSome_some]⟩ h
    | none =>
      rw [hreport] at hreports
      obtain ⟨err, w₂, hrun₂, hs₂⟩ := hreports
      have htimes := ((times_etpTicked w e).trans hs₁.handles.times).trans
        ((times_faultsTicked w₁ e).trans hs₂.handles.times)
      rw [hrun₁, bind_error hrun₂]
      exact Or.inr htimes

/-! ## §6. One tick. -/

/-- **A tick whose frames are taken** advances every clock, and then sends
what is due. -/
theorem pass_accepted (hwf : w.faults.WF) {e : Nat} (h : Accepts w e) (fuel : Nat) :
    ∃ v, Times (owed w.node e) w v ∧ clocks v = (clocks w).advance e
      ∧ (after (pass fuel e w) = v
        ∨ pass fuel e w = sendDue fuel (scheduleCapacity + 1) v) := by
  obtain ⟨bus, htaken, hreports⟩ := h
  have hframes := offers_forM true (w.node.tick e).1 (nodeTicked w e)
  have htaken' : takes false true (w.node.tick e).1 (nodeTicked w e).bus = some bus := htaken
  rw [htaken'] at hframes
  obtain ⟨w₁, hrun, hbus, hs⟩ := hframes.bind_some (y := afterNode fuel e)
  have hsame : w₁ = { nodeTicked w e with bus := bus, log := w₁.log } := by
    rw [← hbus]
    exact hs.same
  have hnode : w₁.node = (w.node.tick e).2 := hs.node
  have htimes := (times_nodeTicked w e).trans hs.handles.times
  rw [pass_run, hrun]
  unfold owed
  cases hheld : (w.node.tick e).2.hasAddress with
  | false =>
    obtain ⟨hetp, hclocks⟩ := afterNode_silent (w := w₁) (by rw [hnode, hheld]) fuel e
    refine ⟨_, htimes.trans hetp, ?_, Or.inl rfl⟩
    rw [hclocks, hsame, Clocks.advance_silent (c := clocks w) hheld]
    rfl
  | true =>
    have haccepts : AcceptsReports w₁ e := by
      rw [hsame]
      exact hreports hheld
    have hfaults : w₁.faults = w.faults := by rw [hsame]; rfl
    obtain ⟨v, hlater, hclocks, hdue⟩ := afterNode_accepted (w := w₁) (by rwa [hfaults])
      (by rw [hnode, hheld]) haccepts fuel
    refine ⟨v, htimes.trans hlater, ?_, Or.inr hdue⟩
    rw [hclocks, hsame, Clocks.advance_held (c := clocks w) hheld]
    rfl

/-- **A frame that is refused** keeps the time from a timer. -/
theorem pass_refused (hwf : w.faults.WF) {e : Nat} (h : ¬ Accepts w e) (fuel : Nat) :
    ∃ ts, Times ts w (after (pass fuel e w)) ∧ ts.length < (owed w.node e).length := by
  have hframes := offers_forM true (w.node.tick e).1 (nodeTicked w e)
  rw [pass_run]
  cases htaken : takes false true (w.node.tick e).1 w.bus with
  | none =>
    have htaken' : takes false true (w.node.tick e).1 (nodeTicked w e).bus = none := htaken
    rw [htaken'] at hframes
    refine ⟨_, (times_nodeTicked w e).trans hframes.bind_none, ?_⟩
    simp [owed]
  | some bus =>
    have htaken' : takes false true (w.node.tick e).1 (nodeTicked w e).bus = some bus := htaken
    rw [htaken'] at hframes
    obtain ⟨w₁, hrun, hbus, hs⟩ := hframes.bind_some (y := afterNode fuel e)
    have hsame : w₁ = { nodeTicked w e with bus := bus, log := w₁.log } := by
      rw [← hbus]
      exact hs.same
    have hheld : (w.node.tick e).2.hasAddress = true := by
      by_contra hheld
      exact h ⟨bus, htaken, fun hheld' => absurd hheld' hheld⟩
    have hrefuses : ¬ AcceptsReports w₁ e := by
      rw [hsame]
      exact fun haccepts => h ⟨bus, htaken, fun _ => haccepts⟩
    have hfaults : w₁.faults = w.faults := by rw [hsame]; rfl
    have htimes := (times_nodeTicked w e).trans hs.handles.times
    have hlong : (owed w.node e).length = 4 := by
      simp [owed, hheld]
    rw [hrun, hlong]
    rcases afterNode_refused (w := w₁) (by rwa [hfaults]) (by rw [hs.node]; exact hheld) hrefuses
      fuel with hetp | hreport
    · exact ⟨_, htimes.trans hetp, by simp⟩
    · exact ⟨_, htimes.trans hreport, by simp⟩

/-- The milliseconds a tick takes off the clock. -/
def measured (w : Watched β BUF SESSIONS) : Nat := (w.lastTick.tick (Bus.now w.bus).1).1

/-- The ECU once they are taken off. -/
def timed (w : Watched β BUF SESSIONS) : Watched β BUF SESSIONS :=
  { w with
    bus := (Bus.now w.bus).2
    lastTick := (w.lastTick.tick (Bus.now w.bus).1).2
    log := w.log ++ [.taken (measured w)] }

theorem tick_run (fuel : Nat) (w : Watched β BUF SESSIONS) :
    tick fuel w = if measured w = 0 then .ok () { w with bus := (Bus.now w.bus).2 }
      else pass fuel (measured w) (timed w) := by
  by_cases h : measured w = 0
  · have helapsed : elapsed w = .ok 0 { w with bus := (Bus.now w.bus).2 } := by
      show (if measured w = 0 then pure 0 else _ : Prog β BUF SESSIONS Nat)
        { w with bus := (Bus.now w.bus).2 } = _
      rw [if_pos h]
      rfl
    show (elapsed >>= fun _ => _) w = _
    rw [bind_ok helapsed, if_pos h]
    rfl
  · have helapsed : elapsed w = .ok (measured w) (timed w) := by
      show (if measured w = 0 then pure 0 else _ : Prog β BUF SESSIONS Nat)
        { w with bus := (Bus.now w.bus).2 } = _
      rw [if_neg h]
      rfl
    show (elapsed >>= fun _ => _) w = _
    rw [bind_ok helapsed, if_neg h, if_neg h]

/-- Every millisecond taken off the clock between two states reaches every
timer it is owed to, once. -/
def Delivers (w w' : Watched β BUF SESSIONS) : Prop :=
  (happened w w').filter isTime
    = if measured w = 0 then [] else .taken (measured w) :: owed w.node (measured w)

/-- The bus takes what a tick sends before it turns to another timer. -/
def AcceptsTick (w : Watched β BUF SESSIONS) : Prop :=
  measured w ≠ 0 → Accepts (timed w) (measured w)

/-- **A tick delivers its time exactly when those frames are taken.** -/
theorem delivers_tick_iff (hwf : w.faults.WF) (fuel : Nat) :
    Delivers w (after (tick fuel w)) ↔ AcceptsTick w := by
  rw [tick_run]
  unfold Delivers AcceptsTick
  by_cases hzero : measured w = 0
  · rw [if_pos hzero, if_pos hzero]
    have htimes : Times [] w { w with bus := (Bus.now w.bus).2 } :=
      ⟨[], (List.append_nil _).symm, rfl⟩
    exact iff_of_true htimes.eq fun h => absurd hzero h
  · rw [if_neg hzero, if_neg hzero]
    have htaken : Times [.taken (measured w)] w (timed w) := ⟨_, rfl, rfl⟩
    have hwf' : (timed w).faults.WF := hwf
    constructor
    · intro h _
      by_contra hrefused
      obtain ⟨ts, hts, hlt⟩ := pass_refused hwf' hrefused fuel
      rw [(htaken.trans hts).eq] at h
      injection h with _ h
      have hall : ts = owed w.node (measured w) := h
      rw [hall] at hlt
      exact Nat.lt_irrefl _ hlt
    · intro h
      obtain ⟨v, hts, -, hend⟩ := pass_accepted hwf' (h hzero) fuel
      have hlast : Times [] v (after (pass fuel (measured w) (timed w))) := by
        rcases hend with hend | hend
        · rw [hend]
          exact ⟨[], (List.append_nil _).symm, rfl⟩
        · rw [hend]
          exact (handles_sendDue fuel (scheduleCapacity + 1) v).times
      have hall := htaken.trans (hts.trans hlast)
      rw [List.append_nil] at hall
      exact hall.eq

/-! ## §7. A run of ticks. -/

/-- Receiving, and what depends on it: nothing has to be said about a frame
that arrives. -/
theorem undisturbed_recvFrame {k : Option Frame → Prog β BUF SESSIONS Unit}
    (hnone : Moves Undisturbed (k none)) (hsome : ∀ f, Moves Handles (k (some f))) :
    Moves Undisturbed (recvFrame >>= k) := by
  intro w
  rw [bind_run]
  unfold recvFrame
  rcases hanswer : Bus.recvFrame w.bus with ⟨e | _ | f, bus⟩
  · simp only
    exact (sends_fail (P := fun _ _ => True) _ { w with bus := bus }).undisturbed
  · simp only
    exact hnone { w with bus := bus }
  · simp only
    obtain ⟨done, hlog, -⟩ :=
      (hsome f { w with bus := bus, log := w.log ++ [.received f w.node] }).log
    refine ⟨.received f w.node :: done, ?_, fun hquiet => absurd List.mem_cons_self
      (hquiet f w.node)⟩
    rw [hlog]
    exact List.append_assoc _ _ _

theorem undisturbed_handshake (destination : Address) (fuel : Nat) (o : Outgoing)
    (deadline : Nat) :
    Moves Undisturbed (handshake destination fuel o deadline : Prog β BUF SESSIONS Unit) := by
  induction fuel generalizing o deadline with
  | zero => exact Moves.throw _
  | succ fuel ih =>
    unfold handshake
    split
    · exact Moves.pure _
    refine Moves.bind (fun w => (sends_now (P := fun _ _ => True) w).undisturbed) fun t => ?_
    split
    · exact fun w => (sends_fail (P := fun _ _ => True) _ w).undisturbed
    refine undisturbed_recvFrame (ih o deadline) fun f => ?_
    exact handles_react f o deadline (handles_handshake destination fuel)

theorem undisturbed_sendTo (fuel : Nat) (destination : Address) (group : Pgn)
    (data : List UInt8) :
    Moves Undisturbed (sendTo fuel destination group data : Prog β BUF SESSIONS Unit) := by
  unfold sendTo
  split
  · exact fun w => (sends_broadcast group data .default w).undisturbed
  refine Moves.bind (fun w => (sends_checkMayTransmit (P := fun _ _ => True) w).undisturbed)
    fun _ => Moves.get.bind fun _ => ?_
  refine Moves.bind (fun w => (sends_valid (P := fun _ _ => True) _ w).undisturbed) fun o => ?_
  refine Moves.bind (fun _ => (sends_drain (P := fun _ _ => True) fun _ _ => trivial).undisturbed)
    fun o' => ?_
  refine Moves.bind (fun w => (sends_now (P := fun _ _ => True) w).undisturbed) fun t => ?_
  exact undisturbed_handshake _ _ _ _

/-- **Sending what is due leaves the clocks alone**, unless a frame comes
in meanwhile. -/
theorem undisturbed_sendDue (fuel bound : Nat) :
    Moves Undisturbed (sendDue fuel bound : Prog β BUF SESSIONS Unit) := by
  induction bound with
  | zero => exact Moves.throw _
  | succ bound ih =>
    unfold sendDue
    refine undisturbed_nextDue.bind fun due => ?_
    cases due with
    | none => exact Moves.pure _
    | some due =>
      refine Moves.get.bind fun w => ?_
      cases w.payloads (due.pgn, due.destination) with
      | none => exact ih
      | some x =>
        obtain ⟨payload, priority⟩ := x
        dsimp only
        split
        · refine Moves.bind (fun w => ?_) fun _ => ih
          exact (sends_broadcast due.pgn payload priority w).undisturbed
        · exact (undisturbed_sendTo _ _ _ _).bind fun _ => ih

/-- Clocks after a tick of `e` milliseconds, where none is no tick. -/
def Clocks.after (c : Clocks BUF SESSIONS) (e : Nat) : Clocks BUF SESSIONS :=
  if e = 0 then c else c.advance e

theorem Clocks.Alike.after {c c' : Clocks BUF SESSIONS} (h : c.Alike c') (e : Nat) :
    (c.after e).Alike (c'.after e) := by
  unfold Clocks.after
  split
  · exact h
  · exact h.advance e

/-- **After a tick whose frames are taken** the clocks stand where its time
alone puts them. -/
theorem alike_tick (hwf : w.faults.WF) (h : AcceptsTick w) (fuel : Nat) :
    ∃ done, (after (tick fuel w)).log = w.log ++ done
      ∧ ((∀ f n, Happening.received f n ∉ done) →
        ((clocks w).after (measured w)).Alike (clocks (after (tick fuel w)))) := by
  rw [tick_run]
  unfold Clocks.after
  by_cases hzero : measured w = 0
  · rw [if_pos hzero, if_pos hzero]
    exact ⟨[], (List.append_nil _).symm, fun _ => Clocks.Alike.refl _⟩
  · rw [if_neg hzero, if_neg hzero]
    obtain ⟨v, ⟨done, hlog, -⟩, hclocks, hend⟩ := pass_accepted (w := timed w) hwf (h hzero) fuel
    have hclocks' : clocks v = (clocks w).advance (measured w) := hclocks
    have hlast : Undisturbed v (after (pass fuel (measured w) (timed w))) := by
      rcases hend with hend | hend
      · rw [hend]
        exact refl_of Undisturbed v
      · rw [hend]
        exact undisturbed_sendDue fuel (scheduleCapacity + 1) v
    obtain ⟨done', hlog', halike⟩ := hlast
    refine ⟨.taken (measured w) :: done ++ done', ?_, fun hquiet => ?_⟩
    · rw [hlog', hlog]
      show ((w.log ++ [.taken (measured w)]) ++ done) ++ done' = _
      simp only [List.append_assoc, List.cons_append, List.nil_append]
    · rw [← hclocks']
      exact halike fun f n hf => hquiet f n (List.mem_append_right _ hf)

/-- A tick, once the bus has come to be in some state. -/
def tickStep : Machine.Step (Watched β BUF SESSIONS) (β × Nat) Unit := fun w event =>
  .ok ((), after (tick event.2 { w with bus := event.1 }))

/-- One tick of a run. -/
abbrev Ticked (β : Type) (BUF SESSIONS : Nat) :=
  Machine.Entry (Watched β BUF SESSIONS) (β × Nat) Unit

/-- The ECU a tick starts from. -/
def started (x : Ticked β BUF SESSIONS) : Watched β BUF SESSIONS :=
  { x.before with bus := x.event.1 }

/-- The milliseconds the ticks of a run take off the clock. -/
def elapsedIn (tr : List (Ticked β BUF SESSIONS)) : List Nat := tr.map fun x => measured (started x)

variable {tr : List (Ticked β BUF SESSIONS)}

theorem wf_tickStep {event : β × Nat} {u : Unit} (h : w.toEcu.WF)
    (hstep : tickStep w event = .ok (u, w')) : w'.toEcu.WF := by
  cases hstep
  exact sound_tick event.2 { w with bus := event.1 } ⟨h.node, h.etp, h.faults, h.schedule⟩

/-- The log of a run only grows, and its clocks stand where the times
taken put them. -/
theorem alike_run (hwf : w.toEcu.WF) (h : Machine.Trace tickStep w tr w')
    (haccepts : ∀ x ∈ tr, AcceptsTick (started x)) :
    ∃ done, w'.log = w.log ++ done ∧ ((∀ f n, Happening.received f n ∉ done) →
      ((elapsedIn tr).foldl Clocks.after (clocks w)).Alike (clocks w')) := by
  induction h with
  | nil => exact ⟨[], (List.append_nil _).symm, fun _ => Clocks.Alike.refl _⟩
  | @snoc tr v v' event u htr hstep ih =>
    obtain ⟨done, hlog, halike⟩ := ih fun x hx => haccepts x (List.mem_append_left _ hx)
    have hv : v.toEcu.WF :=
      htr.invariant (I := fun v => v.toEcu.WF) (fun _ _ _ _ h hs => wf_tickStep h hs) hwf
    cases hstep
    have hlast := haccepts _ (List.mem_append_right _ (List.mem_singleton.mpr rfl))
    obtain ⟨done', hlog', halike'⟩ := alike_tick (w := { v with bus := event.1 }) hv.faults hlast
      event.2
    refine ⟨done ++ done', ?_, fun hquiet => ?_⟩
    · rw [hlog', ← List.append_assoc, ← hlog]
    · have hbefore := halike fun f n hf => hquiet f n (List.mem_append_left _ hf)
      have hafter := halike' fun f n hf => hquiet f n (List.mem_append_right _ hf)
      unfold elapsedIn at hbefore ⊢
      rw [List.map_append, List.foldl_append]
      exact (hbefore.after (measured { v with bus := event.1 })).trans hafter

/-- **A run of ticks delivers all its time exactly when the bus takes every
frame that stands before a timer**; the clocks are then where the times
alone put them, as far as no frame comes in. -/
theorem delivers_iff {name : Name} {preferred : Address} (h : Reachable name preferred w)
    (hrun : Machine.Trace tickStep w tr w') :
    ((∀ x ∈ tr, Delivers (started x) x.after)
        ∧ ((∀ f n, Happening.received f n ∉ happened w w') →
          ((elapsedIn tr).foldl Clocks.after (clocks w)).Alike (clocks w')))
      ↔ ∀ x ∈ tr, AcceptsTick (started x) := by
  have htick : ∀ x ∈ tr, (Delivers (started x) x.after ↔ AcceptsTick (started x)) := by
    intro x hx
    obtain ⟨pre, post, rfl⟩ := List.append_of_mem hx
    obtain ⟨hpre, hstep⟩ := hrun.split
    have hx' : x.before.toEcu.WF :=
      hpre.invariant (I := fun v => v.toEcu.WF) (fun _ _ _ _ h hs => wf_tickStep h hs) h.wf
    have hafter : after (tick x.event.2 (started x)) = x.after := by
      injection hstep with hstep
      exact congrArg Prod.snd hstep
    have hiff := delivers_tick_iff (w := started x) hx'.faults x.event.2
    rwa [hafter] at hiff
  constructor
  · exact fun hdelivers x hx => (htick x hx).mp (hdelivers.1 x hx)
  · intro haccepts
    obtain ⟨done, hlog, halike⟩ := alike_run h.wf hrun haccepts
    refine ⟨fun x hx => (htick x hx).mpr (haccepts x hx), fun hquiet => halike fun f n hf => ?_⟩
    exact hquiet f n (by rwa [happened_eq hlog])

/-! ## §8. Time that is lost. -/

/-- A run of one tick. -/
def ticked (w : Watched β BUF SESSIONS) (bus : β) (fuel : Nat) : Ticked β BUF SESSIONS :=
  ⟨w, (bus, fuel), (), after (tick fuel { w with bus := bus })⟩

theorem ticked_run (w : Watched β BUF SESSIONS) (bus : β) (fuel : Nat) :
    Machine.Trace tickStep w [ticked w bus fuel] (ticked w bus fuel).after :=
  Machine.Trace.nil.snoc rfl

/-- An RTS to address `0x80`: 20 bytes in 3 packets. -/
def rtsTo80 : Frame :=
  Frame.fromPayload ⟨0x1CEC8011, by decide⟩ ![0x10, 20, 0, 3, 0xFF, 0x00, 0xEF, 0x00]

/-- The ECU with a session a peer has opened and then forgotten. -/
def stalled : Watched FakeBus 64 2 :=
  after (call 1 .poll { claimed with bus := ⟨[rtsTo80], [], 1000000, 0⟩ })

theorem stalled_reachable : Reachable ⟨1⟩ (Address.ofNat 0x80) stalled :=
  (claimed_reachable.bus _).call 1 .poll

/-- The same with a fault to report. -/
def stalledFaulty : Watched FakeBus 64 2 := after (call 1 (.setFault 100 1 .amberWarning) stalled)

/-- The bus two seconds later, when it takes two frames. -/
def takingBus : FakeBus := ⟨[], [true, true], 3000000, 0⟩

/-- **The time is delivered**: the abort of the session is taken, and so is
the report behind it. -/
theorem delivers_stalledFaulty : measured (started (ticked stalledFaulty takingBus 1)) = 2000
    ∧ (ticked stalledFaulty takingBus 1).after.bus.accepts = []
    ∧ Delivers (started (ticked stalledFaulty takingBus 1))
      (ticked stalledFaulty takingBus 1).after := by
  refine ⟨by decide +kernel, by decide +kernel, ?_⟩
  refine ((delivers_iff (stalled_reachable.call 1 (.setFault 100 1 .amberWarning))
    (ticked_run stalledFaulty takingBus 1)).mpr fun x hx => ?_).1 _ (List.mem_singleton.mpr rfl)
  obtain rfl := List.mem_singleton.mp hx
  intro _
  -- one frame for the abort, one for the report
  exact ⟨⟨[], [true], 3000000, 0⟩, by decide +kernel, fun _ =>
    ⟨⟨[], [true], 3000000, 0⟩, by decide +kernel, by decide +kernel⟩⟩

/-- The bus two seconds later, when it refuses a frame. -/
def refusingBus : FakeBus := ⟨[], [false], 3000000, 0⟩

/-- **The time is lost**: the abort of the session is refused, and three of
the four timers never hear of the two seconds that were taken. -/
theorem time_is_lost : Reachable ⟨1⟩ (Address.ofNat 0x80) stalled
    ∧ Machine.Trace tickStep stalled [ticked stalled refusingBus 1]
        (ticked stalled refusingBus 1).after
    ∧ measured (started (ticked stalled refusingBus 1)) = 2000
    ∧ ¬ Delivers (started (ticked stalled refusingBus 1)) (ticked stalled refusingBus 1).after := by
  refine ⟨stalled_reachable, ticked_run stalled refusingBus 1,
    by decide +kernel, fun h => ?_⟩
  have hlength := congrArg List.length h
  exact absurd hlength (by decide +kernel)

end Ecu

end SaeJ1939.Host
