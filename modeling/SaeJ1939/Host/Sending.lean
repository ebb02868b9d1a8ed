/-
  SaeJ1939.Host.Sending — what the methods of an ECU that only transmit
  put on the bus.

  Such a method changes nothing of the ECU: it hands frames to the bus
  until it is done or one is refused.

  Main results:
    * `Sends` — nothing but the bus and the log changes, and every frame
      handed over is of a given kind.
    * `sends_broadcast` — a broadcast goes out only under an address that
      is held, and only as its own group, a BAM or data packets.
-/
import SaeJ1939.Host.Ecu

namespace SaeJ1939.Host.Ecu

open AddressClaim Checked Diagnostics Fallible
open Tp (TpCm)

variable {β α : Type} {BUF SESSIONS : Nat}

/-! ## §1. What sending does. -/

/-- Between `w` and `w'` frames are handed to the bus, each of them allowed
by `P` for the address that is held, and calls may fail; nothing else
changes. -/
structure Sends (P : Option Address → Frame → Prop) (w w' : Watched β BUF SESSIONS) : Prop where
  same : w' = { w with bus := w'.bus, log := w'.log }
  log : ∃ done, w'.log = w.log ++ done ∧ ∀ h ∈ done,
    (∃ f, h = .sent f (held w.node) ∧ P (held w.node) f) ∨ ∃ e, h = .failed e

variable {P P' : Option Address → Frame → Prop} {w w' w'' : Watched β BUF SESSIONS}

theorem Sends.refl (w : Watched β BUF SESSIONS) : Sends P w w :=
  ⟨rfl, [], (List.append_nil _).symm, fun _ h => (by cases h)⟩

theorem Sends.trans (h : Sends P w w') (h' : Sends P w' w'') : Sends P w w'' := by
  obtain ⟨done, hlog, hdone⟩ := h.log
  obtain ⟨done', hlog', hdone'⟩ := h'.log
  have hnode : w'.node = w.node := by rw [h.same]
  constructor
  · rw [h'.same, h.same]
  · refine ⟨done ++ done', by rw [hlog', hlog, List.append_assoc], fun x hx => ?_⟩
    rw [hnode] at hdone'
    exact (List.mem_append.mp hx).elim (hdone x) (hdone' x)

instance : IsPreorder (Watched β BUF SESSIONS) (Sends P) where
  refl := Sends.refl
  trans _ _ _ := Sends.trans

theorem Sends.node (h : Sends P w w') : w'.node = w.node := by
  rw [h.same]

theorem Sends.weaken (h : Sends P w w') (hP : ∀ a f, P a f → P' a f) : Sends P' w w' := by
  obtain ⟨done, hlog, hdone⟩ := h.log
  refine ⟨h.same, done, hlog, fun x hx => ?_⟩
  rcases hdone x hx with ⟨f, rfl, hf⟩ | hfail
  · exact Or.inl ⟨f, rfl, hP _ f hf⟩
  · exact Or.inr hfail

/-! ## §2. The parts of a method. -/

theorem sends_fail (e : Failure) : Moves (Sends P) (fail e : Prog β BUF SESSIONS α) := by
  intro w
  refine ⟨rfl, [.failed e], rfl, fun h hh => ?_⟩
  exact Or.inr ⟨e, List.mem_singleton.mp hh⟩

theorem sends_exec (x : Exec α) : Moves (Sends P) (exec x : Prog β BUF SESSIONS α) := by
  cases x with
  | ok a => exact Moves.pure a
  | error p => exact sends_fail _

theorem sends_valid (x : Result α) : Moves (Sends P) (valid x : Prog β BUF SESSIONS α) := by
  cases x with
  | ok a => exact Moves.pure a
  | error e => exact sends_fail _

theorem sends_bus {f : β → β} : Moves (Sends P)
    (modify fun w => { w with bus := f w.bus } : Prog β BUF SESSIONS Unit) :=
  fun w => ⟨rfl, [], (List.append_nil _).symm, fun _ h => (by cases h)⟩

/-- What a call that may panic returns is its value. -/
theorem exec_ok {x : Exec α} {a : α} {w w' : Watched β BUF SESSIONS}
    (h : exec x w = .ok a w') : x = .ok a ∧ w' = w := by
  cases x with
  | ok b =>
    injection h with hb hw
    exact ⟨congrArg _ hb, hw.symm⟩
  | error p => cases h

theorem valid_ok {x : Result α} {a : α} {w w' : Watched β BUF SESSIONS}
    (h : valid x w = .ok a w') : x = .ok a ∧ w' = w := by
  cases x with
  | ok b =>
    injection h with hb hw
    exact ⟨congrArg _ hb, hw.symm⟩
  | error e => cases h

theorem sends_checkMayTransmit : Moves (Sends P) (checkMayTransmit : Prog β BUF SESSIONS Unit) := by
  refine Moves.get.bind fun w => ?_
  split
  · exact Moves.pure _
  · exact sends_fail _

/-- A check that passes finds an address held. -/
theorem checkMayTransmit_ok {u : Unit} (h : checkMayTransmit w = .ok u w') :
    w.node.hasAddress = true ∧ w' = w := by
  have hrun : checkMayTransmit w = (if w.node.hasAddress then pure ()
      else fail (.io (.notConnected w.node.claimState)) : Prog β BUF SESSIONS Unit) w := rfl
  rw [hrun] at h
  split at h
  next hheld =>
    injection h with _ hw
    exact ⟨hheld, hw.symm⟩
  next => cases h

/-- With an address the check passes. -/
theorem checkMayTransmit_held (h : w.node.hasAddress = true) : checkMayTransmit w = .ok () w := by
  have hrun : checkMayTransmit w = (if w.node.hasAddress then pure ()
      else fail (.io (.notConnected w.node.claimState)) : Prog β BUF SESSIONS Unit) w := rfl
  rw [hrun, if_pos h]
  rfl

theorem checkMayTransmit_silent (h : ¬ w.node.hasAddress = true) :
    checkMayTransmit w = fail (.io (.notConnected w.node.claimState)) w := by
  have hrun : checkMayTransmit w = (if w.node.hasAddress then pure ()
      else fail (.io (.notConnected w.node.claimState)) : Prog β BUF SESSIONS Unit) w := rfl
  rw [hrun, if_neg h]

theorem held_of_hasAddress {n : Node BUF SESSIONS} (h : n.hasAddress = true) :
    held n = some n.address :=
  if_pos h

variable [Bus β]

theorem sends_now : Moves (Sends P) (now : Prog β BUF SESSIONS Nat) :=
  fun w => ⟨rfl, [], (List.append_nil _).symm, fun _ h => (by cases h)⟩

/-- Handing over one frame. -/
theorem sends_frame {f : Frame} {w : Watched β BUF SESSIONS} (hf : P (held w.node) f) :
    Sends P w (after (sendFrame f w)) := by
  unfold sendFrame
  dsimp only
  cases (Bus.sendFrame f w.bus).1 with
  | ok _ =>
    refine ⟨rfl, [.sent f (held w.node)], rfl, fun h hh => ?_⟩
    exact Or.inl ⟨f, List.mem_singleton.mp hh, hf⟩
  | error e =>
    refine ⟨rfl, [.sent f (held w.node), .failed (.io e)], ?_, fun h hh => ?_⟩
    · exact List.append_assoc _ _ _
    · rcases List.mem_cons.mp hh with rfl | hh
      · exact Or.inl ⟨f, rfl, hf⟩
      · exact Or.inr ⟨_, List.mem_singleton.mp hh⟩

/-- Handing over a frame is noted, whether or not the bus takes it. -/
theorem log_sendFrame (f : Frame) (w : Watched β BUF SESSIONS) :
    ∃ done, (after (sendFrame f w)).log = w.log ++ .sent f (held w.node) :: done := by
  unfold sendFrame
  dsimp only
  cases (Bus.sendFrame f w.bus).1 with
  | ok _ => exact ⟨[], rfl⟩
  | error e => exact ⟨[.failed (.io e)], List.append_assoc _ _ _⟩

theorem sends_pause {paced first : Bool} :
    Moves (Sends P) (pause paced first : Prog β BUF SESSIONS Unit) := by
  unfold pause
  split
  · exact sends_bus
  · exact Moves.pure _

/-! ## §3. Messages. -/

/-- Every frame of a broadcast is one the message puts out. -/
theorem sends_pushFrames {paced : Bool} {bound : Nat} {first : Bool} {o : Outgoing}
    (hP : ∀ f, o.Emits f → P (held w.node) f) :
    Sends P w (after (pushFrames paced bound first o w)) := by
  induction bound generalizing first o w with
  | zero => exact Sends.refl w
  | succ bound ih =>
    refine after_bind (sends_exec _ w) fun x w₁ hx _ => ?_
    obtain ⟨hnext, rfl⟩ := exec_ok hx
    obtain ⟨frame, o'⟩ := x
    obtain ⟨hemits, hlater⟩ := Outgoing.nextFrame_emits hnext
    cases frame with
    | none => exact Sends.refl w₁
    | some f =>
      refine after_bind (sends_pause w₁) fun _ w₂ _ h₂ => ?_
      rw [← h₂.node] at hP
      refine after_bind (sends_frame (hP f (hemits f rfl))) fun _ w₃ _ h₃ => ih fun g hg => ?_
      rw [h₃.node]
      exact hP g (hlater g hg)

/-- Sending what is available right now, likewise. -/
theorem sends_drain {bound : Nat} {o : Outgoing} (hP : ∀ f, o.Emits f → P (held w.node) f) :
    Sends P w (after (drain bound o w)) := by
  induction bound generalizing o w with
  | zero => exact Sends.refl w
  | succ bound ih =>
    refine after_bind (sends_exec _ w) fun x w₁ hx _ => ?_
    obtain ⟨hnext, rfl⟩ := exec_ok hx
    obtain ⟨frame, o'⟩ := x
    obtain ⟨hemits, hlater⟩ := Outgoing.nextFrame_emits hnext
    cases frame with
    | none => exact Sends.refl w₁
    | some f =>
      refine after_bind (sends_frame (hP f (hemits f rfl))) fun _ w₂ _ h₂ => ih fun g hg => ?_
      rw [h₂.node]
      exact hP g (hlater g hg)

/-- A frame of a broadcast of `group`: sent under the address that is
held, and of that group, the announcement of a broadcast or a data packet. -/
structure OfBroadcast (group : Pgn) (a : Option Address) (f : Frame) : Prop where
  source : a = some f.sourceAddress
  content : f.pgn = group ∨ f.pgn = .tpDt
    ∨ f.pgn = .tpCm ∧ ∃ size packets pgn, TpCm.decode f.payload = .ok (.bam size packets pgn)

/-- **A broadcast puts out its own frames only**, and only under an address
that is held. -/
theorem sends_broadcast (group : Pgn) (data : List UInt8) (priority : Priority) :
    Moves (Sends (OfBroadcast group))
      (broadcastWithPriority group data priority : Prog β BUF SESSIONS Unit) := by
  intro w
  refine after_bind (sends_checkMayTransmit w) fun _ w₁ h₁ _ => ?_
  obtain ⟨hheld, rfl⟩ := checkMayTransmit_ok h₁
  refine after_get ?_
  refine after_bind (sends_valid _ w₁) fun o w₂ hvalid _ => ?_
  obtain ⟨hnew, rfl⟩ := valid_ok hvalid
  refine sends_pushFrames fun f hf => ?_
  obtain ⟨hsource, hcontent⟩ := Outgoing.emits_global hnew hf
  exact ⟨by rw [held_of_hasAddress hheld, hsource], hcontent⟩

/-- What the fault lists of this ECU go out as: only broadcasts. -/
theorem sends_report (log : FaultLog faultCapacity → Result Nat × List UInt8) (group : Pgn) :
    Moves (Sends (OfBroadcast group)) (do
      let w ← get
      let (len, payload) := log w.faults
      let len ← valid len
      let data ← exec (slice payload 0 len)
      broadcast group data : Prog β BUF SESSIONS Unit) := by
  intro w
  refine after_get ?_
  refine after_bind (sends_valid _ w) fun len w₁ _ _ => ?_
  refine after_bind (sends_exec _ w₁) fun data w₂ _ _ => ?_
  exact sends_broadcast group data .default w₂

theorem sends_dm1 : Moves (Sends (OfBroadcast .dm1)) (sendDm1 : Prog β BUF SESSIONS Unit) :=
  sends_report (fun faults => faults.dm1 (List.replicate faults.dm1Len 0)) .dm1

theorem sends_dm2 : Moves (Sends (OfBroadcast .dm2)) (sendDm2 : Prog β BUF SESSIONS Unit) :=
  sends_report (fun faults => faults.dm2 (List.replicate faults.dm2Len 0)) .dm2

theorem sends_dm5 : Moves (Sends (OfBroadcast .dm5)) (sendDm5 : Prog β BUF SESSIONS Unit) :=
  fun w => after_get (sends_broadcast .dm5 _ .default w)

/-- An acknowledgement. -/
theorem sends_acknowledge (requester : Address) (ack : Acknowledgement) :
    Moves (Sends fun _ f => f.pgn = .acknowledgement)
      (acknowledge requester ack : Prog β BUF SESSIONS Unit) := by
  intro w
  refine after_get ?_
  refine after_bind (sends_valid _ w) fun id w₁ hvalid _ => ?_
  obtain ⟨hid, rfl⟩ := valid_ok hvalid
  exact sends_frame (Id.pgn_fromParts hid)

/-- The frame of an extended connection-management message. -/
theorem sends_etpCm (destination : Address) (cm : Etp.EtpCm) :
    Moves (Sends fun _ f => f.pgn = .etpCm ∧ f.payload = cm.encode)
      (sendEtpCm destination cm : Prog β BUF SESSIONS Unit) := by
  intro w
  refine after_get ?_
  refine after_bind (sends_valid _ w) fun id w₁ hvalid _ => ?_
  obtain ⟨hid, rfl⟩ := valid_ok hvalid
  exact sends_frame ⟨Id.pgn_fromParts hid, rfl⟩

theorem sends_request (destination : Address) (requested : Pgn) :
    Moves (Sends fun a f => a = some f.sourceAddress ∧ f.pgn = .request)
      (request destination requested : Prog β BUF SESSIONS Unit) := by
  intro w
  refine after_bind (sends_checkMayTransmit w) fun _ w₁ h₁ _ => ?_
  obtain ⟨hheld, rfl⟩ := checkMayTransmit_ok h₁
  refine after_get ?_
  refine after_bind (sends_valid _ w₁) fun id w₂ hvalid _ => ?_
  obtain ⟨hid, rfl⟩ := valid_ok hvalid
  refine after_bind (sends_valid _ w₂) fun f w₃ hframe _ => ?_
  obtain ⟨hnew, rfl⟩ := valid_ok hframe
  obtain ⟨rfl, -⟩ := Frame.data_new hnew
  refine sends_frame ⟨?_, Id.pgn_fromParts hid⟩
  rw [held_of_hasAddress hheld]
  exact congrArg some (Id.sourceAddress_fromParts hid).symm

end SaeJ1939.Host.Ecu
