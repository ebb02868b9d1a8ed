/-
  SaeJ1939.Host.Displacement — from which address a transfer goes on once
  the ECU may have lost it.

  A transfer notes its source address when it starts.  While it waits for
  the peer the ECU goes on handling every other frame, and an address
  claim or a commanded address among them may take the address away; the
  next Clear To Send then draws packets from the address all the same.

  Main results:
    * `onFrame_answer` — the node answers with transport frames from its
      own address, whether or not it holds it.
    * `settles_react`, `settles_handshake` — acting on a frame is proper
      exactly if the frame fits.
    * `fromHeld_iff` — every transport frame of a call carries the address
      held at that moment exactly when no frame that draws one comes in
      after the address is lost.
    * `sent_from_lost_address` — a displaced ECU sends packets from the
      address it has lost.
-/
import SaeJ1939.Host.GlobalRts
import SaeJ1939.Node.Silence

namespace SaeJ1939.Host

open AddressClaim Checked Diagnostics Fallible
open Tp (TpCm)

namespace Ecu

variable {β α : Type} {BUF SESSIONS : Nat} {w w' w'' : Watched β BUF SESSIONS} {f g : Frame}
  {m : Sent} {destination : Address}

/-! ## §1. What a node answers with. -/

/-- The node answers `f` with a frame of the transport protocol: `f` is an
RTS to it, or a packet that the session of its sender answers. -/
def Answers (n : Node BUF SESSIONS) (f : Frame) : Prop :=
  match n.route f with
  | .connection (.rts ..) => True
  | .data dt => (n.reassembler.sessionOf f.sourceAddress).any (Node.answersPacket dt) = true
  | _ => False

/-- What an event asks to have sent is what the node puts out. -/
theorem toList_frameOf (event : Event) :
    (frameOf event).toList = Node.Output.emitted (.event event) := by
  cases event with
  | idle | transmit | message => rfl

/-- An outcome is answered if there is a reply to send. -/
theorem exists_answer_iff (outcome : Tp.Rx) (a peer : Address) :
    (∃ g, frameOf (Node.lift outcome a peer) = some g ∧ IsTransport g)
      ↔ outcome.reply.isSome = true := by
  constructor
  · rintro ⟨g, hg, -⟩
    have hmem : g ∈ Node.Output.emitted (.event (Node.lift outcome a peer)) := by
      rw [← toList_frameOf, hg]
      exact List.mem_singleton_self g
    obtain ⟨cm, hcm, -⟩ := Node.mem_emitted_lift hmem
    rw [hcm]
    rfl
  · intro hreply
    obtain ⟨cm, hcm⟩ := Option.isSome_iff_exists.mp hreply
    obtain ⟨g, hg, hpgn, -⟩ := Node.tpCmFrame_eq a peer cm
    have hlist := toList_frameOf (Node.lift outcome a peer)
    rw [Node.emitted_lift, hcm, Option.bind_some, hg] at hlist
    have hmem : g ∈ (frameOf (Node.lift outcome a peer)).toList := by
      rw [hlist]
      exact List.mem_singleton_self g
    exact ⟨g, Option.mem_toList.mp hmem, Or.inl hpgn⟩

/-- The frame of an outcome goes out under the node's address. -/
theorem sourceAddress_lift {outcome : Tp.Rx} {a peer : Address}
    (hg : frameOf (Node.lift outcome a peer) = some g) : g.sourceAddress = a := by
  obtain ⟨cm, -, hframe⟩ := frameOf_lift hg
  unfold tpCmFrame at hframe
  split at hframe
  next id hid =>
    cases hframe
    exact Id.sourceAddress_fromParts hid
  next => cases hframe

/-- A claim is no transport frame. -/
theorem not_isTransport_claim {n : Node BUF SESSIONS} {action : ClaimAction}
    (h : frameOf (n.actOnClaim action).1 = some g) : ¬ IsTransport g := by
  rw [IsTransport, pgn_of_claim h]
  rintro (hcm | hdt)
  · exact absurd hcm (by decide)
  · exact absurd hdt (by decide)

/-- **A transport frame goes out under the address of the node**, which
answering leaves alone. -/
theorem onFrame_answer {n n' : Node BUF SESSIONS} {event : Event}
    (h : n.onFrame f = .ok (event, n')) (hg : frameOf event = some g) (ht : IsTransport g) :
    g.sourceAddress = n.address ∧ n'.claimer = n.claimer := by
  rw [Node.onFrame_eq] at h
  cases hroute : n.route f with
  | ignore =>
    rw [hroute] at h
    cases h
    cases hg
  | addressClaimed name =>
    rw [hroute] at h
    injection h with h
    have hevent := congrArg Prod.fst h
    dsimp only at hevent
    rw [← hevent] at hg
    exact absurd ht (not_isTransport_claim hg)
  | claimRequest =>
    rw [hroute] at h
    injection h with h
    have hevent := congrArg Prod.fst h
    dsimp only at hevent
    rw [← hevent] at hg
    exact absurd ht (not_isTransport_claim hg)
  | connection cm =>
    rw [hroute] at h
    cases h
    exact ⟨sourceAddress_lift hg, rfl⟩
  | data dt =>
    rw [hroute] at h
    simp only [bind_eq_ok, Prod.exists, pure_eq_ok, Except.ok.injEq, Prod.mk.injEq] at h
    obtain ⟨outcome, r, -, rfl, rfl⟩ := h
    exact ⟨sourceAddress_lift hg, rfl⟩
  | application =>
    rw [hroute] at h
    cases h
    cases hg

/-- **That is when it puts one out.** -/
theorem answers_iff {n : Node BUF SESSIONS} (hn : n.WF) :
    Answers n f
      ↔ ∃ event n' g, n.onFrame f = .ok (event, n') ∧ frameOf event = some g ∧ IsTransport g := by
  have hlift : ∀ {n' outcome}, n.onFrame f
        = .ok (Node.lift outcome n.address f.sourceAddress, n') →
      ((∃ event n' g, n.onFrame f = .ok (event, n') ∧ frameOf event = some g ∧ IsTransport g)
        ↔ outcome.reply.isSome = true) := by
    intro n' outcome hok
    rw [← exists_answer_iff outcome n.address f.sourceAddress]
    constructor
    · rintro ⟨event, n'', g, hok', hg⟩
      cases hok.symm.trans hok'
      exact ⟨g, hg⟩
    · rintro ⟨g, hg⟩
      exact ⟨_, n', g, hok, hg⟩
  have hclaim : ∀ {n₀ : Node BUF SESSIONS} {action}, n.onFrame f = .ok (n₀.actOnClaim action) →
      ¬ ∃ event n' g, n.onFrame f = .ok (event, n') ∧ frameOf event = some g ∧ IsTransport g := by
    rintro n₀ action hok ⟨event, n', g, hok', hg, ht⟩
    have hevent := congrArg Prod.fst (Except.ok.inj (hok.symm.trans hok'))
    dsimp only at hevent
    rw [← hevent] at hg
    exact not_isTransport_claim hg ht
  have hnone : ∀ {event n'}, n.onFrame f = .ok (event, n') → frameOf event = none →
      ¬ ∃ event n' g, n.onFrame f = .ok (event, n') ∧ frameOf event = some g ∧ IsTransport g := by
    rintro event n' hok hidle ⟨event', n'', g, hok', hg, -⟩
    cases hok.symm.trans hok'
    cases hidle.symm.trans hg
  have heq := Node.onFrame_eq n f
  unfold Answers
  cases hroute : n.route f with
  | ignore | application =>
    rw [hroute] at heq
    exact iff_of_false id (hnone heq rfl)
  | addressClaimed name | claimRequest =>
    rw [hroute] at heq
    exact iff_of_false id (hclaim heq)
  | connection cm =>
    obtain ⟨n', hok, -⟩ := Node.onFrame_connection hn hroute
    rw [hlift hok, Node.reply_onCm]
    cases cm with
    | rts size packets maxPacketsPerCts pgn => exact iff_of_true trivial ⟨_, _, _, _, rfl⟩
    | cts | endOfMsgAck | bam | abort => exact iff_of_false id (by simp)
  | data dt =>
    obtain ⟨n', hok, -⟩ := Node.onFrame_data hn hroute
    rw [hlift hok, Node.reply_onDt, ← Tp.Reassembler.sessionOf_eq]

/-- Only connection management and data packets are answered so. -/
theorem Answers.route {n : Node BUF SESSIONS} (h : Answers n f) :
    (∃ size packets maxPacketsPerCts pgn,
        n.route f = .connection (.rts size packets maxPacketsPerCts pgn))
      ∨ ∃ dt, n.route f = .data dt := by
  unfold Answers at h
  split at h
  next hroute => exact Or.inl ⟨_, _, _, _, hroute⟩
  next hroute => exact Or.inr ⟨_, hroute⟩
  next => exact h.elim

/-- So nothing but a transport frame is. -/
theorem Answers.isTransport {n : Node BUF SESSIONS} (h : Answers n f) : IsTransport f := by
  rcases h.route with ⟨_, _, _, _, hroute⟩ | ⟨dt, hroute⟩
  · exact Or.inl (Node.of_route_connection hroute).1
  · exact Or.inr (Node.pgn_of_route_data hroute)

/-- A message that ends a transfer is answered by nothing. -/
theorem not_answers_ends {n : Node BUF SESSIONS} (h : f.EndsTransfer) : ¬ Answers n f := by
  intro ha
  obtain ⟨hcm, hends⟩ := h
  rcases ha.route with ⟨_, _, _, _, hroute⟩ | ⟨dt, hroute⟩
  · obtain ⟨-, hdecode⟩ := Node.of_route_connection hroute
    rcases hends with ⟨size, packets, pgn, hend⟩ | ⟨reason, pgn, hend⟩ <;>
      cases hdecode.symm.trans hend
  · have hne : Pgn.tpCm ≠ Pgn.tpDt := by decide
    exact hne (hcm.symm.trans (Node.pgn_of_route_data hroute))

/-- Nor is a frame of the extended protocol. -/
theorem not_answers_extended {n : Node BUF SESSIONS} (h : IsExtended f) : ¬ Answers n f := by
  intro ha
  have hpgn := ha.isTransport
  rcases h with h | h <;> rw [IsTransport, h] at hpgn <;> exact absurd hpgn (by decide)

/-! ## §2. What is sent from an address that is held. -/

/-- Every transport frame among `done` was sent under the address that was
held then. -/
def FromHeld (done : List (Happening BUF SESSIONS)) : Prop :=
  ∀ g a, .sent g a ∈ done → IsTransport g → a = some g.sourceAddress

/-- The frame `f` comes in while an address is held, or is neither part of
the transfer of `m` to `destination` nor a frame the node answers. -/
def Fits (m : Sent) (destination : Address) (f : Frame) (n : Node BUF SESSIONS) : Prop :=
  n.hasAddress = true ∨ ¬ m.GrantedBy destination f ∧ ¬ Answers n f

/-- So does every frame received among `done`. -/
def Suits (m : Sent) (destination : Address) (done : List (Happening BUF SESSIONS)) : Prop :=
  ∀ f n, .received f n ∈ done → Fits m destination f n

theorem fromHeld_append {done done' : List (Happening BUF SESSIONS)} :
    FromHeld (done ++ done') ↔ FromHeld done ∧ FromHeld done' := by
  constructor
  · exact fun h => ⟨fun g a hg => h g a (List.mem_append_left _ hg),
      fun g a hg => h g a (List.mem_append_right _ hg)⟩
  · rintro ⟨h, h'⟩ g a hg
    exact (List.mem_append.mp hg).elim (h g a) (h' g a)

theorem suits_append {done done' : List (Happening BUF SESSIONS)} :
    Suits m destination (done ++ done') ↔ Suits m destination done ∧ Suits m destination done' := by
  constructor
  · exact fun h => ⟨fun f n hf => h f n (List.mem_append_left _ hf),
      fun f n hf => h f n (List.mem_append_right _ hf)⟩
  · rintro ⟨h, h'⟩ f n hf
    exact (List.mem_append.mp hf).elim (h f n) (h' f n)

/-- Nothing was received. -/
def Deaf (done : List (Happening BUF SESSIONS)) : Prop := ∀ f n, .received f n ∉ done

theorem Deaf.suits {done : List (Happening BUF SESSIONS)} (h : Deaf done) :
    Suits m destination done :=
  fun f n hf => absurd hf (h f n)

/-- From `w` to `w'`, unless something else is received, exactly under `P`
every transport frame is sent from an address that is held. -/
structure Settles (m : Sent) (destination : Address) (P : Prop) (w w' : Watched β BUF SESSIONS) :
    Prop where
  handles : Handles w w'
  log : w.toEcu.WF → (w.node.hasAddress = true → w.node.address = m.source) →
    ∃ done, w'.log = w.log ++ done ∧ (FromHeld done ↔ P ∧ Suits m destination done)

theorem Settles.trans {P Q : Prop} (h : Settles m destination P w w')
    (h' : Settles m destination Q w' w'') : Settles m destination (P ∧ Q) w w'' := by
  refine ⟨h.handles.trans h'.handles, fun hwf hown => ?_⟩
  obtain ⟨done, hlog, hdone⟩ := h.log hwf hown
  obtain ⟨done', hlog', hdone'⟩ := h'.log (h.handles.wf hwf) fun hheld => by
    obtain ⟨hheld, haddress⟩ := h.handles.held hheld
    rw [haddress, hown hheld]
  refine ⟨done ++ done', by rw [hlog', hlog, List.append_assoc], ?_⟩
  rw [fromHeld_append, suits_append, hdone, hdone']
  exact and_and_and_comm

theorem Settles.congr {P Q : Prop} (h : Settles m destination P w w') (hPQ : P ↔ Q) :
    Settles m destination Q w w' :=
  propext hPQ ▸ h

instance : IsPreorder (Watched β BUF SESSIONS) (Settles m destination True) where
  refl w := ⟨Handles.refl w, fun _ _ => ⟨[], (List.append_nil _).symm,
    fun _ => ⟨trivial, fun _ _ h => (nomatch h)⟩, fun _ _ _ h => (nomatch h)⟩⟩
  trans _ _ _ h h' := (h.trans h').congr (and_self_iff)

/-- The first part of a program settles it, if the rest does nothing of
its own. -/
theorem settles_bind {P : Prop} {γ : Type} {x : Prog β BUF SESSIONS α}
    {k : α → Prog β BUF SESSIONS γ} (hx : Settles m destination P w (after (x w)))
    (hk : ∀ a w', x w = .ok a w' → Settles m destination True w' (after (k a w'))) :
    Settles m destination P w (after ((x >>= k) w)) := by
  rw [bind_run]
  cases h : x w with
  | ok a w' =>
    rw [h] at hx
    exact (Settles.trans hx (hk a w' h)).congr (iff_of_eq (and_true P))
  | error e w' =>
    rw [h] at hx
    exact hx

/-- From `w` to `w'` nothing is received, and every transport frame is sent
from an address that is held. -/
def Proper (w w' : Watched β BUF SESSIONS) : Prop :=
  ∃ done, w'.log = w.log ++ done ∧ Deaf done ∧ FromHeld done

instance : IsPreorder (Watched β BUF SESSIONS) Proper where
  refl w := ⟨[], (List.append_nil _).symm, fun _ _ h => (nomatch h), fun _ _ h => (nomatch h)⟩
  trans _ _ _ h h' := by
    obtain ⟨done, hlog, hdeaf, hheld⟩ := h
    obtain ⟨done', hlog', hdeaf', hheld'⟩ := h'
    refine ⟨done ++ done', by rw [hlog', hlog, List.append_assoc], fun f n hf => ?_,
      fromHeld_append.mpr ⟨hheld, hheld'⟩⟩
    exact (List.mem_append.mp hf).elim (hdeaf f n) (hdeaf' f n)

theorem Proper.settles (h : Proper w w') (hh : Handles w w') : Settles m destination True w w' := by
  obtain ⟨done, hlog, hdeaf, hheld⟩ := h
  exact ⟨hh, fun _ _ => ⟨done, hlog, fun _ => ⟨trivial, hdeaf.suits⟩, fun _ => hheld⟩⟩

theorem Sends.proper {P : Option Address → Frame → Prop} (h : Sends P w w')
    (hP : ∀ a f, P a f → IsTransport f → a = some f.sourceAddress) : Proper w w' := by
  obtain ⟨done, hlog, hdone⟩ := h.log
  refine ⟨done, hlog, fun f n hf => ?_, fun g a hg => ?_⟩
  · rcases hdone _ hf with ⟨_, heq, -⟩ | ⟨_, heq⟩ <;> cases heq
  · rcases hdone _ hg with ⟨f, heq, hf⟩ | ⟨_, heq⟩
    · cases heq
      exact hP _ g hf
    · cases heq

theorem Obeys.proper (h : Obeys w w') : Proper w w' := by
  obtain ⟨done, hlog, hdone⟩ := h.log
  refine ⟨done, hlog, fun f n hf => hdone _ hf, fun g a hg => ?_⟩
  have hplain : Plain a g := hdone _ hg
  exact hplain.transport

theorem proper_record {h : Happening BUF SESSIONS} (hsent : ∀ g a, h ≠ .sent g a)
    (hreceived : ∀ f n, h ≠ .received f n) :
    Moves Proper (record h : Prog β BUF SESSIONS Unit) := by
  refine fun w => ⟨[h], rfl, fun f n hf => ?_, fun g a hg => ?_⟩
  · exact hreceived f n (List.mem_singleton.mp hf).symm
  · exact absurd (List.mem_singleton.mp hg).symm (hsent g a)

/-- What the first part of a program sends is in the log. -/
theorem log_bind {γ : Type} {x : Prog β BUF SESSIONS α} {k : α → Prog β BUF SESSIONS γ}
    {h : Happening BUF SESSIONS} (hx : ∃ done, (after (x w)).log = w.log ++ h :: done)
    (hk : ∀ a, Moves Handles (k a)) : ∃ done, (after ((x >>= k) w)).log = w.log ++ h :: done := by
  obtain ⟨done, hlog⟩ := hx
  rw [bind_run]
  cases hrun : x w with
  | ok a w' =>
    rw [hrun] at hlog
    obtain ⟨done', hlog', -⟩ := (hk a w').log
    refine ⟨done ++ done', ?_⟩
    show (after (k a w')).log = _
    rw [hlog', show w'.log = _ from hlog, List.append_assoc, List.cons_append]
  | error e w' =>
    rw [hrun] at hlog
    exact ⟨done, hlog⟩

/-- Failing sends nothing. -/
theorem settles_fail (e : Failure) :
    Moves (Settles m destination True) (fail e : Prog β BUF SESSIONS α) := fun w =>
  ((sends_fail (P := fun _ _ => False) e w).proper fun _ _ h => h.elim).settles (handles_fail e w)

theorem settles_queueIfAny (message : Option Message) :
    Moves (Settles m destination True) (queueIfAny message : Prog β BUF SESSIONS Unit) := by
  intro w
  refine Proper.settles ?_ (handles_queueIfAny message w)
  cases message with
  | none => exact refl_of Proper w
  | some message => exact proper_record (fun _ _ h => (by cases h)) (fun _ _ h => (by cases h)) _

/-- A frame that is taken off the bus is settled by what is sent in answer. -/
theorem settles_received {f : Frame} (hh : Handles w w') (hnode : w'.node = w.node)
    (hlog : w'.log = w.log ++ [.received f w.node]) (hh' : Handles w' w'')
    (hf : Settles m destination (Fits m destination f w'.node) w' w'') :
    Settles m destination True w w'' := by
  refine ⟨hh.trans hh', fun hwf hown => ?_⟩
  rw [← hnode] at hown
  obtain ⟨done, hdone, hiff⟩ := hf.log (hh.wf hwf) hown
  refine ⟨.received f w.node :: done, by rw [hdone, hlog, List.append_assoc, List.singleton_append],
    ?_⟩
  have hfrom : FromHeld (.received f w.node :: done) ↔ FromHeld done := by
    refine ⟨fun h g a hg => h g a (List.mem_cons_of_mem _ hg), fun h g a hg => ?_⟩
    exact h g a ((List.mem_cons.mp hg).resolve_left fun heq => (by cases heq))
  have hsuits : Suits m destination (.received f w.node :: done)
      ↔ Fits m destination f w.node ∧ Suits m destination done := by
    constructor
    · exact fun h => ⟨h f w.node List.mem_cons_self, fun f' n hf' =>
        h f' n (List.mem_cons_of_mem _ hf')⟩
    · rintro ⟨hfits, hrest⟩ f' n hf'
      rcases List.mem_cons.mp hf' with heq | hf'
      · cases heq
        exact hfits
      · exact hrest f' n hf'
  rw [hfrom, hiff, hnode, true_and, hsuits]

variable [Bus β]

theorem proper_sendFrame (hg : IsTransport g → held w.node = some g.sourceAddress) :
    Proper w (after (sendFrame g w)) :=
  (sends_frame (P := fun a f => IsTransport f → a = some f.sourceAddress) hg).proper
    fun _ _ h => h

/-! ## §3. Dispatching. -/

theorem proper_actOnEtp (source : Address) (outcome : Etp.Rx) :
    Moves Proper (actOnEtp source outcome : Prog β BUF SESSIONS (Option Message)) := by
  have hrecord : ∀ m, Moves Proper (complete m : Prog β BUF SESSIONS Unit) := fun m =>
    proper_record (fun _ _ h => (by cases h)) fun _ _ h => (by cases h)
  refine (Moves.forM fun m _ => hrecord m).bind fun _ => ?_
  refine (Moves.forM fun cm _ w => ?_).bind fun _ => Moves.pure _
  refine (sends_etpCm source cm w).proper fun a f hf ht => ?_
  rw [IsTransport, hf.1] at ht
  exact absurd ht (by decide)

/-- **Acting on an event is proper** if the frame it asks for is. -/
theorem proper_actOnEvent {event : Event}
    (h : ∀ g, frameOf event = some g → IsTransport g → held w.node = some g.sourceAddress) :
    Proper w (after (actOnEvent event w)) := by
  cases event with
  | idle => exact refl_of Proper w
  | transmit reply =>
    exact after_bind (proper_sendFrame (h reply rfl)) fun _ _ _ _ => refl_of Proper _
  | message pgn source data reply =>
    refine after_bind (proper_record (fun _ _ h => (by cases h)) (fun _ _ h => (by cases h)) w)
      fun _ w₁ hrun _ => ?_
    have hnode : w.node = w₁.node := by
      injection hrun with _ hw
      rw [← hw]
    rw [hnode] at h
    have hreply : Proper w₁ (after (reply.toList.forM sendFrame w₁)) := by
      cases reply with
      | none => exact refl_of Proper w₁
      | some g => exact after_bind (proper_sendFrame (h g rfl)) fun _ _ _ _ => refl_of Proper _
    refine after_bind hreply fun _ w₂ _ _ => ?_
    refine Moves.bind ((obeys_commandedAddress _).weaken fun _ _ h => h.proper) (fun _ => ?_) w₂
    refine Moves.bind ((obeys_dm13 _).weaken fun _ _ h => h.proper) fun _ => ?_
    exact Moves.bind ((obeys_request _).weaken fun _ _ h => h.proper) fun _ => Moves.pure _

/-- The frame an event asks for is handed over. -/
theorem sent_actOnEvent {event : Event} (h : frameOf event = some g) :
    ∃ done, (after (actOnEvent event w)).log = w.log ++ done
      ∧ .sent g (held w.node) ∈ done := by
  have hsend : ∀ f, Moves Handles (sendFrame f : Prog β BUF SESSIONS Unit) := fun f w =>
    (sends_frame (P := fun _ _ => True) trivial).handles
  cases event with
  | idle => cases h
  | transmit reply =>
    cases h
    obtain ⟨done, hlog⟩ := log_bind (k := fun _ => (pure none : Prog β BUF SESSIONS _))
      (log_sendFrame g w) fun _ => Moves.pure _
    exact ⟨_, hlog, List.mem_cons_self⟩
  | message pgn source data reply =>
    have hreply : reply = some g := h
    rw [hreply]
    obtain ⟨done, hlog⟩ := log_bind
      (w := { w with log := w.log ++ [.completed ⟨pgn, source, data⟩] })
      (x := ([g].forM sendFrame : Prog β BUF SESSIONS PUnit))
      (k := fun _ => do
        obeyCommandedAddress ⟨pgn, source, data⟩
        obeyDm13 ⟨pgn, source, data⟩
        obeyRequest ⟨pgn, source, data⟩
        return some (⟨pgn, source, data⟩ : Message))
      (log_bind (k := fun _ => pure PUnit.unit) (log_sendFrame g _) fun _ => Moves.pure _)
      fun _ => by
        refine ((obeys_commandedAddress _).weaken fun _ _ h => h.handles).bind fun _ => ?_
        refine ((obeys_dm13 _).weaken fun _ _ h => h.handles).bind fun _ => ?_
        exact ((obeys_request _).weaken fun _ _ h => h.handles).bind fun _ => Moves.pure _
    refine ⟨_, hlog.trans (List.append_assoc _ _ _), ?_⟩
    exact List.mem_cons_of_mem _ List.mem_cons_self

/-- **Dispatching a frame that is no part of the transfer** is proper if an
address is held, or if nothing is answered. -/
theorem settles_dispatch (hf : ¬ m.GrantedBy destination f) :
    Settles m destination (Fits m destination f w.node) w (after (dispatch f w)) := by
  refine ⟨handles_dispatch f w, fun hwf _ => ?_⟩
  suffices hsuff : (Fits m destination f w.node → Proper w (after (dispatch f w)))
      ∧ (¬ Fits m destination f w.node → ∃ done, (after (dispatch f w)).log = w.log ++ done
        ∧ ¬ FromHeld done) by
    by_cases hfits : Fits m destination f w.node
    · obtain ⟨done, hlog, hdeaf, hheld⟩ := hsuff.1 hfits
      exact ⟨done, hlog, fun _ => ⟨hfits, hdeaf.suits⟩, fun _ => hheld⟩
    · obtain ⟨done, hlog, hheld⟩ := hsuff.2 hfits
      exact ⟨done, hlog, fun h => absurd h hheld, fun h => absurd h.1 hfits⟩
  by_cases hext : IsExtended f
  · refine ⟨fun _ => ?_, fun h => absurd (Or.inr ⟨hf, not_answers_extended hext⟩) h⟩
    rcases ignores_or_reassembles hwf.etp hext with hignored | ⟨haddr, outcome, r, hr, -⟩
    · rw [dispatch_ignored hext hignored]
      exact refl_of Proper w
    · rw [dispatch_reassembles haddr hr]
      exact proper_actOnEtp f.sourceAddress outcome { w with etp := r }
  · obtain ⟨event, n, hok⟩ := Node.onFrame_total hwf.node f
    have hlog : (noted f w).log = w.log := by rw [(recordClaim_run f w).2]
    rw [dispatch_node hext hok]
    by_cases ha : ∃ g, frameOf event = some g ∧ IsTransport g
    · obtain ⟨g, hg, ht⟩ := ha
      obtain ⟨hsource, hclaimer⟩ := onFrame_answer hok hg ht
      have hheld : held n = held w.node := by
        unfold held Node.hasAddress Node.claimState Node.address
        rw [hclaimer]
      constructor
      · intro hfits
        have hhas : w.node.hasAddress = true :=
          hfits.resolve_right fun h => h.2 ((answers_iff hwf.node).mpr ⟨event, n, g, hok, hg, ht⟩)
        have hproper : Proper { noted f w with node := n }
            (after (actOnEvent event { noted f w with node := n })) := by
          refine proper_actOnEvent fun g' hg' _ => ?_
          rw [hg] at hg'
          cases hg'
          show held n = _
          rw [hheld, held_of_hasAddress hhas, hsource]
        obtain ⟨done, hdone, hrest⟩ := hproper
        exact ⟨done, by rw [hdone, hlog], hrest⟩
      · intro hfits
        obtain ⟨done, hdone, hsent⟩ := sent_actOnEvent (w := { noted f w with node := n }) hg
        refine ⟨done, by rw [hdone, hlog], fun h => ?_⟩
        have hnone : held n = none := by
          rw [hheld]
          exact if_neg fun h => hfits (Or.inl h)
        have hsome : held n = some g.sourceAddress := h g _ hsent ht
        rw [hnone] at hsome
        cases hsome
    · have hanswers : ¬ Answers w.node f := by
        rw [answers_iff hwf.node]
        rintro ⟨event', n', g, hok', hg, ht⟩
        rw [hok] at hok'
        cases hok'
        exact ha ⟨g, hg, ht⟩
      refine ⟨fun _ => ?_, fun h => absurd (Or.inr ⟨hf, hanswers⟩) h⟩
      have hproper : Proper { noted f w with node := n }
          (after (actOnEvent event { noted f w with node := n })) :=
        proper_actOnEvent fun g hg ht => absurd ⟨g, hg, ht⟩ ha
      obtain ⟨done, hdone, hrest⟩ := hproper
      exact ⟨done, by rw [hdone, hlog], hrest⟩

/-! ## §4. The transfer. -/

theorem drain_some {o o' : Outgoing} (bound : Nat) (h : o.nextFrame = .ok (some g, o')) :
    drain (bound + 1) o w = (sendFrame g >>= fun _ => drain bound o') w := by
  show (exec o.nextFrame >>= _) w = _
  rw [h]
  rfl

theorem drain_none {o o' : Outgoing} (bound : Nat) (h : o.nextFrame = .ok (none, o')) :
    drain (bound + 1) o w = .ok o' w := by
  show (exec o.nextFrame >>= _) w = _
  rw [h]
  rfl

/-- A message that is drained has had nothing left to send. -/
theorem drain_ok {V : Outgoing → Prop}
    (hV : ∀ o frame o', V o → o.nextFrame = .ok (frame, o') → V o') {bound : Nat}
    {o o' : Outgoing} (h : V o) (hrun : drain bound o w = .ok o' w') :
    ∃ o₀, V o₀ ∧ o₀.nextFrame = .ok (none, o') := by
  induction bound generalizing o w with
  | zero => cases hrun
  | succ bound ih =>
    cases hnext : o.nextFrame with
    | error p =>
      have hfail : drain (bound + 1) o w = fail (.panic p) w := by
        show (exec o.nextFrame >>= _) w = _
        rw [hnext]
        rfl
      rw [hfail] at hrun
      cases hrun
    | ok x =>
      obtain ⟨frame, o₁⟩ := x
      cases frame with
      | none =>
        rw [drain_none bound hnext] at hrun
        injection hrun with ho
        exact ⟨o, h, by rw [hnext, ho]⟩
      | some g =>
        rw [drain_some bound hnext, bind_run] at hrun
        cases hsend : sendFrame g w with
        | error e w₁ =>
          rw [hsend] at hrun
          cases hrun
        | ok _ w₁ =>
          rw [hsend] at hrun
          exact ih (hV o _ o₁ h hnext) hrun

/-- Draining keeps a transfer. -/
theorem drain_transfers {bound : Nat} {o o' : Outgoing} (h : o.Transfers m destination)
    (hrun : drain bound o w = .ok o' w') : o'.Transfers m destination := by
  have hnext : ∀ (o : Outgoing) frame o', o.Transfers m destination →
      o.nextFrame = .ok (frame, o') → o'.Transfers m destination := by
    intro o frame o' ho hnext
    obtain ⟨_, _, hok, htransfers, -⟩ := ho.nextFrame
    rw [hok] at hnext
    cases hnext
    exact htransfers
  obtain ⟨o₀, h₀, hnone⟩ := drain_ok hnext h hrun
  exact hnext o₀ none o' h₀ hnone

/-- A message of one frame is complete once it is drained. -/
theorem drain_single {bound : Nat} {o o' : Outgoing}
    (h : ∃ data sent, o.state = .single data sent) (hrun : drain bound o w = .ok o' w') :
    o'.isComplete = true := by
  have hnext : ∀ (o : Outgoing) frame o', (∃ data sent, o.state = .single data sent) →
      o.nextFrame = .ok (frame, o') → ∃ data, o'.state = .single data true := by
    rintro o frame o' ⟨data, sent, hstate⟩ hnext
    unfold Outgoing.nextFrame at hnext
    simp only [hstate] at hnext
    split at hnext
    next hsent =>
      cases hnext
      exact ⟨data, by rw [hstate, hsent]⟩
    next =>
      split at hnext
      · cases hnext
        exact ⟨data, rfl⟩
      split at hnext <;> cases hnext <;> exact ⟨data, rfl⟩
  obtain ⟨o₀, h₀, hnone⟩ := drain_ok (fun o frame o' ho hn => by
    obtain ⟨data, hdata⟩ := hnext o frame o' ho hn
    exact ⟨data, true, hdata⟩) h hrun
  obtain ⟨data, hdata⟩ := hnext o₀ none o' h₀ hnone
  unfold Outgoing.isComplete
  rw [hdata]

/-- **Draining a transfer that has a frame ready** is proper exactly if an
address is held. -/
theorem settles_drain {o o' : Outgoing} (h : o.Transfers m destination) (bound : Nat)
    (hready : o.nextFrame = .ok (some g, o')) :
    Settles m destination (w.node.hasAddress = true) w (after (drain (bound + 1) o w)) := by
  refine ⟨handles_drain (bound + 1) o w, fun _ hown => ?_⟩
  by_cases hheld : w.node.hasAddress = true
  · have hsends : Proper w (after (drain (bound + 1) o w)) := by
      refine (sends_drain (P := fun a f => IsTransport f → a = some f.sourceAddress)
        fun f hf _ => ?_).proper fun _ _ h => h
      rw [held_of_hasAddress hheld, hown hheld, hf.1, h.source]
    obtain ⟨done, hlog, hdeaf, hproper⟩ := hsends
    exact ⟨done, hlog, fun _ => ⟨hheld, hdeaf.suits⟩, fun _ => hproper⟩
  · obtain ⟨done, hlog⟩ := log_bind (k := fun _ => drain bound o') (log_sendFrame g w)
      fun _ => handles_drain bound o'
    rw [drain_some bound hready]
    refine ⟨_, hlog, fun hfrom => ?_, fun h => absurd h.1 hheld⟩
    -- the frame that was ready goes out all the same
    have ht : IsTransport g := by
      obtain ⟨_, _, hok, -, -, hby, -⟩ := h.nextFrame
      rw [hready] at hok
      cases hok
      exact (hby g rfl).content.imp (fun h => h.1) fun h => h.1
    have hsome := hfrom g _ List.mem_cons_self ht
    rw [show held w.node = none from if_neg hheld] at hsome
    cases hsome

theorem settles_now : Moves (Settles m destination True) (now : Prog β BUF SESSIONS Nat) := fun w =>
  ((sends_now (P := fun _ _ => False) w).proper fun _ _ h => h.elim).settles (handles_now w)

/-- **Acting on a frame during a transfer** is proper exactly if the frame
fits. -/
theorem settles_react {o : Outgoing} (h : o.Transfers m destination) (f : Frame) (deadline : Nat)
    {again : Outgoing → Nat → Prog β BUF SESSIONS Unit}
    (hagain : ∀ o t, o.Transfers m destination → Moves (Settles m destination True) (again o t)) :
    Settles m destination (Fits m destination f w.node) w (after (react f o deadline again w)) := by
  rcases h.onFrame_cases f with ⟨hgrants, o', g, o'', hok, h', hready⟩
    | ⟨hgrants, hends, progress, o', hok, hprogress⟩ | ⟨hgrants, hok⟩
  · -- the packets it grants
    have hrun : react f o deadline again w = (do
        let outgoing ← drain (o'.frameCount + 1) o'
        let deadline := (← now) + handshakeTimeout
        again outgoing deadline : Prog β BUF SESSIONS Unit) w := by
      show (exec (o.onFrame f) >>= _) w = _
      rw [hok]
      rfl
    rw [hrun]
    refine (settles_bind (settles_drain h' _ hready) fun o₁ w₁ hdrain => ?_).congr
      ⟨Or.inl, fun hfits => hfits.resolve_right fun h => h.1 hgrants⟩
    exact settles_now.bind (fun t => hagain o₁ _ (drain_transfers h' hdrain)) w₁
  · -- the transfer is over
    have hfits : Fits m destination f w.node := Or.inr ⟨hgrants, not_answers_ends hends⟩
    refine Settles.congr ?_ (iff_of_true trivial hfits)
    rcases hprogress with rfl | ⟨reason, rfl⟩
    · have hrun : react f o deadline again w = .ok () w := by
        show (exec (o.onFrame f) >>= _) w = _
        rw [hok]
        rfl
      rw [hrun]
      exact refl_of (Settles m destination True) w
    · have hrun : react f o deadline again w = fail (.io (.aborted reason)) w := by
        show (exec (o.onFrame f) >>= _) w = _
        rw [hok]
        rfl
      rw [hrun]
      exact settles_fail _ w
  · -- a frame for the rest of the ECU
    have hrun : react f o deadline again w = (do
        queueIfAny (← dispatch f)
        again o deadline : Prog β BUF SESSIONS Unit) w := by
      show (exec (o.onFrame f) >>= _) w = _
      rw [hok]
      rfl
    rw [hrun]
    refine settles_bind (settles_dispatch hgrants) fun message w₁ _ => ?_
    exact (settles_queueIfAny message).bind (fun _ => hagain o deadline h) w₁

/-- **A handshake is proper** exactly if every frame it receives fits. -/
theorem settles_handshake (fuel : Nat) {o : Outgoing} (deadline : Nat)
    (h : o.Transfers m destination) :
    Moves (Settles m destination True)
      (handshake destination fuel o deadline : Prog β BUF SESSIONS Unit) := by
  induction fuel generalizing o deadline with
  | zero => exact Moves.throw _
  | succ fuel ih =>
    unfold handshake
    split
    · exact Moves.pure _
    refine settles_now.bind fun t => ?_
    split
    · exact settles_fail _
    intro w
    have hbus : ∀ bus, Settles m destination True w { w with bus } := fun bus =>
      Proper.settles (refl_of Proper w) (handles_bus w bus)
    obtain ⟨bus, ⟨e, hrun⟩ | hrun | ⟨f, hrun⟩⟩ := recvFrame_cases w
    · rw [bind_error hrun]
      exact trans_of (Settles m destination True) (hbus bus) (settles_fail (α := Unit) (.io e) _)
    · rw [bind_ok hrun]
      exact trans_of (Settles m destination True) (hbus bus) (ih deadline h _)
    · rw [bind_ok hrun]
      have hrecv := (handles_bus w bus).trans (handles_record (h := .received f w.node) id _)
      refine settles_received (f := f) hrecv rfl rfl ?_ ?_
      · exact handles_react f o deadline (handles_handshake destination fuel) _
      · exact settles_react h f deadline fun o t ho => ih t ho

/-- A handshake of a message that is complete does nothing. -/
theorem settles_handshake_complete (fuel : Nat) {o : Outgoing} (deadline : Nat)
    (h : o.isComplete = true) :
    Moves (Settles m destination True)
      (handshake destination fuel o deadline : Prog β BUF SESSIONS Unit) := by
  cases fuel with
  | zero => exact Moves.throw _
  | succ fuel =>
    unfold handshake
    rw [if_pos h]
    exact Moves.pure _

/-- **Sending to one ECU is proper** exactly if every frame received
meanwhile fits. -/
theorem settles_sendTo (fuel : Nat) (destination : Address) (group : Pgn) (data : List UInt8)
    (w : Watched β BUF SESSIONS) :
    Settles ⟨group, w.node.address, data⟩ destination True w
      (after (sendTo fuel destination group data w)) := by
  unfold sendTo
  split
  · refine ((sends_broadcast group data .default w).proper fun a f hf _ => hf.source).settles ?_
    exact handles_broadcast group data .default w
  next hdest =>
  have hcheck := (sends_checkMayTransmit (P := fun _ _ => False) w).proper fun _ _ h => h.elim
  refine settles_bind (hcheck.settles (handles_checkMayTransmit w)) fun _ w₁ hrun => ?_
  obtain ⟨hheld, rfl⟩ := checkMayTransmit_ok hrun
  refine after_get ?_
  have hvalid : Settles ⟨group, w₁.node.address, data⟩ destination True w₁ (after (valid
      (Outgoing.new group w₁.node.address destination data) w₁)) :=
    Proper.settles ((sends_valid (P := fun _ _ => False) _ w₁).proper fun _ _ h => h.elim)
      (handles_valid _ w₁)
  refine settles_bind hvalid fun o w₂ hrun => ?_
  obtain ⟨hnew, rfl⟩ := valid_ok hrun
  have hsource : o.source = w₂.node.address := (Outgoing.new_fields hnew).2.1
  have hfirst : Settles ⟨group, w₂.node.address, data⟩ destination True w₂
      (after (drain (o.frameCount + 1) o w₂)) := by
    refine Proper.settles ?_ (handles_drain _ o w₂)
    refine (sends_drain (P := fun a f => IsTransport f → a = some f.sourceAddress)
      fun f hf _ => ?_).proper fun _ _ h => h
    rw [held_of_hasAddress hheld, hf.1, hsource]
  refine settles_bind hfirst fun o' w₃ hdrain => ?_
  have hrest : ∀ t, Moves (Settles ⟨group, w₂.node.address, data⟩ destination True)
      (handshake destination fuel o' t : Prog β BUF SESSIONS Unit) := by
    intro t
    by_cases hlong : Frame.maxPayload < data.length
    · have htransfers := (Outgoing.transfers_new (m := ⟨group, w₂.node.address, data⟩) hlong
        (Bool.eq_false_iff.mpr hdest) hnew).1
      exact settles_handshake fuel t (drain_transfers htransfers hdrain)
    · have hsingle := (Outgoing.new_fields hnew).2.2 (Nat.not_lt.mp hlong)
      exact settles_handshake_complete fuel t (drain_single ⟨_, _, hsingle⟩ hdrain)
  exact settles_now.bind (fun t => hrest _) w₃

/-- **Every transport frame of a call carries the address that is held**
when it goes out, exactly if no frame that moves the transfer on, or that
the node answers, comes in once the address is lost. -/
theorem fromHeld_iff {name : Name} {preferred : Address} (h : Reachable name preferred w)
    (fuel : Nat) (destination : Address) (group : Pgn) (data : List UInt8) :
    FromHeld (happened w (after (sendTo fuel destination group data w)))
      ↔ ∀ f n, .received f n ∈ happened w (after (sendTo fuel destination group data w)) →
        n.hasAddress = true
          ∨ ¬ (⟨group, w.node.address, data⟩ : Sent).GrantedBy destination f ∧ ¬ Answers n f := by
  obtain ⟨done, hlog, hiff⟩ := (settles_sendTo fuel destination group data w).log h.wf fun _ => rfl
  rw [happened_eq hlog, hiff, true_and]
  exact Iff.rfl

/-! ## §5. An ECU that is displaced. -/

/-- An Address Claimed for `0x80` by an ECU of a smaller NAME. -/
def claimOf80 : Frame :=
  Frame.fromPayload ⟨0x18EEFF80, by decide⟩ ![0, 0, 0, 0, 0, 0, 0, 0]

theorem raw_ctsTo80_le : 0x1CEC8011 ≤ 0x1FFFFFFF := by decide

/-- A Clear To Send from `0x11` to `0x80`: 3 packets, from the first. -/
def ctsTo80 : Frame :=
  Frame.fromPayload ⟨0x1CEC8011, raw_ctsTo80_le⟩ ![0x11, 3, 1, 0xFF, 0xFF, 0x00, 0xEF, 0x00]

/-- An ECU that holds `0x80`, and these frames on their way to it. -/
def facing (incoming : List Frame) : Watched FakeBus 64 2 :=
  { claimed with bus := ⟨incoming, [], 0, 1000⟩ }

theorem facing_reachable (incoming : List Frame) :
    Reachable ⟨1⟩ (Address.ofNat 0x80) (facing incoming) :=
  claimed_reachable.bus _

/-- What it does when it sends 20 bytes to `0x11`. -/
def sending (incoming : List Frame) : List (Happening 64 2) :=
  happened (facing incoming) (after (sendTo 8 (Address.ofNat 0x11) (Pgn.newMasked 0xEF00)
    (List.replicate 20 0) (facing incoming)))

/-- Whether a frame, if one was received, came in while an address was
held. -/
def metHolding : Happening BUF SESSIONS → Bool
  | .received _ n => n.hasAddress
  | _ => true

/-- With nobody else claiming the address, all is well. -/
theorem fromHeld_undisputed : FromHeld (sending [ctsTo80]) := by
  refine (fromHeld_iff (facing_reachable [ctsTo80]) 8 _ _ _).mpr fun f n hmem => Or.inl ?_
  have hall : (sending [ctsTo80]).all metHolding = true := by decide +kernel
  exact List.all_eq_true.mp hall _ hmem

/-- An entry of the log that a data packet was sent with no address held. -/
def isStray : Happening BUF SESSIONS → Bool
  | .sent g none => g.pgn = .tpDt
  | _ => false

/-- **The packets go out from the lost address** if a claim comes in before
the Clear To Send. -/
theorem sent_from_lost_address :
    Reachable ⟨1⟩ (Address.ofNat 0x80) (facing [claimOf80, ctsTo80])
      ∧ ¬ FromHeld (sending [claimOf80, ctsTo80]) := by
  refine ⟨facing_reachable _, fun h => ?_⟩
  have hany : (sending [claimOf80, ctsTo80]).any isStray = true := by decide +kernel
  obtain ⟨entry, hmem, hstray⟩ := List.any_eq_true.mp hany
  cases entry with
  | sent g a =>
    cases a with
    | none =>
      have hdt : g.pgn = .tpDt := by simpa [isStray] using hstray
      cases h g none hmem (Or.inr hdt)
    | some a => cases hstray
  | received | completed | queued | failed | taken | passed => cases hstray

end Ecu

end SaeJ1939.Host
