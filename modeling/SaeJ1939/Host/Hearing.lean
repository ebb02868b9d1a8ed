/-
  SaeJ1939.Host.Hearing — what an ECU hears when messages to everybody
  arrive (`ecu.rs`, `dispatch`).

  A message of a passive group is passed to the application and nothing
  else is done about it.  So an ECU that dispatches the frames of such
  messages only notes that they are complete.

  Main results:
    * `dispatchAll_run` — dispatching frames in order is a run of the node,
      as long as nothing is to be sent or obeyed.
    * `hears_interleaved` — the messages of many senders, whatever the order
      their frames arrive in.
-/
import SaeJ1939.Host.Clocks
import SaeJ1939.Node.Interleaving

namespace SaeJ1939.Host.Ecu

open Checked Fallible Interleaving
open Node (delivery)

variable {β : Type} {BUF SESSIONS : Nat} {w : Watched β BUF SESSIONS} {n' : Node BUF SESSIONS}
  {f : Frame}

/-! ## §1. Frames one after another. -/

/-- Dispatch frames in the order they arrive. -/
def dispatchAll [Bus β] : List Frame → Prog β BUF SESSIONS (List (Option Message))
  | [] => return []
  | frame :: frames => do
      let message ← dispatch frame
      let messages ← dispatchAll frames
      return message :: messages

/-- A group an ECU does nothing about, but to pass its messages on. -/
def Passive (group : Pgn) : Prop :=
  group ∉ [Pgn.addressClaimed, .tpCm, .tpDt, .etpCm, .etpDt, .request, .commandedAddress, .dm13]

instance (group : Pgn) : Decidable (Passive group) := inferInstanceAs (Decidable (_ ∉ _))

/-- A frame that only the node looks at. -/
def ForNode (f : Frame) : Prop := ¬ IsExtended f ∧ f.pgn ≠ .addressClaimed

/-- A message, as the application gets it. -/
def ofSent (m : Sent) : Message := ⟨m.pgn, m.source, m.data⟩

/-- An event after which nothing is sent and nothing obeyed. -/
def AsksNothing : Event → Prop
  | .idle => True
  | .transmit _ => False
  | .message pgn _ _ reply => reply = none ∧ Passive pgn

/-- The message an event passes on. -/
def passedOn : Event → Option Message
  | .message pgn source data _ => some ⟨pgn, source, data⟩
  | _ => none

/-- The ECU once it has heard these messages, with its node as it then
is. -/
def heardBy (w : Watched β BUF SESSIONS) (n : Node BUF SESSIONS) (messages : List Message) :
    Watched β BUF SESSIONS :=
  { w with node := n, log := w.log ++ messages.map .completed }

/-- Hearing more. -/
theorem heardBy_heardBy (n n' : Node BUF SESSIONS) (messages messages' : List Message) :
    heardBy (heardBy w n messages) n' messages' = heardBy w n' (messages ++ messages') := by
  unfold heardBy
  rw [List.map_append, List.append_assoc]

variable [Bus β]

omit [Bus β] in
/-- A frame that is no claim is not recorded. -/
theorem noted_of_ne (hf : f.pgn ≠ .addressClaimed) : noted f w = w := by
  unfold noted recordClaim
  rw [if_neg fun hclaim => hf hclaim.1]
  rfl

/-- The ECU once it has heard one message that may be about its schedule. -/
def heeding (w : Watched β BUF SESSIONS) (n : Node BUF SESSIONS) (message : Message) :
    Watched β BUF SESSIONS :=
  { heardBy w n [message] with schedule := scheduleAfter message w.schedule }

/-- **A message that commands no address** is noted, the schedule obeys it,
and it is answered if it is a request. -/
theorem dispatch_message {pgn : Pgn} {source : Address} {data : List UInt8} (hf : ForNode f)
    (h : w.node.onFrame f = .ok (.message pgn source data none, n'))
    (hcommanded : pgn ≠ .commandedAddress) :
    dispatch f w = (obeyRequest ⟨pgn, source, data⟩ >>= fun _ =>
      pure (some ⟨pgn, source, data⟩)) (heeding w n' ⟨pgn, source, data⟩) := by
  let message : Message := ⟨pgn, source, data⟩
  let heard := heardBy w n' [message]
  have hobey : obeyCommandedAddress message heard = .ok () heard := by
    unfold obeyCommandedAddress
    rw [if_neg hcommanded]
    rfl
  have hschedule : obeyDm13 message heard = .ok () (heeding w n' message) := rfl
  rw [dispatch_node hf.1 h, noted_of_ne hf.2]
  show (obeyCommandedAddress message >>= fun _ => _) heard = _
  rw [bind_ok hobey]
  show (obeyDm13 message >>= fun _ => _) heard = _
  rw [bind_ok hschedule]

/-- A message that is no request is not answered. -/
theorem dispatch_no_request {pgn : Pgn} {source : Address} {data : List UInt8} (hf : ForNode f)
    (h : w.node.onFrame f = .ok (.message pgn source data none, n'))
    (hcommanded : pgn ≠ .commandedAddress) (hrequest : pgn ≠ .request) :
    dispatch f w = .ok (some ⟨pgn, source, data⟩) (heeding w n' ⟨pgn, source, data⟩) := by
  let after := heeding w n' ⟨pgn, source, data⟩
  have hanswer : obeyRequest ⟨pgn, source, data⟩ after = .ok () after := by
    show (if (decide (pgn = .request) && after.node.hasAddress) = true then _ else _
      : Prog β BUF SESSIONS Unit) after = _
    rw [decide_eq_false hrequest, Bool.false_and, if_neg Bool.false_ne_true]
    rfl
  rw [dispatch_message hf h hcommanded, bind_ok hanswer]
  rfl

/-- **An event that asks for nothing** changes the node, and its message is noted. -/
theorem dispatch_asksNothing {event : Event} (hf : ForNode f)
    (h : w.node.onFrame f = .ok (event, n')) (hquiet : AsksNothing event) :
    dispatch f w = .ok (passedOn event) (heardBy w n' (passedOn event).toList) := by
  cases event with
  | transmit frame => exact absurd hquiet id
  | idle =>
    rw [dispatch_node hf.1 h, noted_of_ne hf.2]
    show EStateM.Result.ok none { w with node := n' } = .ok none (heardBy w n' [])
    unfold heardBy
    rw [List.map_nil, List.append_nil]
  | message pgn source data reply =>
    obtain ⟨rfl, hpassive⟩ := hquiet
    simp only [Passive, List.mem_cons, List.not_mem_nil, not_or, or_false] at hpassive
    obtain ⟨-, -, -, -, -, hrequest, hcommanded, hdm13⟩ := hpassive
    have hschedule : scheduleAfter ⟨pgn, source, data⟩ w.schedule = w.schedule := if_neg hdm13
    rw [dispatch_no_request hf h hcommanded hrequest, heeding, hschedule]
    rfl

/-- **Dispatching frames in order is a run of the node**, as long as its
events ask for nothing. -/
theorem dispatchAll_run {frames : List Frame} (hframes : ∀ f ∈ frames, ForNode f)
    {tr : List (Node.Entry BUF SESSIONS)}
    (hrun : Machine.run Node.step w.node (frames.map .frame) = .ok (tr, n'))
    (hquiet : ∀ e ∈ tr, ∀ event, e.out = .event event → AsksNothing event) :
    dispatchAll frames w = .ok (tr.map fun e => e.out.passed.map ofSent)
      (heardBy w n' (tr.filterMap fun e => e.out.passed.map ofSent)) := by
  induction frames generalizing w tr with
  | nil =>
    cases hrun
    show EStateM.Result.ok [] w = .ok [] (heardBy w w.node [])
    unfold heardBy
    rw [List.map_nil, List.append_nil]
  | cons frame frames ih =>
    simp only [List.map_cons, Machine.run, Node.step, bind_eq_ok, Prod.exists, pure_eq_ok,
      Except.ok.injEq, Prod.mk.injEq] at hrun
    obtain ⟨out, n₁, ⟨event, n₁', hframe, rfl, rfl⟩, tr', n₂, hrest, rfl, rfl⟩ := hrun
    have hpassed : Option.map ofSent (Node.Output.event event).passed = passedOn event := by
      cases event <;> rfl
    have hone := dispatch_asksNothing (hframes frame List.mem_cons_self) hframe
      (hquiet _ List.mem_cons_self event rfl)
    have hmore := ih (w := heardBy w n₁' (passedOn event).toList)
      (fun f hf => hframes f (List.mem_cons_of_mem _ hf)) hrest
      fun e he => hquiet e (List.mem_cons_of_mem _ he)
    show (dispatch frame >>= fun _ => _) w = _
    rw [bind_ok hone]
    show (dispatchAll frames >>= fun _ => _) _ = _
    rw [bind_ok hmore, heardBy_heardBy, List.map_cons, hpassed]
    simp only [List.filterMap_cons, hpassed]
    cases passedOn event with
    | none => rfl
    | some m => rfl

/-- A frame that is a message of its own, of a passive group, for the ECU
at `a`. -/
structure IsMessage (a : Address) (f : Frame) : Prop where
  addressed : f.id.isAddressedTo a = true
  passive : Passive f.pgn

/-- The message in a single frame. -/
def messageIn (f : Frame) : Message := ⟨f.pgn, f.sourceAddress, f.data⟩

/-- **Messages of one frame each** are passed on in the order they
arrive. -/
theorem dispatchAll_messages {frames : List Frame}
    (hframes : ∀ f ∈ frames, IsMessage w.node.address f) :
    dispatchAll frames w = .ok (frames.map fun f => some (messageIn f))
      (heardBy w w.node (frames.map messageIn)) := by
  induction frames generalizing w with
  | nil =>
    show EStateM.Result.ok [] w = .ok [] (heardBy w w.node [])
    unfold heardBy
    rw [List.map_nil, List.append_nil]
  | cons f frames ih =>
    have hf := hframes f List.mem_cons_self
    have hpassive := hf.passive
    simp only [Passive, List.mem_cons, List.not_mem_nil, not_or, or_false] at hpassive
    obtain ⟨hclaim, hcm, hdt, hecm, hedt, hrequest, -⟩ := hpassive
    have hroute := Node.route_application hf.addressed hclaim hcm hdt fun h => hrequest h.1
    have hframe : w.node.onFrame f = .ok (.message f.pgn f.sourceAddress f.data none, w.node) := by
      rw [Node.onFrame_eq, hroute]
    have hone := dispatch_asksNothing ⟨fun hext => hext.elim hecm hedt, hclaim⟩ hframe
      ⟨rfl, hf.passive⟩
    have hmore := ih (w := heardBy w w.node [messageIn f]) fun g hg =>
      hframes g (List.mem_cons_of_mem _ hg)
    show (dispatch f >>= fun _ => _) w = _
    rw [bind_ok hone]
    show (dispatchAll frames >>= fun _ => _) (heardBy w w.node [messageIn f]) = _
    rw [bind_ok hmore, heardBy_heardBy]
    rfl

/-! ## §2. Messages to everybody. -/

/-- What a message comes to asks for nothing, if its group is passive. -/
theorem asksNothing_alone {m : Sent} {o : Outgoing}
    (hnew : Outgoing.new m.pgn m.source Address.global m.data = .ok o) (hm : Passive m.pgn)
    {x : Node.Input × Node.Output} (hx : x ∈ Node.alone m) {event : Event}
    (hevent : x.2 = .event event) : AsksNothing event := by
  obtain ⟨o', hdrain, -⟩ := drain_framesOf hnew
  have hout : x.2 ∈ (Node.alone m).map Prod.snd := List.mem_map_of_mem hx
  rw [(Node.alone_of_drain hnew hdrain).2, hevent] at hout
  rcases List.mem_append.mp hout with hidle | hlast
  · injection List.eq_of_mem_replicate hidle with hidle
    rw [hidle]
    trivial
  · injection List.mem_singleton.mp hlast with hlast
    rw [hlast]
    exact ⟨rfl, hm⟩

/-- The frames of a message of a passive group are for the node. -/
theorem forNode_framesOf {m : Sent} {o : Outgoing}
    (hnew : Outgoing.new m.pgn m.source Address.global m.data = .ok o) (hm : Passive m.pgn)
    (hf : f ∈ framesOf o) : ForNode f := by
  obtain ⟨o', hdrain, -⟩ := drain_framesOf hnew
  simp only [Passive, List.mem_cons, List.not_mem_nil, not_or, or_false] at hm
  unfold ForNode IsExtended
  rcases Node.pgn_of_drain hnew hdrain hf with hpgn | hpgn | hpgn <;> rw [hpgn]
  · exact ⟨fun hext => hext.elim hm.2.2.2.1 hm.2.2.2.2.1, hm.1⟩
  · decide
  · decide

/-- **The messages of many senders**, whatever the order their frames
arrive in: an ECU with room for all of them completes each one once, and
does nothing else. -/
theorem hears_interleaved {ι : Type} [DecidableEq ι] [Fintype ι] {m : ι → Sent} {o : ι → Outgoing}
    (hwf : w.node.WF) (hsources : Function.Injective fun i => (m i).source)
    (hfits : ∀ i, (m i).data.length ≤ BUF) (hpassive : ∀ i, Passive (m i).pgn)
    (hroom : w.node.reassembler.activeSessions + Fintype.card ι ≤ SESSIONS)
    (hnew : ∀ i, Outgoing.new (m i).pgn (m i).source Address.global (m i).data = .ok (o i))
    {frames : List Frame} (hframes : Interleaves (fun i => framesOf (o i)) frames) :
    ∃ out n', dispatchAll frames w = .ok out (heardBy w n' out.reduceOption)
      ∧ n'.WF ∧ n'.claimer = w.node.claimer
      ∧ out.reduceOption.Perm (Finset.univ.toList.map fun i => ofSent (m i)) := by
  have hm : ∀ i, Node.Hearable BUF (m i) := by
    intro i
    refine Node.hearable_of_new (hnew i) (hfits i) fun _ => ?_
    have h := hpassive i
    simp only [Passive, List.mem_cons, List.not_mem_nil, not_or, or_false] at h
    exact ⟨h.1, h.2.1, h.2.2.1, fun hrequest => h.2.2.2.2.2.1 hrequest.1⟩
  have hdrain := fun i => drain_framesOf (hnew i)
  choose o' hdrain hlt using hdrain
  have hnodup := Finset.nodup_toList (Finset.univ : Finset ι)
  have hall : ∀ i : ι, i ∈ (Finset.univ : Finset ι).toList := fun i =>
    Finset.mem_toList.mpr (Finset.mem_univ i)
  have hinputs := hframes.map Node.Input.frame
  have hitems : (fun i => (Node.alone (m i)).map Prod.fst)
      = fun i => (framesOf (o i)).map Node.Input.frame :=
    funext fun i => (Node.alone_of_drain (hnew i) (hdrain i)).1
  rw [← hitems] at hinputs
  obtain ⟨tr, n', hrun, htr, hwf', hclaimer⟩ := Node.run_alone hwf hsources hm hroom hinputs
  -- every frame is of some message, and so is every answer
  have hmine : ∀ f ∈ frames, ForNode f := by
    intro f hf
    obtain ⟨i, -, hi⟩ := List.mem_flatMap.mp ((hframes.perm hnodup hall).subset hf)
    exact forNode_framesOf (hnew i) (hpassive i) hi
  have hquiet : ∀ e ∈ tr, ∀ event, e.out = .event event → AsksNothing event := by
    intro e he event hevent
    have hin : (e.event, e.out) ∈ tr.map fun e => (e.event, e.out) :=
      List.mem_map_of_mem (f := fun e : Node.Entry BUF SESSIONS => (e.event, e.out)) he
    obtain ⟨i, -, hi⟩ := List.mem_flatMap.mp ((htr.perm hnodup hall).subset hin)
    exact asksNothing_alone (hnew i) (hpassive i) hi hevent
  have hreduce : (tr.map fun e => e.out.passed.map ofSent).reduceOption
      = tr.filterMap fun e => e.out.passed.map ofSent := List.filterMap_map
  refine ⟨tr.map fun e => e.out.passed.map ofSent, n', ?_, hwf', hclaimer, ?_⟩
  · rw [dispatchAll_run hmine hrun hquiet, hreduce]
  · have hpassed := (htr.map Prod.snd).filterMap fun out : Node.Output => out.passed.map ofSent
    rw [List.map_map, List.filterMap_map] at hpassed
    have hone : (fun i => ((Node.alone (m i)).map Prod.snd).filterMap
        fun out : Node.Output => out.passed.map ofSent) = fun i => [ofSent (m i)] := by
      funext i
      rw [(Node.alone_of_drain (hnew i) (hdrain i)).2, List.filterMap_append,
        List.filterMap_replicate_of_none rfl]
      rfl
    rw [hone] at hpassed
    rw [hreduce, List.map_eq_flatMap]
    exact hpassed.perm hnodup hall

end SaeJ1939.Host.Ecu
