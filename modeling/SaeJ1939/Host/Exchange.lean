/-
  SaeJ1939.Host.Exchange — a service tool and the ECU it asks, over the
  bus (`ecu.rs`, both sides of a diagnostic request).

  The tool puts a request on the bus, the ECU answers it out of its fault
  log, and the tool reads what comes back.  Between the frames of the
  answer those of any other sender may come.

  Main results:
    * `puts_broadcast` — a broadcast that succeeds has put out exactly the
      frames of its message.
    * `dispatch_request` — a request that arrives is answered.
    * `fault_lists_read_back` — what the tool reads is what the ECU holds.
    * `codes_cleared` — what the tool has had cleared is cleared, and it is
      told so.
-/
import SaeJ1939.Host.Hearing
import SaeJ1939.Host.ServiceTool

namespace SaeJ1939.Host.Ecu

open AddressClaim Checked Diagnostics Fallible Interleaving

variable {β β' : Type} {BUF SESSIONS BUF' SESSIONS' : Nat} {w w' w'' : Watched β BUF SESSIONS}
  {frames frames' : List Frame}

/-! ## §1. What an ECU reports. -/

/-- A group that an ECU reports about itself. -/
def IsReport (group : Pgn) : Prop := group = .dm1 ∨ group = .dm2 ∨ group = .dm5

/-- The bytes of a fault list. -/
def listData (lamps : Lamps) (codes : List Dtc) : List UInt8 :=
  payload lamps (if codes.length = 0 then [Dtc.default] else codes)

/-- What an ECU reports when it is asked for `group`. -/
def answerData (e : Ecu β BUF SESSIONS) (group : Pgn) : List UInt8 :=
  if group = .dm1 then listData e.faults.lamps e.faults.active
  else if group = .dm2 then listData Lamps.new e.faults.previous
  else (Dm5.new (saturatingCount e.faults.active.length)
    (saturatingCount e.faults.previous.length) e.obdCompliance).encode

theorem encodeList_eq (lamps : Lamps) (codes : List Dtc) :
    encodeList lamps codes (List.replicate (payloadLen codes.length) 0)
        = (.ok (payloadLen codes.length), listData lamps codes)
      ∧ (listData lamps codes).length = payloadLen codes.length := by
  have hencode : ∀ sent : List Dtc, encodedLen sent.length = payloadLen codes.length →
      encode lamps sent (List.replicate (payloadLen codes.length) 0)
        = (.ok (payloadLen codes.length), payload lamps sent)
      ∧ (payload lamps sent).length = payloadLen codes.length := by
    intro sent hlen
    have hroom : encodedLen sent.length
        ≤ (List.replicate (payloadLen codes.length) (0 : UInt8)).length := by
      rw [List.length_replicate, hlen]
    rw [encode_ok lamps sent hroom, hlen, List.drop_of_length_le (by simp), List.append_nil]
    exact ⟨rfl, (length_payload ..).trans hlen⟩
  unfold encodeList listData
  by_cases hnone : codes.length = 0
  · rw [if_pos hnone, if_pos hnone]
    refine hencode [Dtc.default] ?_
    rw [hnone]
    rfl
  · rw [if_neg hnone, if_neg hnone]
    exact hencode codes (encodedLen_eq_payloadLen hnone)

/-- **A fault list is read as it was sent**, but for the placeholders. -/
theorem parse_listData (lamps : Lamps) {codes : List Dtc} (hrange : ∀ d ∈ codes, d.InRange) :
    FaultReport.parse (listData lamps codes) = .ok ⟨lamps, codes.filter fun d => !d.isNoFault⟩ := by
  obtain ⟨hencode, hlen⟩ := encodeList_eq lamps codes
  obtain ⟨m, -, hparse, hlamps, hdtcs⟩ := parse_encodeList lamps hrange
    (show _ ≤ (List.replicate (payloadLen codes.length) (0 : UInt8)).length by
      rw [List.length_replicate])
  rw [hencode, List.take_of_length_le (Nat.le_of_eq hlen)] at hparse
  have hfiltered : m.dtcs.filter (fun d => !d.isNoFault) = codes.filter fun d => !d.isNoFault := by
    rw [hdtcs]
    split
    next hnil =>
      rw [hnil]
      rfl
    next => rfl
  unfold FaultReport.parse
  rw [hparse]
  show Except.ok (⟨m.lamps, m.dtcs.filter fun d => !d.isNoFault⟩ : FaultReport) = _
  rw [hfiltered, hlamps]

/-- No fault list of an ECU is longer than that of a full log. -/
theorem length_listData_le (lamps : Lamps) {codes : List Dtc} (h : codes.length ≤ faultCapacity) :
    (listData lamps codes).length ≤ 130 := by
  rw [(encodeList_eq lamps codes).2]
  unfold faultCapacity at h
  unfold payloadLen
  dsimp only
  split <;> split <;> omega

theorem length_answerData_le {e : Ecu β BUF SESSIONS} (h : e.faults.WF) (group : Pgn) :
    (answerData e group).length ≤ 130 := by
  unfold answerData
  split
  · exact length_listData_le _ h.active_le
  split
  · exact length_listData_le _ h.previous_le
  · exact Nat.le_of_ble_eq_true rfl

/-! ## §2. What a call has sent. -/

/-- From `w` to `w'` exactly these frames are handed to the bus, and
nothing else happens. -/
def Puts (frames : List Frame) (w w' : Watched β BUF SESSIONS) : Prop :=
  w' = { w with bus := w'.bus, log := w.log ++ frames.map fun f => .sent f (held w.node) }

theorem Puts.node (h : Puts frames w w') : w'.node = w.node := by
  rw [h]

theorem Puts.log (h : Puts frames w w') :
    w'.log = w.log ++ frames.map fun f => .sent f (held w.node) := by
  rw [h]

theorem Puts.trans (h : Puts frames w w') (h' : Puts frames' w' w'') :
    Puts (frames ++ frames') w w'' := by
  have hlog : w''.log = w.log ++ (frames ++ frames').map fun f => .sent f (held w.node) := by
    rw [h'.log, h.log, h.node, List.map_append, List.append_assoc]
  unfold Puts
  rw [← hlog, h', h]

/-- The frames that a stretch of the log says are sent. -/
def sentFrame : Happening BUF SESSIONS → Option Frame
  | .sent frame _ => some frame
  | _ => none

/-- The frames handed to the bus between two states, in order. -/
def sentIn (w w' : Watched β BUF SESSIONS) : List Frame := (happened w w').filterMap sentFrame

theorem sentFrame_map (frames : List Frame) (a : Option Address) :
    (frames.map fun f => (.sent f a : Happening BUF SESSIONS)).filterMap sentFrame = frames := by
  rw [List.filterMap_map]
  exact List.filterMap_some

theorem Puts.sentIn (h : Puts frames w w') : sentIn w w' = frames := by
  unfold Ecu.sentIn
  rw [happened_eq h.log, sentFrame_map]

variable [Bus β]

/-- A frame the bus has taken. -/
theorem puts_sendFrame {f : Frame} {u : Unit} (h : sendFrame f w = .ok u w') : Puts [f] w w' := by
  unfold sendFrame at h
  rcases hanswer : Bus.sendFrame f w.bus with ⟨e | _, bus⟩ <;> simp only [hanswer] at h
  · cases h
  · injection h with _ h
    rw [← h]
    rfl

/-- Sending what an outgoing message puts out, to the end. -/
theorem puts_pushFrames {paced first : Bool} {bound : Nat} {o o' : Outgoing} {u : Unit}
    (hdrain : o.drain bound = .ok (frames, o')) (hend : frames.length < bound)
    (h : pushFrames paced bound first o w = .ok u w') : Puts frames w w' := by
  induction bound generalizing first o frames w with
  | zero => exact absurd hend (Nat.not_lt_zero _)
  | succ bound ih =>
    unfold Outgoing.drain at hdrain
    cases hnext : o.nextFrame with
    | error p =>
      rw [hnext] at hdrain
      cases hdrain
    | ok x =>
      have hexec : exec o.nextFrame w = .ok x w := by
        rw [hnext]
        rfl
      rw [hnext] at hdrain
      change (exec o.nextFrame >>= fun _ => _) w = _ at h
      rw [bind_ok hexec] at h
      obtain ⟨_ | frame, o₁⟩ := x
      · cases hdrain
        injection h with _ h
        rw [← h]
        unfold Puts
        rw [List.map_nil, List.append_nil]
      · simp only [ok_bind, bind_eq_ok, Prod.exists, pure_eq_ok, Except.ok.injEq,
          Prod.mk.injEq] at hdrain
        obtain ⟨frames', o₂, hrest, rfl, rfl⟩ := hdrain
        change (pause paced first >>= fun _ => _) w = _ at h
        rw [bind_ok (pause_run paced first w)] at h
        obtain ⟨u', w₁, hframe, hmore⟩ := of_bind_ok h
        have hone : Puts [frame] _ _ := puts_sendFrame hframe
        exact Puts.trans hone (ih hrest (Nat.lt_of_succ_lt_succ hend) hmore)

/-- **A broadcast that succeeds** has put out exactly the frames of its
message. -/
theorem puts_broadcast {group : Pgn} {data : List UInt8} {u : Unit}
    (h : broadcast group data w = .ok u w') :
    ∃ o, Outgoing.new group w.node.address Address.global data = .ok o
      ∧ Puts (framesOf o) w w' := by
  change (checkMayTransmit >>= fun _ => _) w = _ at h
  obtain ⟨u', w₁, hcheck, hsend⟩ := of_bind_ok h
  obtain ⟨-, rfl⟩ := checkMayTransmit_ok hcheck
  change (valid (Outgoing.new group w₁.node.address Address.global data) >>= fun _ => _) w₁ = _
    at hsend
  obtain ⟨o, w₂, hvalid, hpush⟩ := of_bind_ok hsend
  obtain ⟨hnew, rfl⟩ := valid_ok hvalid
  have hpriority : o.withPriority .default = o := by
    rw [← (Outgoing.new_fields hnew).1]
    rfl
  rw [hpriority] at hpush
  obtain ⟨o', hdrain, hlt⟩ := drain_framesOf hnew
  exact ⟨o, hnew, puts_pushFrames hdrain hlt hpush⟩

/-- `q` is the request for `group` that `source` sends to `destination`. -/
def Asks (q : Frame) (group : Pgn) (destination source : Address) : Prop :=
  ∃ id, Id.fromParts .default .request destination source = .ok id
    ∧ Frame.new id (Request.mk group).encode = .ok q

/-- A request that succeeds has put out one frame. -/
theorem puts_request {destination : Address} {group : Pgn} {u : Unit}
    (h : request destination group w = .ok u w') :
    ∃ q, Asks q group destination w.node.address ∧ Puts [q] w w' := by
  change (checkMayTransmit >>= fun _ => _) w = _ at h
  obtain ⟨u', w₁, hcheck, hbuild⟩ := of_bind_ok h
  obtain ⟨-, rfl⟩ := checkMayTransmit_ok hcheck
  change (valid (Id.fromParts .default .request destination w₁.node.address) >>= fun id =>
    valid (Frame.new id (Request.mk group).encode) >>= sendFrame) w₁ = _ at hbuild
  obtain ⟨id, w₂, hvalid, hframe⟩ := of_bind_ok hbuild
  obtain ⟨hid, rfl⟩ := valid_ok hvalid
  obtain ⟨q, w₃, hvalid', hsend⟩ := of_bind_ok hframe
  obtain ⟨hq, rfl⟩ := valid_ok hvalid'
  exact ⟨q, ⟨id, hid, hq⟩, puts_sendFrame hsend⟩

/-! ## §3. The request arrives. -/

/-- What a request names, whoever sends it and to whom. -/
theorem Asks.fields {q : Frame} {group : Pgn} {destination source : Address}
    (h : Asks q group destination source) :
    q.pgn = .request ∧ q.sourceAddress = source ∧ q.data = (Request.mk group).encode
      ∧ ∀ a, destination = Address.global ∨ destination = a → q.id.isAddressedTo a = true := by
  obtain ⟨id, hid, hq⟩ := h
  obtain ⟨hframe, hdata⟩ := Frame.data_new hq
  rw [Frame.pgn, Frame.sourceAddress, hframe]
  refine ⟨Id.pgn_fromParts hid, Id.sourceAddress_fromParts hid, hdata, fun a ha => ?_⟩
  rw [Id.isAddressedTo_iff, Id.destinationAddress_fromParts hid (by decide)]
  exact Or.inr (ha.imp (congrArg some) (congrArg some))

/-- **A request that arrives is answered**, by an ECU that holds an
address. -/
theorem dispatch_request {q : Frame} {group : Pgn} {destination source : Address}
    (hq : Asks q group destination source)
    (hdestination : destination = Address.global ∨ destination = w.node.address)
    (hgroup : group ≠ .addressClaimed) (hheld : w.node.hasAddress = true) {m : Option Message}
    (h : dispatch q w = .ok m w') :
    ∃ b, answerDiagnosticRequest source ⟨group⟩
      (heardBy w w.node [⟨.request, source, (Request.mk group).encode⟩]) = .ok b w' := by
  obtain ⟨hpgn, hsource, hdata, haddressed⟩ := hq.fields
  have hframe : w.node.onFrame q
      = .ok (.message .request source (Request.mk group).encode none, w.node) := by
    have hclaim : ¬ (q.pgn = .request ∧ Request.decode q.data = .ok ⟨.addressClaimed⟩) := by
      rintro ⟨-, hdecode⟩
      rw [hdata, Request.decode_encode] at hdecode
      injection hdecode with hdecode
      injection hdecode with hdecode
      exact hgroup hdecode
    rw [Node.onFrame_eq, Node.route_application (haddressed _ hdestination) (by rw [hpgn]; decide)
      (by rw [hpgn]; decide) (by rw [hpgn]; decide) hclaim]
    simp only [hpgn, hsource, hdata]
  have hnode : ForNode q := by
    unfold ForNode IsExtended
    rw [hpgn]
    decide
  let message : Message := ⟨.request, source, (Request.mk group).encode⟩
  let heard := heardBy w w.node [message]
  have htold : heeding w w.node message = heard := by
    rw [heeding, scheduleAfter, if_neg (show Pgn.request ≠ .dm13 by decide)]
    rfl
  rw [dispatch_message hnode hframe (by decide), htold] at h
  obtain ⟨u, w₁, hanswer, hlast⟩ := of_bind_ok h
  cases hlast
  have hrun : obeyRequest message heard
      = (answerDiagnosticRequest source ⟨group⟩ >>= fun _ => pure ()) heard := by
    have hmine : (decide (message.pgn = .request) && heard.node.hasAddress) = true := by
      rw [show heard.node.hasAddress = true from hheld]
      rfl
    have hdecode : Request.decode message.data = .ok ⟨group⟩ := Request.decode_encode ⟨group⟩
    unfold obeyRequest
    rw [bind_ok (show (get : Prog β BUF SESSIONS _) heard = .ok heard heard from rfl),
      if_pos hmine, hdecode]
  rw [hrun] at hanswer
  obtain ⟨b, w₂, hanswer, hlast⟩ := of_bind_ok hanswer
  cases hlast
  exact ⟨b, hanswer⟩

/-! ## §4. The answer. -/

/-- The history is sent as a message to everybody. -/
theorem sendDm2_run (w : Watched β BUF SESSIONS) :
    sendDm2 w = broadcast .dm2 (listData Lamps.new w.faults.previous) w := by
  obtain ⟨hencode, hlength⟩ := encodeList_eq Lamps.new w.faults.previous
  have hdm2 : w.faults.dm2 (List.replicate w.faults.dm2Len 0)
      = (.ok w.faults.dm2Len, listData Lamps.new w.faults.previous) := hencode
  have hlen : (listData Lamps.new w.faults.previous).length = w.faults.dm2Len := hlength
  have hslice : slice (listData Lamps.new w.faults.previous) 0 w.faults.dm2Len
      = .ok (listData Lamps.new w.faults.previous) := by
    rw [slice_zero_ok (Nat.le_of_eq hlen.symm), List.take_of_length_le (Nat.le_of_eq hlen)]
  have hrun : sendDm2 w = (valid (w.faults.dm2 (List.replicate w.faults.dm2Len 0)).1 >>= fun len =>
      exec (slice (w.faults.dm2 (List.replicate w.faults.dm2Len 0)).2 0 len) >>= fun data =>
        broadcast .dm2 data) w := rfl
  rw [hrun, hdm2]
  show (exec (slice (listData Lamps.new w.faults.previous) 0 w.faults.dm2Len) >>= fun data =>
    broadcast .dm2 data) w = _
  rw [hslice]
  rfl

/-- A request for a report is answered by a broadcast of it. -/
theorem answer_run {group : Pgn} (hgroup : IsReport group) (source : Address)
    (w : Watched β BUF SESSIONS) :
    answerDiagnosticRequest source ⟨group⟩ w
      = (broadcast group (answerData w.toEcu group) >>= fun _ => pure true) w := by
  rcases hgroup with rfl | rfl | rfl
  · show (sendDm1 >>= fun _ => pure true) w = _
    rw [bind_run, sendDm1_run, bind_run]
    rfl
  · show (sendDm2 >>= fun _ => pure true) w = _
    rw [bind_run, sendDm2_run, bind_run]
    rfl
  · rfl

/-- **What an ECU that is asked for a report sends**: the frames of that
report. -/
theorem answered {q : Frame} {group : Pgn} {destination source : Address}
    (hq : Asks q group destination source)
    (hdestination : destination = Address.global ∨ destination = w.node.address)
    (hgroup : IsReport group) (hheld : w.node.hasAddress = true) {m : Option Message}
    (h : dispatch q w = .ok m w') :
    ∃ o, Outgoing.new group w.node.address Address.global (answerData w.toEcu group) = .ok o
      ∧ sentIn w w' = framesOf o := by
  have hclaim : group ≠ .addressClaimed := by
    rcases hgroup with rfl | rfl | rfl <;> decide
  obtain ⟨b, hanswer⟩ := dispatch_request hq hdestination hclaim hheld h
  rw [answer_run hgroup] at hanswer
  obtain ⟨u, w₁, hsend, hlast⟩ := of_bind_ok hanswer
  cases hlast
  obtain ⟨o, hnew, hputs⟩ := puts_broadcast hsend
  refine ⟨o, hnew, ?_⟩
  have hlog : w'.log = w.log ++ (.completed ⟨.request, source, (Request.mk group).encode⟩
      :: (framesOf o).map fun f => .sent f (held w.node)) := by
    rw [hputs.log]
    exact List.append_assoc _ _ _
  unfold sentIn
  rw [happened_eq hlog, List.filterMap_cons_none rfl, sentFrame_map]

/-! ## §5. Reading it back. -/

/-- **What others say to everybody in the meantime**: messages of passive
groups, each from another address, that fit the tool. -/
structure Chatter (BUF : Nat) {κ : Type} (m : κ → Sent) (o : κ → Outgoing) : Prop where
  sources : Function.Injective fun i => (m i).source
  fits : ∀ i, (m i).data.length ≤ BUF
  passive : ∀ i, Passive (m i).pgn
  new : ∀ i, Outgoing.new (m i).pgn (m i).source Address.global (m i).data = .ok (o i)

omit [Bus β] in
/-- Of messages from different senders, one is from any of them. -/
theorem filter_source {ι : Type} [DecidableEq ι] [Fintype ι] {m : ι → Sent}
    (hsources : Function.Injective fun i => (m i).source) (i : ι) :
    (Finset.univ.toList.map fun j => ofSent (m j)).filter (fun x => x.source = (m i).source)
      = [ofSent (m i)] := by
  have hone : Finset.univ.toList.filter (fun j => (m j).source = (m i).source) = [i] := by
    have hsame : ∀ j ∈ Finset.univ.toList, decide ((m j).source = (m i).source) = (j == i) := by
      intro j _
      exact decide_eq_decide.mpr ⟨fun h => hsources h, fun h => by rw [h]⟩
    rw [List.filter_congr hsame, List.filter_beq,
      List.count_eq_one_of_mem (Finset.nodup_toList _) (Finset.mem_toList.mpr (Finset.mem_univ i))]
    rfl
  rw [List.filter_map]
  show (Finset.univ.toList.filter fun j => (m j).source = (m i).source).map _ = _
  rw [hone]
  rfl

/-- A request names everybody, or the one that answers. -/
theorem answers_from {destination source : Address}
    (h : destination = Address.global ∨ destination = source) :
    (destination.isBroadcast || source == destination) = true := by
  rw [Bool.or_eq_true, Address.isBroadcast_iff, beq_iff_eq]
  exact h.imp id Eq.symm

/-- A message that is what was asked for answers. -/
theorem answers_message {destination source : Address} {group : Pgn} {data : List UInt8}
    (h : destination = Address.global ∨ destination = source) :
    answers destination group ⟨group, source, data⟩ = some (.message ⟨group, source, data⟩) := by
  unfold answers
  rw [if_pos (answers_from h), if_pos rfl]

/-- **What a tool reads from another ECU is what that ECU holds.**  Whatever
states the two are in, and whatever others say to everybody meanwhile: the
request the tool has put on the bus makes an ECU that it names, and that
holds an address, send one report; and of what the tool then hears exactly
one message is from that ECU.  It answers the request, and reads as the
lamps and the codes of the fault log, without the placeholders, or as the
counts of them. -/
theorem fault_lists_read_back [Bus β'] {κ : Type} [DecidableEq κ] [Fintype κ]
    {name name' : Name} {preferred preferred' : Address} {tool asked : Watched β BUF SESSIONS}
    {ecu : Watched β' BUF' SESSIONS'} (htool : Reachable name preferred tool)
    (hecu : Reachable name' preferred' ecu) (hheld : ecu.node.hasAddress = true)
    {destination : Address}
    (hdestination : destination = Address.global ∨ destination = ecu.node.address) {group : Pgn}
    (hgroup : group = .dm1 ∨ group = .dm2 ∨ group = .dm5)
    (hask : request destination group tool = .ok () asked) {others : κ → Sent} {o : κ → Outgoing}
    (hothers : Chatter BUF others o) (hforeign : ∀ i, (others i).source ≠ ecu.node.address)
    (hbuf : 130 ≤ BUF)
    (hroom : asked.node.reassembler.activeSessions + (Fintype.card κ + 1) ≤ SESSIONS) :
    ∃ q, sentIn tool asked = [q] ∧ ∀ m ecu', dispatch q ecu = .ok m ecu' →
      ∀ frames, Interleaves (fun i : Option κ => i.elim (sentIn ecu ecu') fun i => framesOf (o i))
        frames →
      ∃ out tool' answer, dispatchAll frames asked = .ok out tool'
        ∧ out.reduceOption.filter (fun x => x.source = ecu.node.address) = [answer]
        ∧ answers destination group answer = some (.message answer)
        ∧ (group = .dm1 → Reading.activeFaults.parse destination answer
            = .ok ⟨ecu.faults.lamps, ecu.faults.active.filter fun d => !d.isNoFault⟩)
        ∧ (group = .dm2 → Reading.previouslyActiveFaults.parse destination answer
            = .ok ⟨Lamps.new, ecu.faults.previous.filter fun d => !d.isNoFault⟩)
        ∧ (group = .dm5 → Reading.readiness.parse destination answer
            = .ok ⟨saturatingCount ecu.faults.active.length,
                saturatingCount ecu.faults.previous.length, .fromU8 ecu.obdCompliance.asU8,
                fun _ => 0xFF⟩) := by
  obtain ⟨q, hq, hputs⟩ := puts_request hask
  refine ⟨q, hputs.sentIn, fun m ecu' hdispatch frames hframes => ?_⟩
  obtain ⟨oe, hnew, hsent⟩ := answered hq hdestination hgroup hheld hdispatch
  rw [hsent] at hframes
  -- the answer is one more message beside those of the others
  let answer : Sent := ⟨group, ecu.node.address, answerData ecu.toEcu group⟩
  let all : Option κ → Sent := fun i => i.elim answer others
  let outgoing : Option κ → Outgoing := fun i => i.elim oe o
  have hsources : Function.Injective fun i => (all i).source := by
    intro i j hij
    cases i with
    | none =>
      cases j with
      | none => rfl
      | some j => exact absurd hij.symm (hforeign j)
    | some i =>
      cases j with
      | none => exact absurd hij (hforeign i)
      | some j => exact congrArg some (hothers.sources hij)
  have hreport : Passive group := by
    rcases hgroup with rfl | rfl | rfl <;> decide
  have hpassive : ∀ i, Passive (all i).pgn := by
    intro i
    cases i with
    | none => exact hreport
    | some i => exact hothers.passive i
  have hfits : ∀ i, (all i).data.length ≤ BUF := by
    intro i
    cases i with
    | none => exact (length_answerData_le hecu.wf.faults group).trans hbuf
    | some i => exact hothers.fits i
  have hall : ∀ i, Outgoing.new (all i).pgn (all i).source Address.global (all i).data
      = .ok (outgoing i) := by
    intro i
    cases i with
    | none => exact hnew
    | some i => exact hothers.new i
  have hframes' : Interleaves (fun i => framesOf (outgoing i)) frames := by
    have hsame : (fun i => framesOf (outgoing i))
        = fun i : Option κ => i.elim (framesOf oe) fun i => framesOf (o i) := by
      funext i
      cases i <;> rfl
    rw [hsame]
    exact hframes
  have hwf : asked.node.WF := by
    rw [hputs.node]
    exact htool.wf.node
  obtain ⟨out, n', hrun, -, -, hperm⟩ := hears_interleaved hwf hsources hfits hpassive
    (by rwa [Fintype.card_option]) hall hframes'
  refine ⟨out, _, ofSent answer, hrun, ?_, answers_message hdestination, ?_, ?_, ?_⟩
  · have hone := hperm.filter fun x => decide (x.source = ecu.node.address)
    have hlist := List.Perm.of_eq (filter_source hsources none)
    exact List.perm_singleton.mp (hone.trans hlist)
  · rintro rfl
    have hparse := parse_listData ecu.faults.lamps fun d hd =>
      hecu.wf.faults.inRange d (List.mem_append_left _ hd)
    show understood (FaultReport.parse (listData ecu.faults.lamps ecu.faults.active)) = _
    rw [hparse]
    rfl
  · rintro rfl
    have hparse := parse_listData Lamps.new fun d hd =>
      hecu.wf.faults.inRange d (List.mem_append_right _ hd)
    show understood (FaultReport.parse (listData Lamps.new ecu.faults.previous)) = _
    rw [hparse]
    rfl
  · rintro rfl
    show Except.ok (Dm5.decode _) = _
    refine congrArg Except.ok ?_
    unfold Dm5.decode
    refine congrArg (Dm5.mk _ _ _) ?_
    funext i
    fin_cases i <;> rfl

/-- A tool that has claimed its address. -/
def serviceTool : Watched FakeBus 256 2 :=
  after (call 4 .claimAddress ⟨Ecu.new ⟨[], [], 0, 300000⟩ ⟨2⟩ ⟨0xF9⟩, []⟩)

theorem serviceTool_reachable : Reachable ⟨2⟩ ⟨0xF9⟩ serviceTool :=
  (Reachable.new _).call 4 .claimAddress

/-- The tool once it has asked the ECU at `0x80` for `group`. -/
def askedFor (group : Pgn) : Watched FakeBus 256 2 := after (request ⟨0x80⟩ group serviceTool)

/-- The frame of that request. -/
def requestFor (group : Pgn) : Frame :=
  ((sentIn serviceTool (askedFor group)).head?).getD (dm1From ⟨0xF9⟩)

/-- An ECU with one active code. -/
def faulty : Watched FakeBus 64 2 := after (call 1 (.setFault 100 1 .amberWarning) claimed)

theorem faulty_reachable : Reachable ⟨1⟩ (Address.ofNat 0x80) faulty :=
  claimed_reachable.call 1 (.setFault 100 1 .amberWarning)

/-- The one message of a bystander. -/
def bystander : Unit → Sent := fun _ => ⟨.dm1, ⟨0x22⟩, [0x10, 0, 0x64, 0, 0x01, 0x81, 0xFF, 0xFF]⟩

/-- The tool reads the code of the ECU it has asked, although it hears the
one of a bystander first. -/
theorem fault_lists_read_back_beside :
    ∃ f out tool' answer, sentIn faulty (after (dispatch (requestFor .dm1) faulty)) = [f]
      ∧ dispatchAll [dm1From ⟨0x22⟩, f] (askedFor .dm1) = .ok out tool'
      ∧ out.reduceOption.filter (fun x => x.source = ⟨0x80⟩) = [answer]
      ∧ Reading.activeFaults.parse ⟨0x80⟩ answer
        = .ok ⟨Lamps.new.withStatus .amberWarning .on, [⟨100, 1, 1, true⟩]⟩ := by
  obtain ⟨u, hask⟩ := eq_ok_of_returns
    (show returns (request ⟨0x80⟩ .dm1 serviceTool) = true by decide +kernel)
  change request ⟨0x80⟩ .dm1 serviceTool = .ok () (askedFor .dm1) at hask
  have haddress : faulty.node.address = ⟨0x80⟩ := by decide +kernel
  obtain ⟨o, f, hnew, -, hf, o', hdrain, -⟩ := Outgoing.drain_single (bystander ()) (by decide)
  have hframe : f = dm1From ⟨0x22⟩ :=
    Frame.eq_of_data (Frame.data_new hf).1 ((Frame.data_new hf).2.trans rfl)
  have hframes : framesOf o = [dm1From ⟨0x22⟩] := by
    unfold framesOf
    rw [hdrain _ (Nat.lt_succ_self _), hframe]
  have hothers : Chatter 256 bystander fun _ => o :=
    ⟨fun _ _ _ => rfl, fun _ => show (bystander ()).data.length ≤ 256 by decide,
      fun _ => show Passive (bystander ()).pgn by decide, fun _ => hnew⟩
  obtain ⟨q, hq, hread⟩ := fault_lists_read_back serviceTool_reachable faulty_reachable
    (by decide +kernel) (Or.inr haddress.symm) (Or.inl rfl) hask hothers
    (by rw [haddress]; decide) (by decide) (by decide +kernel)
  obtain rfl : requestFor .dm1 = q := by
    unfold requestFor
    rw [hq]
    rfl
  obtain ⟨m, hdispatch⟩ := eq_ok_of_returns
    (show returns (dispatch (requestFor .dm1) faulty) = true by decide +kernel)
  obtain ⟨report, hreport⟩ := List.length_eq_one_iff.mp
    (show (sentIn faulty (after (dispatch (requestFor .dm1) faulty))).length = 1 by decide +kernel)
  have hturns : Interleaves (fun i : Option Unit =>
      i.elim (sentIn faulty (after (dispatch (requestFor .dm1) faulty))) fun _ => framesOf o)
      [dm1From ⟨0x22⟩, report] := by
    rw [hreport, hframes]
    refine .cons (k := some ()) rfl (.cons (k := none) rfl (.nil fun i => ?_))
    cases i <;> rfl
  obtain ⟨out, tool', answer, hall, hone, -, hparse, -⟩ := hread m _ hdispatch _ hturns
  refine ⟨report, out, tool', answer, hreport, hall, ?_, ?_⟩
  · rw [haddress] at hone
    exact hone
  · have hheld : faulty.faults.lamps = Lamps.new.withStatus .amberWarning .on
        ∧ faulty.faults.active = [⟨100, 1, 1, true⟩] := by decide +kernel
    rw [hparse rfl, hheld.1, hheld.2]
    rfl

/-! ## §6. Clearing. -/

/-- An acknowledgement that is sent is one frame. -/
theorem puts_acknowledge {requester : Address} {ack : Acknowledgement} {u : Unit}
    (h : acknowledge requester ack w = .ok u w') :
    ∃ id, Id.fromParts .default .acknowledgement requester w.node.address = .ok id
      ∧ Puts [Frame.fromPayload id ack.encode] w w' := by
  change (valid (Id.fromParts .default .acknowledgement requester w.node.address) >>= fun id =>
    sendFrame (Frame.fromPayload id ack.encode)) w = _ at h
  obtain ⟨id, w₁, hvalid, hsend⟩ := of_bind_ok h
  obtain ⟨hid, rfl⟩ := valid_ok hvalid
  exact ⟨id, hid, puts_sendFrame hsend⟩

omit [Bus β] in
/-- A positive acknowledgement confirms the request it answers. -/
theorem answers_positive {destination source : Address} {group : Pgn}
    (h : destination = Address.global ∨ destination = source) (hgroup : group ≠ .acknowledgement)
    (id : Id) :
    answers destination group
        ⟨.acknowledgement, source,
          (Frame.fromPayload id (Acknowledgement.positive group source).encode).data⟩
      = some (.acknowledged (.positive group source)) := by
  have hdecode := Acknowledgement.decode_encode (a := .positive group source) rfl
  unfold answers
  rw [if_pos (answers_from h), if_neg hgroup.symm, if_pos rfl, Frame.data_fromPayload]
  dsimp only
  have hbytes : ∀ p : Payload, ![p 0, p 1, p 2, p 3, p 4, p 5, p 6, p 7] = p := by
    intro p
    funext i
    fin_cases i <;> rfl
  rw [hbytes, hdecode]
  exact if_pos rfl

/-- **What an ECU that is asked to clear codes does**: it clears them,
acknowledges, and after active codes reports what is left. -/
theorem cleared {q : Frame} {group : Pgn} {destination source : Address}
    (hq : Asks q group destination source)
    (hdestination : destination = Address.global ∨ destination = w.node.address)
    (hgroup : group = .dm3 ∨ group = .dm11) (hheld : w.node.hasAddress = true)
    {m : Option Message} (h : dispatch q w = .ok m w') :
    ∃ id reports, Id.fromParts .default .acknowledgement source w.node.address = .ok id
      ∧ sentIn w w'
        = Frame.fromPayload id (Acknowledgement.positive group w.node.address).encode :: reports
      ∧ (group = .dm3 → w'.faults = w.faults.clearPreviouslyActive ∧ reports = [])
      ∧ (group = .dm11 → w'.faults = w.faults.clearActive
        ∧ ∃ o, Outgoing.new .dm1 w.node.address Address.global (listData Lamps.new []) = .ok o
          ∧ reports = framesOf o) := by
  have hclaim : group ≠ .addressClaimed := by
    rcases hgroup with rfl | rfl <;> decide
  obtain ⟨b, hanswer⟩ := dispatch_request hq hdestination hclaim hheld h
  have hsent : ∀ {reports : List Frame} {id : Id} {v : Watched β BUF SESSIONS},
      v.log = w.log ++ [.completed ⟨.request, source, (Request.mk group).encode⟩] →
      Puts (Frame.fromPayload id (Acknowledgement.positive group w.node.address).encode :: reports)
        v w' →
      sentIn w w'
        = Frame.fromPayload id (Acknowledgement.positive group w.node.address).encode
          :: reports := by
    intro reports id v hv hputs
    have hlog := hputs.log
    rw [hv, List.append_assoc] at hlog
    unfold sentIn
    rw [happened_eq hlog, List.filterMap_append, sentFrame_map]
    rfl
  rcases hgroup with rfl | rfl
  · let v : Watched β BUF SESSIONS :=
      { heardBy w w.node [⟨.request, source, (Request.mk .dm3).encode⟩] with
        faults := w.faults.clearPreviouslyActive }
    change (acknowledge source (Dm3.acknowledge v.node.address) >>= fun _ => pure true) v = _
      at hanswer
    obtain ⟨u, w₁, hack, hlast⟩ := of_bind_ok hanswer
    cases hlast
    obtain ⟨id, hid, hputs⟩ := puts_acknowledge hack
    refine ⟨id, [], hid, hsent rfl hputs, fun _ => ⟨?_, rfl⟩, fun h => absurd h (by decide)⟩
    rw [hputs]
  · let v : Watched β BUF SESSIONS :=
      { heardBy w w.node [⟨.request, source, (Request.mk .dm11).encode⟩] with
        faults := w.faults.clearActive }
    change (acknowledge source (Dm11.acknowledge v.node.address) >>= fun _ =>
      sendDm1 >>= fun _ => pure true) v = _ at hanswer
    obtain ⟨u, w₁, hack, hreport⟩ := of_bind_ok hanswer
    obtain ⟨u', w₂, hdm1, hlast⟩ := of_bind_ok hreport
    cases hlast
    obtain ⟨id, hid, hputs⟩ := puts_acknowledge hack
    have hfaults : w₁.faults = w.faults.clearActive := by
      rw [hputs]
    rw [sendDm1_run, hfaults] at hdm1
    obtain ⟨o, hnew, hputs'⟩ := puts_broadcast hdm1
    rw [hputs.node] at hnew
    refine ⟨id, framesOf o, hid, hsent rfl (hputs.trans hputs'), fun h => absurd h (by decide),
      fun _ => ⟨?_, o, hnew, rfl⟩⟩
    rw [hputs', hfaults]

/-- **What a tool has had cleared is cleared.**  Whatever states the two
are in: the request makes an ECU that it names, and that holds an address,
forget those codes and nothing else, and send an acknowledgement, which
answers the request and confirms it.  After active codes it also sends a
report, which says that there are none and that every lamp is off. -/
theorem codes_cleared [Bus β'] {tool asked : Watched β BUF SESSIONS}
    {ecu : Watched β' BUF' SESSIONS'} (hheld : ecu.node.hasAddress = true)
    {destination : Address}
    (hdestination : destination = Address.global ∨ destination = ecu.node.address) {group : Pgn}
    (hgroup : group = .dm3 ∨ group = .dm11) (hask : request destination group tool = .ok () asked) :
    ∃ q, sentIn tool asked = [q] ∧ ∀ m ecu', dispatch q ecu = .ok m ecu' →
      ∃ ack a rest tool', dispatchAll (sentIn ecu ecu') asked = .ok (some ack :: rest) tool'
        ∧ answers destination group ack = some (.acknowledged a)
        ∧ confirmed (.acknowledged a) = .ok true
        ∧ (group = .dm3 → ecu'.faults = ecu.faults.clearPreviouslyActive ∧ rest = [])
        ∧ (group = .dm11 → ecu'.faults = ecu.faults.clearActive
          ∧ ∃ report, rest = [some report] ∧ report.pgn = .dm1
            ∧ report.source = ecu.node.address
            ∧ Reading.activeFaults.parse destination report = .ok ⟨Lamps.new, []⟩) := by
  obtain ⟨q, hq, hputs⟩ := puts_request hask
  refine ⟨q, hputs.sentIn, fun m ecu' hdispatch => ?_⟩
  obtain ⟨id, reports, hid, hsent, hdm3, hdm11⟩ := cleared hq hdestination hgroup hheld hdispatch
  let ackFrame := Frame.fromPayload id (Acknowledgement.positive group ecu.node.address).encode
  have hpgn : ackFrame.pgn = .acknowledgement := Id.pgn_fromParts hid
  have hsource : ackFrame.sourceAddress = ecu.node.address := Id.sourceAddress_fromParts hid
  have hack : IsMessage asked.node.address ackFrame := by
    refine ⟨?_, by rw [hpgn]; decide⟩
    rw [Id.isAddressedTo_iff, hputs.node]
    exact Or.inr (Or.inr (Id.destinationAddress_fromParts hid (by decide)))
  have hanswers : answers destination group (messageIn ackFrame)
      = some (.acknowledged (.positive group ecu.node.address)) := by
    have hne : group ≠ .acknowledgement := by
      rcases hgroup with rfl | rfl <;> decide
    unfold messageIn
    rw [hpgn, hsource]
    exact answers_positive hdestination hne id
  rcases hgroup with rfl | rfl
  · obtain ⟨hfaults, rfl⟩ := hdm3 rfl
    have hack : ∀ f ∈ [ackFrame], IsMessage asked.node.address f := fun f hf => by
      rw [List.mem_singleton.mp hf]
      exact hack
    have hall := dispatchAll_messages hack
    rw [hsent]
    exact ⟨_, _, [], _, hall, hanswers, rfl, fun _ => ⟨hfaults, rfl⟩,
      fun h => absurd h (by decide)⟩
  · obtain ⟨hfaults, o, hnew, rfl⟩ := hdm11 rfl
    -- the report fits a single frame
    have hshort : (listData Lamps.new []).length ≤ Frame.maxPayload := by decide
    obtain ⟨o₁, f, hnew₁, -, hf, o', hdrain, -⟩ :=
      Outgoing.drain_single ⟨.dm1, ecu.node.address, listData Lamps.new []⟩ hshort
    obtain rfl : o₁ = o := Except.ok.inj (hnew₁.symm.trans hnew)
    have hframes : framesOf o₁ = [f] := by
      unfold framesOf
      rw [hdrain _ (Nat.lt_succ_self _)]
    obtain ⟨hfid, hdata⟩ := Frame.data_new hf
    have hfpgn : f.pgn = .dm1 := by
      rw [Frame.pgn, hfid]
      exact Id.pgn_broadcast ..
    have hfsource : f.sourceAddress = ecu.node.address := by
      rw [Frame.sourceAddress, hfid]
      exact Id.sourceAddress_broadcast ..
    have hreport : IsMessage asked.node.address f := by
      refine ⟨?_, by rw [hfpgn]; decide⟩
      rw [hfid]
      exact Id.isAddressedTo_broadcast ..
    have hboth : ∀ g ∈ [ackFrame, f], IsMessage asked.node.address g := fun g hg => by
      rcases List.mem_cons.mp hg with rfl | hg
      · exact hack
      · rw [List.mem_singleton.mp hg]
        exact hreport
    have hall := dispatchAll_messages hboth
    rw [hsent, hframes]
    refine ⟨_, _, [some (messageIn f)], _, hall, hanswers, rfl, fun h => absurd h (by decide),
      fun _ => ⟨hfaults, messageIn f, rfl, hfpgn, hfsource, ?_⟩⟩
    have hnone : ∀ d ∈ ([] : List Dtc), d.InRange := fun d hd => absurd hd List.not_mem_nil
    have hparse := parse_listData Lamps.new hnone
    show understood (FaultReport.parse f.data) = _
    rw [hdata, hparse]
    rfl

/-- The tool has the code of the ECU cleared, and is told so. -/
theorem codes_cleared_of_faulty :
    ∃ ack rest tool', dispatchAll
        (sentIn faulty (after (dispatch (requestFor .dm11) faulty))) (askedFor .dm11)
        = .ok (some ack :: rest) tool'
      ∧ (after (dispatch (requestFor .dm11) faulty)).faults = faulty.faults.clearActive := by
  obtain ⟨u, hask⟩ := eq_ok_of_returns
    (show returns (request ⟨0x80⟩ .dm11 serviceTool) = true by decide +kernel)
  change request ⟨0x80⟩ .dm11 serviceTool = .ok () (askedFor .dm11) at hask
  have haddress : faulty.node.address = ⟨0x80⟩ := by decide +kernel
  obtain ⟨q, hq, hcleared⟩ := codes_cleared (show faulty.node.hasAddress = true by decide +kernel)
    (Or.inr haddress.symm) (Or.inr rfl) hask
  obtain rfl : requestFor .dm11 = q := by
    unfold requestFor
    rw [hq]
    rfl
  obtain ⟨m, hdispatch⟩ := eq_ok_of_returns
    (show returns (dispatch (requestFor .dm11) faulty) = true by decide +kernel)
  obtain ⟨ack, a, rest, tool', hall, -, -, -, hdm11⟩ := hcleared m _ hdispatch
  exact ⟨ack, rest, tool', hall, (hdm11 rfl).1⟩

end SaeJ1939.Host.Ecu
