/-
  SaeJ1939.Host.Receiving — what dispatching a frame does to an ECU.

  A frame of the extended transport protocol goes to the extended
  reassembler, any other to the node; then the ECU acts on the message the
  frame has completed, if it has.

  Main results:
    * `dispatch_ignored`, `dispatch_reassembles`, `dispatch_node` — where a
      frame goes, and what is then done.
    * `Obeys` — what acting on a message may do: nothing to a transfer, and
      never more than plain frames.
    * `handles_dispatch` — dispatching keeps the invariant, gives no
      address and lets no time pass.
-/
import SaeJ1939.Host.Sending

namespace SaeJ1939.Host

open AddressClaim Checked Diagnostics Fallible
open Tp (TpCm)
open Etp (EtpCm EtpDt)

/-- The invariant of an ECU. -/
structure Ecu.WF {β : Type} {BUF SESSIONS : Nat} (e : Ecu β BUF SESSIONS) : Prop where
  node : e.node.WF
  etp : e.etp.WF
  faults : e.faults.WF
  schedule : e.schedule.WF

/-- A Clear To Send, of either transport protocol. -/
def IsCts (f : Frame) : Prop :=
  (f.pgn = .tpCm ∧ ∃ packets next pgn, TpCm.decode f.payload = .ok (.cts packets next pgn))
    ∨ f.pgn = .etpCm ∧ ∃ packets next pgn, EtpCm.decode f.payload = .ok (.cts packets next pgn)

/-- A frame of the transport protocol. -/
def IsTransport (f : Frame) : Prop := f.pgn = .tpCm ∨ f.pgn = .tpDt

/-- No Clear To Send, and no transport frame but from the address that is
held. -/
structure Plain (a : Option Address) (f : Frame) : Prop where
  not_cts : ¬ IsCts f
  transport : IsTransport f → a = some f.sourceAddress

namespace Ecu

variable {β α : Type} {BUF SESSIONS : Nat} {w w' w'' : Watched β BUF SESSIONS}

/-! ## §1. Plain frames. -/

/-- A frame that is of neither transport protocol is plain. -/
theorem plain_of_pgn {a : Option Address} {f : Frame} (h₁ : f.pgn ≠ .tpCm) (h₂ : f.pgn ≠ .tpDt)
    (h₃ : f.pgn ≠ .etpCm) : Plain a f :=
  ⟨fun h => h.elim (fun h => h₁ h.1) fun h => h₃ h.1, fun h => h.elim (absurd · h₁) (absurd · h₂)⟩

/-- So is a frame of a broadcast of such a group. -/
theorem OfBroadcast.plain {group : Pgn} {a : Option Address} {f : Frame}
    (h : OfBroadcast group a f) (h₁ : group ≠ .tpCm) (h₂ : group ≠ .etpCm) : Plain a f := by
  refine ⟨fun hcts => ?_, fun _ => h.source⟩
  have hdt₁ : Pgn.tpDt ≠ Pgn.tpCm := by decide
  have hdt₂ : Pgn.tpDt ≠ Pgn.etpCm := by decide
  have hcm : Pgn.tpCm ≠ Pgn.etpCm := by decide
  rcases h.content with hgroup | hgroup | ⟨hgroup, size, packets, pgn, hbam⟩
  · rw [IsCts, hgroup] at hcts
    exact hcts.elim (fun h => h₁ h.1) fun h => h₂ h.1
  · rw [IsCts, hgroup] at hcts
    exact hcts.elim (fun h => hdt₁ h.1) fun h => hdt₂ h.1
  · rw [IsCts, hgroup, hbam] at hcts
    rcases hcts with ⟨-, _, _, _, h⟩ | ⟨h, -⟩
    · cases h
    · exact hcm h

/-- An entry of the log that only says that plain frames were sent, or
that the call failed. -/
def Harmless : Happening BUF SESSIONS → Prop
  | .sent f a => Plain a f
  | .failed _ => True
  | _ => False

/-- What acting on a message may do to an ECU: move it to an address it
does not hold yet, suspend its schedule, clear its faults, and send plain
frames. -/
structure Obeys (w w' : Watched β BUF SESSIONS) : Prop where
  wf : w.toEcu.WF → w'.toEcu.WF
  etp : w'.etp = w.etp
  receiver : w'.node.reassembler = w.node.reassembler
  held : w'.node.hasAddress = true → w.node.hasAddress = true ∧ w'.node.address = w.node.address
  pending : w'.pending = w.pending
  entries : w.schedule.entries = [] → w'.schedule.entries = []
  log : ∃ done, w'.log = w.log ++ done ∧ ∀ h ∈ done, Harmless h

theorem Obeys.refl (w : Watched β BUF SESSIONS) : Obeys w w :=
  ⟨id, rfl, rfl, fun h => ⟨h, rfl⟩, rfl, id, [], (List.append_nil _).symm, fun _ h => (by cases h)⟩

theorem Obeys.trans (h : Obeys w w') (h' : Obeys w' w'') : Obeys w w'' := by
  obtain ⟨done, hlog, hdone⟩ := h.log
  obtain ⟨done', hlog', hdone'⟩ := h'.log
  refine ⟨fun hwf => h'.wf (h.wf hwf), h'.etp.trans h.etp, h'.receiver.trans h.receiver,
    fun hheld => ?_, h'.pending.trans h.pending, fun he => h'.entries (h.entries he),
    done ++ done', by rw [hlog', hlog, List.append_assoc], fun x hx => ?_⟩
  · obtain ⟨hheld', haddress'⟩ := h'.held hheld
    obtain ⟨hheld, haddress⟩ := h.held hheld'
    exact ⟨hheld, haddress'.trans haddress⟩
  · exact (List.mem_append.mp hx).elim (hdone x) (hdone' x)

instance : IsPreorder (Watched β BUF SESSIONS) Obeys where
  refl := Obeys.refl
  trans _ _ _ := Obeys.trans

/-- Sending plain frames. -/
theorem Sends.obeys {P : Option Address → Frame → Prop} (h : Sends P w w')
    (hP : ∀ a f, P a f → Plain a f) : Obeys w w' := by
  obtain ⟨done, hlog, hdone⟩ := h.log
  refine ⟨fun hwf => ?_, ?_, ?_, fun hheld => ?_, ?_, fun he => ?_, done, hlog, fun x hx => ?_⟩
  · rw [h.same]
    exact ⟨hwf.node, hwf.etp, hwf.faults, hwf.schedule⟩
  · rw [h.same]
  · rw [h.same]
  · rw [h.node] at hheld ⊢
    exact ⟨hheld, rfl⟩
  · rw [h.same]
  · rw [h.same]
    exact he
  · rcases hdone x hx with ⟨f, rfl, hf⟩ | ⟨e, rfl⟩
    · exact hP _ f hf
    · trivial

/-! ## §2. Acting on a message. -/

/-- A change of the schedule only. -/
theorem obeys_schedule {s : Schedule scheduleCapacity} (hwf : w.schedule.WF → s.WF)
    (he : w.schedule.entries = [] → s.entries = []) : Obeys w { w with schedule := s } :=
  ⟨fun h => ⟨h.node, h.etp, h.faults, hwf h.schedule⟩, rfl, rfl, fun h => ⟨h, rfl⟩, rfl, he, [],
    (List.append_nil _).symm, fun _ h => (by cases h)⟩

/-- A change of the fault log only. -/
theorem obeys_faults {log : FaultLog faultCapacity} (hwf : w.faults.WF → log.WF) :
    Obeys w { w with faults := log } :=
  ⟨fun h => ⟨h.node, h.etp, hwf h.faults, h.schedule⟩, rfl, rfl, fun h => ⟨h, rfl⟩, rfl, id, [],
    (List.append_nil _).symm, fun _ h => (by cases h)⟩

/-- A message suspends the schedule, resumes it or leaves it. -/
theorem scheduleAfter_cases (message : Message) (s : Schedule scheduleCapacity) :
    scheduleAfter message s = s.suspend Schedule.defaultSuspendMs
      ∨ scheduleAfter message s = s.resume ∨ scheduleAfter message s = s := by
  have honDm13 : ∀ command : Dm13, onDm13 command s = s.suspend Schedule.defaultSuspendMs
      ∨ onDm13 command s = s.resume ∨ onDm13 command s = s := by
    intro command
    unfold onDm13
    cases command.command .currentDataLink <;> cases command.command .vehicle <;> simp
  unfold scheduleAfter
  split
  · split
    · exact honDm13 _
    · exact Or.inr (Or.inr rfl)
  · exact Or.inr (Or.inr rfl)

theorem obeys_dm13 (message : Message) :
    Moves Obeys (obeyDm13 message : Prog β BUF SESSIONS Unit) := by
  intro w
  refine obeys_schedule (fun h => ?_) fun he => ?_
  · rcases scheduleAfter_cases message w.schedule with heq | heq | heq <;> rw [heq]
    · exact h.suspend _
    · exact h.apply .resume
    · exact h
  · rcases scheduleAfter_cases message w.schedule with heq | heq | heq <;> rw [heq]
    · show w.schedule.entries.map _ = []
      rw [he, List.map_nil]
    · exact he
    · exact he

/-- A change of the node only, which gains no address by it. -/
theorem obeys_node {n : Node BUF SESSIONS} (hwf : w.node.WF → n.WF)
    (hreceiver : n.reassembler = w.node.reassembler)
    (hheld : n.hasAddress = true → w.node.hasAddress = true ∧ n.address = w.node.address) :
    Obeys w { w with node := n } :=
  ⟨fun h => ⟨hwf h.node, h.etp, h.faults, h.schedule⟩, rfl, hreceiver, hheld, rfl, id, [],
    (List.append_nil _).symm, fun _ h => (by cases h)⟩

/-- **A commanded address gives no address**: it moves the node to one that
is yet to be claimed. -/
theorem held_onCommandedAddress {n : Node BUF SESSIONS} {data : List UInt8}
    (h : (n.onCommandedAddress data).2.hasAddress = true) :
    n.hasAddress = true ∧ (n.onCommandedAddress data).2.address = n.address := by
  have hclaimer := (n.onCommandedAddress_eq data).1
  unfold Node.hasAddress Node.claimState Node.address at *
  rw [hclaimer] at h ⊢
  rcases n.claimer.onCommandedAddress_cases data with ⟨heq, -⟩ | ⟨heq, -⟩ | ⟨a, -, heq⟩
  · rw [heq] at h ⊢
    exact ⟨h, rfl⟩
  · rw [heq] at h ⊢
    exact ⟨h, rfl⟩
  · rw [heq] at h
    cases h

/-- The claim a commanded address asks for is an Address Claimed frame. -/
theorem pgn_of_onCommandedAddress {n : Node BUF SESSIONS} {data : List UInt8} {claim : Frame}
    (h : (n.onCommandedAddress data).1 = .ok (some claim)) : claim.pgn = .addressClaimed := by
  unfold Node.onCommandedAddress at h
  rcases hcases : n.claimer.onCommandedAddress data with ⟨_ | _ | c, claimer⟩ <;>
    rw [hcases] at h <;> cases h
  exact Id.pgn_broadcast ..

/-! ## §3. What every method that lets no time pass does. -/

/-- An entry of the log that says that time passes. -/
def IsTime : Happening BUF SESSIONS → Prop
  | .taken _ | .passed _ _ => True
  | _ => False

/-- From `w` to `w'` the invariant is kept, no address is gained, nothing
is scheduled and no time passes. -/
structure Handles (w w' : Watched β BUF SESSIONS) : Prop where
  wf : w.toEcu.WF → w'.toEcu.WF
  held : w'.node.hasAddress = true → w.node.hasAddress = true ∧ w'.node.address = w.node.address
  entries : w.schedule.entries = [] → w'.schedule.entries = []
  log : ∃ done, w'.log = w.log ++ done ∧ ∀ h ∈ done, ¬ IsTime h

theorem Handles.refl (w : Watched β BUF SESSIONS) : Handles w w :=
  ⟨id, fun h => ⟨h, rfl⟩, id, [], (List.append_nil _).symm, fun _ h => (by cases h)⟩

theorem Handles.trans (h : Handles w w') (h' : Handles w' w'') : Handles w w'' := by
  obtain ⟨done, hlog, hdone⟩ := h.log
  obtain ⟨done', hlog', hdone'⟩ := h'.log
  refine ⟨fun hwf => h'.wf (h.wf hwf), fun hheld => ?_, fun he => h'.entries (h.entries he),
    done ++ done', by rw [hlog', hlog, List.append_assoc], fun x hx => ?_⟩
  · obtain ⟨hheld', haddress'⟩ := h'.held hheld
    obtain ⟨hheld, haddress⟩ := h.held hheld'
    exact ⟨hheld, haddress'.trans haddress⟩
  · exact (List.mem_append.mp hx).elim (hdone x) (hdone' x)

instance : IsPreorder (Watched β BUF SESSIONS) Handles where
  refl := Handles.refl
  trans _ _ _ := Handles.trans

theorem Sends.handles {P : Option Address → Frame → Prop} (h : Sends P w w') : Handles w w' := by
  obtain ⟨done, hlog, hdone⟩ := h.log
  refine ⟨fun hwf => ?_, fun hheld => ?_, fun he => ?_, done, hlog, fun x hx => ?_⟩
  · rw [h.same]
    exact ⟨hwf.node, hwf.etp, hwf.faults, hwf.schedule⟩
  · rw [h.node] at hheld ⊢
    exact ⟨hheld, rfl⟩
  · rw [h.same]
    exact he
  · rcases hdone x hx with ⟨f, rfl, -⟩ | ⟨e, rfl⟩ <;> exact id

theorem Obeys.handles (h : Obeys w w') : Handles w w' := by
  obtain ⟨done, hlog, hdone⟩ := h.log
  refine ⟨h.wf, h.held, h.entries, done, hlog, fun x hx => ?_⟩
  have hx := hdone x hx
  cases x with
  | sent | failed => exact id
  | received | completed | queued | taken | passed => exact absurd hx id

/-- Noting something that is not about time. -/
theorem handles_record {h : Happening BUF SESSIONS} (ht : ¬ IsTime h) :
    Moves Handles (record h : Prog β BUF SESSIONS Unit) := by
  intro w
  refine ⟨fun hwf => ⟨hwf.node, hwf.etp, hwf.faults, hwf.schedule⟩, fun hheld => ⟨hheld, rfl⟩, id,
    [h], rfl, fun x hx => ?_⟩
  rw [List.mem_singleton.mp hx]
  exact ht

theorem handles_fail (e : Failure) : Moves Handles (fail e : Prog β BUF SESSIONS α) :=
  fun w => (sends_fail (P := fun _ _ => True) e w).handles

theorem handles_exec (x : Exec α) : Moves Handles (exec x : Prog β BUF SESSIONS α) :=
  fun w => (sends_exec (P := fun _ _ => True) x w).handles

/-- A call on the node that keeps its invariant and gains no address. -/
theorem handles_onNode {f : Node BUF SESSIONS → Exec (α × Node BUF SESSIONS)}
    (h : ∀ n a n', f n = .ok (a, n') → (n.WF → n'.WF)
      ∧ (n'.hasAddress = true → n.hasAddress = true ∧ n'.address = n.address)) :
    Moves Handles (onNode f : Prog β BUF SESSIONS α) := by
  intro w
  unfold onNode
  cases hf : f w.node with
  | error p => exact handles_fail _ w
  | ok x =>
    obtain ⟨a, n⟩ := x
    obtain ⟨hwf, hheld⟩ := h _ _ _ hf
    exact ⟨fun h => ⟨hwf h.node, h.etp, h.faults, h.schedule⟩, hheld, id, [],
      (List.append_nil _).symm, fun _ h => (by cases h)⟩

/-- A call on the extended reassembler that keeps its invariant. -/
theorem handles_onEtp {f : Etp.Reassembler etpBuffer 2 → Exec (α × Etp.Reassembler etpBuffer 2)}
    (h : ∀ r a r', f r = .ok (a, r') → r.WF → r'.WF) :
    Moves Handles (onEtp f : Prog β BUF SESSIONS α) := by
  intro w
  unfold onEtp
  cases hf : f w.etp with
  | error p => exact handles_fail _ w
  | ok x =>
    obtain ⟨a, r⟩ := x
    exact ⟨fun hwf => ⟨hwf.node, h _ _ _ hf hwf.etp, hwf.faults, hwf.schedule⟩, fun h => ⟨h, rfl⟩,
      id, [], (List.append_nil _).symm, fun _ h => (by cases h)⟩

/-- **A frame gives no address**: it can only take one away. -/
theorem held_onFrame {n n' : Node BUF SESSIONS} {f : Frame} {event : Event}
    (h : n.onFrame f = .ok (event, n')) (hheld : n'.hasAddress = true) :
    n.hasAddress = true ∧ n'.address = n.address := by
  have hsame : n'.claimer = n.claimer → n.hasAddress = true ∧ n'.address = n.address := by
    intro hclaimer
    unfold Node.hasAddress Node.claimState Node.address at *
    rw [hclaimer] at hheld ⊢
    exact ⟨hheld, rfl⟩
  rw [Node.onFrame_eq] at h
  cases hroute : n.route f with
  | ignore =>
    rw [hroute] at h
    cases h
    exact hsame rfl
  | claimRequest =>
    rw [hroute] at h
    have h' : n' = (n.actOnClaim (.announce n.claimer.currentClaim)).2 := by
      injection h with h
      exact (congrArg Prod.snd h).symm
    subst h'
    exact hsame (Node.actOnClaim_claimer n _)
  | connection cm =>
    rw [hroute] at h
    cases h
    exact hsame rfl
  | data dt =>
    rw [hroute] at h
    simp only [bind_eq_ok, Prod.exists, pure_eq_ok, Except.ok.injEq, Prod.mk.injEq] at h
    obtain ⟨outcome, r, -, -, rfl⟩ := h
    exact hsame rfl
  | application =>
    rw [hroute] at h
    cases h
    exact hsame rfl
  | addressClaimed name =>
    rw [hroute] at h
    have h' : n'.claimer = (n.claimer.onAddressClaimed f.sourceAddress name).2 := by
      injection h with h
      have hsnd := congrArg (fun x => x.2.claimer) h
      exact (hsnd.symm.trans (Node.actOnClaim_claimer _ _))
    unfold Node.hasAddress Node.claimState Node.address at *
    rw [h'] at hheld ⊢
    rcases n.claimer.onAddressClaimed_cases f.sourceAddress name with
      ⟨-, heq⟩ | ⟨-, -, heq⟩ | ⟨-, -, -, -, heq⟩ | ⟨-, -, -, -, next, -, -, heq⟩
      | ⟨-, -, -, -, -, heq⟩ <;> rw [heq] at hheld ⊢
    · exact ⟨hheld, rfl⟩
    · rw [AddressClaimer.heard_state] at hheld
      exact ⟨hheld, AddressClaimer.heard_address _ _⟩
    · rw [AddressClaimer.heard_state] at hheld
      exact ⟨hheld, AddressClaimer.heard_address _ _⟩
    · cases hheld
    · cases hheld

/-! ## §4. Frames of the extended protocol. -/

theorem onNode_ok {f : Node BUF SESSIONS → Exec (α × Node BUF SESSIONS)} {a : α}
    {n : Node BUF SESSIONS} (h : f w.node = .ok (a, n)) :
    (onNode f : Prog β BUF SESSIONS α) w = .ok a { w with node := n } := by
  simp only [onNode, h]

theorem onEtp_ok {f : Etp.Reassembler etpBuffer 2 → Exec (α × Etp.Reassembler etpBuffer 2)} {a : α}
    {r : Etp.Reassembler etpBuffer 2} (h : f w.etp = .ok (a, r)) :
    (onEtp f : Prog β BUF SESSIONS α) w = .ok a { w with etp := r } := by
  simp only [onEtp, h]

/-- The ECU once an address claim has been recorded. -/
def noted (f : Frame) (w : Watched β BUF SESSIONS) : Watched β BUF SESSIONS :=
  after (recordClaim f w)

/-- Recording a claim touches nothing but the inventory. -/
theorem recordClaim_run (f : Frame) (w : Watched β BUF SESSIONS) :
    recordClaim f w = .ok () (noted f w)
      ∧ noted f w = { w with inventory := (noted f w).inventory } := by
  unfold noted recordClaim
  split <;> exact ⟨rfl, rfl⟩

/-- The extended reassembler `r` answers a frame with `outcome`, and
becomes `r'`. -/
def Reassembles (f : Frame) (r : Etp.Reassembler etpBuffer 2) (outcome : Etp.Rx)
    (r' : Etp.Reassembler etpBuffer 2) : Prop :=
  (f.pgn = .etpCm ∧ ∃ cm, EtpCm.decode f.payload = .ok cm
      ∧ r.onEtpCm f.sourceAddress cm = .ok (outcome, r'))
    ∨ f.pgn = .etpDt ∧ r.onEtpDt f.sourceAddress (EtpDt.decode f.payload) = .ok (outcome, r')

/-- A frame of the extended transport protocol. -/
def IsExtended (f : Frame) : Prop := f.pgn = .etpCm ∨ f.pgn = .etpDt

instance (f : Frame) : Decidable (IsExtended f) := inferInstanceAs (Decidable (_ ∨ _))

/-- An extended frame that names nobody here, or makes no sense. -/
def Ignores (w : Watched β BUF SESSIONS) (f : Frame) : Prop :=
  f.id.isAddressedTo w.node.address = false
    ∨ f.pgn = .etpCm ∧ ∃ e, EtpCm.decode f.payload = .error e

/-- An extended frame is no address claim. -/
theorem noted_extended {f : Frame} (h : IsExtended f) : noted f w = w := by
  unfold noted recordClaim
  rw [if_neg]
  · rfl
  · rintro ⟨hclaim, -⟩
    rw [IsExtended, hclaim] at h
    exact absurd h (by decide)

/-- An extended frame is ignored, or its reassembler answers it: from a
well-formed table nothing panics. -/
theorem ignores_or_reassembles {f : Frame} (hetp : w.etp.WF) (hext : IsExtended f) :
    Ignores w f ∨ f.id.isAddressedTo w.node.address = true
      ∧ ∃ outcome r, Reassembles f w.etp outcome r ∧ r.WF := by
  cases haddr : f.id.isAddressedTo w.node.address with
  | false => exact Or.inl (Or.inl haddr)
  | true =>
    rcases hext with hcm | hdt
    · cases hdecode : EtpCm.decode f.payload with
      | error e => exact Or.inl (Or.inr ⟨hcm, e, hdecode⟩)
      | ok cm =>
        rcases Etp.Reassembler.onEtpCm_refines hetp f.sourceAddress cm with
          ⟨r, hok, hfocus⟩ | ⟨-, packets, offset, pgn, rfl, hwide⟩
        · exact Or.inr ⟨rfl, _, r, Or.inl ⟨hcm, cm, hdecode, hok⟩, hfocus.wf⟩
        · -- an offset off the wire is never that large
          have := Etp.Reassembler.offset_lt_of_decode hdecode
          omega
    · obtain ⟨r, hok, hfocus⟩ :=
        Etp.Reassembler.onEtpDt_refines hetp f.sourceAddress (EtpDt.decode f.payload)
      exact Or.inr ⟨rfl, _, r, Or.inr ⟨hdt, hok⟩, hfocus.wf⟩

theorem handles_recordClaim (f : Frame) :
    Moves Handles (recordClaim f : Prog β BUF SESSIONS Unit) := by
  intro w
  obtain ⟨hrun, hsame⟩ := recordClaim_run f w
  rw [hrun, after_ok, hsame]
  exact ⟨fun h => ⟨h.node, h.etp, h.faults, h.schedule⟩, fun h => ⟨h, rfl⟩, id, [],
    (List.append_nil _).symm, fun _ h => (by cases h)⟩

/-! ## §5. Dispatch. -/

variable [Bus β]

/-- Acting on a commanded address. -/
theorem obeys_commandedAddress (message : Message) :
    Moves Obeys (obeyCommandedAddress message : Prog β BUF SESSIONS Unit) := by
  intro w
  unfold obeyCommandedAddress
  split
  · have hmove : Obeys w { w with node := (w.node.onCommandedAddress message.data).2 } :=
      obeys_node (fun h => (h.step (i := .commandedAddress message.data) rfl).1)
        (w.node.onCommandedAddress_eq message.data).2 held_onCommandedAddress
    refine after_bind hmove fun answer w₁ hrun _ => ?_
    have hanswer : (w.node.onCommandedAddress message.data).1 = answer := by
      injection hrun
    cases answer with
    | error e => exact Obeys.refl w₁
    | ok claim =>
      cases claim with
      | none => exact Obeys.refl w₁
      | some claim =>
        have hpgn := pgn_of_onCommandedAddress hanswer
        refine (sends_frame (P := fun _ f => f.pgn = .addressClaimed) hpgn).obeys fun a f hf => ?_
        refine plain_of_pgn ?_ ?_ ?_ <;> rw [hf] <;> decide
  · exact Obeys.refl w

/-- Answering a diagnostic request. -/
theorem obeys_diagnosticRequest (requester : Address) (request : Request) :
    Moves Obeys (answerDiagnosticRequest requester request : Prog β BUF SESSIONS Bool) := by
  have hdm1 : Moves Obeys (sendDm1 : Prog β BUF SESSIONS Unit) := fun w =>
    (sends_dm1 w).obeys fun _ _ hf => hf.plain (by decide) (by decide)
  have hdm2 : Moves Obeys (sendDm2 : Prog β BUF SESSIONS Unit) := fun w =>
    (sends_dm2 w).obeys fun _ _ hf => hf.plain (by decide) (by decide)
  have hdm5 : Moves Obeys (sendDm5 : Prog β BUF SESSIONS Unit) := fun w =>
    (sends_dm5 w).obeys fun _ _ hf => hf.plain (by decide) (by decide)
  have hack : ∀ ack, Moves Obeys (acknowledge requester ack : Prog β BUF SESSIONS Unit) := by
    intro ack w
    refine (sends_acknowledge requester ack w).obeys fun a f hf => ?_
    refine plain_of_pgn ?_ ?_ ?_ <;> rw [hf] <;> decide
  unfold answerDiagnosticRequest
  split
  · exact hdm1.bind fun _ => Moves.pure _
  split
  · exact hdm2.bind fun _ => Moves.pure _
  split
  · exact hdm5.bind fun _ => Moves.pure _
  split
  · have hclear : Moves Obeys (modify fun w => { w with
        faults := w.faults.clearPreviouslyActive } : Prog β BUF SESSIONS Unit) :=
      fun w => obeys_faults fun h => h.apply .clearPreviouslyActive
    exact hclear.bind fun _ => Moves.get.bind fun w => (hack _).bind fun _ => Moves.pure _
  split
  · have hclear : Moves Obeys (modify fun w => { w with
        faults := w.faults.clearActive } : Prog β BUF SESSIONS Unit) :=
      fun w => obeys_faults fun h => h.apply .clearActive
    exact hclear.bind fun _ => Moves.get.bind fun w => (hack _).bind fun _ =>
      hdm1.bind fun _ => Moves.pure _
  · exact Moves.pure _

theorem obeys_request (message : Message) :
    Moves Obeys (obeyRequest message : Prog β BUF SESSIONS Unit) := by
  refine Moves.get.bind fun w => ?_
  split
  · cases Request.decode message.data with
    | ok request =>
      exact (obeys_diagnosticRequest message.source request).bind fun _ => Moves.pure _
    | error e => exact Moves.pure _
  · exact Moves.pure _

/-- What dispatching an extended frame comes to. -/
theorem dispatch_extended {f : Frame} (hext : IsExtended f) {x : Prog β BUF SESSIONS (Option Message)}
    (h : dispatchEtp f w = (do return some (← x)) w) : dispatch f w = x w := by
  have hrun := (recordClaim_run f w).1
  rw [noted_extended hext] at hrun
  show (recordClaim f >>= _) w = _
  rw [bind_ok hrun]
  show (dispatchEtp f >>= _) w = _
  rw [bind_run, h, bind_run]
  cases x w <;> rfl

/-- An extended frame that is not ignored reaches the reassembler. -/
theorem dispatchEtp_run {f : Frame} (hext : IsExtended f) :
    dispatchEtp f w = (
      if !f.id.isAddressedTo w.node.address then return some none
      else if f.pgn = .etpCm then
        match EtpCm.decode f.payload with
        | .ok cm => do
            let outcome ← onEtp fun r => r.onEtpCm f.sourceAddress cm
            return some (← actOnEtp f.sourceAddress outcome)
        | .error _ => return some none
      else do
        let outcome ← onEtp fun r => r.onEtpDt f.sourceAddress (EtpDt.decode f.payload)
        return some (← actOnEtp f.sourceAddress outcome) : Prog β BUF SESSIONS _) w := by
  have hgroup : ¬ (f.pgn ≠ .etpCm ∧ f.pgn ≠ .etpDt) := fun hne =>
    hext.elim (fun h => hne.1 h) fun h => hne.2 h
  unfold dispatchEtp
  rw [if_neg hgroup]
  rfl

theorem dispatch_ignored {f : Frame} (hext : IsExtended f) (h : Ignores w f) :
    dispatch f w = .ok none w := by
  refine dispatch_extended (x := pure none) hext ?_
  rw [dispatchEtp_run hext]
  cases haddr : f.id.isAddressedTo w.node.address with
  | false => rfl
  | true =>
    obtain ⟨hcm, e, hdecode⟩ := h.resolve_left (by rw [haddr]; exact Bool.noConfusion)
    rw [Bool.not_true, if_neg Bool.false_ne_true, if_pos hcm, hdecode]
    rfl

/-- **An extended frame for this ECU** is acted on as its reassembler
says. -/
theorem dispatch_reassembles {f : Frame} {outcome : Etp.Rx} {r : Etp.Reassembler etpBuffer 2}
    (haddr : f.id.isAddressedTo w.node.address = true) (h : Reassembles f w.etp outcome r) :
    dispatch f w = actOnEtp f.sourceAddress outcome { w with etp := r } := by
  have hext : IsExtended f := h.imp (fun h => h.1) fun h => h.1
  refine dispatch_extended (x := fun _ => actOnEtp f.sourceAddress outcome { w with etp := r })
    hext ?_
  rw [dispatchEtp_run hext, haddr, Bool.not_true, if_neg Bool.false_ne_true]
  rcases h with ⟨hcm, cm, hdecode, hcall⟩ | ⟨hdt, hcall⟩
  · rw [if_pos hcm, hdecode]
    exact bind_ok (onEtp_ok hcall)
  · have hne : f.pgn ≠ .etpCm := by
      rw [hdt]
      decide
    rw [if_neg hne]
    exact bind_ok (onEtp_ok hcall)

/-- **Any other frame** is acted on as the node says. -/
theorem dispatch_node {f : Frame} {event : Event} {n : Node BUF SESSIONS} (hext : ¬ IsExtended f)
    (h : w.node.onFrame f = .ok (event, n)) :
    dispatch f w = actOnEvent event { noted f w with node := n } := by
  obtain ⟨hrun, hsame⟩ := recordClaim_run f w
  have hnode : (noted f w).node = w.node := by rw [hsame]
  have hetp : dispatchEtp f (noted f w) = .ok none (noted f w) := by
    have hgroup : f.pgn ≠ .etpCm ∧ f.pgn ≠ .etpDt :=
      ⟨fun h => hext (Or.inl h), fun h => hext (Or.inr h)⟩
    unfold dispatchEtp
    rw [if_pos hgroup]
    rfl
  show (recordClaim f >>= _) w = _
  rw [bind_ok hrun]
  show (dispatchEtp f >>= _) (noted f w) = _
  rw [bind_ok hetp]
  rw [← hnode] at h
  exact bind_ok (onNode_ok h)

/-- **Acting on an event gives no address and lets no time pass.** -/
theorem handles_actOnEvent (event : Event) :
    Moves Handles (actOnEvent event : Prog β BUF SESSIONS (Option Message)) := by
  have hsend : ∀ f, Moves Handles (sendFrame f : Prog β BUF SESSIONS Unit) := fun f w =>
    (sends_frame (P := fun _ _ => True) trivial).handles
  cases event with
  | idle => exact Moves.pure _
  | transmit reply => exact (hsend reply).bind fun _ => Moves.pure _
  | message pgn source data reply =>
    refine (handles_record id).bind fun _ => ?_
    refine (Moves.forM fun f _ => hsend f).bind fun _ => ?_
    refine ((obeys_commandedAddress _).weaken fun _ _ h => h.handles).bind fun _ => ?_
    refine ((obeys_dm13 _).weaken fun _ _ h => h.handles).bind fun _ => ?_
    refine ((obeys_request _).weaken fun _ _ h => h.handles).bind fun _ => ?_
    exact Moves.pure _

theorem handles_actOnEtp (source : Address) (outcome : Etp.Rx) :
    Moves Handles (actOnEtp source outcome : Prog β BUF SESSIONS (Option Message)) := by
  refine (Moves.forM fun m _ => handles_record id).bind fun _ => ?_
  refine (Moves.forM fun cm _ => (sends_etpCm source cm).weaken fun _ _ h => h.handles).bind
    fun _ => ?_
  exact Moves.pure _

theorem handles_dispatchEtp (f : Frame) :
    Moves Handles (dispatchEtp f : Prog β BUF SESSIONS (Option (Option Message))) := by
  have hact : ∀ outcome, Moves Handles (do
      return some (← actOnEtp f.sourceAddress outcome)
        : Prog β BUF SESSIONS (Option (Option Message))) :=
    fun outcome => (handles_actOnEtp f.sourceAddress outcome).bind fun _ => Moves.pure _
  unfold dispatchEtp
  split
  · exact Moves.pure _
  refine Moves.get.bind fun w => ?_
  split
  · exact Moves.pure _
  split
  · cases EtpCm.decode f.payload with
    | error e => exact Moves.pure _
    | ok cm =>
      refine (handles_onEtp fun r a r' hr hwf => ?_).bind hact
      have hstep : r.step (.etpCm f.sourceAddress cm) = .ok (.rx a, r') := by
        simp only [Etp.Reassembler.step, hr, ok_bind, pure_eq_ok]
      exact hwf.step hstep
  · refine (handles_onEtp fun r a r' hr hwf => ?_).bind hact
    have hstep : r.step (.etpDt f.sourceAddress (EtpDt.decode f.payload)) = .ok (.rx a, r') := by
      simp only [Etp.Reassembler.step, hr, ok_bind, pure_eq_ok]
    exact hwf.step hstep

/-- **Dispatching a frame gives no address and lets no time pass.** -/
theorem handles_dispatch (f : Frame) :
    Moves Handles (dispatch f : Prog β BUF SESSIONS (Option Message)) := by
  refine (handles_recordClaim f).bind fun _ => (handles_dispatchEtp f).bind fun message => ?_
  cases message with
  | some message => exact Moves.pure _
  | none =>
    refine (handles_onNode fun n event n' hn => ⟨fun hwf => ?_, held_onFrame hn⟩).bind
      handles_actOnEvent
    have hstep : n.step (.frame f) = .ok (.event event, n') := by
      simp only [Node.step, hn, ok_bind, pure_eq_ok]
    exact (hwf.step hstep).1

end Ecu

end SaeJ1939.Host
