/-
  SaeJ1939.Node.Destinations — broadcast and addressed transfers of one peer.

  A peer may run a broadcast and an addressed transfer at the same time,
  but the reassembler knows it by its source address only, and the node
  does not look at the destination of a data packet.  `Unmixed` says what
  a run owes to destinations; `mixes` marks the steps at which the code
  lets a frame of one kind act on a transfer of the other.

  Main results:
    * `packet_step` — what one input does to a peer's transfer, with the
      frame that did it.
    * `remembered` — along a run without mixing steps, an open transfer
      remembers its announcement and packets, all sent to one destination.
    * `unmixed_of_no_mixing` — such a run never mixes two destinations in
      one message.
    * `global_packet_advances_connection` — a run with a mixing step does.
-/
import SaeJ1939.Node.Safety

namespace SaeJ1939.Node

open Checked Tp

variable {BUF SESSIONS : Nat}

/-! ## §1. Frames of a transfer. -/

/-- The call an entry makes on the reassembler, with its reply. -/
def received (e : Entry BUF SESSIONS) : Option (Reassembler.Entry BUF SESSIONS) :=
  match e.before.callOf e.event with
  | none => none
  | some c =>
      match Reassembler.step e.before.reassembler c with
      | .ok (reply, r) => some ⟨e.before.reassembler, c, reply, r⟩
      | .error _ => none

/-- Whether an entry makes the reassembler accept an announcement of
`peer`. -/
def accepts (peer : Address) (e : Entry BUF SESSIONS) : Bool :=
  (received e).any (Reassembler.accepts peer)

/-- The data packet an entry brings from `peer`, if it does. -/
def packetOf (peer : Address) (e : Entry BUF SESSIONS) : Option TpDt :=
  (received e).bind (Reassembler.packetOf peer)

/-- Every data packet that entries bring from `peer` was sent to everybody
(`toAll`), or every one of them to this node alone. -/
def PacketsSentTo (toAll : Bool) (peer : Address) (tr : List (Entry BUF SESSIONS)) : Prop :=
  ∀ e ∈ tr, ∀ f dt, e.event = .frame f → e.before.route f = .data dt → f.sourceAddress = peer →
    f.id.isBroadcast = toAll

/-- What a message delivered for `peer` by the last entry of `tr` is built
from: an accepted announcement and all packets since, every one sent to
the same destination, namely to everybody exactly if the announcement was
a BAM. -/
def BuiltFromOneTransfer (peer : Address) (tr : List (Entry BUF SESSIONS)) (pgn : Pgn)
    (data : List UInt8) : Prop :=
  ∃ before a since f cm packets, tr = before ++ a :: since ∧ a.event = .frame f
    ∧ a.before.route f = .connection cm ∧ f.sourceAddress = peer ∧ accepts peer a = true
    ∧ (∀ e ∈ since, accepts peer e = false)
    ∧ ((cm = .bam data.length packets pgn ∧ f.id.isBroadcast = true ∧ PacketsSentTo true peer since)
      ∨ (∃ maxPacketsPerCts, cm = .rts data.length packets maxPacketsPerCts pgn)
        ∧ f.id.isBroadcast = false ∧ PacketsSentTo false peer since)
    ∧ (since.filterMap (packetOf peer)).map TpDt.sequence = List.range' 1 packets
    ∧ data = ((since.filterMap (packetOf peer)).flatMap TpDt.bytes).take data.length

/-- **A run that never mixes two destinations in one message.** -/
structure Unmixed (tr : List (Entry BUF SESSIONS)) : Prop where
  /-- A reassembled message is built from frames of one transfer. -/
  messages : ∀ pre e post f dt pgn source data reply, tr = pre ++ e :: post → e.event = .frame f →
    e.before.route f = .data dt → e.out = .event (.message pgn source data reply) →
    BuiltFromOneTransfer f.sourceAddress (pre ++ [e]) pgn data
  /-- A globally addressed packet leaves the peer's connection-managed
  session alone. -/
  connections : ∀ e ∈ tr, ∀ f dt i s, e.event = .frame f → e.before.route f = .data dt →
    (e.before.reassembler.slots i).session = some s → s.source = f.sourceAddress →
    s.broadcast = false → f.id.isBroadcast = true →
    ∃ j, (e.after.reassembler.slots j).session = some s
  /-- An addressed packet does not advance the peer's broadcast session. -/
  broadcasts : ∀ e ∈ tr, ∀ f dt i s, e.event = .frame f → e.before.route f = .data dt →
    (e.before.reassembler.slots i).session = some s → s.source = f.sourceAddress →
    s.broadcast = true → f.id.isBroadcast = false →
    e.out = .event .idle ∧ ∀ j s', (e.after.reassembler.slots j).session = some s' →
      s'.source = s.source → s'.nextSequence ≤ s.nextSequence

/-- **A step at which a frame of one kind acts on a transfer of the
other**: a globally addressed packet meets its peer's connection-managed
session, an addressed packet is the one its peer's broadcast session is
waiting for, or a BAM sent to this node alone is accepted. -/
def mixes (e : Entry BUF SESSIONS) : Bool :=
  match e.event with
  | .frame f =>
      match e.before.route f with
      | .data dt =>
          (e.before.reassembler.sessionOf f.sourceAddress).any fun s =>
            if s.broadcast then !f.id.isBroadcast && dt.sequence == s.nextSequence
            else f.id.isBroadcast
      | .connection (.bam size packets _) =>
          !f.id.isBroadcast && validAnnouncement size packets && size ≤ BUF
            && e.before.reassembler.room f.sourceAddress
      | _ => false
  | _ => false

/-! ## §2. One input. -/

variable {n n' : Node BUF SESSIONS} {i : Input} {out : Output}

/-- An RTS that reaches the reassembler was sent to this node alone. -/
theorem isBroadcast_of_rts {f : Frame} {size packets maxPacketsPerCts : Nat} {pgn : Pgn}
    (h : n.route f = .connection (.rts size packets maxPacketsPerCts pgn)) :
    f.id.isBroadcast = false := by
  unfold route at h
  split at h
  · cases h
  · split at h
    · cases h
    · split at h
      · cases h
      · split at h
        · split at h
          · split at h
            · cases h
            next hb =>
              cases h
              simpa [isBroadcastRts] using hb
          · cases h
        · split at h <;> cases h

/-- The call made on the reassembler, for an input that makes one. -/
theorem received_of_step {c : Reassembler.Call} {reply : Reassembler.Reply}
    (hcall : n.callOf i = some c)
    (hstep : Reassembler.step n.reassembler c = .ok (reply, n'.reassembler)) :
    received ⟨n, i, out, n'⟩ = some ⟨n.reassembler, c, reply, n'.reassembler⟩ := by
  unfold received
  dsimp only
  rw [hcall]
  dsimp only
  rw [hstep]

theorem received_of_no_call (hcall : n.callOf i = none) :
    received (⟨n, i, out, n'⟩ : Entry BUF SESSIONS) = none := by
  unfold received
  dsimp only
  rw [hcall]

theorem callOf_tpCm {source : Address} {cm : TpCm} (h : n.callOf i = some (.tpCm source cm)) :
    ∃ f, i = .frame f ∧ n.route f = .connection cm ∧ f.sourceAddress = source := by
  unfold callOf at h
  cases i with
  | frame f =>
    dsimp only at h
    cases hroute : n.route f with
    | connection cm' =>
      rw [hroute] at h
      cases h
      exact ⟨f, rfl, hroute, rfl⟩
    | ignore | addressClaimed | claimRequest | data | application =>
      rw [hroute] at h
      cases h
  | tick | start | commandedAddress | giveUpAddress => cases h

theorem callOf_tpDt {source : Address} {dt : TpDt} :
    n.callOf i = some (.tpDt source dt) ↔
      ∃ f, i = .frame f ∧ n.route f = .data dt ∧ f.sourceAddress = source := by
  constructor
  · intro h
    unfold callOf at h
    cases i with
    | frame f =>
      dsimp only at h
      cases hroute : n.route f with
      | data dt' =>
        rw [hroute] at h
        cases h
        exact ⟨f, rfl, hroute, rfl⟩
      | ignore | addressClaimed | claimRequest | connection | application =>
        rw [hroute] at h
        cases h
    | tick | start | commandedAddress | giveUpAddress => cases h
  · rintro ⟨f, rfl, hroute, rfl⟩
    unfold callOf
    dsimp only
    rw [hroute]

/-- Only a data packet of `peer` is one. -/
theorem event_of_packetOf {peer : Address} {e : Reassembler.Entry BUF SESSIONS} {dt : TpDt}
    (h : Reassembler.packetOf peer e = some dt) : e.event = .tpDt peer dt := by
  unfold Reassembler.packetOf at h
  split at h
  next source dt' hev =>
    split at h
    next hsrc =>
      cases h
      rw [hev, hsrc]
    next => cases h
  next => cases h

/-- **What one input does to a peer's transfer**, with the frame that did
it: it opens one by an accepted announcement, or what is open afterwards
was open before, one packet further if the frame brought one. -/
theorem packet_step (h : n.WF) (hstep : step n i = .ok (out, n')) (peer : Address) :
    (accepts peer ⟨n, i, out, n'⟩ = true ∧ ∃ f cm t', i = .frame f ∧ n.route f = .connection cm
        ∧ f.sourceAddress = peer ∧ n'.reassembler.transferOf peer = some t'
        ∧ Reassembler.Announces cm t'.session ∧ t'.session.nextSequence = 1 ∧ t'.received = [])
      ∨ (accepts peer ⟨n, i, out, n'⟩ = false ∧ ∀ t', n'.reassembler.transferOf peer = some t' →
        ∃ t, n.reassembler.transferOf peer = some t
          ∧ Reassembler.SameTransfer t.session t'.session
          ∧ ((packetOf peer ⟨n, i, out, n'⟩ = none
                ∧ (∀ f dt, i = .frame f → n.route f = .data dt → f.sourceAddress ≠ peer)
                ∧ t'.session.nextSequence = t.session.nextSequence ∧ t'.received = t.received)
            ∨ ∃ f dt, i = .frame f ∧ n.route f = .data dt ∧ f.sourceAddress = peer
                ∧ packetOf peer ⟨n, i, out, n'⟩ = some dt ∧ dt.sequence = t.session.nextSequence
                ∧ t'.session.nextSequence = t.session.nextSequence + 1
                ∧ t'.received = t.received ++ dt.bytes)) := by
  have hspec := (h.step hstep).2
  cases hcall : n.callOf i with
  | none =>
    -- the reassembler is not involved
    rw [hcall] at hspec
    dsimp only at hspec
    have hrec : received (⟨n, i, out, n'⟩ : Entry BUF SESSIONS) = none :=
      received_of_no_call hcall
    refine Or.inr ⟨by rw [accepts, hrec]; rfl, fun t' ht' => ?_⟩
    rw [hspec] at ht'
    refine ⟨t', ht', .refl _, Or.inl ⟨by rw [packetOf, hrec]; rfl, ?_, rfl, rfl⟩⟩
    intro f dt hi hroute _
    rw [callOf_tpDt.mpr ⟨f, hi, hroute, rfl⟩] at hcall
    cases hcall
  | some c =>
    rw [hcall] at hspec
    obtain ⟨reply, hrstep, -, -⟩ := hspec
    have hrec : received ⟨n, i, out, n'⟩ = some ⟨n.reassembler, c, reply, n'.reassembler⟩ :=
      received_of_step hcall hrstep
    rw [accepts, packetOf, hrec, Option.any_some, Option.bind_some]
    rcases Reassembler.accepted_or_kept h.receiver hrstep peer with
      ⟨hacc, cm, t', rfl, ht', hann, hnext, hbytes, -⟩ | ⟨hacc, hkept⟩
    · obtain ⟨f, hi, hroute, hsrc⟩ := callOf_tpCm hcall
      exact Or.inl ⟨hacc, f, cm, t', hi, hroute, hsrc, ht', hann, hnext, hbytes⟩
    · refine Or.inr ⟨hacc, fun t' ht' => ?_⟩
      obtain ⟨t, ht, hsame, hpacket⟩ := hkept t' ht'
      refine ⟨t, ht, hsame, ?_⟩
      rcases hpacket with ⟨hnone, hnext, hbytes⟩ | ⟨dt, hsome, hseq, hnext, hbytes⟩
      · refine Or.inl ⟨hnone, ?_, hnext, hbytes⟩
        intro f dt hi hroute hsrc
        rw [callOf_tpDt.mpr ⟨f, hi, hroute, hsrc⟩, Option.some.injEq] at hcall
        subst hcall
        simp [Reassembler.packetOf] at hnone
      · have hc : c = .tpDt peer dt := event_of_packetOf hsome
        subst hc
        obtain ⟨f, hi, hroute, hsrc⟩ := callOf_tpDt.mp hcall
        exact Or.inr ⟨f, dt, hi, hroute, hsrc, hsome, hseq, hnext, hbytes⟩

/-! ## §3. What an open transfer remembers. -/

/-- The history of a peer behind its open transfer: its announcement and
the packets since, all sent to the same destination. -/
def Remembered (peer : Address) (tr : List (Entry BUF SESSIONS)) (t : Transfer) : Prop :=
  ∃ before a since f cm, tr = before ++ a :: since ∧ a.event = .frame f
    ∧ a.before.route f = .connection cm ∧ f.sourceAddress = peer ∧ accepts peer a = true
    ∧ (∀ e ∈ since, accepts peer e = false) ∧ Reassembler.Announces cm t.session
    ∧ f.id.isBroadcast = t.session.broadcast ∧ PacketsSentTo t.session.broadcast peer since
    ∧ (since.filterMap (packetOf peer)).map TpDt.sequence
        = List.range' 1 (t.session.nextSequence - 1)
    ∧ (since.filterMap (packetOf peer)).flatMap TpDt.bytes = t.received

/-- An accepted announcement was sent to everybody exactly if it was a
BAM, at a step that does not mix. -/
theorem announcement_destination {f : Frame} {cm : TpCm} {s : Session}
    (hroute : n.route f = .connection cm) (hann : Reassembler.Announces cm s)
    (hacc : accepts f.sourceAddress ⟨n, .frame f, out, n'⟩ = true)
    (hmix : mixes ⟨n, .frame f, out, n'⟩ = false) : f.id.isBroadcast = s.broadcast := by
  rcases hann with ⟨rfl, hbc⟩ | ⟨maxPacketsPerCts, rfl, hbc⟩
  · rw [hbc]
    -- what accepting a BAM means
    have hcall : n.callOf (.frame f)
        = some (.tpCm f.sourceAddress (.bam s.size s.packets s.pgn)) := by
      unfold callOf
      dsimp only
      rw [hroute]
    unfold accepts received at hacc
    dsimp only at hacc
    rw [hcall] at hacc
    simp only [Reassembler.step, Option.any_some, Reassembler.accepts, Bool.and_eq_true,
      decide_eq_true_eq] at hacc
    unfold mixes at hmix
    dsimp only at hmix
    rw [hroute] at hmix
    simpa [hacc.1.1.2, hacc.1.2, hacc.2] using hmix
  · rw [hbc]
    exact isBroadcast_of_rts hroute

/-- A packet that continues a transfer was sent where its announcement
was, at a step that does not mix. -/
theorem packet_destination {f : Frame} {dt : TpDt} {t : Transfer}
    (hroute : n.route f = .data dt) (ht : n.reassembler.transferOf f.sourceAddress = some t)
    (hseq : dt.sequence = t.session.nextSequence) (hmix : mixes ⟨n, .frame f, out, n'⟩ = false) :
    f.id.isBroadcast = t.session.broadcast := by
  unfold mixes at hmix
  dsimp only at hmix
  rw [hroute, Reassembler.sessionOf_eq, ht] at hmix
  cases hbc : t.session.broadcast with
  | false => simpa [hbc] using hmix
  | true => simpa [hbc, hseq] using hmix

/-- **Along every run that does not mix, open transfers remember where
their frames were sent.** -/
theorem remembered {name : Name} {preferred : Address} {tr : List (Entry BUF SESSIONS)}
    {n : Node BUF SESSIONS} (h : Machine.Trace step (new name preferred) tr n)
    (hmix : ∀ e ∈ tr, mixes e = false) (peer : Address) :
    n.WF ∧ ∀ t, n.reassembler.transferOf peer = some t → Remembered peer tr t := by
  induction h with
  | nil =>
    refine ⟨wf_new name preferred, fun t ht => ?_⟩
    rw [show (new name preferred : Node BUF SESSIONS).reassembler = Reassembler.new from rfl,
      Reassembler.transferOf_new] at ht
    cases ht
  | @snoc tr n n' i out _ hstep ih =>
    obtain ⟨hn, hmem⟩ := ih fun e he => hmix e (List.mem_append_left _ he)
    have hlast : mixes ⟨n, i, out, n'⟩ = false := hmix _ (by simp)
    refine ⟨(hn.step hstep).1, fun t' ht' => ?_⟩
    rcases packet_step hn hstep peer with
      ⟨hacc, f, cm, t₁, rfl, hroute, rfl, ht₁, hann, hnext, hbytes⟩ | ⟨hacc, hkept⟩
    · -- the history starts here
      rw [ht', Option.some.injEq] at ht₁
      subst ht₁
      refine ⟨tr, _, [], f, cm, rfl, rfl, hroute, rfl, hacc, by simp, hann,
        announcement_destination hroute hann hacc hlast, ?_, by simp [hnext], by simp [hbytes]⟩
      intro e he
      cases he
    · -- the history grows by this input
      obtain ⟨t, ht, hsame, hpacket⟩ := hkept t' ht'
      obtain ⟨before, a, since, f, cm, rfl, hev, hroute, hsrc, ha, hsince, hann, hdest, hsent,
        hseq, hbytes⟩ := hmem t ht
      refine ⟨before, a, since ++ [⟨n, i, out, n'⟩], f, cm, by simp, hev, hroute, hsrc, ha, ?_,
        hsame.announces hann, hsame.broadcast ▸ hdest, ?_, ?_, ?_⟩
      · intro e he
        rcases List.mem_append.mp he with he | he
        · exact hsince e he
        · rw [List.mem_singleton.mp he]
          exact hacc
      · rw [hsame.broadcast]
        intro e he g dt hg hgroute hgsrc
        rcases List.mem_append.mp he with he | he
        · exact hsent e he g dt hg hgroute hgsrc
        · rw [List.mem_singleton.mp he] at hg hgroute
          rcases hpacket with ⟨-, hno, -, -⟩ | ⟨f', dt', hf', hroute', hsrc', -, hdt, -, -⟩
          · exact absurd hgsrc (hno g dt hg hgroute)
          · -- the packet that arrived
            subst hf'
            cases hg
            subst hsrc'
            exact packet_destination hroute' ht hdt hlast
      · rcases hpacket with ⟨hnone, -, hnext, -⟩ | ⟨_, dt, -, -, -, hsome, hdt, hnext, -⟩
        · simp [List.filterMap_append, hnone, hseq, hnext]
        · have hpos := (hn.receiver.session_of_transferOf ht).next_pos
          simp only [List.filterMap_append, List.filterMap_cons, hsome, List.filterMap_nil,
            List.map_append, List.map_cons, List.map_nil, hseq, hnext, hdt]
          rw [Nat.add_sub_cancel, ← Nat.sub_add_cancel hpos, List.range'_concat]
          simp
          omega
      · rcases hpacket with ⟨hnone, -, -, hrec⟩ | ⟨_, dt, -, -, -, hsome, -, -, hrec⟩
        · simp [List.filterMap_append, hnone, hbytes, hrec]
        · simp [List.filterMap_append, hsome, hbytes, hrec]

/-! ## §4. Whole runs. -/

/-- The peer's session, seen in a slot. -/
theorem sessionOf_of_slot {r : Reassembler BUF SESSIONS} (hr : r.WF) {j : Fin SESSIONS}
    {s : Session} (hs : (r.slots j).session = some s) : r.sessionOf s.source = some s := by
  obtain ⟨received, ht⟩ := Reassembler.transferOf_of_session hr hs
  rw [Reassembler.sessionOf_eq, ht]
  rfl

/-- At a step that does not mix, an addressed packet that meets a broadcast
session is out of order, and the session is dropped in silence. -/
theorem broadcast_dropped (h : n.WF) {f : Frame} {dt : TpDt} {s : Session} {j : Fin SESSIONS}
    (hstep : step n (.frame f) = .ok (out, n')) (hroute : n.route f = .data dt)
    (hs : (n.reassembler.slots j).session = some s) (hsrc : s.source = f.sourceAddress)
    (hbc : s.broadcast = true) (hseq : dt.sequence ≠ s.nextSequence) :
    out = .event .idle ∧ n'.reassembler.transferOf f.sourceAddress = none := by
  obtain ⟨received, ht⟩ := Reassembler.transferOf_of_session h.receiver hs
  obtain ⟨r', hok, hfocus⟩ := Reassembler.onTpDt_refines h.receiver f.sourceAddress dt
  rw [hsrc] at ht
  simp only [ht, Transfer.onDt, hseq, ne_eq, not_false_eq_true, if_true, hbc] at hok hfocus
  simp only [Node.step, onFrame_eq, hroute, hok, ok_bind, pure_eq_ok, Except.ok.injEq,
    Prod.mk.injEq] at hstep
  obtain ⟨rfl, rfl⟩ := hstep
  exact ⟨rfl, hfocus.self⟩

/-- An entry that brings a data packet to the reassembler. -/
theorem packetOf_data (h : n.WF) {f : Frame} {dt : TpDt}
    (hstep : step n (.frame f) = .ok (out, n')) (hroute : n.route f = .data dt) :
    packetOf f.sourceAddress ⟨n, .frame f, out, n'⟩ = some dt
      ∧ accepts f.sourceAddress ⟨n, .frame f, out, n'⟩ = false := by
  have hcall : n.callOf (.frame f) = some (.tpDt f.sourceAddress dt) :=
    callOf_tpDt.mpr ⟨f, rfl, hroute, rfl⟩
  have hspec := (h.step hstep).2
  rw [hcall] at hspec
  obtain ⟨reply, hrstep, -, -⟩ := hspec
  rw [packetOf, accepts, received_of_step hcall hrstep, Option.bind_some, Option.any_some]
  exact ⟨by simp [Reassembler.packetOf], rfl⟩

/-- The message a data packet completes is built from the transfer its
history remembers. -/
theorem built_of_message {tr : List (Entry BUF SESSIONS)} {f : Frame} {dt : TpDt} {pgn : Pgn}
    {source : Address} {data : List UInt8} {reply : Option Frame}
    (hmem : n.WF ∧ ∀ t, n.reassembler.transferOf f.sourceAddress = some t →
      Remembered f.sourceAddress tr t)
    (hstep : step n (.frame f) = .ok (.event (.message pgn source data reply), n'))
    (hroute : n.route f = .data dt)
    (hmix : mixes ⟨n, .frame f, .event (.message pgn source data reply), n'⟩ = false) :
    BuiltFromOneTransfer f.sourceAddress
      (tr ++ [⟨n, .frame f, .event (.message pgn source data reply), n'⟩]) pgn data := by
  obtain ⟨hwf, hmem⟩ := hmem
  obtain ⟨hpacket, hacc⟩ := packetOf_data hwf hstep hroute
  -- what the reassembler delivered
  obtain ⟨r', hok, -⟩ := Reassembler.onTpDt_refines hwf.receiver f.sourceAddress dt
  have hframe := hstep
  simp only [Node.step, onFrame_eq, hroute, hok, ok_bind, pure_eq_ok, Except.ok.injEq,
    Prod.mk.injEq, Output.event.injEq] at hframe
  obtain ⟨ack, hrx, -⟩ := lift_eq_message hframe.1
  obtain ⟨t, ht, hseq, hlast, hpgn, -, hdata, -⟩ := Reassembler.onDt_message hrx
  have hs := hwf.receiver.session_of_transferOf ht
  have hlen : data.length = t.session.size := by
    have hb := packetCount_bounds hs.size_ge hs.size_le
    have hp := hs.packets_eq
    rw [hdata, List.length_take, List.length_append, hwf.receiver.received_length ht,
      TpDt.bytes_length]
    omega
  -- where it came from
  obtain ⟨before, a, since, g, cm, rfl, hev, haroute, hsrc, ha, hsince, hann, hdest, hsent, hnums,
    hbytes⟩ := hmem t ht
  have hdest' := packet_destination hroute ht hseq hmix
  refine ⟨before, a, since ++ [⟨n, .frame f, .event (.message pgn source data reply), n'⟩], g, cm,
    t.session.packets, by simp, hev, haroute, hsrc, ha, ?_, ?_, ?_, ?_⟩
  · intro e he
    rcases List.mem_append.mp he with he | he
    · exact hsince e he
    · rw [List.mem_singleton.mp he]
      exact hacc
  · -- every packet went where the announcement went
    have hall : PacketsSentTo t.session.broadcast f.sourceAddress
        (since ++ [⟨n, .frame f, .event (.message pgn source data reply), n'⟩]) := by
      intro e he g' dt' hg' hroute' hsrc'
      rcases List.mem_append.mp he with he | he
      · exact hsent e he g' dt' hg' hroute' hsrc'
      · rw [List.mem_singleton.mp he] at hg'
        cases hg'
        exact hdest'
    rw [hlen]
    rcases hann with ⟨rfl, hbc⟩ | ⟨maxPacketsPerCts, rfl, hbc⟩
    · rw [hbc] at hall hdest
      exact Or.inl ⟨by rw [hpgn], hdest, hall⟩
    · rw [hbc] at hall hdest
      exact Or.inr ⟨⟨maxPacketsPerCts, by rw [hpgn]⟩, hdest, hall⟩
  · have hpos := hs.next_pos
    simp only [List.filterMap_append, List.filterMap_cons, hpacket, List.filterMap_nil,
      List.map_append, List.map_cons, List.map_nil, hnums]
    rw [← hlast, hseq, ← Nat.sub_add_cancel hpos, List.range'_concat]
    simp
    omega
  · rw [hlen, List.filterMap_append, List.flatMap_append, hbytes]
    simpa [hpacket] using hdata

/-- **A run in which no step mixes never mixes two destinations in one
message.** -/
theorem unmixed_of_no_mixing {name : Name} {preferred : Address} {inputs : List Input}
    {tr : List (Entry BUF SESSIONS)} {n : Node BUF SESSIONS}
    (hrun : Machine.run step (new name preferred) inputs = .ok (tr, n))
    (hmix : ∀ e ∈ tr, mixes e = false) : Unmixed tr := by
  have h₀ : (new name preferred : Node BUF SESSIONS).WF := wf_new name preferred
  refine ⟨?_, ?_, ?_⟩
  · rintro pre ⟨n₀, i, out, n₁⟩ post f dt pgn source data reply htr hev hroute hout
    simp only at hev hout
    subst hev hout
    obtain ⟨hpre, hwf, hstep⟩ := entry_of_run h₀ hrun htr
    exact built_of_message (remembered hpre (fun e he => hmix e (by simp [htr, he])) _) hstep
      hroute (hmix _ (by simp [htr]))
  · intro e he f dt i s hev hroute hs hsrc hbc hall
    -- such a step mixes
    obtain ⟨pre, post, htr⟩ := List.append_of_mem he
    obtain ⟨-, hwf, -⟩ := entry_of_run h₀ hrun htr
    have hno := hmix e he
    unfold mixes at hno
    rw [hev] at hno
    dsimp only at hno
    rw [hroute, ← hsrc, sessionOf_of_slot hwf.receiver hs] at hno
    simp [hbc, hall] at hno
  · intro e he f dt i s hev hroute hs hsrc hbc hone
    obtain ⟨pre, post, htr⟩ := List.append_of_mem he
    obtain ⟨-, hwf, hstep⟩ := entry_of_run h₀ hrun htr
    have hno := hmix e he
    unfold mixes at hno
    rw [hev] at hno hstep
    dsimp only at hno hstep
    rw [hroute, ← hsrc, sessionOf_of_slot hwf.receiver hs] at hno
    simp only [Option.any_some, hbc, if_true, hone, Bool.not_false, Bool.true_and,
      beq_eq_false_iff_ne, ne_eq] at hno
    obtain ⟨hout, hnone⟩ := broadcast_dropped hwf hstep hroute hs hsrc hbc hno
    refine ⟨hout, fun j s' hs' hsrc' => ?_⟩
    -- nothing is left of that peer
    obtain ⟨received, ht'⟩ := Reassembler.transferOf_of_session (hwf.step hstep).1.receiver hs'
    rw [hsrc', hsrc, hnone] at ht'
    cases ht'

/-- A connection-management frame from `0x10` to the node at `0x80`. -/
def cmFrame (cm : TpCm) : Frame := Frame.fromPayload ⟨0x1CEC8010, by decide⟩ cm.encode

/-- A data packet from `0x10` to the node at `0x80`. -/
def dtFrame (dt : TpDt) : Frame := Frame.fromPayload ⟨0x1CEB8010, by decide⟩ dt.encode

/-- A data packet from `0x10` to everybody. -/
def dtGlobalFrame (dt : TpDt) : Frame := Frame.fromPayload ⟨0x1CEBFF10, by decide⟩ dt.encode

/-- An addressed transfer of nine bytes. -/
theorem unmixed_addressed_transfer :
    let inputs : List Input := [.start, .tick 250, .frame (cmFrame (.rts 9 2 0xFF .dm1)),
      .frame (dtFrame (.new 1 [])), .frame (dtFrame (.new 2 []))]
    ∃ tr, ∃ n : Node 16 1, Machine.run step (new ⟨1⟩ ⟨0x80⟩) inputs = .ok (tr, n)
      ∧ (∃ e ∈ tr, ∃ reply,
          e.out = .event (.message .dm1 ⟨0x10⟩ (List.replicate 9 fill) reply))
      ∧ Unmixed tr := by
  intro inputs
  obtain ⟨tr, n, hrun, -⟩ := run_ok (wf_new ⟨1⟩ ⟨0x80⟩ : (new ⟨1⟩ ⟨0x80⟩ : Node 16 1).WF) inputs
  have hall : (Machine.run step (new ⟨1⟩ ⟨0x80⟩ : Node 16 1) inputs).map (fun x =>
      (x.1.all (fun e => !mixes e), (x.1.getLast?.map Machine.Entry.out)))
      = .ok (true, some (.event (.message .dm1 ⟨0x10⟩ (List.replicate 9 fill)
          (tpCmFrame ⟨0x80⟩ ⟨0x10⟩ (.endOfMsgAck 9 2 .dm1))))) := by decide +kernel
  rw [hrun] at hall
  simp only [Except.map, Except.ok.injEq, Prod.mk.injEq, List.all_eq_true, Bool.not_eq_true',
    Option.map_eq_some_iff] at hall
  obtain ⟨hmix, e, hlast, hout⟩ := hall
  exact ⟨tr, n, hrun, ⟨e, List.mem_of_getLast? hlast, _, hout⟩, unmixed_of_no_mixing hrun hmix⟩

/-- A globally addressed packet advances the addressed transfer of the
same peer, and ends up in its message. -/
theorem global_packet_advances_connection :
    ∃ tr, ∃ n : Node 16 1,
      Machine.run step (new ⟨1⟩ ⟨0x80⟩) [.start, .tick 250,
          .frame (cmFrame (.rts 9 2 0xFF .dm1)), .frame (dtGlobalFrame (.new 1 [])),
          .frame (dtFrame (.new 2 []))] = .ok (tr, n)
        ∧ (∃ e ∈ tr, ∃ reply,
            e.out = .event (.message .dm1 ⟨0x10⟩ (List.replicate 9 fill) reply))
        ∧ ¬ Unmixed tr := by
  obtain ⟨tr, n, hrun, -⟩ := run_ok (wf_new ⟨1⟩ ⟨0x80⟩ : (new ⟨1⟩ ⟨0x80⟩ : Node 16 1).WF)
    [.start, .tick 250, .frame (cmFrame (.rts 9 2 0xFF .dm1)), .frame (dtGlobalFrame (.new 1 [])),
      .frame (dtFrame (.new 2 []))]
  have hall : (Machine.run step (new ⟨1⟩ ⟨0x80⟩ : Node 16 1) [.start, .tick 250,
      .frame (cmFrame (.rts 9 2 0xFF .dm1)), .frame (dtGlobalFrame (.new 1 [])),
      .frame (dtFrame (.new 2 []))]).map (fun x => (x.1.getLast?.map Machine.Entry.out,
        x.1[3]?.map fun e => (e.before.claimer.address, (e.before.reassembler.slots 0).session,
          (e.after.reassembler.slots 0).session)))
      = .ok (some (.event (.message .dm1 ⟨0x10⟩ (List.replicate 9 fill)
            (tpCmFrame ⟨0x80⟩ ⟨0x10⟩ (.endOfMsgAck 9 2 .dm1)))),
          some (⟨0x80⟩, some ⟨⟨0x10⟩, .dm1, 9, 2, 1, 2, 0xFF, false, 0⟩,
            some ⟨⟨0x10⟩, .dm1, 9, 2, 2, 1, 0xFF, false, 0⟩)) := by decide +kernel
  have hevents := (Machine.run_trace hrun).2
  rw [hrun] at hall
  simp only [Except.map, Except.ok.injEq, Prod.mk.injEq, Option.map_eq_some_iff] at hall
  obtain ⟨⟨last, hlast, hout⟩, e, he, haddr, hbefore, hafter⟩ := hall
  refine ⟨tr, n, hrun, ⟨last, List.mem_of_getLast? hlast, _, hout⟩, fun h => ?_⟩
  have hev : e.event = .frame (dtGlobalFrame (.new 1 [])) := by
    have := congrArg (fun l => l[3]?) hevents
    simpa [he] using this
  have hroute : e.before.route (dtGlobalFrame (.new 1 []))
      = .data (TpDt.decode (dtGlobalFrame (.new 1 [])).payload) := by
    unfold route
    rw [haddr]
    rfl
  -- the session that was open before the global packet is gone after it
  obtain ⟨j, hj⟩ := h.connections e (List.mem_of_getElem? he) _ _ 0 _ hev hroute hbefore
    (by decide) rfl (by decide)
  rw [Subsingleton.elim j 0, hafter] at hj
  exact absurd hj (by decide)

end SaeJ1939.Node
