/-
  SaeJ1939.Node.Bus — several ECUs sending to one receiver over a shared
  bus.

  Every frame put on the bus reaches every other party, in order; each
  party handles what it has heard at its own pace.  A sender looks at the
  source of the connection management it hears, but not at whom it is
  for: `misled` marks the steps at which it acts on an answer to somebody
  else.

  Main results:
    * `receiver_step` — what a sender's frame does to the receiver.
    * `Invariant.step` — a step that misleads nobody keeps the invariant.
    * `own_answers_only` — in a run that misleads nobody, a transfer
      completes only if its own message was delivered.
    * `completed_by_another` — a run in which one does not.
-/
import SaeJ1939.Node.Outgoing
import SaeJ1939.Node.Silence

namespace SaeJ1939

open Checked Tp Chunks

/-! ## §1. The bus. -/

/-- A sending ECU: its transfer, and the frames it has yet to look at. -/
structure Station where
  outgoing : Outgoing
  inbox : List Frame

/-- `m` sending ECUs, and a receiver with the frames it has yet to look
at. -/
structure Bus (m BUF SESSIONS : Nat) where
  receiver : Node BUF SESSIONS
  inbox : List Frame
  stations : Fin m → Station

namespace Bus

variable {m BUF SESSIONS : Nat}

/-- What happens next on the bus. -/
inductive Input (m : Nat) where
  /-- Sender `k` pulls a frame of its transfer, if there is one. -/
  | send (k : Fin m)
  /-- Sender `k` looks at the next frame it has heard. -/
  | hear (k : Fin m)
  /-- The receiver handles the next frame it has heard. -/
  | receive
  /-- Time passes at the receiver. -/
  | tick (elapsedMs : Nat)

/-- What came of it. -/
inductive Output where
  | nothing
  | sent (frame : Option Frame)
  | heard (progress : Progress)
  | received (event : Event)
  | expired (frames : List Frame)

/-- Every station hears the frames. -/
def overhear (frames : List Frame) (stations : Fin m → Station) : Fin m → Station :=
  fun k => { stations k with inbox := (stations k).inbox ++ frames }

/-- One step. -/
def step : Machine.Step (Bus m BUF SESSIONS) (Input m) Output
  | b, .send k => do
      let (frame, outgoing) ← (b.stations k).outgoing.nextFrame
      -- everybody but the sender hears the frame
      return (.sent frame,
        { b with
          inbox := b.inbox ++ frame.toList
          stations := Function.update (overhear frame.toList b.stations) k
            ⟨outgoing, (b.stations k).inbox⟩ })
  | b, .hear k =>
      match (b.stations k).inbox with
      | [] => .ok (.nothing, b)
      | frame :: inbox => do
          let (progress, outgoing) ← (b.stations k).outgoing.onFrame frame
          return (.heard progress,
            { b with stations := Function.update b.stations k ⟨outgoing, inbox⟩ })
  | b, .receive =>
      match b.inbox with
      | [] => .ok (.nothing, b)
      | frame :: inbox => do
          let (event, receiver) ← b.receiver.onFrame frame
          return (.received event,
            ⟨receiver, inbox, overhear (Node.Output.emitted (.event event)) b.stations⟩)
  | b, .tick elapsedMs =>
      .ok (.expired (b.receiver.tick elapsedMs).1,
        ⟨(b.receiver.tick elapsedMs).2, b.inbox, overhear (b.receiver.tick elapsedMs).1 b.stations⟩)

/-- One step of a run. -/
abbrev Entry (m BUF SESSIONS : Nat) := Machine.Entry (Bus m BUF SESSIONS) (Input m) Output

/-- The bus before anything was sent. -/
def initial (receiver : Node BUF SESSIONS) (outgoing : Fin m → Outgoing) : Bus m BUF SESSIONS :=
  ⟨receiver, [], fun k => ⟨outgoing k, []⟩⟩

/-- The receiver delivered a message. -/
def Delivered (tr : List (Entry m BUF SESSIONS)) (s : Sent) : Prop :=
  ∃ e ∈ tr, ∃ reply, e.out = .received (.message s.pgn s.source s.data reply)

/-- **A step at which a sender acts on an answer to another ECU**: it looks
at a frame that is not for it, and heeds it. -/
def misled (e : Entry m BUF SESSIONS) : Bool :=
  match e.event with
  | .hear k =>
      match (e.before.stations k).inbox with
      | [] => false
      | frame :: _ =>
          frame.id.destinationAddress != some (e.before.stations k).outgoing.source
            && (e.before.stations k).outgoing.heeds frame
  | _ => false

end Bus

/-! ## §2. The receiver. -/

/-- The kind of a message survives the wire, whatever its fields. -/
theorem Tp.TpCm.controlByte_of_decode {cm cm' : TpCm} (h : TpCm.decode cm.encode = .ok cm') :
    cm'.controlByte = cm.controlByte := by
  cases cm <;> simp [TpCm.decode, TpCm.encode, TpCm.body, TpCm.controlByte] at h <;> subst h <;> rfl

/-- A peer's transfer, if it has one, holds the beginning of the message
the peer sends. -/
def Tp.Transfer.Receives (s : Sent) (t : Option Transfer) : Prop :=
  ∀ t₀, t = some t₀ → t₀.session.broadcast = false ∧ t₀.session.pgn = s.pgn
    ∧ t₀.session.size = s.data.length ∧ t₀.session.packets = packetCount s.data.length
    ∧ t₀.received = s.data.take (7 * (t₀.session.nextSequence - 1))

namespace Tp.Transfer

variable {s : Sent} {t : Option Transfer}

theorem receives_none (s : Sent) : Receives s none := fun _ h => by cases h

/-- The announcement starts the message from its beginning. -/
theorem receives_onCm (N : Nat) (room : Bool) (peer : Address) (h : Receives s t) :
    Receives s (onCm N room peer t
      (.rts s.data.length (packetCount s.data.length) 0xFF s.pgn)).2 := by
  rcases Reassembler.onCm_cases N room peer t
    (.rts s.data.length (packetCount s.data.length) 0xFF s.pgn) with
    ⟨t', ht', hann, hnext, hrec, -⟩ | ⟨hkeep | hnone, -, -⟩
  · intro t₀ ht₀
    rw [ht', Option.some.injEq] at ht₀
    subst ht₀
    rcases hann with ⟨hbam, -⟩ | ⟨maxPacketsPerCts, hrts, hbc⟩
    · cases hbam
    · simp only [TpCm.rts.injEq] at hrts
      obtain ⟨hsize, hpackets, -, hpgn⟩ := hrts
      exact ⟨hbc, hpgn.symm, hsize.symm, hpackets.symm, by rw [hrec, hnext]; rfl⟩
  · rw [hkeep]
    exact h
  · rw [hnone]
    exact receives_none s

/-- A packet of the message extends what has been received of it. -/
theorem receives_onDt {N i : Nat} (h : Receives s t) (hi : 1 ≤ i)
    (hwf : ∀ t', (onDt t (Transmitter.packetOf s.data i)).2 = some t' → t'.session.WF N) :
    Receives s (onDt t (Transmitter.packetOf s.data i)).2 := by
  intro t' ht'
  obtain ⟨t₀, ht₀, hsame, hseq, hnext, hrec⟩ := Reassembler.onDt_some ht'
  obtain ⟨hbc, hpgn, hsize, hpackets, hreceived⟩ := h t₀ ht₀
  have hs := hwf t' ht'
  have hb := packetCount_bounds hs.size_ge hs.size_le
  have hsize' : t'.session.size = s.data.length := hsame.size.trans hsize
  have hseq' : i = t₀.session.nextSequence := hseq
  refine ⟨hsame.broadcast.trans hbc, hsame.pgn.trans hpgn, hsize', hsame.packets.trans hpackets, ?_⟩
  -- the packet is a full one, since another is still expected
  have hle := hs.next_le
  have hp := hs.packets_eq
  have hbytes : (Transmitter.packetOf s.data i).bytes = pad 7 fill (chunk 7 s.data (i - 1)) := rfl
  rw [hrec, hreceived, hbytes, ← hseq', hnext, Nat.add_sub_cancel, ← hseq',
    take_append_full (by omega), Nat.sub_add_cancel hi]

/-- What is delivered is the message. -/
theorem receives_message {i : Nat} {N : Nat} {pgn : Pgn} {source : Address} {data : List UInt8}
    {ack : Option TpCm} (h : Receives s t) (hwf : ∀ t₀, t = some t₀ → t₀.session.WF N)
    (hmsg : (onDt t (Transmitter.packetOf s.data i)).1 = .message pgn source data ack) :
    pgn = s.pgn ∧ data = s.data := by
  obtain ⟨t₀, ht₀, hseq, hlast, rfl, -, rfl, -⟩ := Reassembler.onDt_message hmsg
  obtain ⟨-, hpgn, hsize, hpackets, hreceived⟩ := h t₀ ht₀
  have hs := hwf t₀ ht₀
  have hb := packetCount_bounds hs.size_ge hs.size_le
  have hp := hs.packets_eq
  have hpos := hs.next_pos
  have hseq' : i = t₀.session.nextSequence := hseq
  have hlast' : i = t₀.session.packets := hlast
  have hbytes : (Transmitter.packetOf s.data i).bytes = pad 7 fill (chunk 7 s.data (i - 1)) := rfl
  refine ⟨hpgn, ?_⟩
  rw [hreceived, hbytes, ← hseq', hsize, take_append_pad (by omega) (by omega)]

theorem receives_onTick {elapsedMs timeoutMs : Nat} (h : Receives s t) :
    Receives s (onTick elapsedMs timeoutMs t).2 := by
  intro t' ht'
  obtain ⟨t₀, ht₀, hsame, hnext, hrec⟩ := Reassembler.onTick_some ht'
  obtain ⟨hbc, hpgn, hsize, hpackets, hreceived⟩ := h t₀ ht₀
  exact ⟨hsame.broadcast.trans hbc, hsame.pgn.trans hpgn, hsame.size.trans hsize,
    hsame.packets.trans hpackets, by rw [hrec, hreceived, hnext]⟩

end Tp.Transfer

namespace Bus

variable {m BUF SESSIONS : Nat} {D : Address} {s : Sent} {n : Node BUF SESSIONS} {f : Frame}

/-- The receiver hands a sender's frame to its reassembler. -/
theorem route_sent (haddr : n.address = D) (hD : D.isBroadcast = false) (h : s.By D f) :
    (f.pgn = .tpCm ∧ n.route f
        = .connection (.rts s.data.length (packetCount s.data.length) 0xFF s.pgn))
      ∨ f.pgn = .tpDt ∧ ∃ i, 1 ≤ i ∧ n.route f = .data (Transmitter.packetOf s.data i) := by
  have haddressed : f.id.isAddressedTo n.address = true := by
    simp [Id.isAddressedTo, h.destination, haddr]
  have hspecific : f.id.isBroadcast = false := by
    simp [Id.isBroadcast, h.destination, hD]
  rcases h.content with ⟨hpgn, hcm⟩ | ⟨hpgn, i, hi, -, hdt⟩
  · exact Or.inl ⟨hpgn, Node.route_connection haddressed hpgn hcm hspecific⟩
  · refine Or.inr ⟨hpgn, i, hi, ?_⟩
    rw [← hdt]
    exact Node.route_data haddressed hpgn

/-- An announcement starts the message at the receiver, and only then is it
granted packets; nothing is acknowledged. -/
theorem receiver_announced (hwf : n.WF) (hroute : n.route f
      = .connection (.rts s.data.length (packetCount s.data.length) 0xFF s.pgn))
    (hsrc : f.sourceAddress = s.source) :
    ∃ event n', n.onFrame f = .ok (event, n') ∧ n'.WF ∧ n'.address = n.address
      ∧ (Transfer.Receives s (n.reassembler.transferOf s.source) →
          Transfer.Receives s (n'.reassembler.transferOf s.source))
      ∧ (∀ a, a ≠ s.source → n'.reassembler.transferOf a = n.reassembler.transferOf a)
      ∧ ∀ g ∈ Node.Output.emitted (.event event), g.id.destinationAddress = some s.source
        ∧ ∀ cm, TpCm.decode g.payload = .ok cm → cm.controlByte ≠ 0x13
          ∧ (cm.controlByte = 0x11 → Transfer.Receives s (n'.reassembler.transferOf s.source)) := by
  obtain ⟨n', hok, hwf', hclaimer, hfocus⟩ := Node.onFrame_connection hwf hroute
  rw [hsrc] at hok hfocus
  refine ⟨_, n', hok, hwf', congrArg AddressClaim.AddressClaimer.address hclaimer, fun hrec => ?_,
    hfocus.others, fun g hg => ?_⟩
  · rw [hfocus.self]
    exact Transfer.receives_onCm BUF _ s.source hrec
  · obtain ⟨cm, hcm, -, -, hdst, hpayload⟩ := Node.mem_emitted_lift hg
    refine ⟨hdst, fun cm' hdecode => ?_⟩
    rw [hpayload] at hdecode
    rw [TpCm.controlByte_of_decode hdecode, hfocus.self]
    unfold Transfer.onCm at hcm ⊢
    dsimp only at hcm ⊢
    have hrefused : ∀ reason {P : Prop}, (TpCm.abort reason s.pgn).controlByte ≠ 0x13
        ∧ ((TpCm.abort reason s.pgn).controlByte = 0x11 → P) :=
      fun reason P => ⟨by simp [TpCm.controlByte], fun h => absurd h (by simp [TpCm.controlByte])⟩
    split_ifs at hcm ⊢ <;> cases hcm
    · exact hrefused _
    · exact hrefused _
    · exact hrefused _
    · -- granted: the session has just started
      refine ⟨by simp [TpCm.controlByte], fun _ t₀ ht₀ => ?_⟩
      rw [Option.some.injEq] at ht₀
      subst ht₀
      exact ⟨rfl, rfl, rfl, rfl, rfl⟩
    · exact hrefused _

/-- A packet of the message the receiver holds the beginning of is
acknowledged only when it completes the message. -/
theorem receiver_packet {i : Nat} (hi : 1 ≤ i) (hwf : n.WF)
    (hroute : n.route f = .data (Transmitter.packetOf s.data i)) (hsrc : f.sourceAddress = s.source)
    (hrec : Transfer.Receives s (n.reassembler.transferOf s.source)) :
    ∃ event n', n.onFrame f = .ok (event, n') ∧ n'.WF ∧ n'.address = n.address
      ∧ Transfer.Receives s (n'.reassembler.transferOf s.source)
      ∧ (∀ a, a ≠ s.source → n'.reassembler.transferOf a = n.reassembler.transferOf a)
      ∧ ∀ g ∈ Node.Output.emitted (.event event), g.id.destinationAddress = some s.source
        ∧ ∀ cm, TpCm.decode g.payload = .ok cm → cm.controlByte = 0x13 →
          ∃ reply, event = .message s.pgn s.source s.data reply := by
  obtain ⟨n', hok, hwf', hclaimer, hfocus⟩ := Node.onFrame_data hwf hroute
  rw [hsrc] at hok hfocus
  refine ⟨_, n', hok, hwf', congrArg AddressClaim.AddressClaimer.address hclaimer, ?_,
    hfocus.others, fun g hg => ?_⟩
  · rw [hfocus.self]
    refine Transfer.receives_onDt (N := BUF) hrec hi fun t' ht' => ?_
    exact hfocus.wf.session_of_transferOf (hfocus.self.trans ht')
  · obtain ⟨cm, hcm, -, -, hdst, hpayload⟩ := Node.mem_emitted_lift hg
    refine ⟨hdst, fun cm' hdecode hack => ?_⟩
    rw [hpayload] at hdecode
    rw [TpCm.controlByte_of_decode hdecode] at hack
    cases hrx : (Transfer.onDt (n.reassembler.transferOf s.source)
        (Transmitter.packetOf s.data i)).1 with
    | idle =>
      rw [hrx] at hcm
      cases hcm
    | send cm =>
      -- only a CTS or an abort is sent before the message is complete
      rw [hrx] at hcm
      injection hcm with hcm
      subst hcm
      rcases Reassembler.onDt_send hrx with ⟨reason, pgn, rfl⟩ | ⟨window, nextPacket, pgn, rfl⟩
      · exact absurd hack (by simp [TpCm.controlByte])
      · exact absurd hack (by simp [TpCm.controlByte])
    | message pgn' source data ack =>
      obtain ⟨hpgn, hdata⟩ := Transfer.receives_message hrec
        (fun t₀ ht₀ => hwf.receiver.session_of_transferOf ht₀) hrx
      obtain ⟨t₀, ht₀, -, -, -, hpeer, -, -⟩ := Reassembler.onDt_message hrx
      have hpeer : source = s.source := hpeer.trans (Reassembler.source_of_transferOf ht₀)
      subst hpgn hdata hpeer
      exact ⟨_, rfl⟩

/-! ## §3. One step. -/

variable {sent : Fin m → Sent} {tr : List (Entry m BUF SESSIONS)} {b b' : Bus m BUF SESSIONS}
  {i : Input m} {out : Output}

theorem Delivered.mono (h : Delivered tr s) (e : Entry m BUF SESSIONS) :
    Delivered (tr ++ [e]) s := by
  obtain ⟨e₀, he₀, hout⟩ := h
  exact ⟨e₀, List.mem_append_left _ he₀, hout⟩

/-- What a sender puts on the bus neither grants nor acknowledges. -/
theorem controlByte_of_sent {cm : TpCm} (h : s.By D f) (hpgn : f.pgn = .tpCm)
    (hdecode : TpCm.decode f.payload = .ok cm) : cm.controlByte = 0x10 := by
  rcases h.content with ⟨-, hcm⟩ | ⟨hdt, -⟩
  · rw [hcm, Except.ok.injEq] at hdecode
    subst hdecode
    rfl
  · rw [hpgn] at hdt
    exact absurd hdt (by decide)

/-- If a frame acknowledges a message to the ECU that sends it, the message
was delivered. -/
def Honest (sent : Fin m → Sent) (tr : List (Entry m BUF SESSIONS)) (f : Frame) : Prop :=
  f.pgn = .tpCm → ∀ j cm, f.id.destinationAddress = some (sent j).source →
    TpCm.decode f.payload = .ok cm → cm.controlByte = 0x13 → Delivered tr (sent j)

theorem Honest.mono (h : Honest sent tr f) (e : Entry m BUF SESSIONS) :
    Honest sent (tr ++ [e]) f :=
  fun hpgn j cm hdst hdecode hack => (h hpgn j cm hdst hdecode hack).mono e

theorem honest_of_sent (h : s.By D f) : Honest sent tr f := by
  intro hpgn j cm _ hdecode hack
  rw [controlByte_of_sent h hpgn hdecode] at hack
  exact absurd hack (by decide)

/-- Sender `k` has been granted nothing: it has no packets on the bus, and
no grant is on its way to it. -/
structure Waiting (sent : Fin m → Sent) (k : Fin m) (b : Bus m BUF SESSIONS) : Prop where
  closed : (b.stations k).outgoing.WindowClosed
  packets : ∀ f ∈ b.inbox, f.sourceAddress = (sent k).source → f.pgn = .tpCm
  grants : ∀ f ∈ (b.stations k).inbox, f.pgn = .tpCm →
    f.id.destinationAddress = some (sent k).source →
    ∀ cm, TpCm.decode f.payload = .ok cm → cm.controlByte ≠ 0x11

/-- The part of the invariant that no step can break: every transfer goes
on, and the receiver is well formed. -/
structure Running (D : Address) (sent : Fin m → Sent) (b : Bus m BUF SESSIONS) : Prop where
  receiver : b.receiver.WF
  transfers : ∀ k, (b.stations k).outgoing.Transfers (sent k) D

/-- **The invariant** after the steps `tr`: of every sender that was ever
granted packets the receiver holds the beginning of the message, what is
on the bus is honest, and a transfer is complete only if its message was
delivered. -/
structure Invariant (D : Address) (sent : Fin m → Sent) (tr : List (Entry m BUF SESSIONS))
    (b : Bus m BUF SESSIONS) : Prop extends Running D sent b where
  address : b.receiver.address = D
  receives : ∀ k, Transfer.Receives (sent k) (b.receiver.reassembler.transferOf (sent k).source)
    ∨ Waiting sent k b
  inbox : ∀ f ∈ b.inbox, ∃ k, (sent k).By D f
  heard : ∀ k, ∀ f ∈ (b.stations k).inbox, Honest sent tr f
  complete : ∀ k, (b.stations k).outgoing.isComplete = true → Delivered tr (sent k)

/-- **No step panics.** -/
theorem Running.step (h : Running D sent b) (i : Input m) :
    ∃ out b', step b i = .ok (out, b') ∧ Running D sent b' := by
  cases i with
  | send k =>
    obtain ⟨frame, o', hok, ho', -, -, -⟩ := (h.transfers k).nextFrame
    simp only [Bus.step, hok, ok_bind, pure_eq_ok]
    refine ⟨_, _, rfl, h.receiver, fun j => ?_⟩
    by_cases hj : j = k
    · subst hj
      simpa using ho'
    · simpa [hj, overhear] using h.transfers j
  | hear k =>
    cases hin : (b.stations k).inbox with
    | nil =>
      simp only [Bus.step, hin]
      exact ⟨_, _, rfl, h⟩
    | cons f inbox =>
      obtain ⟨progress, o', hok, ho', -, -⟩ := (h.transfers k).onFrame f
      simp only [Bus.step, hin, hok, ok_bind, pure_eq_ok]
      refine ⟨_, _, rfl, h.receiver, fun j => ?_⟩
      by_cases hj : j = k
      · subst hj
        simpa using ho'
      · simpa [hj] using h.transfers j
  | receive =>
    cases hin : b.inbox with
    | nil =>
      simp only [Bus.step, hin]
      exact ⟨_, _, rfl, h⟩
    | cons f inbox =>
      obtain ⟨out, n', hstep, hwf, -⟩ := Node.step_spec h.receiver (.frame f)
      simp only [Node.step, bind_eq_ok, Prod.exists, pure_eq_ok, Except.ok.injEq,
        Prod.mk.injEq] at hstep
      obtain ⟨event, n'', hok, -, rfl⟩ := hstep
      simp only [Bus.step, hin, hok, ok_bind, pure_eq_ok]
      exact ⟨_, _, rfl, hwf, fun j => h.transfers j⟩
  | tick elapsedMs =>
    obtain ⟨out, n', hstep, hwf, -⟩ := Node.step_spec h.receiver (.tick elapsedMs)
    simp only [Node.step, Except.ok.injEq, Prod.mk.injEq] at hstep
    obtain ⟨-, rfl⟩ := hstep
    exact ⟨_, _, rfl, hwf, fun j => h.transfers j⟩

/-- A step that only adds to the record keeps the invariant. -/
theorem Invariant.mono (h : Invariant D sent tr b) (e : Entry m BUF SESSIONS) :
    Invariant D sent (tr ++ [e]) b :=
  ⟨h.toRunning, h.address, h.receives, h.inbox, fun j f hf => (h.heard j f hf).mono e,
    fun j hj => (h.complete j hj).mono e⟩

/-- What the stations have heard stays honest when what they overhear is. -/
theorem Invariant.overhear (h : Invariant D sent tr b) {frames : List Frame}
    {e : Entry m BUF SESSIONS} (hframes : ∀ f ∈ frames, Honest sent (tr ++ [e]) f) (k : Fin m) :
    ∀ f ∈ (overhear frames b.stations k).inbox, Honest sent (tr ++ [e]) f := by
  intro f hf
  rcases List.mem_append.mp hf with hf | hf
  · exact (h.heard k f hf).mono e
  · exact hframes f hf

/-- A sender pulls a frame. -/
theorem Invariant.send {k : Fin m} {e : Entry m BUF SESSIONS} (h : Invariant D sent tr b)
    (hinj : ∀ j k, (sent j).source = (sent k).source → j = k)
    (hstep : step b (.send k) = .ok (out, b')) (hrunning : Running D sent b') :
    Invariant D sent (tr ++ [e]) b' := by
  obtain ⟨frame, o', hok, ho', hcomplete, hby, hclosed⟩ := (h.transfers k).nextFrame
  simp only [Bus.step, hok, ok_bind, pure_eq_ok, Except.ok.injEq, Prod.mk.injEq] at hstep
  obtain ⟨rfl, rfl⟩ := hstep
  refine ⟨hrunning, h.address, fun j => (h.receives j).imp_right fun hw => ?_, fun f hf => ?_,
    fun j f hf => ?_, fun j hj => ?_⟩
  · by_cases hjk : j = k
    · subst hjk
      -- the sender itself: no packets before it is granted some
      refine ⟨by simpa using (hclosed hw.closed).1, fun f hf hsrc => ?_, fun f hf => ?_⟩
      · rcases List.mem_append.mp hf with hf | hf
        · exact hw.packets f hf hsrc
        · exact (hclosed hw.closed).2 f (Option.mem_toList.mp hf)
      · exact hw.grants f (by simpa using hf)
    · -- another sender: the frame is not its own, and grants nothing
      refine ⟨by simpa [hjk, Bus.overhear] using hw.closed, fun f hf hsrc => ?_,
        fun f hf hpgn hdst cm hdecode => ?_⟩
      · rcases List.mem_append.mp hf with hf | hf
        · exact hw.packets f hf hsrc
        · have hown := (hby f (Option.mem_toList.mp hf)).source
          exact absurd (hinj j k (hsrc.symm.trans hown)) hjk
      · have hf' : f ∈ (b.stations j).inbox ++ frame.toList := by
          simpa [hjk, Bus.overhear] using hf
        rcases List.mem_append.mp hf' with hf | hf
        · exact hw.grants f hf hpgn hdst cm hdecode
        · rw [controlByte_of_sent (hby f (Option.mem_toList.mp hf)) hpgn hdecode]
          decide
  · rcases List.mem_append.mp hf with hf | hf
    · exact h.inbox f hf
    · exact ⟨k, hby f (Option.mem_toList.mp hf)⟩
  · by_cases hjk : j = k
    · subst hjk
      exact (h.heard j f (by simpa using hf)).mono e
    · refine h.overhear (fun g hg => ?_) j f (by simpa [hjk] using hf)
      exact honest_of_sent (hby g (Option.mem_toList.mp hg))
  · refine (h.complete j ?_).mono e
    by_cases hjk : j = k
    · subst hjk
      simpa [hcomplete] using hj
    · simpa [hjk, Bus.overhear] using hj

/-- A sender looks at a frame that does not mislead it. -/
theorem Invariant.hear {k : Fin m} {e : Entry m BUF SESSIONS} (h : Invariant D sent tr b)
    (hstep : step b (.hear k) = .ok (out, b')) (hmis : misled ⟨b, .hear k, out, b'⟩ = false)
    (hrunning : Running D sent b') : Invariant D sent (tr ++ [e]) b' := by
  cases hin : (b.stations k).inbox with
  | nil =>
    simp only [Bus.step, hin, Except.ok.injEq, Prod.mk.injEq] at hstep
    obtain ⟨rfl, rfl⟩ := hstep
    exact h.mono e
  | cons f inbox =>
    obtain ⟨progress, o', hok, ho', hcomplete, hwindow⟩ := (h.transfers k).onFrame f
    simp only [Bus.step, hin, hok, ok_bind, pure_eq_ok, Except.ok.injEq, Prod.mk.injEq] at hstep
    obtain ⟨rfl, rfl⟩ := hstep
    have hmem : f ∈ (b.stations k).inbox := by
      rw [hin]
      exact List.mem_cons_self ..
    have hrest : ∀ g ∈ inbox, g ∈ (b.stations k).inbox := by
      intro g hg
      rw [hin]
      exact List.mem_cons_of_mem _ hg
    -- a frame that is heeded is connection management for this sender
    have hfor : (b.stations k).outgoing.heeds f = true →
        f.pgn = .tpCm ∧ f.id.destinationAddress = some (sent k).source := by
      intro hheeds
      obtain ⟨-, -, -, -, -, -, hpgn, -⟩ := Outgoing.onFrame_heeded hheeds
      simp only [misled, hin, hheeds, Bool.and_true, bne_eq_false_iff_eq] at hmis
      exact ⟨hpgn, by rw [hmis, (h.transfers k).source]⟩
    refine ⟨hrunning, h.address, fun j => (h.receives j).imp_right fun hw => ?_, h.inbox,
      fun j g hg => ?_, fun j hj => ?_⟩
    · by_cases hjk : j = k
      · subst hjk
        refine ⟨?_, hw.packets, fun g hg => hw.grants g (hrest g (by simpa using hg))⟩
        rcases hwindow hw.closed with hclosed | ⟨hheeds, window, next, pgn, hcts⟩
        · simpa using hclosed
        · obtain ⟨hpgn, hdst⟩ := hfor hheeds
          exact absurd rfl (hw.grants f hmem hpgn hdst _ hcts)
      · exact ⟨by simpa [hjk] using hw.closed, hw.packets,
          fun g hg => hw.grants g (by simpa [hjk] using hg)⟩
    · by_cases hjk : j = k
      · subst hjk
        exact (h.heard j g (hrest g (by simpa using hg))).mono e
      · exact (h.heard j g (by simpa [hjk] using hg)).mono e
    · by_cases hjk : j = k
      · subst hjk
        rcases hcomplete (by simpa using hj) with hc | ⟨hheeds, size, packets, hack⟩
        · exact (h.complete j hc).mono e
        · obtain ⟨hpgn, hdst⟩ := hfor hheeds
          exact (h.heard j f hmem hpgn j _ hdst hack rfl).mono e
      · exact (h.complete j (by simpa [hjk] using hj)).mono e

/-- The receiver handles a frame. -/
theorem Invariant.receive (h : Invariant D sent tr b) (hD : D.isBroadcast = false)
    (hinj : ∀ j k, (sent j).source = (sent k).source → j = k)
    (hstep : step b .receive = .ok (out, b')) (hrunning : Running D sent b') :
    Invariant D sent (tr ++ [⟨b, .receive, out, b'⟩]) b' := by
  cases hin : b.inbox with
  | nil =>
    simp only [Bus.step, hin, Except.ok.injEq, Prod.mk.injEq] at hstep
    obtain ⟨rfl, rfl⟩ := hstep
    exact h.mono _
  | cons f inbox =>
    have hrest : ∀ g ∈ inbox, g ∈ b.inbox := by
      intro g hg
      rw [hin]
      exact List.mem_cons_of_mem _ hg
    have hmem : f ∈ b.inbox := by
      rw [hin]
      exact List.mem_cons_self ..
    obtain ⟨k, hby⟩ := h.inbox f hmem
    -- what the frame does, whether it is the announcement or a packet
    have heffect : ∃ event n', b.receiver.onFrame f = .ok (event, n') ∧ n'.address = D
        ∧ (∀ a, a ≠ (sent k).source →
            n'.reassembler.transferOf a = b.receiver.reassembler.transferOf a)
        ∧ (∀ g ∈ Node.Output.emitted (.event event),
            g.id.destinationAddress = some (sent k).source
              ∧ ∀ cm, TpCm.decode g.payload = .ok cm → cm.controlByte = 0x13 →
                ∃ reply, event = .message (sent k).pgn (sent k).source (sent k).data reply)
        ∧ (Transfer.Receives (sent k) (n'.reassembler.transferOf (sent k).source)
          ∨ Waiting sent k b ∧ ∀ g ∈ Node.Output.emitted (.event event),
            ∀ cm, TpCm.decode g.payload = .ok cm → cm.controlByte ≠ 0x11) := by
      rcases route_sent h.address hD hby with ⟨hpgn, hroute⟩ | ⟨hpgn, i, hi, hroute⟩
      · obtain ⟨event, n', hok, -, haddr, hrec, hothers, hemitted⟩ :=
          receiver_announced h.receiver hroute hby.source
        refine ⟨event, n', hok, haddr.trans h.address, hothers, fun g hg => ?_, ?_⟩
        · obtain ⟨hdst, hkind⟩ := hemitted g hg
          exact ⟨hdst, fun cm hdecode hack => absurd hack (hkind cm hdecode).1⟩
        · rcases h.receives k with hrec₀ | hw
          · exact Or.inl (hrec hrec₀)
          · by_cases hnow : Transfer.Receives (sent k)
                (n'.reassembler.transferOf (sent k).source)
            · exact Or.inl hnow
            · refine Or.inr ⟨hw, fun g hg cm hdecode hcts => ?_⟩
              exact hnow (((hemitted g hg).2 cm hdecode).2 hcts)
      · -- packets come only from a sender that was granted some
        have hrec₀ : Transfer.Receives (sent k)
            (b.receiver.reassembler.transferOf (sent k).source) := by
          refine (h.receives k).resolve_right fun hw => ?_
          rw [hw.packets f hmem hby.source] at hpgn
          exact absurd hpgn (by decide)
        obtain ⟨event, n', hok, -, haddr, hrec, hothers, hemitted⟩ :=
          receiver_packet hi h.receiver hroute hby.source hrec₀
        exact ⟨event, n', hok, haddr.trans h.address, hothers, hemitted, Or.inl hrec⟩
    obtain ⟨event, n', hok, haddr, hothers, hemitted, hrec⟩ := heffect
    simp only [Bus.step, hin, hok, ok_bind, pure_eq_ok, Except.ok.injEq, Prod.mk.injEq] at hstep
    obtain ⟨rfl, rfl⟩ := hstep
    refine ⟨hrunning, haddr, fun j => ?_, fun g hg => h.inbox g (hrest g hg),
      h.overhear fun g hg => ?_, fun j hj => (h.complete j hj).mono _⟩
    · by_cases hjk : j = k
      · subst hjk
        refine hrec.imp_right fun ⟨hw, hgrants⟩ =>
          ⟨hw.closed, fun g hg => hw.packets g (hrest g hg), fun g hg hpgn hdst cm hdecode => ?_⟩
        rcases List.mem_append.mp hg with hg | hg
        · exact hw.grants g hg hpgn hdst cm hdecode
        · exact hgrants g hg cm hdecode
      · have hsrc : (sent j).source ≠ (sent k).source := fun hsrc => hjk (hinj j k hsrc)
        rcases h.receives j with hrec₀ | hw
        · left
          show Transfer.Receives (sent j) (n'.reassembler.transferOf (sent j).source)
          rw [hothers _ hsrc]
          exact hrec₀
        · -- the answer is for somebody else
          refine Or.inr ⟨hw.closed, fun g hg => hw.packets g (hrest g hg),
            fun g hg hpgn hdst cm hdecode => ?_⟩
          rcases List.mem_append.mp hg with hg | hg
          · exact hw.grants g hg hpgn hdst cm hdecode
          · rw [(hemitted g hg).1, Option.some.injEq] at hdst
            exact absurd hdst.symm hsrc
    · -- an acknowledgement goes to the sender whose message this step delivers
      obtain ⟨hdst, hack⟩ := hemitted g hg
      intro _ j cm hdst' hdecode hkind
      obtain ⟨reply, rfl⟩ := hack cm hdecode hkind
      rw [hdst, Option.some.injEq] at hdst'
      obtain rfl := hinj k j hdst'
      exact ⟨_, List.mem_append_right _ (List.mem_singleton_self _), reply, rfl⟩

/-- Time passes at the receiver. -/
theorem Invariant.tick {elapsedMs : Nat} {e : Entry m BUF SESSIONS} (h : Invariant D sent tr b)
    (hstep : step b (.tick elapsedMs) = .ok (out, b')) (hrunning : Running D sent b') :
    Invariant D sent (tr ++ [e]) b' := by
  simp only [Bus.step, Except.ok.injEq, Prod.mk.injEq] at hstep
  obtain ⟨rfl, rfl⟩ := hstep
  have habort : ∀ g ∈ (b.receiver.tick elapsedMs).1, ∀ cm, TpCm.decode g.payload = .ok cm →
      cm.controlByte = 0xFF := by
    intro g hg cm hdecode
    obtain ⟨pgn, hpayload⟩ := Node.payload_mem_tick hg
    rw [hpayload] at hdecode
    exact TpCm.controlByte_of_decode hdecode
  refine ⟨hrunning, ?_, fun j => ?_, h.inbox, h.overhear fun g hg => ?_,
    fun j hj => (h.complete j hj).mono e⟩
  · -- a tick may close the contention window, but leaves the address alone
    rcases Node.tick_claimer b.receiver elapsedMs with hc | hc
    · exact (congrArg AddressClaim.AddressClaimer.address hc).trans h.address
    · refine (congrArg AddressClaim.AddressClaimer.address hc).trans ?_
      unfold AddressClaim.AddressClaimer.contentionWindowElapsed
      split <;> exact h.address
  · refine (h.receives j).imp (fun hrec => ?_) fun hw => ⟨hw.closed, hw.packets,
      fun g hg hpgn hdst cm hdecode => ?_⟩
    · show Transfer.Receives (sent j)
        ((b.receiver.tick elapsedMs).2.reassembler.transferOf (sent j).source)
      rw [(Node.tick_eq b.receiver elapsedMs).2, Reassembler.tick,
        ((Reassembler.tick_refines h.receiver.receiver elapsedMs t1TimeoutMs).2
          (sent j).source).1]
      exact Transfer.receives_onTick hrec
    · rcases List.mem_append.mp hg with hg | hg
      · exact hw.grants g hg hpgn hdst cm hdecode
      · rw [habort g hg cm hdecode]
        decide
  · intro _ _ cm _ hdecode hack
    rw [habort g hg cm hdecode] at hack
    exact absurd hack (by decide)

/-- **A step that misleads nobody keeps the invariant.** -/
theorem Invariant.step (h : Invariant D sent tr b) (hD : D.isBroadcast = false)
    (hinj : ∀ j k, (sent j).source = (sent k).source → j = k)
    (hstep : step b i = .ok (out, b')) (hmis : misled ⟨b, i, out, b'⟩ = false) :
    Invariant D sent (tr ++ [⟨b, i, out, b'⟩]) b' := by
  have hrunning : Running D sent b' := by
    obtain ⟨out₁, b₁, hok, hb₁⟩ := h.toRunning.step i
    rw [hstep, Except.ok.injEq, Prod.mk.injEq] at hok
    rw [hok.2]
    exact hb₁
  cases i with
  | send k => exact h.send hinj hstep hrunning
  | hear k => exact h.hear hstep hmis hrunning
  | receive => exact h.receive hD hinj hstep hrunning
  | tick elapsedMs => exact h.tick hstep hrunning

/-! ## §4. Whole runs. -/

/-- Before anything is sent, nobody has been granted or acknowledged
anything. -/
theorem invariant_initial {receiver : Node BUF SESSIONS} {outgoing : Fin m → Outgoing}
    (hwf : receiver.WF) (haddr : receiver.address = D) (hD : D.isBroadcast = false)
    (hlong : ∀ k, Frame.maxPayload < (sent k).data.length)
    (hnew : ∀ k, Outgoing.new (sent k).pgn (sent k).source D (sent k).data = .ok (outgoing k)) :
    Invariant D sent [] (initial receiver outgoing) := by
  have htransfers := fun k => Outgoing.transfers_new (hlong k) hD (hnew k)
  refine ⟨⟨hwf, fun k => (htransfers k).1⟩, haddr, fun k => Or.inr ⟨(htransfers k).2.2, ?_, ?_⟩,
    fun f hf => (by cases hf), fun k f hf => (by cases hf), fun k hk => ?_⟩
  · intro f hf
    cases hf
  · intro f hf
    cases hf
  · rw [show (initial receiver outgoing).stations k = ⟨outgoing k, []⟩ from rfl,
      (htransfers k).2.1] at hk
    cases hk

/-- The invariant of one step is an invariant of whole runs. -/
theorem Invariant.run {b₀ : Bus m BUF SESSIONS} (h : Invariant D sent [] b₀)
    (hD : D.isBroadcast = false) (hinj : ∀ j k, (sent j).source = (sent k).source → j = k)
    (htrace : Machine.Trace Bus.step b₀ tr b) (hmis : ∀ e ∈ tr, misled e = false) :
    Invariant D sent tr b := by
  induction htrace with
  | nil => exact h
  | snoc _ hstep ih =>
    have hbefore := ih fun e he => hmis e (List.mem_append_left _ he)
    exact hbefore.step hD hinj hstep (hmis _ (List.mem_append_right _ (List.mem_singleton_self _)))

/-- **A transfer is driven by connection management for its own sender**,
exactly as far as frames for others are not heeded.  A frame from the
destination that is not for the sender leaves the transfer as it is
exactly when it is not heeded; and when any number of ECUs send to one
receiver over a shared bus, in a run in which no frame for another ECU is
heeded, a transfer completes only if the receiver delivered its message. -/
theorem own_answers_only {outgoing : Fin m → Outgoing} {name : Name} {preferred : Address}
    {receiver : Node BUF SESSIONS} (hreach : receiver.Reachable name preferred)
    (haddr : receiver.address = D) (hD : D.isBroadcast = false)
    (hinj : ∀ j k, (sent j).source = (sent k).source → j = k)
    (hlong : ∀ k, Frame.maxPayload < (sent k).data.length)
    (hnew : ∀ k, Outgoing.new (sent k).pgn (sent k).source D (sent k).data = .ok (outgoing k))
    (inputs : List (Input m)) :
    (∀ (o : Outgoing) (tx : Transmitter) (announced : Bool) (f : Frame),
      o.state = .multi tx announced → f.sourceAddress = o.destination →
      f.id.destinationAddress ≠ some o.source →
      (o.onFrame f = .ok (.idle, o) ↔ o.heeds f = false))
    ∧ ∃ tr b, Machine.run step (initial receiver outgoing) inputs = .ok (tr, b)
      ∧ ((∀ e ∈ tr, misled e = false) →
        ∀ k, (b.stations k).outgoing.isComplete = true → Delivered tr (sent k)) := by
  refine ⟨fun o tx announced f _ _ _ => Outgoing.onFrame_eq_idle, ?_⟩
  have h₀ := invariant_initial hreach.wf haddr hD hlong hnew
  obtain ⟨tr, b, hrun, -⟩ := Machine.run_ok (fun _ i hb => hb.step i) inputs h₀.toRunning
  refine ⟨tr, b, hrun, fun hmis k hk => ?_⟩
  exact (h₀.run hD hinj (Machine.run_trace hrun).1 hmis).complete k hk

/-- The messages delivered by a run. -/
def deliveries (tr : List (Entry m BUF SESSIONS)) : List (Pgn × Address × List UInt8) :=
  tr.filterMap fun e =>
    match e.out with
    | .received (.message pgn source data _) => some (pgn, source, data)
    | _ => none

theorem delivered_iff : Delivered tr s ↔ (s.pgn, s.source, s.data) ∈ deliveries tr := by
  unfold Delivered deliveries
  rw [List.mem_filterMap]
  constructor
  · rintro ⟨e, he, reply, hout⟩
    exact ⟨e, he, by rw [hout]⟩
  · rintro ⟨e, he, hout⟩
    split at hout
    next pgn source data reply heq =>
      simp only [Option.some.injEq, Prod.mk.injEq] at hout
      obtain ⟨rfl, rfl, rfl⟩ := hout
      exact ⟨e, he, reply, heq⟩
    next => cases hout

/-- Two ECUs with a message of the same group for the ECU at `0x80`. -/
def twoSenders : Fin 2 → Sent :=
  ![⟨.dm1, ⟨0x10⟩, List.replicate 9 0⟩, ⟨.dm1, ⟨0x20⟩, List.replicate 9 1⟩]

/-- Their transfers, before anything is sent. -/
def twoTransfers (k : Fin 2) : Outgoing :=
  ⟨.dm1, .default, (twoSenders k).source, ⟨0x80⟩, .multi
    { pgn := .dm1
      data := (twoSenders k).data
      packets := packetCount (twoSenders k).data.length
      nextSequence := 1
      windowRemaining := 0
      broadcast := false
      complete := false
      maxPacketsPerCts := 0xFF
      size_ge := by fin_cases k <;> decide
      size_le := by fin_cases k <;> decide
      packets_eq := rfl } false⟩

/-- The node at `0x80`, with its address claimed. -/
def claimedNode : Node 16 2 := ((Node.new ⟨1⟩ ⟨0x80⟩).start.2.tick 250).2

theorem reachable_claimedNode : claimedNode.Reachable ⟨1⟩ ⟨0x80⟩ :=
  ⟨[.start, .tick 250], _, rfl⟩

theorem new_twoTransfers (k : Fin 2) : Outgoing.new (twoSenders k).pgn (twoSenders k).source ⟨0x80⟩
    (twoSenders k).data = .ok (twoTransfers k) := by
  fin_cases k <;> rfl

/-- One of two ECUs sends its message, hearing only answers to itself. -/
theorem own_answers_only_one_of_two :
    ((twoTransfers 1).onFrame (Frame.fromPayload ⟨0x1CEC1080, by decide⟩
        (TpCm.cts 2 1 .tpDt).encode) = .ok (.idle, twoTransfers 1))
    ∧ ∃ tr b, Machine.run step (initial claimedNode twoTransfers)
        [.send 0, .receive, .hear 0, .send 0, .send 0, .receive, .receive, .hear 0] = .ok (tr, b)
      ∧ (b.stations 0).outgoing.isComplete = true ∧ Delivered tr (twoSenders 0) := by
  obtain ⟨hframe, tr, b, hrun, hdelivered⟩ := own_answers_only reachable_claimedNode
    (by decide) (by decide) (by decide) (by decide) new_twoTransfers
    [.send 0, .receive, .hear 0, .send 0, .send 0, .receive, .receive, .hear 0]
  refine ⟨(hframe (twoTransfers 1) _ false _ rfl (by decide) (by decide)).mpr
    (by decide +kernel), ?_⟩
  have hall : (Machine.run step (initial claimedNode twoTransfers)
      [.send 0, .receive, .hear 0, .send 0, .send 0, .receive, .receive, .hear 0]).map (fun x =>
        (x.1.all fun e => !misled e, (x.2.stations 0).outgoing.isComplete)) = .ok (true, true) := by
    decide +kernel
  rw [hrun] at hall
  simp only [Except.map, Except.ok.injEq, Prod.mk.injEq, List.all_eq_true,
    Bool.not_eq_true'] at hall
  exact ⟨tr, b, hrun, hall.2, hdelivered hall.1 0 hall.2⟩

/-- An ECU takes the acknowledgement of another ECU's message of the same
group for its own: its transfer completes, and its message is never
delivered. -/
theorem completed_by_another :
    (∀ k, Outgoing.new (twoSenders k).pgn (twoSenders k).source ⟨0x80⟩ (twoSenders k).data
      = .ok (twoTransfers k))
    ∧ ∃ tr b, Machine.run step (initial claimedNode twoTransfers)
        [.send 0, .send 1, .receive, .receive, .hear 0, .hear 0, .send 0, .send 0, .receive,
          .receive, .hear 1, .hear 1, .hear 1, .hear 1, .hear 1, .hear 1] = .ok (tr, b)
      ∧ (b.stations 1).outgoing.isComplete = true ∧ ¬ Delivered tr (twoSenders 1) := by
  refine ⟨new_twoTransfers, ?_⟩
  have hrunning : Running ⟨0x80⟩ twoSenders (initial claimedNode twoTransfers) :=
    (invariant_initial reachable_claimedNode.wf (by decide) (by decide) (by decide)
      new_twoTransfers).toRunning
  obtain ⟨tr, b, hrun, -⟩ := Machine.run_ok (fun _ i hb => hb.step i)
    [.send 0, .send 1, .receive, .receive, .hear 0, .hear 0, .send 0, .send 0, .receive,
      .receive, .hear 1, .hear 1, .hear 1, .hear 1, .hear 1, .hear 1] hrunning
  have hall : (Machine.run step (initial claimedNode twoTransfers)
      [.send 0, .send 1, .receive, .receive, .hear 0, .hear 0, .send 0, .send 0, .receive,
        .receive, .hear 1, .hear 1, .hear 1, .hear 1, .hear 1, .hear 1]).map (fun x =>
        (deliveries x.1, (x.2.stations 1).outgoing.isComplete))
      = .ok ([(.dm1, ⟨0x10⟩, List.replicate 9 0)], true) := by decide +kernel
  rw [hrun] at hall
  simp only [Except.map, Except.ok.injEq, Prod.mk.injEq] at hall
  refine ⟨tr, b, hrun, hall.2, fun h => ?_⟩
  rw [delivered_iff, hall.1] at h
  exact absurd h (by decide)

end Bus

end SaeJ1939
