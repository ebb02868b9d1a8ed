/-
  SaeJ1939.Node.Safety — no traffic can panic or overrun a node.

  Main results:
    * `Representation` — what the reassembler's slots always satisfy.
    * `delivered_fits` — a reassembled payload fits the buffer, and a
      single-frame payload is the frame's own.
    * `traffic_is_safe` — from `Node.new`, every run of inputs returns,
      and both hold throughout.
-/
import SaeJ1939.Node.Node

namespace SaeJ1939

open Checked Tp

/-! ## §1. The slots. -/

/-- At most one session per source address; every session's size fits the
protocol and the buffer, its packet count is the one its size needs, and
the packet and the window it is waiting for lie within that count. -/
structure Tp.Reassembler.Representation {N SESSIONS : Nat} (r : Reassembler N SESSIONS) : Prop where
  one_session : ∀ i j s s', (r.slots i).session = some s → (r.slots j).session = some s' →
    s.source = s'.source → i = j
  size : ∀ i s, (r.slots i).session = some s → 9 ≤ s.size ∧ s.size ≤ min 1785 N
  packets : ∀ i s, (r.slots i).session = some s → s.packets = packetCount s.size
  next : ∀ i s, (r.slots i).session = some s → 1 ≤ s.nextSequence ∧ s.nextSequence ≤ s.packets
  window : ∀ i s, (r.slots i).session = some s →
    1 ≤ s.windowRemaining ∧ s.windowRemaining ≤ s.packets - s.nextSequence + 1

theorem Tp.Reassembler.WF.representation {N SESSIONS : Nat} {r : Reassembler N SESSIONS}
    (h : r.WF) : r.Representation := by
  refine ⟨?_, ?_, ?_, ?_, ?_⟩
  · intro i j s s' hs hs' hsrc
    exact h.distinct i j s.source (Reassembler.key_eq_some.mpr ⟨s, hs, rfl⟩)
      (Reassembler.key_eq_some.mpr ⟨s', hs', hsrc.symm⟩)
  · intro i s hs
    have hwf := h.sessions i s hs
    exact ⟨hwf.size_ge, le_min hwf.size_le hwf.size_fits⟩
  · exact fun i s hs => (h.sessions i s hs).packets_eq
  · exact fun i s hs => ⟨(h.sessions i s hs).next_pos, (h.sessions i s hs).next_le⟩
  · exact fun i s hs => ⟨(h.sessions i s hs).window_pos, (h.sessions i s hs).window_le⟩

namespace Node

variable {BUF SESSIONS : Nat} {n n' : Node BUF SESSIONS} {i : Input} {out : Output}

/-! ## §2. Delivered payloads. -/

/-- A claim outcome delivers nothing. -/
theorem actOnClaim_ne_message (n : Node BUF SESSIONS) (action : AddressClaim.ClaimAction)
    (pgn : Pgn) (source : Address) (data : List UInt8) (reply : Option Frame) :
    (n.actOnClaim action).1 ≠ .message pgn source data reply := by
  cases action <;> simp [actOnClaim]

/-- An event is a message only if the reassembler delivered one. -/
theorem lift_eq_message {rx : Rx} {address peer : Address} {pgn : Pgn} {source : Address}
    {data : List UInt8} {reply : Option Frame}
    (h : lift rx address peer = .message pgn source data reply) :
    ∃ ack, rx = .message pgn source data ack
      ∧ reply = ack.bind fun cm => tpCmFrame address peer cm := by
  cases rx with
  | idle => cases h
  | send cm =>
    unfold lift at h
    dsimp only at h
    split at h <;> cases h
  | message pgn' source' data' ack =>
    simp only [lift, Event.message.injEq] at h
    obtain ⟨rfl, rfl, rfl, rfl⟩ := h
    exact ⟨ack, rfl, rfl⟩

/-- Connection management delivers nothing. -/
theorem onCm_ne_message {N : Nat} {room : Bool} {peer : Address} {t : Option Transfer} {cm : TpCm}
    {pgn : Pgn} {source : Address} {data : List UInt8} {ack : Option TpCm} :
    (Transfer.onCm N room peer t cm).1 ≠ .message pgn source data ack := by
  cases cm with
  | bam => unfold Transfer.onCm; dsimp only; split_ifs <;> simp
  | rts => unfold Transfer.onCm; dsimp only; split_ifs <;> simp
  | cts | endOfMsgAck | abort => simp [Transfer.onCm]

/-- **What a delivered payload is**: a frame's own data, or a reassembled
message that fits the buffer. -/
theorem delivered_fits (h : n.WF) (hstep : step n i = .ok (out, n')) {pgn : Pgn}
    {source : Address} {data : List UInt8} {reply : Option Frame}
    (hout : out = .event (.message pgn source data reply)) :
    ∃ f, i = .frame f
      ∧ ((n.route f = .application ∧ data = f.data ∧ data.length ≤ 8)
        ∨ ((∃ dt, n.route f = .data dt) ∧ data.length ≤ BUF)) := by
  subst hout
  cases i with
  | frame f =>
    refine ⟨f, rfl, ?_⟩
    simp only [Node.step, bind_eq_ok, Prod.exists, pure_eq_ok, Except.ok.injEq, Prod.mk.injEq,
      Output.event.injEq] at hstep
    obtain ⟨event, n₁, hframe, rfl, rfl⟩ := hstep
    rw [onFrame_eq] at hframe
    cases hroute : n.route f with
    | ignore => simp [hroute] at hframe
    | addressClaimed name =>
      simp only [hroute, Except.ok.injEq] at hframe
      exact absurd (congrArg Prod.fst hframe) (actOnClaim_ne_message _ _ _ _ _ _)
    | claimRequest =>
      simp only [hroute, Except.ok.injEq] at hframe
      exact absurd (congrArg Prod.fst hframe) (actOnClaim_ne_message _ _ _ _ _ _)
    | connection cm =>
      simp only [hroute, Except.ok.injEq, Prod.mk.injEq] at hframe
      obtain ⟨ack, hrx, -⟩ := lift_eq_message hframe.1
      rw [(Reassembler.onTpCm_refines h.receiver f.sourceAddress cm).1] at hrx
      exact absurd hrx onCm_ne_message
    | data dt =>
      obtain ⟨r', hok, -⟩ := Reassembler.onTpDt_refines h.receiver f.sourceAddress dt
      simp only [hroute, hok, ok_bind, pure_eq_ok, Except.ok.injEq, Prod.mk.injEq] at hframe
      obtain ⟨ack, hrx, -⟩ := lift_eq_message hframe.1
      -- the payload was cut at the announced size
      obtain ⟨t, ht, -, -, -, -, hdata, -⟩ := Reassembler.onDt_message hrx
      have hfits := (h.receiver.session_of_transferOf ht).size_fits
      refine Or.inr ⟨⟨dt, rfl⟩, ?_⟩
      rw [hdata, List.length_take]
      omega
    | application =>
      simp only [hroute, Except.ok.injEq, Prod.mk.injEq, Event.message.injEq] at hframe
      obtain ⟨⟨-, -, rfl, -⟩, -⟩ := hframe
      refine Or.inl ⟨rfl, rfl, ?_⟩
      rw [Frame.data_length]
      exact f.len_le
  | tick | start | commandedAddress | giveUpAddress => simp [Node.step] at hstep

/-! ## §3. Whole runs. -/

/-- **No traffic can panic or overrun a node.**  Every run of inputs from
`Node.new` returns; every state of its reassembler, and every state a
reassembler can reach on its own, satisfies `Representation`; a
reassembled payload has at most `BUF` bytes, and a single-frame payload is
the frame's own, of at most eight. -/
theorem traffic_is_safe (BUF SESSIONS : Nat) (name : Name) (preferred : Address)
    (inputs : List Input) :
    (∀ r : Reassembler BUF SESSIONS, r.Reachable → r.Representation)
      ∧ ∃ tr, ∃ n : Node BUF SESSIONS, Machine.run step (new name preferred) inputs = .ok (tr, n)
        ∧ n.reassembler.Representation
        ∧ ∀ e ∈ tr, e.before.reassembler.Representation
          ∧ ∀ pgn source data reply, e.out = .event (.message pgn source data reply) →
            ∃ f, e.event = .frame f
              ∧ ((e.before.route f = .application ∧ data = f.data ∧ data.length ≤ 8)
                ∨ ((∃ dt, e.before.route f = .data dt) ∧ data.length ≤ BUF)) := by
  have h₀ : (new name preferred : Node BUF SESSIONS).WF := wf_new name preferred
  obtain ⟨tr, n, hrun, hn⟩ := run_ok h₀ inputs
  refine ⟨fun r hr => (Reassembler.Reachable.wf hr).representation, tr, n, hrun,
    hn.receiver.representation, fun e he => ?_⟩
  obtain ⟨pre, post, htr⟩ := List.append_of_mem he
  obtain ⟨-, hwf, hstep⟩ := entry_of_run h₀ hrun htr
  refine ⟨hwf.receiver.representation, fun pgn source data reply hout => ?_⟩
  exact delivered_fits hwf hstep hout

/-- A node with a four-byte buffer delivers an eight-byte broadcast frame:
a single-frame payload is borrowed from the frame, not from the buffer. -/
theorem single_frame_exceeds_buffer :
    ∃ tr, ∃ n : Node 4 1,
      Machine.run step (new ⟨1⟩ ⟨0x80⟩)
          [.frame (Frame.fromPayload (Id.broadcast .default .dm1 ⟨0x10⟩) fun _ => 0)] = .ok (tr, n)
        ∧ tr.map Machine.Entry.out
          = [.event (.message .dm1 ⟨0x10⟩ [0, 0, 0, 0, 0, 0, 0, 0] none)]
        ∧ ¬ [0, 0, 0, 0, 0, 0, 0, 0].length ≤ 4 := by
  refine ⟨_, _, rfl, ?_, by decide⟩
  decide

end Node

end SaeJ1939
