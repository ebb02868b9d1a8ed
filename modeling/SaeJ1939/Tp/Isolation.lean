/-
  SaeJ1939.Tp.Isolation — peers of one reassembler do not interfere.

  Two runs are compared: one with everybody's traffic, and the one left
  when all calls made for other peers are removed.  A peer's transfer may
  sit in different slots of the two, over different leftovers; what the
  runs have in common is `Isolated`.

  Main results:
    * `isolated_step`, `isolated_skip` — a call that concerns the peer
      keeps the two runs in step, and a call for another peer does not
      disturb them.
    * `peers_do_not_interfere` — the peer sees the same in both runs, as
      long as the first had a slot for each of its announcements.
-/
import SaeJ1939.Tp.Lifetime

namespace SaeJ1939.Tp

/-- Whether a message asks a receiver to open a session. -/
def TpCm.isAnnouncement : TpCm → Bool
  | .rts .. | .bam .. => true
  | _ => false

namespace Reassembler

variable {N SESSIONS : Nat} {r r₂ : Reassembler N SESSIONS} {peer : Address}

/-! ## §1. The runs in step. -/

/-- `r` serves everybody and `r₂` only `peer`: both have the same transfer
of `peer`, and `r₂` has no other. -/
structure Isolated (peer : Address) (r r₂ : Reassembler N SESSIONS) : Prop where
  wf : r.WF
  wf₂ : r₂.WF
  same : r₂.transferOf peer = r.transferOf peer
  alone : ∀ a, a ≠ peer → r₂.transferOf a = none

/-- Some slot is free or already works for `peer`. -/
def HasSlotFor (peer : Address) (r : Reassembler N SESSIONS) : Prop :=
  ∃ i, ∀ s, (r.slots i).session = some s → s.source = peer

/-- What is assumed of the run with everybody's traffic: a slot for each
announcement of `peer`. -/
def SlotAtAnnouncement (peer : Address) (r : Reassembler N SESSIONS) (c : Call) : Prop :=
  ∀ cm, c = .tpCm peer cm → cm.isAnnouncement = true → HasSlotFor peer r

theorem isolated_new : Isolated peer (new : Reassembler N SESSIONS) new :=
  ⟨wf_new, wf_new, rfl, fun a _ => transferOf_new a⟩

theorem room_of_hasSlotFor (h : HasSlotFor peer r) (hr : r.WF) : r.room peer = true := by
  obtain ⟨i, hi⟩ := h
  rw [room_eq_true]
  cases hs : (r.slots i).session with
  | none => exact Or.inr ⟨i, hs⟩
  | some s =>
    obtain ⟨received, ht⟩ := transferOf_of_session hr hs
    exact Or.inl (by simp [← hi s hs, ht])

/-- The peer alone finds a slot wherever it found one among others. -/
theorem Isolated.hasSlotFor (h : Isolated peer r r₂) (hslot : HasSlotFor peer r) :
    HasSlotFor peer r₂ := by
  obtain ⟨i, -⟩ := hslot
  refine ⟨i, fun s hs => ?_⟩
  obtain ⟨received, ht⟩ := transferOf_of_session h.wf₂ hs
  by_contra hne
  rw [h.alone _ hne] at ht
  cases ht

/-- Only an announcement depends on there being a slot. -/
theorem onCm_room {cm : TpCm} (h : cm.isAnnouncement = false) (room room₂ : Bool)
    (t : Option Transfer) :
    Transfer.onCm N room peer t cm = Transfer.onCm N room₂ peer t cm := by
  cases cm with
  | rts | bam => cases h
  | abort | cts | endOfMsgAck => rfl

/-- Both runs do to the peer's transfer, and show it, the same. -/
theorem Isolated.same_room (h : Isolated peer r r₂) {c : Call} (hslot : SlotAtAnnouncement peer r c)
    (t : Option Transfer) :
    Transfer.onCall N (r₂.room peer) peer t c = Transfer.onCall N (r.room peer) peer t c
      ∧ Transfer.answer N (r₂.room peer) peer t c = Transfer.answer N (r.room peer) peer t c := by
  cases c with
  | tpCm source cm =>
    by_cases hsrc : source = peer
    · subst hsrc
      have hsame : Transfer.onCm N (r₂.room source) source t cm
          = Transfer.onCm N (r.room source) source t cm := by
        cases hann : cm.isAnnouncement with
        | false => exact onCm_room hann _ _ t
        | true =>
          have hroom := hslot cm rfl hann
          rw [room_of_hasSlotFor hroom h.wf, room_of_hasSlotFor (h.hasSlotFor hroom) h.wf₂]
      simp only [Transfer.onCall, Transfer.answer, hsame, if_true, and_self]
    · simp only [Transfer.onCall, Transfer.answer, hsrc, if_false, and_self]
  | tpDt | tick | abandon | reset => exact ⟨rfl, rfl⟩

/-- A transfer that is not there stays away unless its peer calls. -/
theorem onCall_none {room : Bool} {a : Address} {c : Call} (hc : c.concerns peer = true)
    (ha : a ≠ peer) : Transfer.onCall N room a none c = none := by
  cases c with
  | tpCm source cm | tpDt source dt | abandon source =>
    simp only [Call.concerns, decide_eq_true_eq] at hc
    subst hc
    simp [Transfer.onCall, Ne.symm ha]
  | tick elapsedMs timeoutMs => rfl
  | reset => rfl

/-- A call made for another peer neither touches nor shows anything. -/
theorem not_concerned (room : Bool) {c : Call} (hc : c.concerns peer = false)
    (t : Option Transfer) :
    Transfer.onCall N room peer t c = t ∧ Transfer.answer N room peer t c = none := by
  cases c with
  | tpCm source cm | tpDt source dt | abandon source =>
    simp only [Call.concerns, decide_eq_false_iff_not] at hc
    simp [Transfer.onCall, Transfer.answer, hc]
  | tick | reset => cases hc

/-- **A call that concerns the peer keeps the runs in step.** -/
theorem isolated_step (h : Isolated peer r r₂) {c : Call} (hc : c.concerns peer = true)
    (hslot : SlotAtAnnouncement peer r c) :
    ∃ o r' o₂ r₂', step r c = .ok (o, r') ∧ step r₂ c = .ok (o₂, r₂')
      ∧ seen peer c o = seen peer c o₂ ∧ Isolated peer r' r₂' := by
  obtain ⟨o, r', hstep, hwf, hall⟩ := step_refines h.wf c
  obtain ⟨o₂, r₂', hstep₂, hwf₂, hall₂⟩ := step_refines h.wf₂ c
  obtain ⟨hcall, hanswer⟩ := h.same_room hslot (r.transferOf peer)
  refine ⟨o, r', o₂, r₂', hstep, hstep₂, ?_, ⟨hwf, hwf₂, ?_, fun a ha => ?_⟩⟩
  · rw [(hall peer).2, (hall₂ peer).2, h.same, hanswer]
  · rw [(hall peer).1, (hall₂ peer).1, h.same, hcall]
  · rw [(hall₂ a).1, h.alone a ha, onCall_none hc ha]

/-- **A call for another peer does not disturb them.** -/
theorem isolated_skip (h : Isolated peer r r₂) {c : Call} (hc : c.concerns peer = false) :
    ∃ o r', step r c = .ok (o, r') ∧ seen peer c o = none ∧ Isolated peer r' r₂ := by
  obtain ⟨o, r', hstep, hwf, hall⟩ := step_refines h.wf c
  obtain ⟨hcall, hanswer⟩ := not_concerned (N := N) (r.room peer) hc (r.transferOf peer)
  refine ⟨o, r', hstep, (hall peer).2.trans hanswer, ⟨hwf, h.wf₂, ?_, h.alone⟩⟩
  rw [(hall peer).1, hcall]
  exact h.same

/-! ## §2. Whole runs. -/

/-- What `peer` sees of a run: the part of every reply that is about it. -/
def view (peer : Address) (tr : List (Entry N SESSIONS)) : List Reply :=
  tr.filterMap fun e => seen peer e.event e.out

/-- **Peers do not interfere.**  If some slot was free or already its own
at each of `peer`'s announcements, then `peer` sees the same replies as in
the run that is left when every call for another peer is removed. -/
theorem peers_do_not_interfere (peer : Address) {calls : List Call}
    {tr : List (Entry N SESSIONS)} {r : Reassembler N SESSIONS}
    (hrun : Machine.run step new calls = .ok (tr, r))
    (hslot : ∀ e ∈ tr, SlotAtAnnouncement peer e.before e.event) :
    ∃ tr₂, ∃ r₂ : Reassembler N SESSIONS,
      Machine.run step new (calls.filter (Call.concerns peer)) = .ok (tr₂, r₂)
        ∧ view peer tr = view peer tr₂ := by
  have hdrop : ∀ (r r₂ : Reassembler N SESSIONS) c, Isolated peer r r₂ →
      c.concerns peer = false → ∃ o r', step r c = .ok (o, r') ∧ seen peer c o = none
        ∧ Isolated peer r' r₂ := fun _ _ _ h hc => isolated_skip h hc
  obtain ⟨tr₂, r₂, hrun₂, -, hview⟩ := Machine.run_filter
    (fun r r₂ c h hc hslot => isolated_step (c := c) h hc hslot) hdrop isolated_new hrun hslot
  exact ⟨tr₂, r₂, hrun₂, hview⟩

/-- Two transfers of two packets each, interleaved. -/
theorem peers_do_not_interfere_interleaved :
    let calls : List Call := [.tpCm ⟨1⟩ (.rts 9 2 0xFF .dm1), .tpCm ⟨2⟩ (.bam 10 2 .dm1),
      .tpDt ⟨1⟩ (.new 1 []), .tpDt ⟨2⟩ (.new 1 []), .tpDt ⟨1⟩ (.new 2 []), .abandon ⟨2⟩]
    ∃ tr tr₂, ∃ r r₂ : Reassembler 16 2, Machine.run step new calls = .ok (tr, r)
      ∧ Machine.run step new (calls.filter (Call.concerns ⟨1⟩)) = .ok (tr₂, r₂)
      ∧ view ⟨1⟩ tr = view ⟨1⟩ tr₂ := by
  intro calls
  have hrun : Machine.run step (new : Reassembler 16 2) calls = .ok (_, _) := rfl
  obtain ⟨tr₂, r₂, hrun₂, hview⟩ := peers_do_not_interfere ⟨1⟩ hrun (by
    -- only the first call announces a transfer of this peer
    refine List.forall_mem_cons.mpr ⟨fun cm _ _ => ⟨0, fun s hs => by cases hs⟩, ?_⟩
    intro e he cm hev hann
    simp only [List.mem_cons, List.not_mem_nil, or_false] at he
    rcases he with rfl | rfl | rfl | rfl | rfl <;> cases hev)
  exact ⟨_, tr₂, _, r₂, hrun, hrun₂, hview⟩

end Reassembler

end SaeJ1939.Tp
