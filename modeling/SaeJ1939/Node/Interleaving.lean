/-
  SaeJ1939.Node.Interleaving — messages to everybody from many senders at
  once (`node.rs`, `tp.rs`).

  Every sender puts its frames on the bus in order, but between two of them
  the frames of any other sender may come.  The receiver keeps one session
  a sender, so it hears each message as if it were alone, as long as its
  table has a slot for every sender.

  Main results:
    * `Stage.step` — the next frame of a message gets the answer it would
      get alone, and disturbs no other message.
    * `interleaved_broadcasts` — whatever the order the frames arrive in,
      each message is delivered once, unchanged, with its own last frame.
-/
import Mathlib.Data.Fintype.Card
import SaeJ1939.Lib.Interleaving
import SaeJ1939.Node.Addressed
import SaeJ1939.Node.Claiming

namespace SaeJ1939

open Checked Chunks Interleaving Tp

/-! ## §1. Room in the table. -/

namespace Tp.Reassembler

variable {N SESSIONS : Nat} {r : Reassembler N SESSIONS}

/-- The peers with a transfer in progress. -/
def peers (r : Reassembler N SESSIONS) : Finset Address :=
  ((List.finRange SESSIONS).filterMap fun i => (r.slots i).key).toFinset

theorem mem_peers {a : Address} (h : r.transferOf a ≠ none) : a ∈ r.peers := by
  obtain ⟨t, ht⟩ := Option.ne_none_iff_exists'.mp h
  cases hfind : SlotTable.find Slot.key r.slots a with
  | none => exact absurd (transferOf_eq_none.mpr hfind) h
  | some i =>
    rw [peers, List.mem_toFinset, List.mem_filterMap]
    exact ⟨i, List.mem_finRange i, SlotTable.key_of_find hfind⟩

/-- There are no more peers than sessions. -/
theorem card_peers_le (r : Reassembler N SESSIONS) : r.peers.card ≤ r.activeSessions := by
  refine (List.toFinset_card_le _).trans ?_
  rw [List.length_filterMap_eq_countP]
  refine Nat.le_of_eq (List.countP_congr fun i _ => ?_)
  rw [Slot.key, Option.isSome_map]

/-- **There is room for a peer** whose transfer is in the table, or as long
as the others do not fill it. -/
theorem room_of_peers (hr : r.WF) {source : Address} {ks : Finset Address}
    (hks : ∀ a, r.transferOf a ≠ none → a ∈ ks) (hsource : source ∈ ks)
    (hcard : ks.card ≤ SESSIONS) : r.room source = true := by
  rw [room_eq_true]
  by_cases hnone : r.transferOf source = none
  · -- the peer itself holds none of the slots
    refine Or.inr ?_
    have hheld : ∀ i a, (r.slots i).key = some a → a ∈ ks.erase source := by
      intro i a hkey
      have hfind := (SlotTable.find_eq_some hr.distinct).mpr hkey
      have hsome : r.transferOf a ≠ none := fun h => by
        rw [transferOf_eq_none, hfind] at h
        cases h
      refine Finset.mem_erase.mpr ⟨fun heq => ?_, hks a hsome⟩
      exact hsome (heq ▸ hnone)
    have hless : (ks.erase source).card < SESSIONS := by
      have hpos := Finset.card_pos.mpr ⟨source, hsource⟩
      rw [Finset.card_erase_of_mem hsource]
      omega
    obtain ⟨i, hi⟩ := SlotTable.exists_free hr.distinct hheld hless
    exact ⟨i, Option.map_eq_none_iff.mp hi⟩
  · exact Or.inl (Option.isSome_iff_ne_none.mpr hnone)

end Tp.Reassembler

namespace Node

variable {BUF SESSIONS : Nat} {n n' : Node BUF SESSIONS} {m : Sent} {f : Frame} {event : Event}

/-! ## §2. Other peers. -/

/-- **A transport frame moves the transfer of its sender only.** -/
theorem movesFor_of_transport (h : n.WF) (hpgn : f.pgn = .tpCm ∨ f.pgn = .tpDt)
    (hok : n.onFrame f = .ok (event, n')) : n.MovesFor n' f.sourceAddress := by
  have hclaim : f.pgn ≠ .addressClaimed := by
    rcases hpgn with hpgn | hpgn <;> rw [hpgn] <;> decide
  have hrequest : f.pgn ≠ .request := by
    rcases hpgn with hpgn | hpgn <;> rw [hpgn] <;> decide
  cases hroute : n.route f with
  | ignore =>
    rw [onFrame_eq, hroute] at hok
    cases hok
    exact ⟨h, rfl, fun _ _ => rfl⟩
  | connection cm =>
    obtain ⟨n₁, hok₁, hwf, hclaimer, hfocus⟩ := onFrame_connection h hroute
    rw [hok₁] at hok
    cases hok
    exact ⟨hwf, hclaimer, hfocus.others⟩
  | data dt =>
    obtain ⟨n₁, hok₁, hwf, hclaimer, hfocus⟩ := onFrame_data h hroute
    rw [hok₁] at hok
    cases hok
    exact ⟨hwf, hclaimer, hfocus.others⟩
  | application =>
    rw [onFrame_eq, hroute] at hok
    cases hok
    exact ⟨h, rfl, fun _ _ => rfl⟩
  | addressClaimed name => exact absurd (of_route_addressClaimed hroute).2.1 hclaim
  | claimRequest =>
    have hasks := route_claimRequest_iff.mp hroute
    simp only [asks, Bool.and_eq_true, decide_eq_true_eq] at hasks
    exact absurd hasks.1.2 hrequest

/-! ## §3. One message among others. -/

/-- A message to everybody that the protocol can carry and a node can hold;
if it is short, of a group the node does not consume itself. -/
structure Hearable (BUF : Nat) (m : Sent) : Prop where
  size_le : m.data.length ≤ maxMessageSize
  fits : m.data.length ≤ BUF
  own : m.data.length ≤ Frame.maxPayload → m.pgn ≠ .addressClaimed ∧ m.pgn ≠ .tpCm ∧ m.pgn ≠ .tpDt
    ∧ ¬ (m.pgn = .request ∧ Request.decode m.data = .ok ⟨.addressClaimed⟩)

theorem pgn_packet (m : Sent) (i : Nat) : (m.packet i).pgn = .tpDt := Id.pgn_broadcast ..

theorem pgn_announcement (m : Sent) : m.announcement.pgn = .tpCm := Id.pgn_broadcast ..

/-- The message is passed to the application. -/
def delivery (m : Sent) : Output := .event (.message m.pgn m.source m.data none)

/-- The packets of a message after the first `k`, each with the answer it
gets: the last one delivers the message. -/
def packetsAfter (m : Sent) (k : Nat) : List (Input × Output) :=
  (List.range' (k + 1) (packetCount m.data.length - k)).map fun i =>
    (.frame (m.packet i), if i = packetCount m.data.length then delivery m else .event .idle)

/-- The frames of a message, each with the answer it gets alone. -/
def alone (m : Sent) : List (Input × Output) :=
  match Frame.new (Id.broadcast .default m.pgn m.source) m.data with
  | .ok f => [(.frame f, delivery m)]
  | .error _ => (.frame m.announcement, .event .idle) :: packetsAfter m 0

/-- The node has heard the first `k` packets, and nothing else of the
message for at most `t` milliseconds. -/
structure HeardWithin (n : Node BUF SESSIONS) (m : Sent) (k t : Nat) : Prop where
  wf : n.WF
  transfer : ∃ idle ≤ t, n.reassembler.transferOf m.source
    = some ⟨{ hearingSession m k with idleMs := idle }, m.data.take (7 * k)⟩

theorem Hearing.within {k : Nat} (h : n.Hearing m k) : n.HeardWithin m k 0 :=
  ⟨h.wf, 0, Nat.le_refl 0, h.transfer⟩

/-- **One more packet is heard**, however long the pause before it was. -/
theorem HeardWithin.packet {k t : Nat} (h : n.HeardWithin m k t)
    (hk : k < packetCount m.data.length) (hmin : minMessageSize ≤ m.data.length)
    (hmax : m.data.length ≤ maxMessageSize) :
    (k + 1 < packetCount m.data.length →
      ∃ n', n.onFrame (m.packet (k + 1)) = .ok (.idle, n') ∧ n'.Hearing m (k + 1))
    ∧ (k + 1 = packetCount m.data.length →
      ∃ n', n.onFrame (m.packet (k + 1)) = .ok (.message m.pgn m.source m.data none, n')) := by
  have hb := packetCount_bounds hmin hmax
  obtain ⟨idle, -, htransfer⟩ := h.transfer
  have hdecode : TpDt.decode (m.packet (k + 1)).payload = Transmitter.packetOf m.data (k + 1) :=
    TpDt.decode_encode (show k + 1 < 256 by omega)
  have hroute : n.route (m.packet (k + 1)) = .data (TpDt.decode (m.packet (k + 1)).payload) :=
    route_data (Id.isAddressedTo_broadcast ..) (Id.pgn_broadcast ..)
  rw [hdecode] at hroute
  obtain ⟨n', hok, hwf, -, hfocus⟩ := onFrame_data h.wf hroute
  rw [source_packet, htransfer] at hok hfocus
  simp only [Transfer.onDt, hearingSession, Transmitter.packetOf, TpDt.bytes_new,
    Nat.add_sub_cancel] at hok hfocus
  simp only [TpDt.new, ne_eq, not_true_eq_false, if_false, Bool.not_true, Bool.false_eq_true]
    at hok hfocus
  constructor
  · intro hmore
    -- a packet before the last one is full, and ends the pause
    rw [if_neg (Nat.ne_of_lt hmore), take_append_full (by omega)] at hok hfocus
    exact ⟨n', hok, hwf, hfocus.self⟩
  · intro hlast
    rw [if_pos hlast, take_append_pad (by omega) (by omega)] at hok
    exact ⟨n', hok⟩

/-- How far a message has got, how long ago its last frame was at most,
and the frames that are left of it. -/
inductive Stage (n : Node BUF SESSIONS) (m : Sent) :
    Option Nat → List (Input × Output) → Prop where
  | waiting {since : Option Nat} : Stage n m since (alone m)
  | hearing {k t : Nat} (hk : k < packetCount m.data.length)
      (hmin : Frame.maxPayload < m.data.length) (h : n.HeardWithin m k t) :
      Stage n m (some t) (packetsAfter m k)
  | delivered {since : Option Nat} : Stage n m since []

theorem packetsAfter_cons {k : Nat} (hk : k < packetCount m.data.length) :
    packetsAfter m k = (.frame (m.packet (k + 1)),
        if k + 1 = packetCount m.data.length then delivery m else .event .idle)
      :: packetsAfter m (k + 1) := by
  unfold packetsAfter
  have hlen : packetCount m.data.length - k = packetCount m.data.length - (k + 1) + 1 := by omega
  rw [hlen, List.range'_succ, List.map_cons]

theorem packetsAfter_all : packetsAfter m (packetCount m.data.length) = [] := by
  unfold packetsAfter
  rw [Nat.sub_self]
  rfl

/-- Another sender's frame leaves a message where it is. -/
theorem Stage.other {source : Address} {since : Option Nat} {left : List (Input × Output)}
    (h : Stage n m since left) (hmoves : n.MovesFor n' source) (hne : m.source ≠ source) :
    Stage n' m since left := by
  cases h with
  | waiting => exact .waiting
  | hearing hk hmin h =>
    refine .hearing hk hmin ⟨hmoves.wf, ?_⟩
    rw [hmoves.others _ hne]
    exact h.transfer
  | delivered => exact .delivered

/-- **The next frame of a message** gets the answer it would get alone,
and moves nothing but the transfer of its sender. -/
theorem Stage.step {x : Input} {o : Output} {since : Option Nat} {rest : List (Input × Output)}
    (hwf : n.WF) (hm : Hearable BUF m) (hroom : n.reassembler.room m.source = true)
    (h : Stage n m since ((x, o) :: rest)) :
    ∃ n', Node.step n x = .ok (o, n') ∧ n.MovesFor n' m.source ∧ Stage n' m (some 0) rest := by
  generalize hleft : (x, o) :: rest = left at h
  cases h with
  | delivered => cases hleft
  | @hearing k t hk hmin hheard =>
    have hsize : minMessageSize ≤ m.data.length := hmin
    obtain ⟨hmore, hlast⟩ := hheard.packet hk hsize hm.size_le
    rw [packetsAfter_cons hk] at hleft
    simp only [List.cons.injEq, Prod.mk.injEq] at hleft
    obtain ⟨⟨rfl, rfl⟩, rfl⟩ := hleft
    by_cases hend : k + 1 = packetCount m.data.length
    · -- the last packet delivers the message
      obtain ⟨n', hok⟩ := hlast hend
      have hmoves := movesFor_of_transport hwf (Or.inr (pgn_packet m (k + 1))) hok
      rw [source_packet] at hmoves
      refine ⟨n', ?_, hmoves, ?_⟩
      · simp only [Node.step, hok, ok_bind, pure_eq_ok, if_pos hend]
        rfl
      · rw [hend, packetsAfter_all]
        exact .delivered
    · obtain ⟨n', hok, hheard'⟩ := hmore (by omega)
      have hmoves := movesFor_of_transport hwf (Or.inr (pgn_packet m (k + 1))) hok
      rw [source_packet] at hmoves
      refine ⟨n', ?_, hmoves, .hearing (by omega) hmin hheard'.within⟩
      simp only [Node.step, hok, ok_bind, pure_eq_ok, if_neg hend]
  | waiting =>
    unfold alone at hleft
    by_cases hshort : m.data.length ≤ Frame.maxPayload
    · -- one frame, which the node passes on at once
      obtain ⟨f, hf⟩ := Frame.new_ok (Id.broadcast .default m.pgn m.source) hshort
      obtain ⟨hclaim, hcm, hdt, hrequest⟩ := hm.own hshort
      have hok := onFrame_single (n := n) hf hclaim hcm hdt hrequest
      rw [hf] at hleft
      simp only [List.cons.injEq, Prod.mk.injEq] at hleft
      obtain ⟨⟨rfl, rfl⟩, rfl⟩ := hleft
      refine ⟨n, ?_, ⟨hwf, rfl, fun _ _ => rfl⟩, .delivered⟩
      simp only [Node.step, hok, ok_bind, pure_eq_ok]
      rfl
    · -- an announcement, which opens the transfer
      have hmin : Frame.maxPayload < m.data.length := Nat.lt_of_not_le hshort
      have hsize : minMessageSize ≤ m.data.length := hmin
      obtain ⟨n', hok, hheard⟩ := hearing_announcement hwf hsize hm.size_le hm.fits hroom
      have hmoves := movesFor_of_transport hwf (Or.inl (pgn_announcement m)) hok
      rw [source_announcement] at hmoves
      have hpos := packetCount_bounds hsize hm.size_le
      have hlong : Frame.new (Id.broadcast .default m.pgn m.source) m.data
          = .error (.shortPayload Frame.maxPayload m.data.length) := dif_pos hmin
      rw [hlong] at hleft
      simp only [List.cons.injEq, Prod.mk.injEq] at hleft
      obtain ⟨⟨rfl, rfl⟩, rfl⟩ := hleft
      refine ⟨n', ?_, hmoves, .hearing (by omega) hmin hheard.within⟩
      simp only [Node.step, hok, ok_bind, pure_eq_ok]

/-- What time does to a node's transfers. -/
theorem transferOf_tick (hwf : n.WF) (ms : Nat) (a : Address) :
    (n.tick ms).2.reassembler.transferOf a
      = (Transfer.onTick ms t1TimeoutMs (n.reassembler.transferOf a)).2 := by
  rw [(tick_eq n ms).2]
  exact ((Reassembler.tick_refines hwf.receiver ms t1TimeoutMs).2 a).1

/-- **Time leaves a message where it is**, as long as its next frame comes
before the timeout. -/
theorem Stage.tick {since : Option Nat} {left : List (Input × Output)} {ms : Nat} (hwf : n.WF)
    (h : Stage n m since left)
    (hprompt : left ≠ [] → ∀ t, since = some t → t + ms ≤ t1TimeoutMs) :
    Stage (n.tick ms).2 m (since.map (· + ms)) left := by
  cases h with
  | waiting => exact .waiting
  | @hearing k t hk hmin h =>
    refine .hearing hk hmin ⟨(hwf.step (i := .tick ms) rfl).1, ?_⟩
    obtain ⟨idle, hidle, htransfer⟩ := h.transfer
    have hsum : t + ms ≤ t1TimeoutMs := by
      refine hprompt ?_ t rfl
      rw [packetsAfter_cons hk]
      exact List.cons_ne_nil _ _
    have hgrown : saturatingAdd 16 idle ms ≤ t + ms :=
      (Nat.min_le_left _ _).trans (Nat.add_le_add_right hidle ms)
    refine ⟨saturatingAdd 16 idle ms, hgrown, ?_⟩
    rw [transferOf_tick hwf, htransfer]
    exact congrArg Prod.snd (if_pos (hgrown.trans hsum))
  | delivered => exact .delivered

/-- **The frames of a message and their answers**: nothing, but for the
last one, which delivers it. -/
theorem alone_of_drain {o : Outgoing}
    (hnew : Outgoing.new m.pgn m.source Address.global m.data = .ok o)
    {frames : List Frame} {o' : Outgoing} (hdrain : o.drain (o.frameCount + 1) = .ok (frames, o')) :
    (alone m).map Prod.fst = frames.map Input.frame
      ∧ (alone m).map Prod.snd
        = List.replicate (frames.length - 1) (.event .idle) ++ [delivery m] := by
  by_cases hshort : m.data.length ≤ Frame.maxPayload
  · obtain ⟨o₁, f, hnew₁, -, hf, o₁', hdrain₁, -⟩ := Outgoing.drain_single m hshort
    obtain rfl : o₁ = o := Except.ok.inj (hnew₁.symm.trans hnew)
    rw [hdrain₁ _ (Nat.lt_succ_self _)] at hdrain
    cases hdrain
    unfold alone
    rw [hf]
    exact ⟨rfl, rfl⟩
  · obtain ⟨hmin, hmax⟩ := Outgoing.length_of_new_global hshort hnew
    obtain ⟨o₁, hnew₁, -, o₁', hdrain₁, -⟩ := Outgoing.drain_broadcast m hmin hmax
    obtain rfl : o₁ = o := Except.ok.inj (hnew₁.symm.trans hnew)
    rw [hdrain₁ _ (Nat.lt_succ_self _)] at hdrain
    cases hdrain
    have hlong : Frame.new (Id.broadcast .default m.pgn m.source) m.data
        = .error (.shortPayload Frame.maxPayload m.data.length) := dif_pos (Nat.lt_of_not_le hshort)
    have hb := packetCount_bounds hmin hmax
    obtain ⟨left, hleft⟩ : ∃ left, packetCount m.data.length = left + 1 :=
      Nat.exists_eq_succ_of_ne_zero (by omega)
    have halone : alone m = (.frame m.announcement, .event .idle) :: packetsAfter m 0 := by
      unfold alone
      rw [hlong]
    rw [halone]
    constructor
    · rw [List.map_cons, List.map_cons, packetsAfter, List.map_map, List.map_map]
      rfl
    · -- no packet before the last one is answered
      have hbefore : (List.range' 1 left).map (fun i =>
            if i = left + 1 then delivery m else .event .idle)
          = List.replicate left (.event .idle) := by
        have hidle : ∀ i ∈ List.range' 1 left,
            (if i = left + 1 then delivery m else .event .idle) = .event .idle := by
          intro i hi
          have hlt := (List.mem_range'_1.mp hi).2
          exact if_neg (by omega)
        rw [List.map_congr_left hidle, List.map_const', List.length_range']
      have hanswers : (packetsAfter m 0).map Prod.snd
          = List.replicate left (.event .idle) ++ [delivery m] := by
        rw [packetsAfter, List.map_map, hleft, Nat.sub_zero, Nat.zero_add, List.range'_1_concat,
          List.map_append]
        refine congrArg₂ (· ++ ·) hbefore ?_
        rw [Nat.add_comm 1 left, List.map_singleton]
        exact congrArg (fun x => [x]) (if_pos rfl)
      rw [List.map_cons, hanswers, List.length_cons, List.length_map, List.length_range', hleft,
        Nat.add_sub_cancel, List.replicate_succ, List.cons_append]

/-- The frames of a message are of its group or of the transport
protocol. -/
theorem pgn_of_drain {o : Outgoing}
    (hnew : Outgoing.new m.pgn m.source Address.global m.data = .ok o) {frames : List Frame}
    {o' : Outgoing} (hdrain : o.drain (o.frameCount + 1) = .ok (frames, o')) (hf : f ∈ frames) :
    f.pgn = m.pgn ∨ f.pgn = .tpCm ∨ f.pgn = .tpDt := by
  by_cases hshort : m.data.length ≤ Frame.maxPayload
  · obtain ⟨o₁, g, hnew₁, -, hg, o₁', hdrain₁, -⟩ := Outgoing.drain_single m hshort
    obtain rfl : o₁ = o := Except.ok.inj (hnew₁.symm.trans hnew)
    rw [hdrain₁ _ (Nat.lt_succ_self _)] at hdrain
    cases hdrain
    rw [List.mem_singleton.mp hf, Frame.pgn, (Frame.data_new hg).1]
    exact Or.inl (Id.pgn_broadcast ..)
  · obtain ⟨hmin, hmax⟩ := Outgoing.length_of_new_global hshort hnew
    obtain ⟨o₁, hnew₁, -, o₁', hdrain₁, -⟩ := Outgoing.drain_broadcast m hmin hmax
    obtain rfl : o₁ = o := Except.ok.inj (hnew₁.symm.trans hnew)
    rw [hdrain₁ _ (Nat.lt_succ_self _)] at hdrain
    cases hdrain
    rcases List.mem_cons.mp hf with rfl | hf
    · exact Or.inr (Or.inl (pgn_announcement m))
    · obtain ⟨i, -, rfl⟩ := List.mem_map.mp hf
      exact Or.inr (Or.inr (pgn_packet m i))

/-- What the protocol has accepted it can carry. -/
theorem hearable_of_new {o : Outgoing}
    (hnew : Outgoing.new m.pgn m.source Address.global m.data = .ok o) (hfits : m.data.length ≤ BUF)
    (hown : m.data.length ≤ 8 → m.pgn ≠ .addressClaimed ∧ m.pgn ≠ .tpCm ∧ m.pgn ≠ .tpDt
      ∧ ¬ (m.pgn = .request ∧ Request.decode m.data = .ok ⟨.addressClaimed⟩)) :
    Hearable BUF m := by
  refine ⟨?_, hfits, hown⟩
  by_cases hshort : m.data.length ≤ Frame.maxPayload
  · exact Nat.le_trans hshort (by decide)
  · exact (Outgoing.length_of_new_global hshort hnew).2

/-! ## §4. Many messages at once. -/

section Many

variable {ι : Type}

/-- The peers of the transfers in progress, and the senders. -/
def peersWith (n : Node BUF SESSIONS) [Fintype ι] (m : ι → Sent) : Finset Address :=
  n.reassembler.peers ∪ Finset.univ.image fun i => (m i).source

theorem source_mem_peersWith (n : Node BUF SESSIONS) [Fintype ι] (m : ι → Sent) (i : ι) :
    (m i).source ∈ n.peersWith m :=
  Finset.mem_union_right _ (Finset.mem_image_of_mem _ (Finset.mem_univ i))

theorem card_peersWith_le (n : Node BUF SESSIONS) [Fintype ι] (m : ι → Sent) :
    (n.peersWith m).card ≤ n.reassembler.activeSessions + Fintype.card ι := by
  refine (Finset.card_union_le _ _).trans (Nat.add_le_add ?_ ?_)
  · exact Reassembler.card_peers_le _
  · exact Finset.card_image_le

/-- **The node is ready for what is left of every message**, whose last
frames were so long ago: no one but the peers in `ks` has a transfer. -/
structure Attends (m : ι → Sent) (ks : Finset Address) (since : Address → Option Nat)
    (q : ι → List (Input × Output)) (n : Node BUF SESSIONS) : Prop where
  wf : n.WF
  peers : ∀ a, n.reassembler.transferOf a ≠ none → a ∈ ks
  stages : ∀ i, Stage n (m i) (since (m i).source) (q i)

/-- A node is ready for any messages that are yet to come. -/
theorem attends_alone (hwf : n.WF) [Fintype ι] (m : ι → Sent) (since : Address → Option Nat) :
    n.Attends m (n.peersWith m) since fun i => alone (m i) :=
  ⟨hwf, fun _ ha => Finset.mem_union_left _ (Reassembler.mem_peers ha), fun _ => .waiting⟩

/-- **Time leaves the node ready**, as long as no message that is not
complete pauses for too long. -/
theorem Attends.tick {m : ι → Sent} {ks : Finset Address} {since : Address → Option Nat}
    {q : ι → List (Input × Output)} {ms : Nat} (h : n.Attends m ks since q)
    (hprompt : ∀ i, q i ≠ [] → ∀ t, since (m i).source = some t → t + ms ≤ t1TimeoutMs) :
    (n.tick ms).2.Attends m ks (fun a => (since a).map (· + ms)) q := by
  refine ⟨(h.wf.step (i := .tick ms) rfl).1, fun a ha => h.peers a fun hnone => ha ?_,
    fun i => (h.stages i).tick h.wf (hprompt i)⟩
  rw [transferOf_tick h.wf, hnone]
  rfl

variable [DecidableEq ι]

/-- **One frame of any of the messages** gets its answer, and the node is
ready for what is then left. -/
theorem Attends.step {m : ι → Sent} {ks : Finset Address} {since : Address → Option Nat}
    {q : ι → List (Input × Output)} {i : ι} {x : Input} {o : Output}
    {rest : List (Input × Output)} (h : n.Attends m ks since q)
    (hsources : Function.Injective fun i => (m i).source) (hm : ∀ i, Hearable BUF (m i))
    (hks : ∀ i, (m i).source ∈ ks) (hcard : ks.card ≤ SESSIONS) (hq : q i = (x, o) :: rest) :
    ∃ n', Node.step n x = .ok (o, n') ∧ n'.claimer = n.claimer
      ∧ n'.Attends m ks (Function.update since (m i).source (some 0))
        (Function.update q i rest) := by
  have hstage := h.stages i
  rw [hq] at hstage
  have hroom := Reassembler.room_of_peers h.wf.receiver h.peers (hks i) hcard
  obtain ⟨n', hstep, hmoves, hstage'⟩ := hstage.step h.wf (hm i) hroom
  refine ⟨n', hstep, hmoves.claimer, hmoves.wf, fun a ha => ?_, fun j => ?_⟩
  · by_cases hsource : a = (m i).source
    · exact hsource ▸ hks i
    · rw [hmoves.others a hsource] at ha
      exact h.peers a ha
  · by_cases hij : j = i
    · subst hij
      rw [Function.update_self, Function.update_self]
      exact hstage'
    · have hne : (m j).source ≠ (m i).source := fun hsame => hij (hsources hsame)
      rw [Function.update_of_ne hij, Function.update_of_ne hne]
      exact (h.stages j).other hmoves hne

/-- **A run over the frames of many messages** answers each frame as its
message alone would have it. -/
theorem run_alone [Fintype ι] {m : ι → Sent} (hwf : n.WF)
    (hsources : Function.Injective fun i => (m i).source) (hm : ∀ i, Hearable BUF (m i))
    (hroom : n.reassembler.activeSessions + Fintype.card ι ≤ SESSIONS) {inputs : List Input}
    (hinputs : Interleaves (fun i => (alone (m i)).map Prod.fst) inputs) :
    ∃ tr n', Machine.run Node.step n inputs = .ok (tr, n')
      ∧ Interleaves (fun i => alone (m i)) (tr.map fun e => (e.event, e.out))
      ∧ n'.WF ∧ n'.claimer = n.claimer := by
  have hcard := (card_peersWith_le n m).trans hroom
  let Ready (q : ι → List (Input × Output)) (s : Node BUF SESSIONS) : Prop :=
    s.claimer = n.claimer ∧ ∃ since, s.Attends m (n.peersWith m) since q
  have hserves : ∀ {q s i x o rest}, Ready q s → q i = (x, o) :: rest →
      ∃ s', Node.step s x = .ok (o, s') ∧ Ready (Function.update q i rest) s' := by
    rintro q s i x o rest ⟨hclaimer, since, h⟩ hq
    obtain ⟨s', hstep, hsame, h'⟩ := h.step hsources hm (source_mem_peersWith n m) hcard hq
    exact ⟨s', hstep, hsame.trans hclaimer, _, h'⟩
  have hready : Ready (fun i => alone (m i)) n := ⟨rfl, fun _ => none, attends_alone hwf m _⟩
  obtain ⟨tr, n', hrun, htr, hclaimer, since, hend⟩ := run_interleaves hserves hinputs hready
  exact ⟨tr, n', hrun, htr, hend.wf, hclaimer⟩

/-- What a call passes to the application. -/
def Output.passed : Output → Option Sent
  | .event (.message pgn source data _) => some ⟨pgn, source, data⟩
  | _ => none

/-- **Messages to everybody from many senders are all heard**, whatever the
order their frames arrive in.  The senders are distinct, and the table has
room for all of them beside the transfers that are in progress; what each
one has to say fits the node, and if it is short it is not of a group the
node consumes itself.  Then every frame is answered as if its message were
alone: with nothing, but for the last one, which delivers the message.  So
each message is delivered exactly once, and nothing else is. -/
theorem interleaved_broadcasts {name : Name} {preferred : Address}
    (hreach : n.Reachable name preferred) [Fintype ι] {m : ι → Sent}
    (hsources : Function.Injective fun i => (m i).source)
    (hfits : ∀ i, (m i).data.length ≤ BUF)
    (hown : ∀ i, (m i).data.length ≤ 8 → (m i).pgn ≠ .addressClaimed ∧ (m i).pgn ≠ .tpCm
      ∧ (m i).pgn ≠ .tpDt
      ∧ ¬ ((m i).pgn = .request ∧ Request.decode (m i).data = .ok ⟨.addressClaimed⟩))
    (hroom : n.reassembler.activeSessions + Fintype.card ι ≤ SESSIONS)
    {o o' : ι → Outgoing} {frames : ι → List Frame}
    (hnew : ∀ i, Outgoing.new (m i).pgn (m i).source Address.global (m i).data = .ok (o i))
    (hdrain : ∀ i, (o i).drain ((o i).frameCount + 1) = .ok (frames i, o' i))
    {heard : List Frame} (hheard : Interleaves frames heard) :
    ∃ tr n', Machine.run Node.step n (heard.map .frame) = .ok (tr, n')
      ∧ Interleaves (fun i => ((frames i).map Input.frame).zip
            (List.replicate ((frames i).length - 1) (.event .idle)
              ++ [.event (.message (m i).pgn (m i).source (m i).data none)]))
          (tr.map fun e => (e.event, e.out))
      ∧ (tr.filterMap fun e => e.out.passed).Perm (Finset.univ.toList.map m) := by
  have hm : ∀ i, Hearable BUF (m i) := fun i => hearable_of_new (hnew i) (hfits i) (hown i)
  have hitems : (fun i => (alone (m i)).map Prod.fst) = fun i => (frames i).map Input.frame :=
    funext fun i => (alone_of_drain (hnew i) (hdrain i)).1
  have hanswers := fun i => (alone_of_drain (hnew i) (hdrain i)).2
  have hinputs := hheard.map Input.frame
  rw [← hitems] at hinputs
  obtain ⟨tr, n', hrun, htr, -⟩ := run_alone hreach.wf hsources hm hroom hinputs
  refine ⟨tr, n', hrun, ?_, ?_⟩
  · have hscripts : (fun i => alone (m i)) = fun i => ((frames i).map Input.frame).zip
        (List.replicate ((frames i).length - 1) (.event .idle) ++ [delivery (m i)]) :=
      funext fun i => List.zip_of_prod (congrFun hitems i) (hanswers i)
    rw [hscripts] at htr
    exact htr
  · have hpassed := (htr.map Prod.snd).filterMap Output.passed
    rw [List.map_map, List.filterMap_map] at hpassed
    have hone : (fun i => ((alone (m i)).map Prod.snd).filterMap Output.passed)
        = fun i => [m i] := by
      funext i
      rw [hanswers i, List.filterMap_append, List.filterMap_replicate_of_none rfl]
      rfl
    rw [hone] at hpassed
    have hperm := hpassed.perm (Finset.nodup_toList Finset.univ) fun i =>
      Finset.mem_toList.mpr (Finset.mem_univ i)
    rw [List.map_eq_flatMap]
    exact hperm

end Many

/-- Two long messages. -/
def twoSenders : Bool → Sent
  | true => ⟨.dm1, ⟨0x80⟩, [1, 2, 3, 4, 5, 6, 7, 8, 9]⟩
  | false => ⟨.dm2, ⟨0x81⟩, [9, 8, 7, 6, 5, 4, 3, 2, 1, 0]⟩

/-- The frames of a long message of two packets. -/
def threeFrames (m : Sent) : List Frame := [m.announcement, m.packet 1, m.packet 2]

/-- Both messages are too long for one frame. -/
theorem twoSenders_long : ∀ b, ¬ (twoSenders b).data.length ≤ 8 := by decide

/-- **What the two senders put on the bus** is three frames each. -/
theorem twoSenders_frames : ∃ o o' : Bool → Outgoing,
    (∀ b, Outgoing.new (twoSenders b).pgn (twoSenders b).source Address.global (twoSenders b).data
      = .ok (o b))
      ∧ ∀ b, (o b).drain ((o b).frameCount + 1) = .ok (threeFrames (twoSenders b), o' b) := by
  have hlen : ∀ b, minMessageSize ≤ (twoSenders b).data.length
      ∧ (twoSenders b).data.length ≤ maxMessageSize
      ∧ packetCount (twoSenders b).data.length = 2 := by decide
  have hdrain := fun b => Outgoing.drain_broadcast (twoSenders b) (hlen b).1 (hlen b).2.1
  choose o hnew hcount o' hdrain hdone using hdrain
  refine ⟨o, o', hnew, fun b => ?_⟩
  rw [hdrain b _ (Nat.lt_succ_self _), (hlen b).2.2]
  rfl

/-- The frames of the two senders may come in turns. -/
theorem twoSenders_interleave : Interleaves (fun b => threeFrames (twoSenders b))
    [(twoSenders true).announcement, (twoSenders false).announcement,
      (twoSenders true).packet 1, (twoSenders false).packet 1, (twoSenders false).packet 2,
      (twoSenders true).packet 2] := by
  refine .cons (k := true) rfl (.cons (k := false) rfl (.cons (k := true) rfl ?_))
  refine .cons (k := false) rfl (.cons (k := false) rfl (.cons (k := true) rfl ?_))
  refine .nil fun b => ?_
  cases b <;> rfl

/-- Two senders whose frames come in turns, for a node that has just been
made. -/
theorem interleaved_broadcasts_two :
    let heard := [(twoSenders true).announcement, (twoSenders false).announcement,
      (twoSenders true).packet 1, (twoSenders false).packet 1, (twoSenders false).packet 2,
      (twoSenders true).packet 2]
    ∃ tr n', Machine.run Node.step (Node.new ⟨1⟩ ⟨0x90⟩ : Node 16 2) (heard.map .frame)
        = .ok (tr, n')
      ∧ (tr.filterMap fun e => e.out.passed).Perm (Finset.univ.toList.map twoSenders) := by
  intro heard
  obtain ⟨o, o', hnew, hdrain⟩ := twoSenders_frames
  have hreach : (Node.new ⟨1⟩ ⟨0x90⟩ : Node 16 2).Reachable ⟨1⟩ ⟨0x90⟩ := ⟨[], [], rfl⟩
  obtain ⟨tr, n', hrun, -, hperm⟩ := interleaved_broadcasts hreach (m := twoSenders) (by decide)
    (by decide) (fun b hshort => absurd hshort (twoSenders_long b)) (by decide) hnew
    hdrain twoSenders_interleave
  exact ⟨tr, n', hrun, hperm⟩

end Node

end SaeJ1939
