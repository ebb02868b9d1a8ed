/-
  SaeJ1939.Host.Recording — a recorded bus, replayed (`log.rs`).

  What many senders say to everybody is written to a file, frame by frame
  in whatever order the frames were on the bus, each with the time it was
  seen.  The file is read line by line, the clock of the node follows the
  timestamps, and the messages come out again.

  Main results:
    * `prompt_of_mem` — a message that is not complete does not time out.
    * `feeds_interleaved` — feeding the frames of many messages.
    * `recording_replays` — a recording replays into what was said.
-/
import SaeJ1939.Host.Captures
import SaeJ1939.Host.Hearing
import SaeJ1939.Host.Verbatim

namespace SaeJ1939.Host.Log

open Checked Interleaving Text
open Ecu (framesOf drain_framesOf ofSent)
open Tp (t1TimeoutMs)

/-! ## §1. Pauses. -/

/-- Senders as they are heard, with the milliseconds before each: no one
that has been heard pauses for longer than `T1` and goes on.  `since` is
how long ago each was heard. -/
def Prompt : (Address → Option Nat) → List (Nat × Address) → Prop
  | _, [] => True
  | since, (ms, source) :: rest =>
      (∀ t ∈ since source, t + ms ≤ t1TimeoutMs)
        ∧ Prompt (Function.update (fun a => (since a).map (· + ms)) source (some 0)) rest

instance decidablePrompt : ∀ since timed, Decidable (Prompt since timed)
  | _, [] => inferInstanceAs (Decidable True)
  | since, (ms, source) :: rest =>
      have := decidablePrompt
        (Function.update (fun a => (since a).map (· + ms)) source (some 0)) rest
      inferInstanceAs (Decidable (_ ∧ _))

/-- **A sender that has more to say is in time**, whoever else comes
first. -/
theorem prompt_of_mem {since : Address → Option Nat} {ms : Nat} {source : Address}
    {rest : List (Nat × Address)} (h : Prompt since ((ms, source) :: rest)) {a : Address} {t : Nat}
    (ha : a ∈ ((ms, source) :: rest).map Prod.snd) (ht : since a = some t) :
    t + ms ≤ t1TimeoutMs := by
  induction rest generalizing since ms source t with
  | nil =>
    obtain rfl := List.mem_singleton.mp ha
    exact h.1 t ht
  | cons next rest ih =>
    by_cases hsource : a = source
    · subst hsource
      exact h.1 t ht
    · -- its pause goes on, and is still short enough when it ends
      obtain ⟨ms', source'⟩ := next
      have hlater : a ∈ ((ms', source') :: rest).map Prod.snd :=
        (List.mem_cons.mp ha).resolve_left hsource
      have hgrown : Function.update (fun a => (since a).map (· + ms)) source (some 0) a
          = some (t + ms) := by
        rw [Function.update_of_ne hsource, ht]
        rfl
      have hend := ih h.2 hlater hgrown
      omega

section Feeding

variable {τ : Type} [Seconds τ]

/-- The senders of the frames of a recording, with the milliseconds that a
replay takes to be before each. -/
def paces : Option τ → List (Entry τ) → List (Nat × Address)
  | _, [] => []
  | previous, entry :: rest =>
      ((previous.map fun p => (Seconds.elapsedMs p entry.timestamp).toNat).getD 0,
          entry.frame.sourceAddress)
        :: paces (some entry.timestamp) rest

theorem paces_sources (previous : Option τ) (entries : List (Entry τ)) :
    (paces previous entries).map Prod.snd = entries.map fun e => e.frame.sourceAddress := by
  induction entries generalizing previous with
  | nil => rfl
  | cons entry rest ih =>
    unfold paces
    rw [List.map_cons, List.map_cons, ih]

/-! ## §2. Feeding frames. -/

/-- A frame that a message puts on the bus, and that only the node looks
at. -/
def Spoken (m : Sent) (i : Node.Input) : Prop :=
  ∃ f, i = .frame f ∧ f.sourceAddress = m.source ∧ f.pgn ∉ [Pgn.addressClaimed, .etpCm, .etpDt]

/-- Every frame of a message is one, if a short message is of no other
group. -/
theorem spoken_of_mem {m : Sent} {x : Node.Input × Node.Output}
    (hown : m.data.length ≤ 8 → m.pgn ∉ [Pgn.addressClaimed, .etpCm, .etpDt])
    (hx : x ∈ Node.alone m) : Spoken m x.1 := by
  unfold Node.alone at hx
  by_cases hshort : m.data.length ≤ Frame.maxPayload
  · obtain ⟨f, hf⟩ := Frame.new_ok (Id.broadcast .default m.pgn m.source) hshort
    obtain ⟨hid, -⟩ := Frame.data_new hf
    rw [hf] at hx
    obtain rfl := List.mem_singleton.mp hx
    refine ⟨f, rfl, ?_, ?_⟩
    · rw [Frame.sourceAddress, hid]
      exact Id.sourceAddress_broadcast ..
    · rw [Frame.pgn, hid, Id.pgn_broadcast]
      exact hown hshort
  · have hlong : Frame.new (Id.broadcast .default m.pgn m.source) m.data
        = .error (.shortPayload Frame.maxPayload m.data.length) :=
      dif_pos (Nat.lt_of_not_le hshort)
    rw [hlong] at hx
    rcases List.mem_cons.mp hx with rfl | hx
    · refine ⟨_, rfl, Node.source_announcement m, ?_⟩
      rw [Node.pgn_announcement]
      decide
    · obtain ⟨i, -, rfl⟩ := List.mem_map.mp hx
      refine ⟨_, rfl, Node.source_packet m i, ?_⟩
      rw [Node.pgn_packet]
      decide

variable {r : TimedReplay τ} {entry : Entry τ}

/-- The node once the time up to an entry has passed. -/
def nodeAt (r : TimedReplay τ) (entry : Entry τ) : Node 1785 8 :=
  ((r.rewound entry).advance (r.clocked entry)).node

/-- **A frame that only the node looks at** is fed to it when the time has
passed. -/
theorem feed_frame {event : Event} {n' : Node 1785 8}
    (hpgn : entry.frame.pgn ∉ [Pgn.addressClaimed, .etpCm, .etpDt])
    (h : (nodeAt r entry).onFrame entry.frame = .ok (event, n')) :
    ∃ r', r.feed entry = .ok (Ecu.passedOn event, r') ∧ r'.replay.node = n'
      ∧ r'.previous = some entry.timestamp := by
  simp only [List.mem_cons, List.not_mem_nil, not_or, or_false] at hpgn
  obtain ⟨hclaim, hcm, hdt⟩ := hpgn
  let waited := (r.rewound entry).advance (r.clocked entry)
  have hnoted : waited.recordClaim entry.frame = waited := if_neg fun hc => hclaim hc.1
  have hfeed : (r.rewound entry).feed (r.clocked entry) = waited.feedNode entry.frame := by
    show (if _ then _ else (waited.recordClaim entry.frame).feedNode entry.frame) = _
    rw [if_neg fun hext => hext.elim hcm hdt, hnoted]
  have hnode : ∃ replay, waited.feedNode entry.frame = .ok (Ecu.passedOn event, replay)
      ∧ replay.node = n' := by
    unfold Replay.feedNode
    rw [show waited.node.onFrame entry.frame = .ok (event, n') from h]
    cases event with
    | idle => exact ⟨_, rfl, rfl⟩
    | transmit f => exact ⟨_, rfl, rfl⟩
    | message pgn source data reply => exact ⟨_, rfl, rfl⟩
  obtain ⟨replay, hreplay, hsame⟩ := hnode
  refine ⟨⟨replay, some entry.timestamp⟩, ?_, hsame, rfl⟩
  unfold TimedReplay.feed
  rw [hfeed, hreplay]
  rfl

section Many

variable {ι : Type} {m : ι → Sent} {ks : Finset Address} {since : Address → Option Nat}
  {q : ι → List (Node.Input × Node.Output)}

/-- The time up to an entry leaves the node ready, if no message that is
not complete pauses for too long. -/
theorem attends_nodeAt (h : r.replay.node.Attends m ks since q)
    (hprompt : ∀ i, q i ≠ [] → ∀ t, since (m i).source = some t →
      t + (r.elapsed entry).getD 0 ≤ t1TimeoutMs) :
    (nodeAt r entry).Attends m ks (fun a => (since a).map (· + (r.elapsed entry).getD 0)) q := by
  have hticked := r.ticked_rewound entry
  unfold nodeAt Replay.advance
  rw [hticked]
  cases helapsed : r.elapsed entry with
  | none =>
    -- the first frame of all only sets the clock
    have hsame : (fun a => (since a).map (· + 0)) = since := by
      funext a
      exact Option.map_id'
    show r.replay.node.Attends m ks (fun a => (since a).map (· + 0)) q
    rw [hsame]
    exact h
  | some ms =>
    rw [helapsed] at hprompt
    exact h.tick hprompt

variable [DecidableEq ι] [Fintype ι]

/-- A frame that is left of a message is among those that are left. -/
theorem mem_of_left {entries : List (Entry τ)}
    (hq : Interleaves (fun i => (q i).map Prod.fst) (entries.map fun e => .frame e.frame))
    (hspoken : ∀ i, ∀ x ∈ q i, Spoken (m i) x.1) {i : ι} (hi : q i ≠ []) (previous : Option τ) :
    (m i).source ∈ (paces previous entries).map Prod.snd := by
  obtain ⟨x, hx⟩ := List.exists_mem_of_ne_nil _ hi
  obtain ⟨f, hf, hsource, -⟩ := hspoken i x hx
  have hperm := hq.perm (Finset.nodup_toList (Finset.univ : Finset ι)) fun i =>
    Finset.mem_toList.mpr (Finset.mem_univ i)
  have hmem : x.1 ∈ entries.map fun e => Node.Input.frame e.frame :=
    hperm.symm.subset (List.mem_flatMap.mpr ⟨i, Finset.mem_toList.mpr (Finset.mem_univ i),
      List.mem_map_of_mem hx⟩)
  obtain ⟨e, he, heq⟩ := List.mem_map.mp hmem
  have hsame : e.frame = f := by
    rw [hf] at heq
    exact Node.Input.frame.inj heq
  rw [paces_sources]
  exact List.mem_map.mpr ⟨e, he, by rw [hsame, hsource]⟩

/-- What a replay passes on for an answer of its node. -/
def passedFor (out : Node.Output) : Option Message := out.passed.map ofSent

/-- **Feeding the frames of many messages**, in any order and with any
pauses that are short enough: each frame is answered as its message alone
would have it. -/
theorem feeds_interleaved {entries : List (Entry τ)} (hm : ∀ i, Node.Hearable 1785 (m i))
    (hsources : Function.Injective fun i => (m i).source) (hks : ∀ i, (m i).source ∈ ks)
    (hcard : ks.card ≤ 8) (hspoken : ∀ i, ∀ x ∈ q i, Spoken (m i) x.1)
    (hq : Interleaves (fun i => (q i).map Prod.fst) (entries.map fun e => .frame e.frame))
    (h : r.replay.node.Attends m ks since q) (hprompt : Prompt since (paces r.previous entries)) :
    ∃ tr r', Machine.run TimedReplay.step r entries = .ok (tr, r')
      ∧ Interleaves (fun i => (q i).map fun x => passedFor x.2) (tr.map Machine.Entry.out) := by
  induction entries generalizing r since q with
  | nil =>
    refine ⟨[], r, rfl, .nil fun i => ?_⟩
    cases hq with
    | nil hnone => rw [List.map_eq_nil_iff.mp (hnone i), List.map_nil]
  | cons entry entries ih =>
    -- time passes, which no message that is left minds
    have hready : (nodeAt r entry).Attends m ks
        (fun a => (since a).map (· + (r.elapsed entry).getD 0)) q :=
      attends_nodeAt h fun i hi t ht =>
        prompt_of_mem hprompt (mem_of_left hq hspoken hi r.previous) ht
    rw [List.map_cons] at hq
    generalize hitems : (fun i => (q i).map Prod.fst) = items at hq
    cases hq with
    | @cons _ i _ rest _ hhead hrest =>
    rw [← hitems] at hhead
    obtain ⟨⟨x, o⟩, rest', hqi, hx, hrest'⟩ := List.map_eq_cons_iff.mp hhead
    obtain rfl : x = .frame entry.frame := hx
    -- the frame gets its answer
    obtain ⟨f, hf, hsource, hpgn⟩ := hspoken i (.frame entry.frame, o) (hqi ▸ List.mem_cons_self)
    obtain rfl : entry.frame = f := Node.Input.frame.inj hf
    obtain ⟨n', hstep, -, hready'⟩ := hready.step hsources hm hks hcard hqi
    simp only [Node.step, bind_eq_ok, Prod.exists, pure_eq_ok, Except.ok.injEq,
      Prod.mk.injEq] at hstep
    obtain ⟨event, n₁, hframe, rfl, rfl⟩ := hstep
    obtain ⟨r₁, hfeed, hnode, hprevious⟩ := feed_frame hpgn hframe
    have hpassed : Ecu.passedOn event = passedFor (.event event) := by
      cases event <;> rfl
    -- and so do the frames that are left
    have hitems' : (fun j => (Function.update q i rest' j).map Prod.fst)
        = Function.update items i rest := by
      rw [comp_update, hitems, hrest']
    have hleft : ∀ j, ∀ x ∈ Function.update q i rest' j, Spoken (m j) x.1 := by
      intro j x hx
      by_cases hij : j = i
      · subst hij
        rw [Function.update_self] at hx
        exact hspoken j x (hqi ▸ List.mem_cons_of_mem _ hx)
      · rw [Function.update_of_ne hij] at hx
        exact hspoken j x hx
    rw [← hsource, ← hnode] at hready'
    have hprompt' := hprompt.2
    rw [← hprevious] at hprompt'
    obtain ⟨tr, r', hrun, htr⟩ := ih hleft (hitems' ▸ hrest) hready' hprompt'
    refine ⟨⟨r, entry, Ecu.passedOn event, r₁⟩ :: tr, r', ?_, ?_⟩
    · simp only [Machine.run, TimedReplay.step, hfeed, ok_bind, pure_eq_ok]
      rw [show Machine.run TimedReplay.feed r₁ entries = .ok (tr, r') from hrun]
      rfl
    · rw [comp_update] at htr
      refine .cons (k := i) ?_ htr
      rw [hqi, List.map_cons, hpassed]

end Many

/-! ## §3. The file. -/

/-- A file with a line for each frame, at the time it was seen. -/
def recorded (interface : List Char) (seen : List (List Char × Frame)) : List Char :=
  (seen.map fun x => logged x.1 interface x.2).flatMap fun line => line ++ ['\n']

/-- What is read from it. -/
def entriesOf (τ : Type) [Seconds τ] (seen : List (List Char × Frame)) : List (Entry τ) :=
  seen.map fun x => ⟨Seconds.ofText (trim x.1), x.2⟩

/-- A line of a recording is one line. -/
theorem line_logged {stamp interface : List Char} (hstamp : '\n' ∉ stamp)
    (hsolid : ∀ c ∈ interface, isWhitespace c = false) (f : Frame) :
    '\n' ∉ logged stamp interface f ∧ (logged stamp interface f).getLast? ≠ some '\r' := by
  have hdisplay := display_solid f
  have hparts : logged stamp interface f
      = ('(' :: (stamp ++ ')' :: ' ' :: (interface ++ [' ']))) ++ f.display := by
    unfold logged
    simp only [List.append_assoc, List.cons_append, List.nil_append]
  have hne : f.display ≠ [] := List.append_ne_nil_of_right_ne_nil _ (List.cons_ne_nil _ _)
  constructor
  · intro hmem
    rw [hparts] at hmem
    have hblank : isWhitespace '\n' = true := by decide
    have hnone : ∀ s : List Char, (∀ c ∈ s, isWhitespace c = false) → '\n' ∉ s :=
      fun s hs hc => absurd ((hs _ hc).symm.trans hblank) Bool.false_ne_true
    simp [hstamp, hnone _ hsolid, hnone _ hdisplay] at hmem
  · intro hlast
    rw [hparts, List.getLast?_append_of_ne_nil _ hne] at hlast
    have hsolid := hdisplay _ (List.mem_of_getLast? hlast)
    exact absurd hsolid (by decide)

/-- **The lines of a recording are read as its frames**, each with its
time. -/
theorem parseLines_recorded {interface : List Char} (hne : interface ≠ [])
    (hsolid : ∀ c ∈ interface, isWhitespace c = false) {seen : List (List Char × Frame)}
    (hstamps : ∀ x ∈ seen, isFloat (trim x.1) = true) (index : Nat) (entries : List (Entry τ)) :
    parseLines τ index entries (seen.map fun x => logged x.1 interface x.2)
      = .ok (.ok (entries ++ entriesOf τ seen)) := by
  induction seen generalizing index entries with
  | nil =>
    show (.ok (.ok entries) : Exec (Except LogError (List (Entry τ)))) = _
    rw [entriesOf, List.map_nil, List.append_nil]
  | cons x seen ih =>
    have hline := parseLine_loose τ (index + 1)
      (framed_logged (hstamps x List.mem_cons_self) hne hsolid x.2)
      (candump_iff.mp (candump_display x.2)).1
    rw [List.map_cons, parseLines, hline, ok_bind]
    dsimp only
    rw [ih fun y hy => hstamps y (List.mem_cons_of_mem _ hy), List.append_assoc]
    rfl

theorem parse_recorded {interface : List Char} (hne : interface ≠ [])
    (hsolid : ∀ c ∈ interface, isWhitespace c = false) {seen : List (List Char × Frame)}
    (hstamps : ∀ x ∈ seen, isFloat (trim x.1) = true ∧ '\n' ∉ x.1) :
    parse τ (recorded interface seen) = .ok (.ok (entriesOf τ seen)) := by
  have hlines : ∀ l ∈ seen.map fun x => logged x.1 interface x.2,
      '\n' ∉ l ∧ l.getLast? ≠ some '\r' := by
    intro l hl
    obtain ⟨x, hx, rfl⟩ := List.mem_map.mp hl
    exact line_logged (hstamps x hx).2 hsolid x.2
  unfold parse recorded
  rw [lines_flatMap hlines, parseLines_recorded hne hsolid fun x hx => (hstamps x hx).1]
  rfl

/-! ## §4. The replay. -/

/-- **A recording replays into what was said.**  Many senders say
something to everybody, and their frames are recorded in whatever order
they were on the bus; the table of the replay has room for all of them,
and none of them pauses for too long within its message.  Then a replay of
the file returns each message exactly once, unchanged, and nothing else. -/
theorem recording_replays {name : Name} {address : Address}
    (hreach : Machine.Reachable TimedReplay.step (TimedReplay.new name address) r)
    {ι : Type} [DecidableEq ι] [Fintype ι] {m : ι → Sent}
    (hsources : Function.Injective fun i => (m i).source)
    (hroom : r.replay.node.reassembler.activeSessions + Fintype.card ι ≤ 8)
    (hown : ∀ i, (m i).data.length ≤ 8 →
      (m i).pgn ∉ [Pgn.addressClaimed, .tpCm, .tpDt, .etpCm, .etpDt]
        ∧ ¬ ((m i).pgn = .request ∧ Request.decode (m i).data = .ok ⟨.addressClaimed⟩))
    {o : ι → Outgoing}
    (hnew : ∀ i, Outgoing.new (m i).pgn (m i).source Address.global (m i).data = .ok (o i))
    {interface : List Char} (hne : interface ≠ [])
    (hsolid : ∀ c ∈ interface, isWhitespace c = false) {seen : List (List Char × Frame)}
    (hstamps : ∀ x ∈ seen, isFloat (trim x.1) = true ∧ '\n' ∉ x.1)
    (hseen : Interleaves (fun i => framesOf (o i)) (seen.map Prod.snd))
    (hprompt : Prompt (fun _ => none) (paces r.previous (entriesOf τ seen))) :
    ∃ messages r', r.run (recorded interface seen) = .ok (.ok messages, r')
      ∧ messages.Perm (Finset.univ.toList.map fun i => ofSent (m i)) := by
  have hm : ∀ i, Node.Hearable 1785 (m i) := by
    intro i
    have hlen : (m i).data.length ≤ 1785 := by
      by_cases hshort : (m i).data.length ≤ Frame.maxPayload
      · exact Nat.le_trans hshort (by decide)
      · exact (Outgoing.length_of_new_global hshort (hnew i)).2
    refine Node.hearable_of_new (hnew i) hlen fun hshort => ?_
    obtain ⟨hgroup, hrequest⟩ := hown i hshort
    simp only [List.mem_cons, List.not_mem_nil, not_or, or_false] at hgroup
    exact ⟨hgroup.1, hgroup.2.1, hgroup.2.2.1, hrequest⟩
  have hspoken : ∀ i, ∀ x ∈ Node.alone (m i), Spoken (m i) x.1 := fun i x hx =>
    spoken_of_mem (fun hshort hgroup => (hown i hshort).1 (by
      simp only [List.mem_cons, List.not_mem_nil, or_false] at hgroup ⊢
      tauto)) hx
  choose o' hdrain _ using fun i => drain_framesOf (hnew i)
  have halone := fun i => Node.alone_of_drain (hnew i) (hdrain i)
  have hq : Interleaves (fun i => (Node.alone (m i)).map Prod.fst)
      ((entriesOf τ seen).map fun e => .frame e.frame) := by
    have hitems : (fun i => (Node.alone (m i)).map Prod.fst)
        = fun i => (framesOf (o i)).map Node.Input.frame := funext fun i => (halone i).1
    have hframes : (entriesOf τ seen).map (fun e => Node.Input.frame e.frame)
        = (seen.map Prod.snd).map Node.Input.frame := by
      rw [entriesOf, List.map_map, List.map_map]
      rfl
    rw [hitems, hframes]
    exact hseen.map Node.Input.frame
  have hwf := TimedReplay.wf_of_reachable hreach
  obtain ⟨tr, r', hrun, htr⟩ := feeds_interleaved hm hsources (Node.source_mem_peersWith _ m)
    ((Node.card_peersWith_le _ m).trans hroom) hspoken hq
    (Node.attends_alone hwf.node m fun _ => none) hprompt
  refine ⟨tr.filterMap Machine.Entry.out, r', ?_, ?_⟩
  · unfold TimedReplay.run
    rw [parse_recorded hne hsolid hstamps, ok_bind]
    dsimp only
    rw [hrun]
    rfl
  · -- of every message, only the last frame passes anything on
    have hpassed := htr.filterMap id
    rw [List.filterMap_map] at hpassed
    have hone : (fun i => ((Node.alone (m i)).map fun x => passedFor x.2).filterMap id)
        = fun i => [ofSent (m i)] := by
      funext i
      have hanswers : (Node.alone (m i)).map (fun x => passedFor x.2)
          = ((Node.alone (m i)).map Prod.snd).map passedFor := by
        rw [List.map_map]
        rfl
      rw [hanswers, (halone i).2, List.filterMap_map, List.filterMap_append,
        List.filterMap_replicate_of_none rfl]
      rfl
    rw [hone] at hpassed
    have hperm := hpassed.perm (Finset.nodup_toList Finset.univ) fun i =>
      Finset.mem_toList.mpr (Finset.mem_univ i)
    rw [List.map_eq_flatMap]
    exact hperm

end Feeding

/-- The frames of two senders in turns, with the times they were seen. -/
def twoSeen : List (List Char × Frame) :=
  [("1.0".toList, (Node.twoSenders true).announcement),
    ("1.1".toList, (Node.twoSenders false).announcement),
    ("1.2".toList, (Node.twoSenders true).packet 1),
    ("1.7".toList, (Node.twoSenders false).packet 1),
    ("1.8".toList, (Node.twoSenders false).packet 2),
    ("1.9".toList, (Node.twoSenders true).packet 2)]

/-- A replay that has just been made, of the two senders. -/
theorem recording_replays_two : ∃ messages r',
    (TimedReplay.new ⟨1⟩ ⟨0xF9⟩ : TimedReplay Nat).run (recorded "can0".toList twoSeen)
        = .ok (.ok messages, r')
      ∧ messages.Perm (Finset.univ.toList.map fun b => ofSent (Node.twoSenders b)) := by
  obtain ⟨o, o', hnew, hdrain⟩ := Node.twoSenders_frames
  have hseen : Interleaves (fun b => framesOf (o b)) (twoSeen.map Prod.snd) := by
    have hthree : (fun b => framesOf (o b)) = fun b => Node.threeFrames (Node.twoSenders b) := by
      funext b
      unfold framesOf
      rw [hdrain b]
    rw [hthree]
    exact Node.twoSenders_interleave
  have hpaces : paces none (entriesOf Nat twoSeen)
      = [0, 100, 100, 500, 100, 100].zip [⟨0x80⟩, ⟨0x81⟩, ⟨0x80⟩, ⟨0x81⟩, ⟨0x81⟩, ⟨0x80⟩] := by
    refine List.zip_of_prod (by decide +kernel) ?_
    rw [paces_sources]
    simp only [entriesOf, twoSeen, List.map_cons, List.map_nil, Node.source_announcement,
      Node.source_packet]
    rfl
  have hprompt : Prompt (fun _ => none) (paces none (entriesOf Nat twoSeen)) := by
    rw [hpaces]
    decide
  have hreach : Machine.Reachable TimedReplay.step (TimedReplay.new ⟨1⟩ ⟨0xF9⟩)
      (TimedReplay.new ⟨1⟩ ⟨0xF9⟩ : TimedReplay Nat) := ⟨[], [], rfl⟩
  have hstamps : ∀ x ∈ twoSeen, isFloat (trim x.1) = true ∧ '\n' ∉ x.1 := by
    have hall : ∀ s ∈ twoSeen.map Prod.fst, isFloat (trim s) = true ∧ '\n' ∉ s := by
      decide +kernel
    exact fun x hx => hall x.1 (List.mem_map_of_mem hx)
  have hsolid : ∀ c ∈ "can0".toList, isWhitespace c = false := by simp [isWhitespace]
  exact recording_replays hreach (m := Node.twoSenders) (by decide) (by decide +kernel)
    (fun b hshort => absurd hshort (Node.twoSenders_long b)) hnew (by decide) hsolid hstamps
    hseen hprompt

end SaeJ1939.Host.Log
