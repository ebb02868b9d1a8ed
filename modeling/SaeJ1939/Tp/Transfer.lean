/-
  SaeJ1939.Tp.Transfer — what a reassembler is for: one transfer per peer.

  Seen from a peer, a reassembler is a single optional `Transfer`: the
  session and the bytes received so far.  Which slot holds it, what the
  other slots hold, and what an earlier transfer left in the buffer do
  not matter.  The functions `Transfer.onCm`, `Transfer.onDt` and
  `Transfer.onTick` say what one peer's traffic does to its transfer; the
  theorems connect them to the slot array.

  Main results:
    * `Session.WF`, `Reassembler.WF` — the representation invariant.
    * `onTpCm_refines`, `onTpDt_refines`, `abandon_refines`,
      `tick_refines`, `reset_refines` — every call keeps the invariant,
      does not panic, answers as the peer's transfer says, and leaves
      every other peer's transfer alone.
    * `Reachable.wf` — every reachable reassembler satisfies the
      invariant.
-/
import SaeJ1939.Tp.Reassembler

namespace SaeJ1939.Tp

open Checked SlotTable

/-! ## §1. One peer's transfer. -/

/-- One peer's transfer: its session and the bytes received so far. -/
structure Transfer where
  session : Session
  received : List UInt8
  deriving DecidableEq

namespace Transfer

/-- A transfer that has just been announced. -/
def start (source : Address) (pgn : Pgn) (size packets : Nat) (broadcast : Bool)
    (window maxPacketsPerCts : Nat) : Transfer :=
  ⟨{ source, pgn, size, packets
     nextSequence := 1
     windowRemaining := window
     maxPacketsPerCts, broadcast
     idleMs := 0 }, []⟩

/-- Whether the transfer is connection-managed. -/
def isConnection (t : Transfer) : Bool := !t.session.broadcast

/-- What a peer's connection management does to its transfer, when the
table has (`room`) or has not a slot for that peer. -/
def onCm (N : Nat) (room : Bool) (source : Address) (t : Option Transfer) :
    TpCm → Rx × Option Transfer
  | .bam size packets pgn =>
      if !validAnnouncement size packets || size > N then (.idle, none)
      else if room then (.idle, some (start source pgn size packets true packets 0))
      else (.idle, t)
  | .rts size packets maxPacketsPerCts pgn =>
      if !validAnnouncement size packets then (.send (.abort (.other fill) pgn), t)
      else if size > N then (.send (.abort .resourcesUnavailable pgn), t)
      else if t.any isConnection then (.send (.abort .alreadyInSession pgn), t)
      else if room then
        let window := grantWindow packets maxPacketsPerCts
        (.send (.cts window 1 pgn),
          some (start source pgn size packets false window maxPacketsPerCts))
      else (.send (.abort .resourcesUnavailable pgn), t)
  | .abort _ pgn => (.idle, t.filter fun t => t.session.pgn != pgn)
  | .cts .. | .endOfMsgAck .. => (.idle, t)

/-- The session after one more packet, before any new window. -/
def advance (s : Session) : Session :=
  { s with
    nextSequence := s.nextSequence + 1
    windowRemaining := s.windowRemaining - 1
    idleMs := 0 }

/-- What a peer's data packet does to its transfer. -/
def onDt (t : Option Transfer) (dt : TpDt) : Rx × Option Transfer :=
  match t with
  | none => (.idle, none)
  | some ⟨s, received⟩ =>
      if dt.sequence ≠ s.nextSequence then
        if s.broadcast then (.idle, none)
        else if dt.sequence < s.nextSequence then
          (.send (.abort .duplicateSequenceNumber s.pgn), none)
        else (.send (.abort .badSequenceNumber s.pgn), none)
      else if dt.sequence = s.packets then
        (.message s.pgn s.source ((received ++ dt.bytes).take s.size)
          (if !s.broadcast then some (.endOfMsgAck s.size s.packets s.pgn) else none), none)
      else
        let s := advance s
        if !s.broadcast && s.windowRemaining == 0 then
          let window := grantWindow (s.packets - s.nextSequence + 1) s.maxPacketsPerCts
          (.send (.cts window s.nextSequence s.pgn),
            some ⟨{ s with windowRemaining := window }, received ++ dt.bytes⟩)
        else (.idle, some ⟨s, received ++ dt.bytes⟩)

/-- What time does to a peer's transfer. -/
def onTick (elapsedMs timeoutMs : Nat) (t : Option Transfer) :
    Option Reassembler.Timeout × Option Transfer :=
  match t with
  | none => (none, none)
  | some ⟨s, received⟩ =>
      let s := { s with idleMs := saturatingAdd 16 s.idleMs elapsedMs }
      if s.idleMs ≤ timeoutMs then (none, some ⟨s, received⟩)
      else (some (s.source, if !s.broadcast then some (.abort .timeout s.pgn) else none), none)

/-- What one call on a reassembler does to the transfer of `peer`. -/
def onCall (N : Nat) (room : Bool) (peer : Address) (t : Option Transfer) :
    Reassembler.Call → Option Transfer
  | .tpCm source cm => if source = peer then (onCm N room peer t cm).2 else t
  | .tpDt source dt => if source = peer then (onDt t dt).2 else t
  | .tick elapsedMs timeoutMs => (onTick elapsedMs timeoutMs t).2
  | .abandon source => if source = peer then none else t
  | .reset => none

/-- What `peer` gets to see of one call's reply, if the call concerns it. -/
def answer (N : Nat) (room : Bool) (peer : Address) (t : Option Transfer) :
    Reassembler.Call → Option Reassembler.Reply
  | .tpCm source cm => if source = peer then some (.rx (onCm N room peer t cm).1) else none
  | .tpDt source dt => if source = peer then some (.rx (onDt t dt).1) else none
  | .tick elapsedMs timeoutMs => some (.timeouts (onTick elapsedMs timeoutMs t).1.toList)
  | .abandon source => if source = peer then some (.wasBusy t.isSome) else none
  | .reset => some .unit

end Transfer

namespace Reassembler

/-- The part of a reply that is about `peer`. -/
def Reply.about (peer : Address) : Reply → Reply
  | .timeouts reports => .timeouts (reports.filter fun report => report.1 = peer)
  | reply => reply

/-- Whether a call is made for `peer`, or for every peer. -/
def Call.concerns (peer : Address) : Call → Bool
  | .tpCm source _ | .tpDt source _ | .abandon source => source = peer
  | .tick .. | .reset => true

/-- What `peer` gets to see of the reply to a call. -/
def seen (peer : Address) (c : Call) (reply : Reply) : Option Reply :=
  if c.concerns peer then some (reply.about peer) else none

end Reassembler

/-! ## §2. The representation invariant. -/

/-- What holds of every session a reassembler with `N`-byte buffers
keeps. -/
structure Session.WF (N : Nat) (s : Session) : Prop where
  size_ge : minMessageSize ≤ s.size
  size_le : s.size ≤ maxMessageSize
  size_fits : s.size ≤ N
  packets_eq : s.packets = packetCount s.size
  next_pos : 1 ≤ s.nextSequence
  next_le : s.nextSequence ≤ s.packets
  window_pos : 1 ≤ s.windowRemaining
  window_le : s.windowRemaining ≤ s.packets - s.nextSequence + 1
  /-- A broadcast is granted as a whole. -/
  window_broadcast : s.broadcast = true → s.windowRemaining = s.packets - s.nextSequence + 1

/-- Where the packet a session expects ends: at the size when it is the
last one, and before it otherwise. -/
theorem Session.WF.stop_eq {N : Nat} {s : Session} (h : s.WF N) :
    (s.nextSequence - 1) * bytesPerPacket
        ≤ min ((s.nextSequence - 1) * bytesPerPacket + bytesPerPacket) s.size
      ∧ (s.nextSequence = s.packets →
          min ((s.nextSequence - 1) * bytesPerPacket + bytesPerPacket) s.size = s.size)
      ∧ (s.nextSequence ≠ s.packets →
          min ((s.nextSequence - 1) * bytesPerPacket + bytesPerPacket) s.size
            = 7 * s.nextSequence) := by
  have hb := packetCount_bounds h.size_ge h.size_le
  have hp := h.packets_eq
  have hn := h.next_pos
  have hl := h.next_le
  unfold bytesPerPacket
  refine ⟨by omega, by omega, by omega⟩

/-- The peer a slot is working for. -/
def Slot.key {N : Nat} (slot : Slot N) : Option Address := slot.session.map Session.source

/-- The transfer a slot is working on. -/
def Slot.transfer {N : Nat} (slot : Slot N) : Option Transfer :=
  slot.session.map fun s =>
    ⟨s, (List.ofFn slot.buffer).take (7 * (s.nextSequence - 1))⟩

/-- What holds of every slot. -/
def Slot.WF {N : Nat} (slot : Slot N) : Prop := ∀ s, slot.session = some s → s.WF N

namespace Reassembler

variable {N SESSIONS : Nat}

/-- At most one session per peer, and every session well formed. -/
structure WF (r : Reassembler N SESSIONS) : Prop where
  distinct : Distinct Slot.key r.slots
  sessions : ∀ i s, (r.slots i).session = some s → s.WF N

/-- The transfer of one peer. -/
def transferOf (r : Reassembler N SESSIONS) (source : Address) : Option Transfer :=
  (SlotTable.get Slot.key r.slots source).bind Slot.transfer

/-- Whether the table has a slot for `source`. -/
def room (r : Reassembler N SESSIONS) (source : Address) : Bool := (r.slotFor source).isSome

/-- `r'` is a well-formed reassembler that differs from `r` only in the
transfer of `source`, which is now `t`. -/
structure Focused (r r' : Reassembler N SESSIONS) (source : Address) (t : Option Transfer) :
    Prop where
  wf : r'.WF
  self : r'.transferOf source = t
  others : ∀ a, a ≠ source → r'.transferOf a = r.transferOf a

variable {r : Reassembler N SESSIONS} {source : Address} {index : Fin SESSIONS}

/-! ## §3. The slot array as a map. -/

theorem slotOf_eq_find (r : Reassembler N SESSIONS) (source : Address) :
    r.slotOf source = find Slot.key r.slots source := by
  unfold slotOf find
  congr 1
  funext slot
  cases hs : slot.session with
  | none => simp [Slot.key, hs]
  | some s => simp [Slot.key, hs, beq_eq_decide]

theorem slotFor_eq (r : Reassembler N SESSIONS) (source : Address) :
    r.slotFor source = (find Slot.key r.slots source).or (free Slot.key r.slots) := by
  rw [slotFor, slotOf_eq_find]
  congr 1
  unfold free
  congr 1
  funext slot
  cases hs : slot.session <;> simp [Slot.key, hs]

theorem key_eq_some {slot : Slot N} :
    slot.key = some source ↔ ∃ s, slot.session = some s ∧ s.source = source := by
  simp [Slot.key]

theorem transferOf_eq_none : r.transferOf source = none ↔ find Slot.key r.slots source = none := by
  unfold transferOf SlotTable.get
  cases hf : find Slot.key r.slots source with
  | none => simp
  | some i =>
    obtain ⟨s, hs, -⟩ := key_eq_some.mp (key_of_find hf)
    simp [Slot.transfer, hs]

theorem transferOf_of_find (h : find Slot.key r.slots source = some index) :
    r.transferOf source = (r.slots index).transfer := by
  simp [transferOf, SlotTable.get, h]

/-- A peer's transfer sits in the slot the search finds. -/
theorem find_of_transferOf {t : Transfer} (h : r.transferOf source = some t) :
    ∃ i, find Slot.key r.slots source = some i ∧ (r.slots i).session = some t.session
      ∧ t.session.source = source
      ∧ t.received = (List.ofFn (r.slots i).buffer).take (7 * (t.session.nextSequence - 1)) := by
  cases hf : find Slot.key r.slots source with
  | none =>
    rw [transferOf_eq_none.mpr hf] at h
    cases h
  | some i =>
    rw [transferOf_of_find hf] at h
    obtain ⟨s, hs, hsrc⟩ := key_eq_some.mp (key_of_find hf)
    simp only [Slot.transfer, hs, Option.map_some, Option.some.injEq] at h
    subst h
    exact ⟨i, rfl, hs, hsrc, rfl⟩

theorem source_of_transferOf {t : Transfer} (h : r.transferOf source = some t) :
    t.session.source = source := by
  obtain ⟨i, -, -, hsrc, -⟩ := find_of_transferOf h
  exact hsrc

theorem WF.session_of_transferOf (hr : r.WF) {t : Transfer} (h : r.transferOf source = some t) :
    t.session.WF N := by
  obtain ⟨i, -, hs, -, -⟩ := find_of_transferOf h
  exact hr.sessions i _ hs

/-- The bytes received are whole packets, one for each sequence number
already taken. -/
theorem WF.received_length (hr : r.WF) {t : Transfer} (h : r.transferOf source = some t) :
    t.received.length = 7 * (t.session.nextSequence - 1) := by
  have hwf := hr.session_of_transferOf h
  obtain ⟨i, -, -, -, hrec⟩ := find_of_transferOf h
  have hb := packetCount_bounds hwf.size_ge hwf.size_le
  have hn := hwf.next_le
  have hp := hwf.packets_eq
  have hf := hwf.size_fits
  rw [hrec, List.length_take, List.length_ofFn]
  omega

theorem room_eq_true :
    r.room source = true
      ↔ (r.transferOf source).isSome = true ∨ ∃ i, (r.slots i).session = none := by
  have hfree : (free Slot.key r.slots).isSome = true ↔ ∃ i, (r.slots i).session = none := by
    unfold free
    rw [isSome_position]
    simp [Slot.key]
  rw [room, slotFor_eq, Option.isSome_or, Bool.or_eq_true, hfree]
  refine or_congr ?_ Iff.rfl
  rw [Option.isSome_iff_ne_none, Option.isSome_iff_ne_none, Ne, Ne, transferOf_eq_none]

/-- The slot chosen for a peer is its own, or an empty one when it has
none. -/
theorem slotFor_spec (h : r.slotFor source = some index) :
    (r.slots index).key = some source
      ∨ ((r.slots index).key = none ∧ r.transferOf source = none) := by
  rw [slotFor_eq, Option.or_eq_some_iff] at h
  rcases h with h | ⟨hnone, h⟩
  · exact Or.inl (key_of_find h)
  · exact Or.inr ⟨key_of_free h, transferOf_eq_none.mpr hnone⟩

theorem room_of_slotFor_none (h : r.slotFor source = none) : r.room source = false := by
  simp [room, h]

theorem room_of_slotFor_some (h : r.slotFor source = some index) : r.room source = true := by
  simp [room, h]

/-! ## §4. Writing one slot. -/

/-- The representation invariant, as a sound table of slots. -/
theorem WF.sound (hr : r.WF) : Sound Slot.key Slot.WF r.slots := ⟨hr.distinct, hr.sessions⟩

/-- A write to the table, read as a write to the map of transfers. -/
theorem focused_of_put {slots : Fin SESSIONS → Slot N} {x : Option (Slot N)}
    (h : Put Slot.key Slot.WF r.slots slots source x) :
    Focused r ⟨slots⟩ source (x.bind Slot.transfer) := by
  refine ⟨⟨h.sound.distinct, h.sound.slots⟩, ?_, fun a ha => ?_⟩
  · rw [transferOf, h.self]
  · rw [transferOf, transferOf, h.others a ha]

/-- Filling a slot with a session of `source`, in that peer's own slot or
an empty one. -/
theorem focused_put_some (hr : r.WF) {slot : Slot N} {s : Session}
    (hsess : slot.session = some s) (hwf : s.WF N) (hsrc : s.source = source)
    (hkey : (r.slots index).key = some source
      ∨ ((r.slots index).key = none ∧ r.transferOf source = none)) :
    Focused r ⟨Function.update r.slots index slot⟩ source slot.transfer := by
  have hslot : slot.key = some source := key_eq_some.mpr ⟨s, hsess, hsrc⟩
  have hwf' : slot.WF := by
    intro s' hs'
    rw [hsess, Option.some.injEq] at hs'
    exact hs' ▸ hwf
  have hget : r.transferOf source = none → SlotTable.get Slot.key r.slots source = none := by
    intro hnone
    rw [SlotTable.get, transferOf_eq_none.mp hnone]
    rfl
  exact focused_of_put (hr.sound.put hslot hwf' (hkey.imp_right fun h => ⟨h.1, hget h.2⟩))

/-- Emptying the slot of `source`. -/
theorem focused_put_none (hr : r.WF) {slot : Slot N} (hsess : slot.session = none)
    (hkey : (r.slots index).key = some source) :
    Focused r ⟨Function.update r.slots index slot⟩ source none := by
  have hslot : slot.key = none := by
    unfold Slot.key
    rw [hsess]
    rfl
  have hwf : slot.WF := by
    intro s hs
    rw [hsess] at hs
    cases hs
  exact focused_of_put (hr.sound.remove hkey hslot hwf)

/-- Nothing was written. -/
theorem focused_refl (hr : r.WF) : Focused r r source (r.transferOf source) :=
  ⟨hr, rfl, fun _ _ => rfl⟩

theorem setSession_setBuffer (r : Reassembler N SESSIONS) (index : Fin SESSIONS)
    (buffer : Fin N → UInt8) (session : Option Session) :
    (r.setBuffer index buffer).setSession index session
      = ⟨Function.update r.slots index ⟨buffer, session⟩⟩ := by
  simp [setBuffer, setSession]

theorem setSession_update (r : Reassembler N SESSIONS) (index : Fin SESSIONS) (slot : Slot N)
    (session : Option Session) :
    (⟨Function.update r.slots index slot⟩ : Reassembler N SESSIONS).setSession index session
      = ⟨Function.update r.slots index ⟨slot.buffer, session⟩⟩ := by
  simp [setSession]

/-! ## §5. Connection management. -/

theorem grantWindow_bounds (packets maxPacketsPerCts : Nat) (h : 1 ≤ packets) :
    1 ≤ grantWindow packets maxPacketsPerCts ∧ grantWindow packets maxPacketsPerCts ≤ packets := by
  unfold grantWindow
  split
  next => omega
  next hm =>
    simp only [Bool.or_eq_true, beq_iff_eq, not_or] at hm
    split <;> omega

theorem validAnnouncement_iff {size packets : Nat} :
    validAnnouncement size packets = true ↔
      minMessageSize ≤ size ∧ size ≤ maxMessageSize ∧ packets = packetCount size := by
  simp [validAnnouncement, and_assoc]

/-- A freshly announced session is well formed. -/
theorem start_wf {pgn : Pgn} {size packets window maxPacketsPerCts : Nat} {broadcast : Bool}
    (hvalid : validAnnouncement size packets = true) (hfits : size ≤ N)
    (hw : 1 ≤ window) (hw' : window ≤ packets) (hb : broadcast = true → window = packets) :
    (Transfer.start source pgn size packets broadcast window maxPacketsPerCts).session.WF N := by
  obtain ⟨h₁, h₂, h₃⟩ := validAnnouncement_iff.mp hvalid
  have hp := packetCount_bounds h₁ h₂
  refine ⟨h₁, h₂, hfits, h₃, Nat.le_refl 1, show 1 ≤ packets by omega, hw,
    show window ≤ packets - 1 + 1 by omega, fun h => ?_⟩
  have := hb h
  show window = packets - 1 + 1
  omega

/-- Opening a session in the slot chosen for its peer. -/
theorem focused_begin (hr : r.WF) {pgn : Pgn} {size packets window maxPacketsPerCts : Nat}
    {broadcast : Bool} (hslot : r.slotFor source = some index)
    (hvalid : validAnnouncement size packets = true) (hfits : size ≤ N)
    (hw : 1 ≤ window) (hw' : window ≤ packets) (hb : broadcast = true → window = packets) :
    Focused r (r.begin index source pgn size packets broadcast window maxPacketsPerCts) source
      (some (Transfer.start source pgn size packets broadcast window maxPacketsPerCts)) :=
  focused_put_some hr rfl (start_wf hvalid hfits hw hw' hb) rfl (slotFor_spec hslot)

theorem abandon_refines (hr : r.WF) (source : Address) :
    (r.abandon source).1 = (r.transferOf source).isSome
      ∧ Focused r (r.abandon source).2 source none := by
  unfold abandon
  rw [slotOf_eq_find]
  cases hf : find Slot.key r.slots source with
  | none =>
    have hnone := transferOf_eq_none.mpr hf
    exact ⟨by simp [hnone], hnone ▸ focused_refl hr⟩
  | some i =>
    have hsome : (r.transferOf source).isSome = true := by
      rw [Option.isSome_iff_ne_none, Ne, transferOf_eq_none, hf]
      simp
    exact ⟨hsome.symm, focused_put_none hr rfl (key_of_find hf)⟩

/-- The two conditions the source reads off a peer's slot, read off its
transfer. -/
theorem slotOf_any (r : Reassembler N SESSIONS) (source : Address) (p : Session → Bool) :
    ((r.slotOf source).any fun index => (r.slots index).session.any p)
      = (r.transferOf source).any fun t => p t.session := by
  rw [slotOf_eq_find]
  cases hf : find Slot.key r.slots source with
  | none => simp [transferOf_eq_none.mpr hf]
  | some i =>
    obtain ⟨s, hs, -⟩ := key_eq_some.mp (key_of_find hf)
    simp [transferOf_of_find hf, Slot.transfer, hs]

/-- The session of one peer. -/
def sessionOf (r : Reassembler N SESSIONS) (source : Address) : Option Session :=
  (r.slotOf source).bind fun index => (r.slots index).session

theorem sessionOf_eq (r : Reassembler N SESSIONS) (source : Address) :
    r.sessionOf source = (r.transferOf source).map Transfer.session := by
  unfold sessionOf
  rw [slotOf_eq_find]
  cases hf : find Slot.key r.slots source with
  | none => simp [transferOf_eq_none.mpr hf]
  | some i =>
    obtain ⟨s, hs, -⟩ := key_eq_some.mp (key_of_find hf)
    simp [transferOf_of_find hf, Slot.transfer, hs]

/-- **Connection management refines the peer's transfer.** -/
theorem onTpCm_refines (hr : r.WF) (source : Address) (cm : TpCm) :
    (r.onTpCm source cm).1 = (Transfer.onCm N (r.room source) source (r.transferOf source) cm).1
      ∧ Focused r (r.onTpCm source cm).2 source
          (Transfer.onCm N (r.room source) source (r.transferOf source) cm).2 := by
  cases cm with
  | bam size packets pgn =>
    simp only [onTpCm, Transfer.onCm]
    split
    next => exact ⟨rfl, (abandon_refines hr source).2⟩
    next hbad =>
      simp only [Bool.or_eq_true, Bool.not_eq_true', decide_eq_true_eq, not_or, Bool.not_eq_false,
        not_lt] at hbad
      cases hslot : r.slotFor source with
      | none =>
        rw [if_neg (by simp [room_of_slotFor_none hslot])]
        exact ⟨rfl, focused_refl hr⟩
      | some index =>
        rw [if_pos (room_of_slotFor_some hslot)]
        obtain ⟨h₁, h₂, h₃⟩ := validAnnouncement_iff.mp hbad.1
        have hb := packetCount_bounds h₁ h₂
        exact ⟨rfl, focused_begin hr hslot hbad.1 hbad.2 (by omega) (Nat.le_refl _)
          fun _ => rfl⟩
  | rts size packets maxPacketsPerCts pgn =>
    simp only [onTpCm, Transfer.onCm]
    split
    next => exact ⟨rfl, focused_refl hr⟩
    next hvalid =>
      split
      next => exact ⟨rfl, focused_refl hr⟩
      next hfits =>
        have hany := slotOf_any r source fun s => !s.broadcast
        rw [show ((r.transferOf source).any Transfer.isConnection)
          = (r.transferOf source).any fun t => !t.session.broadcast from rfl, ← hany]
        split
        next => exact ⟨rfl, focused_refl hr⟩
        next =>
          cases hslot : r.slotFor source with
          | none =>
            rw [if_neg (by simp [room_of_slotFor_none hslot])]
            exact ⟨rfl, focused_refl hr⟩
          | some index =>
            rw [if_pos (room_of_slotFor_some hslot)]
            simp only [Bool.not_eq_true', Bool.not_eq_false] at hvalid
            obtain ⟨h₁, h₂, h₃⟩ := validAnnouncement_iff.mp hvalid
            have hb := packetCount_bounds h₁ h₂
            obtain ⟨hw, hw'⟩ := grantWindow_bounds packets maxPacketsPerCts (by omega)
            exact ⟨rfl, focused_begin hr hslot hvalid (by omega) hw hw' (by simp)⟩
  | abort reason pgn =>
    simp only [onTpCm, Transfer.onCm]
    rw [slotOf_eq_find]
    cases hf : find Slot.key r.slots source with
    | none =>
      have hnone := transferOf_eq_none.mpr hf
      simp only [hnone, Option.filter_none]
      exact ⟨trivial, hnone ▸ focused_refl hr⟩
    | some i =>
      obtain ⟨s, hs, hsrc⟩ := key_eq_some.mp (key_of_find hf)
      have ht : r.transferOf source
          = some ⟨s, (List.ofFn (r.slots i).buffer).take (7 * (s.nextSequence - 1))⟩ := by
        rw [transferOf_of_find hf, Slot.transfer, hs]
        rfl
      by_cases hp : s.pgn = pgn
      · -- the session it names is dropped
        simp only [hs, Option.any_some, hp, beq_self_eq_true, if_true, ht, Option.filter_some,
          bne_self_eq_false, Bool.false_eq_true, if_false]
        exact ⟨trivial, focused_put_none hr rfl (key_of_find hf)⟩
      · -- it names another group
        simp only [hs, Option.any_some, beq_eq_false_iff_ne.mpr hp, Bool.false_eq_true, if_false,
          ht, Option.filter_some, bne_iff_ne, ne_eq, hp, not_false_eq_true, if_true]
        exact ⟨trivial, ht ▸ focused_refl hr⟩
  | cts packets nextPacket pgn => exact ⟨rfl, focused_refl hr⟩
  | endOfMsgAck size packets pgn => exact ⟨rfl, focused_refl hr⟩

/-! ## §6. Data transfer. -/

/-- **A packet in order is copied**: the slicing and the write succeed,
and the buffer now holds what was received before, followed by it. -/
theorem copy_packet {s : Session} (h : s.WF N) (buffer : Fin N → UInt8) (dt : TpDt) :
    let offset := (s.nextSequence - 1) * bytesPerPacket
    let stop := min (offset + bytesPerPacket) s.size
    let received := (List.ofFn buffer).take (7 * (s.nextSequence - 1))
    slice dt.bytes 0 (stop - offset) = .ok (dt.bytes.take (stop - offset))
      ∧ ∃ b, write buffer offset stop (dt.bytes.take (stop - offset)) = .ok b
        ∧ (s.nextSequence = s.packets →
            (List.ofFn b).take s.size = (received ++ dt.bytes).take s.size)
        ∧ (s.nextSequence ≠ s.packets →
            (List.ofFn b).take (7 * s.nextSequence) = received ++ dt.bytes) := by
  intro offset stop received
  obtain ⟨-, hlast, hmore⟩ := h.stop_eq
  have hoffset : offset = 7 * (s.nextSequence - 1) := Nat.mul_comm _ _
  have hstart : 7 * (s.nextSequence - 1) ≤ s.size := by
    have hb := packetCount_bounds h.size_ge h.size_le
    have := h.packets_eq
    have := h.next_le
    omega
  obtain ⟨hslice, b, hwrite, htake⟩ := Chunks.copy_chunk (a := buffer) dt.bytes_length hstart
    h.size_fits
  have hprefix : (List.ofFn b).take stop = (received ++ dt.bytes).take stop := by
    show (List.ofFn b).take (min (offset + 7) s.size)
      = (received ++ dt.bytes).take (min (offset + 7) s.size)
    rw [hoffset]
    exact htake
  rw [← hoffset] at hslice hwrite
  refine ⟨hslice, b, hwrite, fun hl => ?_, fun hl => ?_⟩
  · rw [← hlast hl]
    exact hprefix
  · -- a packet before the last one is full
    have hstop : stop = 7 * s.nextSequence := hmore hl
    have hlen : (received ++ dt.bytes).length ≤ stop := by
      rw [List.length_append, TpDt.bytes_length, List.length_take, hstop]
      have := h.next_pos
      omega
    rw [← hstop]
    exact hprefix.trans (List.take_of_length_le hlen)

/-- **Data transfer refines the peer's transfer**, and never panics. -/
theorem onTpDt_refines (hr : r.WF) (source : Address) (dt : TpDt) :
    ∃ r', r.onTpDt source dt = .ok ((Transfer.onDt (r.transferOf source) dt).1, r')
      ∧ Focused r r' source (Transfer.onDt (r.transferOf source) dt).2 := by
  unfold onTpDt
  rw [slotOf_eq_find]
  cases hf : find Slot.key r.slots source with
  | none =>
    have hnone := transferOf_eq_none.mpr hf
    simp only [hnone, Transfer.onDt]
    exact ⟨r, rfl, hnone ▸ focused_refl hr⟩
  | some i =>
    have hkey := key_of_find hf
    obtain ⟨s, hs, hsrc⟩ := key_eq_some.mp hkey
    have ht : r.transferOf source
        = some ⟨s, (List.ofFn (r.slots i).buffer).take (7 * (s.nextSequence - 1))⟩ := by
      rw [transferOf_of_find hf, Slot.transfer, hs]
      rfl
    have hwf := hr.sessions i s hs
    have hcleared : ∀ b, Focused r ⟨Function.update r.slots i ⟨b, none⟩⟩ source none :=
      fun b => focused_put_none hr rfl hkey
    simp only [hs, ht, Transfer.onDt]
    by_cases hseq : dt.sequence = s.nextSequence
    · -- the packet expected next
      obtain ⟨hslice, b, hwrite, hlast, hmore⟩ := copy_packet hwf (r.slots i).buffer dt
      have hstop := hwf.stop_eq.1
      simp only [hseq, ne_eq, not_true_eq_false, if_false, subU_ok hwf.next_pos, ok_bind,
        subU_ok hstop, hslice, hwrite]
      by_cases hend : s.nextSequence = s.packets
      · -- the last one: the message is a prefix of the buffer
        have hsize : s.size ≤ (List.ofFn b).length := by
          rw [List.length_ofFn]
          exact hwf.size_fits
        simp only [hend, if_true, slice_zero_ok hsize, ok_bind, pure_eq_ok, setSession_setBuffer]
        refine ⟨_, ?_, hcleared b⟩
        rw [hlast hend, hend]
      · -- an earlier one: the session advances
        have hb := packetCount_bounds hwf.size_ge hwf.size_le
        have hp := hwf.packets_eq
        have hn := hwf.next_pos
        have hl := hwf.next_le
        have hadd : addU 8 s.nextSequence 1 = .ok (s.nextSequence + 1) := addU_ok (by omega)
        have hrem : addU 8 (s.packets - (s.nextSequence + 1)) 1
            = .ok (s.packets - (s.nextSequence + 1) + 1) := addU_ok (by omega)
        simp only [hend, if_false, hadd, ok_bind, Transfer.advance]
        have hput : ∀ w, 1 ≤ w → w ≤ s.packets - s.nextSequence →
            (s.broadcast = true → w = s.packets - s.nextSequence) →
            Focused r ⟨Function.update r.slots i ⟨b, some
                { s with nextSequence := s.nextSequence + 1, windowRemaining := w, idleMs := 0 }⟩⟩
              source (some ⟨{ s with
                  nextSequence := s.nextSequence + 1, windowRemaining := w, idleMs := 0 },
                (List.ofFn (r.slots i).buffer).take (7 * (s.nextSequence - 1)) ++ dt.bytes⟩) := by
          intro w hw hw' hbc
          have hrest : s.packets - (s.nextSequence + 1) + 1 = s.packets - s.nextSequence := by omega
          rw [← hmore hend]
          exact focused_put_some hr rfl ⟨hwf.size_ge, hwf.size_le, hwf.size_fits, hp,
            Nat.le_add_left 1 _, Nat.lt_of_le_of_ne hl hend, hw, hrest.symm ▸ hw',
            fun h => hrest.symm ▸ hbc h⟩ hsrc (Or.inl hkey)
        by_cases hwin : (!s.broadcast && s.windowRemaining - 1 == 0) = true
        · -- the window is used up and the next one granted
          simp only [hwin, if_true, subU_ok (show s.nextSequence + 1 ≤ s.packets by omega), hrem,
            ok_bind, setSession_setBuffer, setSession_update, pure_eq_ok]
          obtain ⟨hw, hw'⟩ := grantWindow_bounds (s.packets - (s.nextSequence + 1) + 1)
            s.maxPacketsPerCts (by omega)
          have hbc : s.broadcast = false := by
            simp only [Bool.and_eq_true, Bool.not_eq_true'] at hwin
            exact hwin.1
          exact ⟨_, rfl, hput _ hw (by omega) (by simp [hbc])⟩
        · simp only [hwin, setSession_setBuffer, pure_eq_ok]
          have hw := hwf.window_pos
          have hw' := hwf.window_le
          have hbc := hwf.window_broadcast
          have hrest : 1 ≤ s.windowRemaining - 1 := by
            rcases Bool.eq_false_or_eq_true s.broadcast with h | h
            · have := hbc h
              omega
            · simp only [h, Bool.not_false, Bool.true_and, beq_iff_eq] at hwin
              omega
          exact ⟨_, rfl, hput _ hrest (by omega) fun h => by have := hbc h; omega⟩
    · -- out of order
      simp only [hseq, ne_eq, not_false_eq_true, if_true]
      by_cases hbc : s.broadcast = true
      · simp only [hbc, if_true]
        exact ⟨_, rfl, hcleared _⟩
      · simp only [hbc, Bool.false_eq_true, if_false]
        by_cases hlt : dt.sequence < s.nextSequence
        · simp only [hlt, if_true]
          exact ⟨_, rfl, hcleared _⟩
        · simp only [hlt, if_false]
          exact ⟨_, rfl, hcleared _⟩

/-! ## §7. Time and reset. -/

theorem key_tickSlot {elapsedMs timeoutMs : Nat} {slot : Slot N} {a : Address}
    (h : (tickSlot elapsedMs timeoutMs slot).2.key = some a) : slot.key = some a := by
  unfold tickSlot at h
  cases hs : slot.session with
  | none => simp [Slot.key, hs] at h
  | some s =>
    simp only [hs] at h
    split at h
    next => simpa [Slot.key, hs] using h
    next => simp [Slot.key] at h

/-- One slot's share of a tick is what time does to its transfer. -/
theorem transfer_tickSlot (elapsedMs timeoutMs : Nat) (slot : Slot N) :
    (tickSlot elapsedMs timeoutMs slot).1 = (Transfer.onTick elapsedMs timeoutMs slot.transfer).1
      ∧ (tickSlot elapsedMs timeoutMs slot).2.transfer
        = (Transfer.onTick elapsedMs timeoutMs slot.transfer).2 := by
  unfold tickSlot
  cases hs : slot.session with
  | none => simp [Slot.transfer, hs, Transfer.onTick]
  | some s =>
    simp only [Slot.transfer, hs, Option.map_some, Transfer.onTick]
    split <;> simp

theorem key_of_tickSlot {elapsedMs timeoutMs : Nat} {slot : Slot N} {p : Timeout}
    (h : (tickSlot elapsedMs timeoutMs slot).1 = some p) : slot.key = some p.1 := by
  unfold tickSlot at h
  cases hs : slot.session with
  | none => simp [hs] at h
  | some s =>
    simp only [hs] at h
    split at h
    next => cases h
    next =>
      simp only [Option.some.injEq] at h
      simp [Slot.key, hs, ← h]

/-- Time does not touch what the invariant says of a session. -/
theorem wf_tickSlot (elapsedMs timeoutMs : Nat) {slot : Slot N} (hslot : slot.WF) :
    (tickSlot elapsedMs timeoutMs slot).2.WF := by
  intro s' h
  unfold tickSlot at h
  cases hs : slot.session with
  | none => simp [hs] at h
  | some s =>
    simp only [hs] at h
    split at h
    next =>
      simp only [Option.some.injEq] at h
      have hwf := hslot s hs
      exact h ▸ ⟨hwf.size_ge, hwf.size_le, hwf.size_fits, hwf.packets_eq, hwf.next_pos,
        hwf.next_le, hwf.window_pos, hwf.window_le, hwf.window_broadcast⟩
    next => cases h

/-- **Time refines every peer's transfer.** -/
theorem tick_refines (hr : r.WF) (elapsedMs timeoutMs : Nat) :
    (r.tickWithTimeout elapsedMs timeoutMs).2.WF ∧ ∀ a,
      (r.tickWithTimeout elapsedMs timeoutMs).2.transferOf a
          = (Transfer.onTick elapsedMs timeoutMs (r.transferOf a)).2
        ∧ (r.tickWithTimeout elapsedMs timeoutMs).1.filter (fun x => x.1 = a)
          = (Transfer.onTick elapsedMs timeoutMs (r.transferOf a)).1.toList := by
  have hkey : ∀ (slot : Slot N) a,
      (tickSlot elapsedMs timeoutMs slot).2.key = some a → slot.key = some a :=
    fun _ _ => key_tickSlot
  have hempty : ∀ slot : Slot N, slot.key = none → slot.transfer = none := by
    intro slot h
    simpa [Slot.key, Slot.transfer] using h
  have hsound := hr.sound.pass _ hkey fun _ => wf_tickSlot elapsedMs timeoutMs
  refine ⟨⟨hsound.distinct, hsound.slots⟩, fun a => ⟨?_, ?_⟩⟩
  · unfold transferOf tickWithTimeout
    rw [bind_get_comp _ hr.distinct hkey hempty]
    cases SlotTable.get Slot.key r.slots a with
    | none => rfl
    | some slot => exact (transfer_tickSlot elapsedMs timeoutMs slot).2
  · rw [tickWithTimeout, filter_reports hr.distinct fun _ _ => key_of_tickSlot, transferOf]
    cases SlotTable.get Slot.key r.slots a with
    | none => rfl
    | some slot => exact congrArg Option.toList (transfer_tickSlot elapsedMs timeoutMs slot).1

theorem reset_refines (r : Reassembler N SESSIONS) :
    r.reset.WF ∧ ∀ a, r.reset.transferOf a = none := by
  have hkey : ∀ i, (r.reset.slots i).key = none := fun i => rfl
  refine ⟨⟨fun i j k hi _ => ?_, fun i s hs => ?_⟩, fun a => ?_⟩
  · rw [hkey i] at hi
    cases hi
  · cases hs
  · rw [transferOf_eq_none, find_eq_none]
    intro i hi
    rw [hkey i] at hi
    cases hi

/-! ## §8. Every call. -/

theorem wf_new : (new : Reassembler N SESSIONS).WF := (reset_refines new).1

theorem transferOf_new (a : Address) : (new : Reassembler N SESSIONS).transferOf a = none :=
  (reset_refines new).2 a

/-- **Every call returns, keeps the invariant, and does to each peer's
transfer, and shows each peer, what the abstract transfer says.** -/
theorem step_refines (hr : r.WF) (c : Call) :
    ∃ reply r', step r c = .ok (reply, r') ∧ r'.WF ∧ ∀ a,
      r'.transferOf a = Transfer.onCall N (r.room a) a (r.transferOf a) c
        ∧ seen a c reply = Transfer.answer N (r.room a) a (r.transferOf a) c := by
  have hfocus : ∀ {r' : Reassembler N SESSIONS} {source t} (a : Address),
      Focused r r' source t →
        r'.transferOf a = if source = a then t else r.transferOf a := by
    intro r' source t a h
    split
    next he => exact he ▸ h.self
    next he => exact h.others a (Ne.symm he)
  cases c with
  | tpCm source cm =>
    obtain ⟨hout, hfoc⟩ := onTpCm_refines hr source cm
    refine ⟨_, _, rfl, hfoc.wf, fun a => ⟨?_, ?_⟩⟩
    · rw [hfocus a hfoc, Transfer.onCall]
      split
      next he => rw [he]
      next => rfl
    · simp only [seen, Call.concerns, Reply.about, Transfer.answer, decide_eq_true_eq]
      split
      next he => rw [hout, he]
      next => rfl
  | tpDt source dt =>
    obtain ⟨r', hok, hfoc⟩ := onTpDt_refines hr source dt
    refine ⟨_, r', by simp only [step, hok, ok_bind, pure_eq_ok]; rfl, hfoc.wf, fun a => ⟨?_, ?_⟩⟩
    · rw [hfocus a hfoc, Transfer.onCall]
      split
      next he => rw [he]
      next => rfl
    · simp only [seen, Call.concerns, Reply.about, Transfer.answer, decide_eq_true_eq]
      split
      next he => rw [he]
      next => rfl
  | tick elapsedMs timeoutMs =>
    obtain ⟨hwf, hall⟩ := tick_refines hr elapsedMs timeoutMs
    refine ⟨_, _, rfl, hwf, fun a => ⟨(hall a).1, ?_⟩⟩
    simp only [seen, Call.concerns, Reply.about, Transfer.answer, if_true, (hall a).2]
  | abandon source =>
    obtain ⟨hout, hfoc⟩ := abandon_refines hr source
    refine ⟨_, _, rfl, hfoc.wf, fun a => ⟨hfocus a hfoc, ?_⟩⟩
    simp only [seen, Call.concerns, Reply.about, Transfer.answer, decide_eq_true_eq]
    split
    next he => rw [hout, he]
    next => rfl
  | reset =>
    obtain ⟨hwf, hnone⟩ := reset_refines r
    exact ⟨_, _, rfl, hwf, fun a => ⟨hnone a, rfl⟩⟩

/-- `step_refines`, read off a step that was taken. -/
theorem WF.step {c : Call} {reply : Reply} {r' : Reassembler N SESSIONS} (hr : r.WF)
    (h : step r c = .ok (reply, r')) : r'.WF ∧ ∀ a,
      r'.transferOf a = Transfer.onCall N (r.room a) a (r.transferOf a) c
        ∧ seen a c reply = Transfer.answer N (r.room a) a (r.transferOf a) c := by
  obtain ⟨reply', r'', hstep, hspec⟩ := step_refines hr c
  rw [h] at hstep
  injection hstep with hstep
  injection hstep with h₁ h₂
  subst h₁ h₂
  exact hspec

/-- **Every reachable reassembler satisfies the invariant.** -/
theorem Reachable.wf (h : Reachable r) : r.WF :=
  Machine.Reachable.invariant (fun _ _ _ _ hs hstep => (hs.step hstep).1) wf_new h

/-- **No run of calls panics.** -/
theorem run_ok (hr : r.WF) (cs : List Call) :
    ∃ tr r', Machine.run step r cs = .ok (tr, r') ∧ r'.WF := by
  refine Machine.run_ok (fun s c hs => ?_) cs hr
  obtain ⟨reply, r', hstep, hwf, -⟩ := step_refines hs c
  exact ⟨reply, r', hstep, hwf⟩

end Reassembler

end SaeJ1939.Tp
