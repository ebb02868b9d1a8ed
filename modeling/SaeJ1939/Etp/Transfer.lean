/-
  SaeJ1939.Etp.Transfer — the extended reassembler, one peer at a time.

  As for the transport protocol, the slot array is a map from peers to
  transfers: a session and the bytes received for it.  `Transfer.onCm`,
  `onDt` and `onTick` say what one event does to one transfer, with no
  slots, no buffer and no arithmetic that could fail.

  Main results:
    * `onEtpCm_refines`, `onEtpDt_refines`, `tick_refines` — the
      reassembler does to the transfer of the peer what these say, and
      nothing to any other.
    * `onEtpDt_refines` also shows that data transfer never panics; an
      offset panics only where adding one leaves 32 bits, which no decoded
      message reaches.
    * `Reachable.wf` — every reachable reassembler is well formed.
-/
import SaeJ1939.Etp.Reassembler
import SaeJ1939.Lib.SlotTable

namespace SaeJ1939.Etp

open Checked SlotTable Chunks
open Tp (AbortReason bytesPerPacket)

/-! ## §1. One transfer. -/

/-- What a reassembler holds for one peer. -/
structure Transfer where
  session : Session
  received : List UInt8
  deriving DecidableEq

/-- The packets of a session that are in. -/
def Session.done (s : Session) : Nat := s.blockStart - 1 + (s.nextSequence - 1)

namespace Transfer

/-- A transfer that has just been announced. -/
def start (source : Address) (pgn : Pgn) (size : Nat) : Transfer :=
  ⟨{ source, pgn, size
     packets := packetCount size
     blockStart := 1
     blockPackets := blockSize (packetCount size) 1
     offset := none
     nextSequence := 1
     idleMs := 0 }, []⟩

/-- What a peer's connection management does to its transfer, when the
table has (`room`) or has not an empty slot. -/
def onCm (N : Nat) (room : Bool) (source : Address) (t : Option Transfer) :
    EtpCm → Rx × Option Transfer
  | .rts size pgn =>
      if size < minMessageSize ∨ size > maxMessageSize then (.send (.abort (.other fill) pgn), t)
      else if size > N then (.send (.abort .resourcesUnavailable pgn), t)
      else if t.isSome then (.send (.abort .alreadyInSession pgn), t)
      else if room then
        (.send (.cts (blockSize (packetCount size) 1) 1 pgn), some (start source pgn size))
      else (.send (.abort .resourcesUnavailable pgn), t)
  | .dpo packets offset _ =>
      match t with
      | none => (.idle, none)
      | some ⟨s, received⟩ =>
          if offset + 1 ≠ s.blockStart ∨ packets ≠ s.blockPackets then
            (.send (.abort .unexpectedDataPacket s.pgn), none)
          else
            -- the block starts over
            (.idle, some ⟨{ s with offset := some offset, nextSequence := 1, idleMs := 0 },
              received.take (7 * (s.blockStart - 1))⟩)
  | .abort _ pgn => (.idle, t.filter fun t => t.session.pgn != pgn)
  | .cts .. | .eoma .. => (.idle, t)

/-- The session after the last packet of its block. -/
def nextBlock (s : Session) : Session :=
  { s with
    blockStart := s.blockStart + s.blockPackets
    blockPackets := blockSize (s.packets - (s.blockStart + s.blockPackets) + 1)
      (s.blockStart + s.blockPackets)
    offset := none
    nextSequence := 1
    idleMs := 0 }

/-- What a peer's data packet does to its transfer. -/
def onDt (t : Option Transfer) (dt : EtpDt) : Rx × Option Transfer :=
  match t with
  | none => (.idle, none)
  | some ⟨s, received⟩ =>
      match s.offset with
      | none => (.send (.abort .unexpectedDataPacket s.pgn), none)
      | some offset =>
          if dt.sequence ≠ s.nextSequence then
            (.send (.abort (if dt.sequence < s.nextSequence then .duplicateSequenceNumber
              else .badSequenceNumber) s.pgn), none)
          else if offset + dt.sequence ≥ s.packets then
            (.message s.pgn s.source ((received ++ dt.bytes).take s.size) (.eoma s.size s.pgn), none)
          else if dt.sequence ≥ s.blockPackets then
            (.send (.cts (nextBlock s).blockPackets (nextBlock s).blockStart s.pgn),
              some ⟨nextBlock s, received ++ dt.bytes⟩)
          else
            (.idle, some ⟨{ s with nextSequence := s.nextSequence + 1, idleMs := 0 },
              received ++ dt.bytes⟩)

/-- What time does to a peer's transfer. -/
def onTick (elapsedMs timeoutMs : Nat) (t : Option Transfer) :
    Option Reassembler.Timeout × Option Transfer :=
  match t with
  | none => (none, none)
  | some ⟨s, received⟩ =>
      let s := { s with idleMs := saturatingAdd 16 s.idleMs elapsedMs }
      if s.idleMs ≤ timeoutMs then (none, some ⟨s, received⟩)
      else (some (s.source, .abort .timeout s.pgn), none)

end Transfer

/-! ## §2. The representation invariant. -/

/-- What holds of every session an extended reassembler with `N`-byte
buffers keeps. -/
structure Session.WF (N : Nat) (s : Session) : Prop where
  size_ge : minMessageSize ≤ s.size
  size_le : s.size ≤ maxMessageSize
  size_fits : s.size ≤ N
  packets_eq : s.packets = packetCount s.size
  start_pos : 1 ≤ s.blockStart
  block_pos : 1 ≤ s.blockPackets
  block_le : s.blockPackets ≤ maxPacketsPerBlock
  block_end : s.blockStart + s.blockPackets ≤ s.packets + 1
  next_pos : 1 ≤ s.nextSequence
  next_le : s.nextSequence ≤ s.blockPackets
  /-- An offset that was accepted is that of the block; before it, no
  packet of the block is in. -/
  offset_eq : s.offset = none ∧ s.nextSequence = 1 ∨ s.offset = some (s.blockStart - 1)

theorem Session.WF.offset_of_some {N : Nat} {s : Session} (h : s.WF N) {offset : Nat}
    (hoffset : s.offset = some offset) : offset = s.blockStart - 1 := by
  rcases h.offset_eq with ⟨hnone, -⟩ | hsome
  · rw [hnone] at hoffset
    cases hoffset
  · rw [hsome] at hoffset
    exact (Option.some.inj hoffset).symm

/-- A session still waits for a packet. -/
theorem Session.WF.done_lt {N : Nat} {s : Session} (h : s.WF N) : s.done < s.packets := by
  have hstart := h.start_pos
  have hnext := h.next_pos
  have hle := h.next_le
  have hend := h.block_end
  unfold Session.done
  omega

/-- The packets in fit the message. -/
theorem Session.WF.done_fits {N : Nat} {s : Session} (h : s.WF N) : 7 * s.done < s.size := by
  have hb := packetCount_bounds h.size_ge h.size_le
  have hp := h.packets_eq
  have hlt := h.done_lt
  omega

/-- The peer a slot is working for. -/
def Slot.key {N : Nat} (slot : Slot N) : Option Address := slot.session.map Session.source

/-- The transfer a slot is working on. -/
def Slot.transfer {N : Nat} (slot : Slot N) : Option Transfer :=
  slot.session.map fun s => ⟨s, (List.ofFn slot.buffer).take (7 * s.done)⟩

/-- What holds of every slot. -/
def Slot.WF {N : Nat} (slot : Slot N) : Prop := ∀ s, slot.session = some s → s.WF N

namespace Reassembler

variable {N SESSIONS : Nat}

/-- At most one session per peer, and every session well formed. -/
def WF (r : Reassembler N SESSIONS) : Prop := Sound Slot.key Slot.WF r.slots

/-- The transfer of one peer. -/
def transferOf (r : Reassembler N SESSIONS) (source : Address) : Option Transfer :=
  (SlotTable.get Slot.key r.slots source).bind Slot.transfer

/-- Whether the table has an empty slot. -/
def room (r : Reassembler N SESSIONS) : Bool := r.freeSlot.isSome

/-- `r'` is a well-formed reassembler that differs from `r` only in the
transfer of `source`, which is now `t`. -/
structure Focused (r r' : Reassembler N SESSIONS) (source : Address) (t : Option Transfer) :
    Prop where
  wf : r'.WF
  self : r'.transferOf source = t
  others : ∀ a, a ≠ source → r'.transferOf a = r.transferOf a

variable {r : Reassembler N SESSIONS} {source : Address} {index : Fin SESSIONS}

/-! ## §3. The slot array as a map. -/

/-- A write to the table, read as a write to the map of transfers. -/
theorem focused_of_put {slots : Fin SESSIONS → Slot N} {x : Option (Slot N)}
    (h : Put Slot.key Slot.WF r.slots slots source x) :
    Focused r ⟨slots⟩ source (x.bind Slot.transfer) := by
  refine ⟨h.sound, ?_, fun a ha => ?_⟩
  · rw [transferOf, h.self]
  · rw [transferOf, transferOf, h.others a ha]

theorem focused_refl (hr : r.WF) : Focused r r source (r.transferOf source) :=
  focused_of_put (hr.same source)

theorem slotOf_eq_find (r : Reassembler N SESSIONS) (source : Address) :
    r.slotOf source = find Slot.key r.slots source := by
  unfold slotOf find
  congr 1
  funext slot
  cases hs : slot.session with
  | none => simp [Slot.key, hs]
  | some s => simp [Slot.key, hs, beq_eq_decide]

theorem freeSlot_eq_free (r : Reassembler N SESSIONS) : r.freeSlot = free Slot.key r.slots := by
  unfold freeSlot free
  congr 1
  funext slot
  cases hs : slot.session <;> simp [Slot.key, hs]

theorem key_eq_some {slot : Slot N} :
    slot.key = some source ↔ ∃ s, slot.session = some s ∧ s.source = source := by
  simp [Slot.key]

/-- **What the search for a peer's slot finds**: nothing, exactly if it has
no transfer, or the slot of its transfer. -/
theorem slotOf_cases (r : Reassembler N SESSIONS) (source : Address) :
    (r.slotOf source = none ∧ r.transferOf source = none
        ∧ SlotTable.get Slot.key r.slots source = none)
      ∨ ∃ i s, r.slotOf source = some i ∧ (r.slots i).session = some s ∧ s.source = source
        ∧ (r.slots i).key = some source
        ∧ r.transferOf source = some ⟨s, (List.ofFn (r.slots i).buffer).take (7 * s.done)⟩ := by
  rw [slotOf_eq_find]
  unfold transferOf SlotTable.get
  cases hf : find Slot.key r.slots source with
  | none => exact Or.inl ⟨rfl, rfl, rfl⟩
  | some i =>
    have hkey := key_of_find hf
    obtain ⟨s, hs, hsrc⟩ := key_eq_some.mp hkey
    refine Or.inr ⟨i, s, rfl, hs, hsrc, hkey, ?_⟩
    simp [Slot.transfer, hs]

theorem WF.session_of_transferOf (hr : r.WF) {t : Transfer} (h : r.transferOf source = some t) :
    t.session.WF N ∧ t.session.source = source := by
  rcases r.slotOf_cases source with ⟨-, hnone, -⟩ | ⟨i, s, -, hs, hsrc, -, ht⟩
  · rw [h] at hnone
    cases hnone
  · rw [h, Option.some.injEq] at ht
    subst ht
    exact ⟨hr.slots i s hs, hsrc⟩

/-- What an open transfer holds are whole packets. -/
theorem WF.received_length (hr : r.WF) {t : Transfer} (h : r.transferOf source = some t) :
    t.received.length = 7 * t.session.done := by
  rcases r.slotOf_cases source with ⟨-, hnone, -⟩ | ⟨i, s, -, hs, -, -, ht⟩
  · rw [h] at hnone
    cases hnone
  · rw [h, Option.some.injEq] at ht
    subst ht
    have hwf : s.WF N := hr.slots i s hs
    have hfits := hwf.size_fits
    have hdone := hwf.done_fits
    show ((List.ofFn (r.slots i).buffer).take (7 * s.done)).length = 7 * s.done
    rw [List.length_take, List.length_ofFn]
    omega

theorem setSession_setBuffer (r : Reassembler N SESSIONS) (index : Fin SESSIONS)
    (buffer : Fin N → UInt8) (session : Option Session) :
    (r.setBuffer index buffer).setSession index session
      = ⟨Function.update r.slots index ⟨buffer, session⟩⟩ := by
  simp [setBuffer, setSession]

/-- Emptying the slot of `source`, whatever its buffer. -/
theorem focused_clear (hr : r.WF) (hkey : (r.slots index).key = some source)
    (buffer : Fin N → UInt8) :
    Focused r ⟨Function.update r.slots index ⟨buffer, none⟩⟩ source none :=
  focused_of_put (hr.remove hkey rfl fun s h => by cases h)

/-- Filling the slot of `source`, or an empty one when it has none. -/
theorem focused_put (hr : r.WF) (buffer : Fin N → UInt8) {s : Session} (hs : s.WF N)
    (hsrc : s.source = source)
    (hkey : (r.slots index).key = some source
      ∨ (r.slots index).key = none ∧ SlotTable.get Slot.key r.slots source = none) :
    Focused r ⟨Function.update r.slots index ⟨buffer, some s⟩⟩ source
      (some ⟨s, (List.ofFn buffer).take (7 * s.done)⟩) := by
  refine focused_of_put (x := some ⟨buffer, some s⟩) (hr.put ?_ ?_ hkey)
  · simp [Slot.key, hsrc]
  · intro s' hs'
    cases hs'
    exact hs

/-! ## §4. Connection management. -/

/-- A freshly announced session is well formed. -/
theorem start_wf {size : Nat} {pgn : Pgn} (h₁ : minMessageSize ≤ size) (h₂ : size ≤ maxMessageSize)
    (hfits : size ≤ N) : (Transfer.start source pgn size).session.WF N := by
  have hb := packetCount_bounds h₁ h₂
  obtain ⟨hpos, hle, hfit, -⟩ := blockSize_bounds 1 (show 1 ≤ packetCount size by omega)
  exact ⟨h₁, h₂, hfits, rfl, Nat.le_refl 1, hpos, hle,
    show 1 + blockSize (packetCount size) 1 ≤ packetCount size + 1 by omega, Nat.le_refl 1, hpos,
    Or.inl ⟨rfl, rfl⟩⟩

/-- Abandoning a peer empties its slot. -/
theorem abandon_refines (hr : r.WF) (source : Address) :
    (r.abandon source).1 = (r.transferOf source).isSome
      ∧ Focused r (r.abandon source).2 source none := by
  unfold abandon
  rcases r.slotOf_cases source with ⟨hslot, hnone, -⟩ | ⟨i, s, hslot, -, -, hkey, ht⟩
  · rw [hslot, hnone]
    exact ⟨rfl, hnone ▸ focused_refl hr⟩
  · rw [hslot, ht]
    exact ⟨rfl, focused_clear hr hkey _⟩

/-- The session once the offset of its block has been declared. -/
theorem declared_wf {s : Session} (h : s.WF N) {offset : Nat}
    (hoffset : offset + 1 = s.blockStart) :
    Session.WF N { s with offset := some offset, nextSequence := 1, idleMs := 0 } := by
  have hdeclared : some offset = some (s.blockStart - 1) := by
    congr 1
    omega
  exact ⟨h.size_ge, h.size_le, h.size_fits, h.packets_eq, h.start_pos, h.block_pos, h.block_le,
    h.block_end, Nat.le_refl 1, h.block_pos, Or.inr hdeclared⟩

/-- **Connection management refines the peer's transfer**, or declares an
offset that leaves 32 bits. -/
theorem onEtpCm_refines (hr : r.WF) (source : Address) (cm : EtpCm) :
    (∃ r', r.onEtpCm source cm
          = .ok ((Transfer.onCm N r.room source (r.transferOf source) cm).1, r')
        ∧ Focused r r' source (Transfer.onCm N r.room source (r.transferOf source) cm).2)
      ∨ r.onEtpCm source cm = .error .overflow
        ∧ ∃ packets offset pgn, cm = .dpo packets offset pgn ∧ 2 ^ 32 ≤ offset + 1 := by
  cases cm with
  | rts size pgn =>
    left
    simp only [onEtpCm, Transfer.onCm]
    by_cases hsize : size < minMessageSize ∨ size > maxMessageSize
    · simp only [if_pos hsize]
      exact ⟨_, rfl, focused_refl hr⟩
    simp only [if_neg hsize]
    by_cases hfits : size > N
    · simp only [if_pos hfits]
      exact ⟨_, rfl, focused_refl hr⟩
    simp only [if_neg hfits]
    rcases r.slotOf_cases source with ⟨hslot, hnone, hget⟩ | ⟨i, s, hslot, -, -, -, ht⟩
    · simp only [hslot, hnone, Option.isSome_none, Bool.false_eq_true, if_false]
      cases hfree : r.freeSlot with
      | none =>
        have hroom : r.room = false := by rw [room, hfree, Option.isSome_none]
        simp only [hroom, Bool.false_eq_true, if_false]
        exact ⟨_, rfl, hnone ▸ focused_refl hr⟩
      | some i =>
        have hroom : r.room = true := by rw [room, hfree, Option.isSome_some]
        simp only [hroom, if_true]
        have hempty : (r.slots i).key = none := by
          rw [freeSlot_eq_free] at hfree
          exact key_of_free hfree
        have hstart : (Transfer.start source pgn size).session.WF N :=
          start_wf (by omega) (by omega) (by omega)
        exact ⟨_, rfl, focused_put hr (r.slots i).buffer hstart rfl (Or.inr ⟨hempty, hget⟩)⟩
    · simp only [hslot, ht, Option.isSome_some, if_true]
      exact ⟨_, rfl, ht ▸ focused_refl hr⟩
  | dpo packets offset pgn =>
    simp only [onEtpCm, Transfer.onCm]
    rcases r.slotOf_cases source with ⟨hslot, hnone, -⟩ | ⟨i, s, hslot, hs, hsrc, hkey, ht⟩
    · simp only [hslot, hnone]
      exact Or.inl ⟨_, rfl, hnone ▸ focused_refl hr⟩
    · simp only [hslot, hs, ht]
      by_cases hwide : offset + 1 < 2 ^ 32
      · left
        simp only [addU_ok hwide, ok_bind]
        by_cases hbad : offset + 1 ≠ s.blockStart ∨ packets ≠ s.blockPackets
        · simp only [if_pos hbad, pure_eq_ok]
          exact ⟨_, rfl, focused_clear hr hkey _⟩
        · simp only [if_neg hbad, pure_eq_ok]
          push Not at hbad
          -- the block starts over
          have hput := focused_put hr (r.slots i).buffer (declared_wf (hr.slots i s hs) hbad.1) hsrc
            (Or.inl hkey)
          have hdone : s.blockStart - 1 ≤ s.done := Nat.le_add_right _ _
          refine ⟨_, rfl, ?_⟩
          rw [List.take_take, Nat.min_eq_left (Nat.mul_le_mul_left 7 hdone)]
          exact hput
      · right
        refine ⟨?_, packets, offset, pgn, rfl, by omega⟩
        simp only [addU, if_neg hwide, error_bind]
  | abort reason pgn =>
    left
    simp only [onEtpCm, Transfer.onCm]
    rcases r.slotOf_cases source with ⟨hslot, hnone, -⟩ | ⟨i, s, hslot, hs, -, hkey, ht⟩
    · simp only [hslot, hnone, Option.filter_none]
      exact ⟨_, rfl, hnone ▸ focused_refl hr⟩
    · simp only [hslot, hs, ht, Option.any_some, Option.filter_some, beq_iff_eq, bne_iff_ne, ne_eq]
      by_cases hpgn : s.pgn = pgn
      · simp only [hpgn, if_true, not_true_eq_false, if_false]
        exact ⟨_, rfl, focused_clear hr hkey _⟩
      · simp only [hpgn, if_false, not_false_eq_true, if_true]
        exact ⟨_, rfl, ht ▸ focused_refl hr⟩
  | cts packets nextPacket pgn => exact Or.inl ⟨_, rfl, focused_refl hr⟩
  | eoma size pgn => exact Or.inl ⟨_, rfl, focused_refl hr⟩

/-! ## §5. Data transfer. -/

/-- The session after a block that is not the last one. -/
theorem nextBlock_wf {s : Session} (h : s.WF N)
    (hmore : s.blockStart + s.blockPackets ≤ s.packets) :
    (Transfer.nextBlock s).WF N := by
  have hstart := h.start_pos
  obtain ⟨hpos, hle, hfit, -⟩ := blockSize_bounds (s.blockStart + s.blockPackets)
    (Nat.le_add_left 1 (s.packets - (s.blockStart + s.blockPackets)))
  refine ⟨h.size_ge, h.size_le, h.size_fits, h.packets_eq, Nat.le_add_right_of_le hstart, hpos, hle,
    ?_, Nat.le_refl 1, hpos, Or.inl ⟨rfl, rfl⟩⟩
  show s.blockStart + s.blockPackets
    + blockSize (s.packets - (s.blockStart + s.blockPackets) + 1) (s.blockStart + s.blockPackets)
      ≤ s.packets + 1
  omega

/-- The session after a packet that is not the last one of its block. -/
theorem nextInBlock_wf {s : Session} (h : s.WF N) {offset : Nat} (hoffset : s.offset = some offset)
    (hmore : s.nextSequence < s.blockPackets) :
    Session.WF N { s with
      offset := some offset, nextSequence := s.nextSequence + 1, idleMs := 0 } :=
  ⟨h.size_ge, h.size_le, h.size_fits, h.packets_eq, h.start_pos, h.block_pos, h.block_le,
    h.block_end, Nat.le_add_left 1 _, hmore, Or.inr (congrArg some (h.offset_of_some hoffset))⟩

/-- **A packet in order is copied**: the slicing and the write succeed,
and the buffer now holds what was received before, followed by it. -/
theorem copy_packet {s : Session} (h : s.WF N) (buffer : Fin N → UInt8) (dt : EtpDt) :
    let start := s.done * bytesPerPacket
    let stop := min (start + bytesPerPacket) s.size
    let received := (List.ofFn buffer).take (7 * s.done)
    ¬ start ≥ stop ∧ subU stop start = .ok (stop - start)
      ∧ slice dt.bytes 0 (stop - start) = .ok (dt.bytes.take (stop - start))
      ∧ ∃ b, write buffer start stop (dt.bytes.take (stop - start)) = .ok b
        ∧ (s.done + 1 ≥ s.packets →
            (List.ofFn b).take s.size = (received ++ dt.bytes).take s.size)
        ∧ (¬ s.done + 1 ≥ s.packets →
            (List.ofFn b).take (7 * (s.done + 1)) = received ++ dt.bytes) := by
  intro start stop received
  have hb := packetCount_bounds h.size_ge h.size_le
  have hpackets := h.packets_eq
  have hdone : s.done + 1 ≤ s.packets := h.done_lt
  have hstart : start = 7 * s.done := Nat.mul_comm _ _
  have hstop : stop = min (7 * s.done + 7) s.size := by
    show min (start + 7) s.size = _
    rw [hstart]
  obtain ⟨hslice, b, hwrite, htake⟩ := copy_chunk (a := buffer) (EtpDt.bytes_length dt)
    (show 7 * s.done ≤ s.size by omega) h.size_fits
  rw [← hstop] at hslice hwrite htake
  rw [← hstart] at hslice hwrite
  refine ⟨by omega, subU_ok (by omega), hslice, b, hwrite, fun hlast => ?_, fun hmore => ?_⟩
  · rw [show stop = s.size by omega] at htake
    exact htake
  · -- a packet before the last one is full
    have hlen : (received ++ dt.bytes).length ≤ 7 * (s.done + 1) := by
      rw [List.length_append, List.length_take, EtpDt.bytes_length]
      omega
    rw [show stop = 7 * (s.done + 1) by omega] at htake
    exact htake.trans (List.take_of_length_le hlen)

/-- **Data transfer refines the peer's transfer**, and never panics. -/
theorem onEtpDt_refines (hr : r.WF) (source : Address) (dt : EtpDt) :
    ∃ r', r.onEtpDt source dt = .ok ((Transfer.onDt (r.transferOf source) dt).1, r')
      ∧ Focused r r' source (Transfer.onDt (r.transferOf source) dt).2 := by
  unfold onEtpDt
  rcases r.slotOf_cases source with ⟨hslot, hnone, -⟩ | ⟨i, s, hslot, hs, hsrc, hkey, ht⟩
  · simp only [hslot, hnone, Transfer.onDt]
    exact ⟨r, rfl, hnone ▸ focused_refl hr⟩
  have hwf := hr.slots i s hs
  have hcleared := focused_clear hr hkey
  simp only [hslot, hs, ht, Transfer.onDt]
  cases hoffset : s.offset with
  | none => exact ⟨_, rfl, hcleared _⟩
  | some offset =>
    simp only
    by_cases hseq : dt.sequence = s.nextSequence
    · -- the packet expected next: its absolute number is one past those in
      have hb := packetCount_bounds hwf.size_ge hwf.size_le
      have hpackets := hwf.packets_eq
      have hstart := hwf.start_pos
      have hnext := hwf.next_pos
      have hle := hwf.next_le
      have hend := hwf.block_end
      have hblock := hwf.block_le
      have hoff := hwf.offset_of_some hoffset
      have habs : offset + s.nextSequence = s.done + 1 := by
        unfold Session.done
        omega
      have hdone : s.done + 1 ≤ s.packets := hwf.done_lt
      have hwide : addU 32 offset s.nextSequence = .ok (s.done + 1) := by
        rw [addU_ok (by omega), habs]
      have hsub : subU (s.done + 1) 1 = .ok s.done := subU_ok (Nat.le_add_left 1 _)
      obtain ⟨hopen, hstop, hslice, b, hwrite, hwhole, hmore⟩ :=
        copy_packet hwf (r.slots i).buffer dt
      simp only [hseq, ne_eq, not_true_eq_false, if_false, hwide, hsub, ok_bind, hopen, hstop, habs,
        hslice, hwrite]
      by_cases hlast : s.done + 1 ≥ s.packets
      · -- the last one: the message is a prefix of the buffer
        have hsize : s.size ≤ (List.ofFn b).length := by
          rw [List.length_ofFn]
          exact hwf.size_fits
        simp only [if_pos hlast, slice_zero_ok hsize, ok_bind, pure_eq_ok, setSession_setBuffer,
          hwhole hlast]
        exact ⟨_, rfl, hcleared b⟩
      · -- an earlier one
        replace hmore := hmore hlast
        simp only [if_neg hlast]
        by_cases hfull : s.nextSequence ≥ s.blockPackets
        · -- the block is full and the next one granted
          have hdone : s.done + 1 = s.blockStart + s.blockPackets - 1 := by
            unfold Session.done
            omega
          have hadd : addU 32 s.blockStart s.blockPackets = .ok (s.blockStart + s.blockPackets) :=
            addU_ok (by omega)
          have hrest : addU 32 (s.packets - (s.blockStart + s.blockPackets)) 1
              = .ok (s.packets - (s.blockStart + s.blockPackets) + 1) := addU_ok (by omega)
          simp only [if_pos hfull, hadd, ok_bind, hrest, pure_eq_ok, setSession_setBuffer,
            subU_ok (show s.blockStart + s.blockPackets ≤ s.packets by omega)]
          have hput := focused_put hr b (nextBlock_wf hwf (by omega)) hsrc (Or.inl hkey)
          have hin : (Transfer.nextBlock s).done = s.done + 1 := hdone.symm
          rw [hin, hmore] at hput
          exact ⟨_, rfl, hput⟩
        · -- the block goes on
          have hadd : addU 8 s.nextSequence 1 = .ok (s.nextSequence + 1) := by
            unfold maxPacketsPerBlock at hblock
            exact addU_ok (by omega)
          simp only [if_neg hfull, hadd, ok_bind, pure_eq_ok, setSession_setBuffer]
          have hput := focused_put hr b (nextInBlock_wf hwf hoffset (Nat.lt_of_not_le hfull)) hsrc
            (Or.inl hkey)
          have hin : Session.done { s with
              offset := some offset, nextSequence := s.nextSequence + 1, idleMs := 0 }
                = s.done + 1 := by
            unfold Session.done
            simp only
            omega
          rw [hin, hmore] at hput
          exact ⟨_, rfl, hput⟩
    · -- out of order
      simp only [hseq, ne_eq, not_false_eq_true, if_true]
      exact ⟨_, rfl, hcleared _⟩

/-! ## §6. Time and reset. -/

theorem key_tickSlot {elapsedMs timeoutMs : Nat} {slot : Slot N} {a : Address}
    (h : (tickSlot elapsedMs timeoutMs slot).2.key = some a) : slot.key = some a := by
  unfold tickSlot at h
  cases hs : slot.session with
  | none => simp [Slot.key, hs] at h
  | some s =>
    simp only [hs] at h
    split at h
    next => simpa [Slot.key, hs] using h
    next => simp [Slot.key] at h

/-- A slot reports only about the peer it is working for. -/
theorem key_of_tickSlot {elapsedMs timeoutMs : Nat} {slot : Slot N} {p : Timeout}
    (h : (tickSlot elapsedMs timeoutMs slot).1 = some p) : slot.key = some p.1 := by
  unfold tickSlot at h
  cases hs : slot.session with
  | none => simp [hs] at h
  | some s =>
    simp only [hs] at h
    split at h
    next => cases h
    next =>
      simp only [Option.some.injEq] at h
      simp [Slot.key, hs, ← h]

/-- One slot's share of a tick is what time does to its transfer. -/
theorem transfer_tickSlot (elapsedMs timeoutMs : Nat) (slot : Slot N) :
    (tickSlot elapsedMs timeoutMs slot).1 = (Transfer.onTick elapsedMs timeoutMs slot.transfer).1
      ∧ (tickSlot elapsedMs timeoutMs slot).2.transfer
        = (Transfer.onTick elapsedMs timeoutMs slot.transfer).2 := by
  unfold tickSlot Slot.transfer Transfer.onTick
  cases hs : slot.session with
  | none => simp [hs]
  | some s =>
    simp only [Option.map_some]
    split
    next => exact ⟨rfl, rfl⟩
    next => exact ⟨rfl, rfl⟩

/-- Time does not touch what the invariant says of a session. -/
theorem wf_tickSlot (elapsedMs timeoutMs : Nat) {slot : Slot N} (hslot : slot.WF) :
    (tickSlot elapsedMs timeoutMs slot).2.WF := by
  intro s' h
  unfold tickSlot at h
  cases hs : slot.session with
  | none => simp [hs] at h
  | some s =>
    simp only [hs] at h
    split at h
    next =>
      simp only [Option.some.injEq] at h
      have hwf := hslot s hs
      exact h ▸ ⟨hwf.size_ge, hwf.size_le, hwf.size_fits, hwf.packets_eq, hwf.start_pos,
        hwf.block_pos, hwf.block_le, hwf.block_end, hwf.next_pos, hwf.next_le, hwf.offset_eq⟩
    next => cases h

/-- **Time refines every peer's transfer.** -/
theorem tick_refines (hr : r.WF) (elapsedMs timeoutMs : Nat) :
    (r.tick elapsedMs timeoutMs).2.WF ∧ ∀ a,
      (r.tick elapsedMs timeoutMs).2.transferOf a
          = (Transfer.onTick elapsedMs timeoutMs (r.transferOf a)).2
        ∧ (r.tick elapsedMs timeoutMs).1.filter (fun x => x.1 = a)
          = (Transfer.onTick elapsedMs timeoutMs (r.transferOf a)).1.toList := by
  have hkey : ∀ (slot : Slot N) a,
      (tickSlot elapsedMs timeoutMs slot).2.key = some a → slot.key = some a :=
    fun _ _ => key_tickSlot
  have hempty : ∀ slot : Slot N, slot.key = none → slot.transfer = none := by
    intro slot h
    simpa [Slot.key, Slot.transfer] using h
  refine ⟨hr.pass _ hkey fun _ => wf_tickSlot elapsedMs timeoutMs, fun a => ⟨?_, ?_⟩⟩
  · unfold transferOf tick
    rw [bind_get_comp _ hr.distinct hkey hempty]
    cases SlotTable.get Slot.key r.slots a with
    | none => rfl
    | some slot => exact (transfer_tickSlot elapsedMs timeoutMs slot).2
  · rw [tick, filter_reports hr.distinct fun _ _ => key_of_tickSlot, transferOf]
    cases SlotTable.get Slot.key r.slots a with
    | none => rfl
    | some slot => exact congrArg Option.toList (transfer_tickSlot elapsedMs timeoutMs slot).1

theorem reset_refines (r : Reassembler N SESSIONS) :
    r.reset.WF ∧ ∀ a, r.reset.transferOf a = none := by
  have hkey : ∀ i, (r.reset.slots i).key = none := fun i => rfl
  refine ⟨⟨fun i j a hi _ => ?_, fun i s hs => ?_⟩, fun a => ?_⟩
  · rw [hkey i] at hi
    cases hi
  · cases hs
  · have hnone : SlotTable.get Slot.key r.reset.slots a = none := by
      rw [get_eq_none]
      intro i hi
      rw [hkey i] at hi
      cases hi
    rw [transferOf, hnone, Option.bind_none]

/-! ## §7. Every call. -/

theorem wf_new : (new : Reassembler N SESSIONS).WF := (reset_refines new).1

theorem transferOf_new (a : Address) : (new : Reassembler N SESSIONS).transferOf a = none :=
  (reset_refines new).2 a

/-- **Every call that returns keeps the invariant.** -/
theorem WF.step {c : Call} {reply : Reply} {r' : Reassembler N SESSIONS} (hr : r.WF)
    (h : step r c = .ok (reply, r')) : r'.WF := by
  cases c with
  | etpCm source cm =>
    rcases onEtpCm_refines hr source cm with ⟨r'', hok, hfocus⟩ | ⟨hpanic, -⟩
    · simp only [Reassembler.step, hok, ok_bind, pure_eq_ok, Except.ok.injEq, Prod.mk.injEq] at h
      exact h.2 ▸ hfocus.wf
    · simp only [Reassembler.step, hpanic, error_bind] at h
      cases h
  | etpDt source dt =>
    obtain ⟨r'', hok, hfocus⟩ := onEtpDt_refines hr source dt
    simp only [Reassembler.step, hok, ok_bind, pure_eq_ok, Except.ok.injEq, Prod.mk.injEq] at h
    exact h.2 ▸ hfocus.wf
  | tick elapsedMs timeoutMs =>
    simp only [Reassembler.step, Except.ok.injEq, Prod.mk.injEq] at h
    exact h.2 ▸ (tick_refines hr elapsedMs timeoutMs).1
  | abandon source =>
    simp only [Reassembler.step, Except.ok.injEq, Prod.mk.injEq] at h
    exact h.2 ▸ (abandon_refines hr source).2.wf
  | reset =>
    simp only [Reassembler.step, Except.ok.injEq, Prod.mk.injEq] at h
    exact h.2 ▸ (reset_refines r).1

/-- **Every reachable extended reassembler satisfies the invariant.** -/
theorem Reachable.wf (h : Reachable r) : r.WF :=
  Machine.Reachable.invariant (fun _ _ _ _ hs hstep => hs.step hstep) wf_new h

end Reassembler

end SaeJ1939.Etp
