/-
  SaeJ1939.Tp.Handshake — a connection-managed transfer from end to end.

  A `Link` is a transmitter and a reassembler with the data packets on
  their way between them.  Every message crosses as its eight bytes.
  Each CTS is answered by draining the window it grants; before each
  packet the receiver may be busy with any amount of traffic from other
  peers and any ticks, as long as these do not add up to more than `T1`.

  Main results:
    * `Sending` — the invariant: `k` packets have arrived, `w` are on their
      way, and both sides agree on it.
    * `sending_open`, `sending_gap`, `sending_packet` — the handshake
      establishes the invariant, other traffic keeps it, and each packet
      moves it on or finishes the transfer.
    * `addressed_transfer_delivers` — every addressed transfer is
      delivered once, in granted windows that tile its packets.
-/
import SaeJ1939.Tp.Lifetime
import SaeJ1939.Tp.Transmitter

namespace SaeJ1939.Tp

open Checked Chunks Reassembler

/-! ## §1. The link. -/

/-- A sender and a receiver, what is on the wire between them, and what
has been observed so far. -/
structure Link (N SESSIONS : Nat) where
  tx : Transmitter
  rx : Reassembler N SESSIONS
  /-- The data packets on their way, as bytes. -/
  wire : List Payload
  /-- Every data packet sent so far. -/
  emitted : List TpDt
  /-- The windows granted so far: packets, and the first of them. -/
  grants : List (Nat × Nat)
  /-- Every message delivered so far. -/
  delivered : List (Pgn × Address × List UInt8)
  /-- What the transmitter made of each answer. -/
  told : List Tx

namespace Link

variable {N SESSIONS : Nat}

/-- The window a message grants. -/
def grantOf : TpCm → List (Nat × Nat)
  | .cts packets nextPacket _ => [(packets, nextPacket)]
  | _ => []

/-- The receiver's connection management reaches the sender, which drains
the window it was granted. -/
def answer (l : Link N SESSIONS) (cm : TpCm) : Exec (Link N SESSIONS) :=
  match TpCm.decode cm.encode with
  | .error _ => .ok l
  | .ok cm => do
      let (told, tx) ← l.tx.onTpCm cm
      let l := { l with tx, told := l.told ++ [told], grants := l.grants ++ grantOf cm }
      match told with
      | .sendData => do
          let (dts, tx) ← Transmitter.drain 256 tx
          return { l with
            tx, wire := l.wire ++ dts.map TpDt.encode, emitted := l.emitted ++ dts }
      | _ => return l

/-- Act on what the receiver wants done. -/
def react (l : Link N SESSIONS) : Rx → Exec (Link N SESSIONS)
  | .idle => .ok l
  | .send cm => l.answer cm
  | .message pgn source data ack =>
      let l := { l with delivered := l.delivered ++ [(pgn, source, data)] }
      match ack with
      | some cm => l.answer cm
      | none => .ok l

/-- The sender announces its transfer. -/
def start (source : Address) (tx : Transmitter) (rx : Reassembler N SESSIONS) :
    Exec (Link N SESSIONS) :=
  let l : Link N SESSIONS := ⟨tx, rx, [], [], [], [], []⟩
  match TpCm.decode tx.start.encode with
  | .error _ => .ok l
  | .ok cm => { l with rx := (rx.onTpCm source cm).2 }.react (rx.onTpCm source cm).1

/-- The receiver handles calls that have nothing to do with the sender. -/
def others (l : Link N SESSIONS) (calls : List Call) : Exec (Link N SESSIONS) := do
  let (_, rx) ← Machine.run step l.rx calls
  return { l with rx }

/-- The next data packet on the wire reaches the receiver. -/
def packet (source : Address) (l : Link N SESSIONS) : Exec (Link N SESSIONS) :=
  match l.wire with
  | [] => .ok l
  | p :: wire => do
      let (reply, rx) ← l.rx.onTpDt source (TpDt.decode p)
      { l with rx, wire }.react reply

/-- Deliver one packet after each of the given gaps. -/
def drive (source : Address) : Link N SESSIONS → List (List Call) → Exec (Link N SESSIONS)
  | l, [] => .ok l
  | l, gap :: gaps => do
      let l ← l.others gap
      let l ← l.packet source
      drive source l gaps

end Link

/-! ## §2. Other traffic. -/

namespace Reassembler

/-- How much time a call lets pass. -/
def Call.elapsed : Call → Nat
  | .tick elapsedMs _ => elapsedMs
  | _ => 0

/-- A call that is not about `source`: traffic of another peer, or a tick
with a timeout of at least `T1`. -/
def Call.Foreign (source : Address) : Call → Prop
  | .tpCm other _ | .tpDt other _ | .abandon other => other ≠ source
  | .tick _ timeoutMs => t1TimeoutMs ≤ timeoutMs
  | .reset => False

/-- What may happen between two packets of `source`: other peers' traffic,
and no more than `T1` of time. -/
def Quiet (source : Address) (gap : List Call) : Prop :=
  (∀ c ∈ gap, c.Foreign source) ∧ (gap.map Call.elapsed).sum ≤ t1TimeoutMs

variable {N SESSIONS : Nat} {r : Reassembler N SESSIONS} {source : Address}

theorem onCall_foreign {room : Bool} {t : Transfer} {c : Call} (hc : c.Foreign source)
    (hidle : t.session.idleMs + c.elapsed ≤ t1TimeoutMs) :
    Transfer.onCall N room source (some t) c
      = some ⟨{ t.session with idleMs := t.session.idleMs + c.elapsed }, t.received⟩ := by
  cases c with
  | tpCm other cm | tpDt other dt | abandon other =>
    simp only [Call.Foreign] at hc
    simp only [Transfer.onCall, hc, if_false, Call.elapsed, Nat.add_zero]
  | tick elapsedMs timeoutMs =>
    simp only [Call.Foreign, Call.elapsed] at hc hidle
    have hsat : saturatingAdd 16 t.session.idleMs elapsedMs = t.session.idleMs + elapsedMs := by
      unfold saturatingAdd t1TimeoutMs at *
      omega
    simp only [Transfer.onCall, Transfer.onTick, hsat, Call.elapsed,
      if_pos (le_trans hidle hc)]
  | reset => exact absurd hc id

/-- **Other traffic leaves a transfer alone**, apart from its age. -/
theorem run_foreign {t : Transfer} {gap : List Call} (hr : r.WF)
    (ht : r.transferOf source = some t) (hforeign : ∀ c ∈ gap, c.Foreign source)
    (hidle : t.session.idleMs + (gap.map Call.elapsed).sum ≤ t1TimeoutMs) :
    ∃ tr r', Machine.run step r gap = .ok (tr, r') ∧ r'.WF ∧ r'.transferOf source
      = some ⟨{ t.session with
          idleMs := t.session.idleMs + (gap.map Call.elapsed).sum }, t.received⟩ := by
  induction gap generalizing r t with
  | nil => exact ⟨[], r, rfl, hr, ht⟩
  | cons c gap ih =>
    simp only [List.map_cons, List.sum_cons] at hidle ⊢
    obtain ⟨o, r₁, hstep, hr₁, hall⟩ := step_refines hr c
    have ht₁ := (hall source).1
    rw [ht, onCall_foreign (hforeign c (List.mem_cons_self ..)) (by omega)] at ht₁
    obtain ⟨tr, r', hrun, hr', ht'⟩ := ih hr₁ ht₁
      (fun c hc => hforeign c (List.mem_cons_of_mem _ hc)) (by simp only; omega)
    refine ⟨⟨r, c, o, r₁⟩ :: tr, r', ?_, hr', ?_⟩
    · simp only [Machine.run, hstep, ok_bind, hrun, pure_eq_ok]
    · rw [ht', ← Nat.add_assoc]

end Reassembler

/-! ## §3. One answer. -/

namespace Link

variable {N SESSIONS : Nat} {l : Link N SESSIONS} {source : Address}

/-- A CTS is answered by exactly the packets it grants. -/
theorem answer_cts {w n : Nat} (hbc : l.tx.broadcast = false) (hw : 1 ≤ w) (hn : 1 ≤ n)
    (hfit : n + w ≤ l.tx.packets + 1) :
    l.answer (.cts w n l.tx.pgn) = .ok { l with
      tx := { l.tx with nextSequence := n + w, windowRemaining := 0 }
      told := l.told ++ [.sendData]
      grants := l.grants ++ [(w, n)]
      wire := l.wire ++ (List.range' n w).map fun i => (Transmitter.packetOf l.tx.data i).encode
      emitted := l.emitted ++ (List.range' n w).map (Transmitter.packetOf l.tx.data) } := by
  have hle := l.tx.packets_le
  have hdecode := TpCm.decode_encode (.cts w n l.tx.pgn)
    (show w < 256 ∧ n < 256 by omega)
  have hmin : min w (l.tx.packets - n + 1) = w := by omega
  have hcts := l.tx.onTpCm_cts hw hn (by omega)
  rw [hmin] at hcts
  have hdrain := Transmitter.drain_window (w := w)
    { l.tx with nextSequence := n, windowRemaining := w } 256 hbc hn rfl hfit (by omega)
  simp only [answer, hdecode, hcts, ok_bind, hdrain, pure_eq_ok, grantOf, List.map_map]
  rfl

/-- The acknowledgement of the whole message completes the sender. -/
theorem answer_endOfMsgAck (l : Link N SESSIONS) {size packets : Nat} (hs : size < 2 ^ 16)
    (hp : packets < 256) :
    l.answer (.endOfMsgAck size packets l.tx.pgn) = .ok { l with
      tx := { l.tx with complete := true }
      told := l.told ++ [.complete] } := by
  have hdecode := TpCm.decode_encode (.endOfMsgAck size packets l.tx.pgn) ⟨hs, hp⟩
  simp only [answer, hdecode, Transmitter.onTpCm, TpCm.pgn, ne_eq, not_true_eq_false, if_false,
    ok_bind, pure_eq_ok, grantOf, List.append_nil]

/-! ## §4. The invariant. -/

/-- The receiver's session of a transfer of `data`, after `k` packets,
with `w` more granted. -/
def sessionAt (source : Address) (pgn : Pgn) (data : List UInt8) (max k w idle : Nat) : Session where
  source := source
  pgn := pgn
  size := data.length
  packets := packetCount data.length
  nextSequence := k + 1
  windowRemaining := w
  maxPacketsPerCts := max
  broadcast := false
  idleMs := idle

/-- **`k` packets have arrived and `w` are on their way**, and both sides
agree on it. -/
structure Sending (source : Address) (pgn : Pgn) (data : List UInt8) (max k w idle : Nat)
    (l : Link N SESSIONS) : Prop where
  tx_pgn : l.tx.pgn = pgn
  tx_data : l.tx.data = data
  tx_broadcast : l.tx.broadcast = false
  rx_wf : l.rx.WF
  rx_transfer : l.rx.transferOf source
    = some ⟨sessionAt source pgn data max k w idle, data.take (7 * k)⟩
  window_pos : 1 ≤ w
  window_le : k + w ≤ packetCount data.length
  wire : l.wire = (List.range' (k + 1) w).map fun i => (Transmitter.packetOf data i).encode
  emitted : l.emitted = (List.range' 1 (k + w)).map (Transmitter.packetOf data)
  grants_tile : l.grants.flatMap (fun g => List.range' g.2 g.1) = List.range' 1 (k + w)
  grants_le : 1 ≤ max → max ≤ 254 → ∀ g ∈ l.grants, g.1 ≤ max
  delivered : l.delivered = []
  told : l.told = List.replicate l.grants.length .sendData

/-- The transfer is over: delivered once, acknowledged, and gone from the
receiver. -/
structure Finished (source : Address) (pgn : Pgn) (data : List UInt8) (max : Nat)
    (l : Link N SESSIONS) : Prop where
  rx_wf : l.rx.WF
  slot_free : l.rx.isReceivingFrom source = false
  wire : l.wire = []
  emitted : l.emitted = (List.range' 1 (packetCount data.length)).map (Transmitter.packetOf data)
  grants_tile : l.grants.flatMap (fun g => List.range' g.2 g.1)
    = List.range' 1 (packetCount data.length)
  grants_le : 1 ≤ max → max ≤ 254 → ∀ g ∈ l.grants, g.1 ≤ max
  delivered : l.delivered = [(pgn, source, data)]
  told : l.told = List.replicate l.grants.length .sendData ++ [.complete]
  complete : l.tx.isComplete = true

variable {pgn : Pgn} {data : List UInt8} {max k w idle : Nat}

/-- A window granted after `k` packets is within the stated limit. -/
theorem grantWindow_le {packets : Nat} (h₁ : 1 ≤ max) (h₂ : max ≤ 254) :
    grantWindow packets max ≤ max := by
  unfold grantWindow
  rw [if_neg (by simp; omega)]
  split <;> omega

/-- Granting the next window, once `k` packets have arrived and none is on
its way, re-establishes the invariant. -/
theorem sending_grant (l : Link N SESSIONS) (source : Address) (max k idle : Nat)
    (hpgn : l.tx.pgn = pgn) (hdata : l.tx.data = data)
    (hbc : l.tx.broadcast = false) (hwf : l.rx.WF)
    (hw : w = grantWindow (packetCount data.length - k) max) (hk : k < packetCount data.length)
    (htransfer : l.rx.transferOf source
      = some ⟨sessionAt source pgn data max k w idle, data.take (7 * k)⟩)
    (hwire : l.wire = [])
    (hemitted : l.emitted = (List.range' 1 k).map (Transmitter.packetOf data))
    (htile : l.grants.flatMap (fun g => List.range' g.2 g.1) = List.range' 1 k)
    (hle : 1 ≤ max → max ≤ 254 → ∀ g ∈ l.grants, g.1 ≤ max) (hdelivered : l.delivered = [])
    (htold : l.told = List.replicate l.grants.length .sendData) :
    ∃ l', l.answer (.cts w (k + 1) pgn) = .ok l' ∧ Sending source pgn data max k w idle l' := by
  obtain ⟨hw₁, hw₂⟩ := grantWindow_bounds (packetCount data.length - k) max (by omega)
  rw [← hw] at hw₁ hw₂
  have hpackets := l.tx.packets_eq
  rw [hdata] at hpackets
  have hanswer := l.answer_cts (w := w) (n := k + 1) hbc hw₁ (Nat.le_add_left 1 k) (by omega)
  rw [hpgn, hdata] at hanswer
  refine ⟨_, hanswer, ⟨hpgn, hdata, hbc, hwf, htransfer, hw₁, by omega, ?_, ?_, ?_, ?_,
    hdelivered, ?_⟩⟩
  · simp only [hwire, List.nil_append]
  · simp only [hemitted]
    rw [← List.map_append, Nat.add_comm k 1, List.range'_append_1]
  · simp only [List.flatMap_append, htile, List.flatMap_cons, List.flatMap_nil, List.append_nil]
    rw [Nat.add_comm k 1, List.range'_append_1]
  · intro h₁ h₂ g hg
    rcases List.mem_append.mp hg with hg | hg
    · exact hle h₁ h₂ g hg
    · rw [List.mem_singleton.mp hg, hw]
      exact grantWindow_le h₁ h₂
  · simp [htold, List.replicate_succ']

/-! ## §5. The steps of a transfer. -/

/-- **The handshake opens the transfer**: the RTS finds the free slot and
is answered with the first window. -/
theorem sending_open {tx : Transmitter} {r : Reassembler N SESSIONS} (hr : r.WF)
    (haddressed : Transmitter.addressed pgn data = .ok tx) (hfits : data.length ≤ N)
    (hmax : max < 256) (hroom : r.room source = true)
    (hidle : (r.transferOf source).any Transfer.isConnection = false) :
    ∃ l w, start source (tx.withMaxPacketsPerCts max) r = .ok l
      ∧ Sending source pgn data max 0 w 0 l := by
  obtain ⟨hpgn, hdata, hbc⟩ := Transmitter.addressed_eq_ok haddressed
  have hmin := tx.size_ge
  have hlen := tx.size_le
  have hpackets := tx.packets_eq
  rw [hdata] at hmin hlen hpackets
  have hb := packetCount_bounds hmin hlen
  have hvalid : validAnnouncement data.length (packetCount data.length) = true :=
    validAnnouncement_iff.mpr ⟨hmin, hlen, rfl⟩
  -- the RTS crosses the wire and is granted
  have hstart : (tx.withMaxPacketsPerCts max).start
      = .rts data.length (packetCount data.length) max pgn := by
    simp [Transmitter.start, Transmitter.withMaxPacketsPerCts, hbc, hpgn, hdata, hpackets]
  have hdecode := TpCm.decode_encode
    (.rts data.length (packetCount data.length) max pgn)
    (show data.length < 2 ^ 16 ∧ packetCount data.length < 256 ∧ max < 256 by
      unfold maxMessageSize at hlen
      omega)
  obtain ⟨hreply, hfocus⟩ := onTpCm_refines hr source
    (.rts data.length (packetCount data.length) max pgn)
  simp only [Transfer.onCm, hvalid, Bool.not_true, Bool.false_eq_true, if_false, hidle, hroom,
    if_true, not_lt.mpr hfits] at hreply hfocus
  obtain ⟨l', hanswer, hsending⟩ := sending_grant
    ⟨tx.withMaxPacketsPerCts max,
      (r.onTpCm source (.rts data.length (packetCount data.length) max pgn)).2,
      [], [], [], [], []⟩ source max 0 0
    hpgn hdata hbc hfocus.wf rfl (by omega) hfocus.self rfl rfl rfl (by simp) rfl rfl
  refine ⟨l', _, ?_, hsending⟩
  simp only [start, hstart, hdecode, hreply, react]
  exact hanswer

/-- **Other traffic keeps the invariant.** -/
theorem sending_gap {gap : List Call} (h : Sending source pgn data max k w 0 l)
    (hquiet : Quiet source gap) :
    ∃ l' idle, l.others gap = .ok l' ∧ Sending source pgn data max k w idle l' := by
  obtain ⟨hforeign, htime⟩ := hquiet
  obtain ⟨tr, r', hrun, hr', ht'⟩ := run_foreign h.rx_wf h.rx_transfer hforeign
    (by simpa [sessionAt] using htime)
  refine ⟨{ l with rx := r' }, 0 + (gap.map Call.elapsed).sum,
    by simp only [others, hrun, ok_bind, pure_eq_ok], ?_⟩
  exact ⟨h.tx_pgn, h.tx_data, h.tx_broadcast, hr', ht', h.window_pos, h.window_le, h.wire,
    h.emitted, h.grants_tile, h.grants_le, h.delivered, h.told⟩

/-- The next data packet is the one the receiver expects. -/
theorem onDt_packetOf (hk : k + 1 ≤ packetCount data.length)
    (hmin : minMessageSize ≤ data.length) (hmax : data.length ≤ maxMessageSize) :
    Transfer.onDt (some ⟨sessionAt source pgn data max k w idle, data.take (7 * k)⟩)
        (Transmitter.packetOf data (k + 1))
      = if k + 1 = packetCount data.length then
          (.message pgn source data
            (some (.endOfMsgAck data.length (packetCount data.length) pgn)), none)
        else if w - 1 = 0 then
          (.send (.cts (grantWindow (packetCount data.length - (k + 1)) max) (k + 2) pgn),
            some ⟨sessionAt source pgn data max (k + 1)
              (grantWindow (packetCount data.length - (k + 1)) max) 0, data.take (7 * (k + 1))⟩)
        else (.idle, some ⟨sessionAt source pgn data max (k + 1) (w - 1) 0,
          data.take (7 * (k + 1))⟩) := by
  have hb := packetCount_bounds hmin hmax
  simp only [Transfer.onDt, sessionAt, Transmitter.packetOf, TpDt.bytes_new, Nat.add_sub_cancel]
  simp only [TpDt.new, ne_eq, not_true_eq_false, if_false, Bool.not_false, if_true]
  by_cases hlast : k + 1 = packetCount data.length
  · -- the last packet completes the payload
    rw [if_pos hlast, if_pos hlast, take_append_pad (by omega) (by omega)]
  · -- an earlier one is full
    have hrest : packetCount data.length - (k + 1 + 1) + 1 = packetCount data.length - (k + 1) := by
      omega
    rw [if_neg hlast, if_neg hlast, take_append_full (by omega)]
    simp only [Transfer.advance, Bool.not_false, Bool.true_and, beq_iff_eq, hrest]

/-- **One packet moves the invariant on, or finishes the transfer.** -/
theorem sending_packet (h : Sending source pgn data max k w idle l) :
    ∃ l', l.packet source = .ok l'
      ∧ ((k + 1 = packetCount data.length ∧ Finished source pgn data max l')
        ∨ (k + 1 < packetCount data.length
          ∧ ∃ w', Sending source pgn data max (k + 1) w' 0 l')) := by
  have hmin := l.tx.size_ge
  have hlen := l.tx.size_le
  rw [h.tx_data] at hmin hlen
  have hb := packetCount_bounds hmin hlen
  have hpos := h.window_pos
  have hle := h.window_le
  -- the packet on the wire is the one the receiver expects
  obtain ⟨w, rfl⟩ : ∃ v, w = v + 1 := ⟨w - 1, by omega⟩
  have hwire := h.wire
  rw [List.range'_succ, List.map_cons] at hwire
  have hdecode : TpDt.decode (Transmitter.packetOf data (k + 1)).encode
      = Transmitter.packetOf data (k + 1) := TpDt.decode_encode (show k + 1 < 256 by omega)
  obtain ⟨r', hok, hfocus⟩ := onTpDt_refines h.rx_wf source (Transmitter.packetOf data (k + 1))
  rw [h.rx_transfer, onDt_packetOf (by omega) hmin hlen] at hok hfocus
  simp only [packet, hwire, hdecode, hok, ok_bind]
  by_cases hlast : k + 1 = packetCount data.length
  · -- the last packet: the message is delivered and acknowledged
    have hw : w = 0 := by omega
    subst hw
    simp only [if_pos hlast, react] at hfocus ⊢
    have hanswer := answer_endOfMsgAck
      { l with
        rx := r'
        wire := (List.range' (k + 1 + 1) 0).map fun i => (Transmitter.packetOf data i).encode
        delivered := l.delivered ++ [(pgn, source, data)] }
      (show data.length < 2 ^ 16 by unfold maxMessageSize at hlen; omega)
      (packetCount_lt data.length)
    simp only [h.tx_pgn] at hanswer
    refine ⟨_, hanswer, Or.inl ⟨hlast, hfocus.wf, ?_, rfl, ?_, ?_, h.grants_le, ?_, ?_, rfl⟩⟩
    · rw [isReceivingFrom, slotOf_eq_find, transferOf_eq_none.mp hfocus.self]
      rfl
    · simpa only [hlast] using h.emitted
    · simpa only [hlast] using h.grants_tile
    · simp only [h.delivered, List.nil_append]
    · simp only [h.told]
  · have hmore : k + 1 < packetCount data.length := by omega
    have hcount : k + (w + 1) = k + 1 + w := by omega
    rw [if_neg hlast] at hfocus ⊢
    by_cases hw : w = 0
    · -- the window is used up, and the next one granted
      subst hw
      simp only [Nat.add_sub_cancel, if_true, react] at hfocus ⊢
      obtain ⟨l', hanswer, hsending⟩ := sending_grant
        { l with
          rx := r'
          wire := (List.range' (k + 1 + 1) 0).map fun i => (Transmitter.packetOf data i).encode }
        source max (k + 1) 0 h.tx_pgn h.tx_data h.tx_broadcast hfocus.wf rfl hmore hfocus.self rfl
        h.emitted h.grants_tile h.grants_le h.delivered h.told
      exact ⟨l', hanswer, Or.inr ⟨hmore, _, hsending⟩⟩
    · -- more of the window is on its way
      simp only [Nat.add_sub_cancel, hw, if_false, react] at hfocus ⊢
      refine ⟨_, rfl, Or.inr ⟨hmore, w, ?_⟩⟩
      exact ⟨h.tx_pgn, h.tx_data, h.tx_broadcast, hfocus.wf, hfocus.self, by omega, by omega, rfl,
        hcount ▸ h.emitted, hcount ▸ h.grants_tile, h.grants_le, h.delivered, h.told⟩

/-- From any point of the transfer, delivering the remaining packets, each
after a quiet gap, finishes it. -/
theorem sending_drive {gaps : List (List Call)} (h : Sending source pgn data max k w 0 l)
    (hcount : k + gaps.length = packetCount data.length) (hquiet : ∀ gap ∈ gaps, Quiet source gap) :
    ∃ l', drive source l gaps = .ok l' ∧ Finished source pgn data max l' := by
  induction gaps generalizing l k w with
  | nil =>
    have := h.window_pos
    have := h.window_le
    simp only [List.length_nil] at hcount
    omega
  | cons gap gaps ih =>
    obtain ⟨l₁, idle, hothers, h₁⟩ := sending_gap h (hquiet gap (List.mem_cons_self ..))
    obtain ⟨l₂, hpacket, h₂⟩ := sending_packet h₁
    simp only [drive, hothers, ok_bind, hpacket]
    simp only [List.length_cons] at hcount
    rcases h₂ with ⟨hlast, hfin⟩ | ⟨hmore, w', hsend⟩
    · -- that was the last packet
      have hnil : gaps = [] := List.length_eq_zero_iff.mp (by omega)
      subst hnil
      exact ⟨l₂, rfl, hfin⟩
    · exact ih hsend (by omega) fun gap hgap => hquiet gap (List.mem_cons_of_mem _ hgap)

end Link

/-! ## §6. Whole transfers. -/

/-- **RTS/CTS end to end.**  A payload the protocol can carry and the
receiver can hold is delivered exactly once and unchanged, in exactly its
packets, over granted windows that tile them and respect the stated limit;
the sender ends complete and the receiver has no session left.  Before
each packet the receiver may handle any traffic of other peers, and ticks
that do not add up to more than `T1`. -/
theorem addressed_transfer_delivers {N SESSIONS : Nat} {source : Address} (pgn : Pgn)
    (data : List UInt8) {max : Nat} {r : Reassembler N SESSIONS} {gaps : List (List Call)}
    (hmin : 9 ≤ data.length) (hlen : data.length ≤ 1785) (hfits : data.length ≤ N)
    (hmax : max ≤ 255) (hr : Reachable r) (hfree : ∃ i, (r.slots i).session = none)
    (hidle : ∀ i s, (r.slots i).session = some s → s.source = source → s.broadcast = true)
    (hgaps : gaps.length = packetCount data.length) (hquiet : ∀ gap ∈ gaps, Quiet source gap) :
    ∃ tx l₀, ∃ l : Link N SESSIONS, Transmitter.addressed pgn data = .ok tx
      ∧ Link.start source (tx.withMaxPacketsPerCts max) r = .ok l₀
      ∧ Link.drive source l₀ gaps = .ok l
      ∧ l.delivered = [(pgn, source, data)]
      ∧ l.emitted.length = packetCount data.length ∧ l.wire = []
      ∧ l.grants.flatMap (fun g => List.range' g.2 g.1) = List.range' 1 (packetCount data.length)
      ∧ (1 ≤ max → max ≤ 254 → ∀ g ∈ l.grants, g.1 ≤ max)
      ∧ l.told.getLast? = some .complete ∧ l.tx.isComplete = true
      ∧ l.rx.isReceivingFrom source = false := by
  obtain ⟨tx, haddressed⟩ := Transmitter.addressed_ok pgn hmin hlen
  have hwf := Reachable.wf hr
  have hnoconn : (r.transferOf source).any Transfer.isConnection = false := by
    cases ht : r.transferOf source with
    | none => rfl
    | some t =>
      obtain ⟨i, -, hs, hsrc, -⟩ := find_of_transferOf ht
      simp [Transfer.isConnection, hidle i _ hs hsrc]
  have hmax' : max < 256 := by omega
  obtain ⟨l₀, w, hstart, hsending⟩ := Link.sending_open hwf haddressed hfits hmax'
    (room_eq_true.mpr (Or.inr hfree)) hnoconn
  obtain ⟨l, hdrive, hfin⟩ := Link.sending_drive hsending (by omega) hquiet
  refine ⟨tx, l₀, l, haddressed, hstart, hdrive, hfin.delivered, ?_, hfin.wire, hfin.grants_tile,
    hfin.grants_le, ?_, hfin.complete, hfin.slot_free⟩
  · rw [hfin.emitted, List.length_map, List.length_range']
  · rw [hfin.told, List.getLast?_append]
    rfl

/-- Nine bytes, one packet per window, with another peer announcing a
transfer and time passing in between. -/
theorem addressed_transfer_delivers_nine_bytes :
    let data : List UInt8 := [1, 2, 3, 4, 5, 6, 7, 8, 9]
    let gaps : List (List Call) :=
      [[.tick 300 750, .tpCm ⟨0x81⟩ (.bam 9 2 .dm1), .tick 450 750],
        [.tpDt ⟨0x81⟩ (.new 1 []), .tick 750 750]]
    ∃ tx l₀, ∃ l : Link 16 2, Transmitter.addressed .dm1 data = .ok tx
      ∧ Link.start ⟨0x80⟩ (tx.withMaxPacketsPerCts 1) new = .ok l₀
      ∧ Link.drive ⟨0x80⟩ l₀ gaps = .ok l ∧ l.delivered = [(.dm1, ⟨0x80⟩, data)] := by
  intro data gaps
  have hquiet : ∀ gap ∈ gaps, Quiet ⟨0x80⟩ gap := by
    simp [gaps, Quiet, Call.Foreign, Call.elapsed, t1TimeoutMs]
  obtain ⟨tx, l₀, l, haddressed, hstart, hdrive, hdelivered, -⟩ :=
    addressed_transfer_delivers .dm1 data (r := (new : Reassembler 16 2))
      (by decide) (by decide) (by decide) (by decide : 1 ≤ 255) ⟨[], [], rfl⟩ ⟨0, rfl⟩
      (fun i s hs => by cases hs) (by decide) hquiet
  exact ⟨tx, l₀, l, haddressed, hstart, hdrive, hdelivered⟩

end SaeJ1939.Tp
