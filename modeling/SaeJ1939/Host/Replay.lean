/-
  SaeJ1939.Host.Replay — a capture driven through a node (`log.rs`,
  `Replay`), and the clock of a live ECU (`ecu.rs`, `Ecu::tick`).

  A replay ticks its node with the time between the timestamps of a
  capture; the live path ticks it with the time that has passed since it
  last did.  Both count whole milliseconds.  Timestamps are in
  microseconds, as `candump` writes them.

  Main results:
    * `Replay.WF.feed` — no frame makes a replay panic.
    * `Replay.run_elapsed` — the milliseconds a replay ticks its node with.
    * `Replay.keepsTime_iff` — a replay keeps the time of its capture
      exactly as long as the fractions of a millisecond it drops add up to
      less than one; the live clock always keeps it.
-/
import SaeJ1939.Etp.History
import SaeJ1939.Lib.WholeUnits
import SaeJ1939.Node.Node

namespace SaeJ1939.Host

open Checked Etp WholeUnits

/-- A complete message, as the application gets it. -/
structure Message where
  pgn : Pgn
  source : Address
  data : List UInt8
  deriving DecidableEq

/-- One frame from a capture, with the time it was seen. -/
structure Entry where
  timestamp : Nat
  frame : Frame

/-- Drives a capture through a node, reassembling as the bus did. -/
structure Replay where
  node : Node 1785 8
  /-- The node does not model the extended transport protocol. -/
  etp : Etp.Reassembler 65536 2
  /-- The timestamp of the previous frame. -/
  previous : Option Nat
  /-- Frames the node asked to transmit. -/
  transmitted : List Frame
  /-- Every ECU seen claiming an address, and the NAME it claimed with. -/
  claims : Address → Option Name

namespace Replay

/-! ## §1. The methods. -/

/-- A replay as an ECU with this NAME and address, its claim uncontested. -/
def new (name : Name) (address : Address) : Replay where
  node := ((Node.new name address).start.2.tick addressClaimWindowMs).2
  etp := Reassembler.new
  previous := none
  transmitted := []
  claims := fun _ => none

/-- The milliseconds between two timestamps: whole ones, none when time
goes back, and at most `u16::MAX`. -/
def elapsedMs (previous timestamp : Nat) : Nat := min ((timestamp - previous) / 1000) 0xFFFF

/-- The milliseconds an entry ticks the node with. -/
def ticked (r : Replay) (entry : Entry) : Option Nat :=
  r.previous.map fun previous => elapsedMs previous entry.timestamp

/-- Let the time up to an entry pass. -/
def advance (r : Replay) (entry : Entry) : Replay :=
  let r :=
    match r.ticked entry with
    | some elapsedMs =>
        let (timeouts, node) := r.node.tick elapsedMs
        { r with node, transmitted := r.transmitted ++ timeouts }
    | none => r
  { r with previous := some entry.timestamp }

/-- Record an address claim before the node consumes it. -/
def recordClaim (r : Replay) (frame : Frame) : Replay :=
  if frame.pgn = .addressClaimed ∧ frame.sourceAddress.isSpecific = true then
    { r with
      claims := Function.update r.claims frame.sourceAddress (some (Name.fromBytes frame.payload)) }
  else r

/-- The message an extended transfer completed. -/
def messageOf : Etp.Rx → Option Message
  | .idle | .send _ => none
  | .message pgn source data _ => some ⟨pgn, source, data⟩

/-- Reassemble an extended-transport-protocol frame. -/
def feedEtp (r : Replay) (frame : Frame) : Exec (Option Message × Replay) :=
  if frame.pgn = .etpCm then
    match EtpCm.decode frame.payload with
    | .ok cm => do
        let (outcome, etp) ← r.etp.onEtpCm frame.sourceAddress cm
        return (messageOf outcome, { r with etp })
    | .error _ => .ok (none, r)
  else do
    let (outcome, etp) ← r.etp.onEtpDt frame.sourceAddress (EtpDt.decode frame.payload)
    return (messageOf outcome, { r with etp })

/-- Hand a frame to the node, recording what it would transmit. -/
def feedNode (r : Replay) (frame : Frame) : Exec (Option Message × Replay) := do
  let (event, node) ← r.node.onFrame frame
  let r := { r with node }
  match event with
  | .idle => return (none, r)
  | .transmit frame => return (none, { r with transmitted := r.transmitted ++ [frame] })
  | .message pgn source data reply =>
      return (some ⟨pgn, source, data⟩, { r with transmitted := r.transmitted ++ reply.toList })

/-- Feed one entry, returning any message it completed. -/
def feed (r : Replay) (entry : Entry) : Exec (Option Message × Replay) :=
  let r := (r.advance entry).recordClaim entry.frame
  let group := entry.frame.pgn
  if group = .etpCm ∨ group = .etpDt then r.feedEtp entry.frame
  else r.feedNode entry.frame

/-- A replay as a machine: `run` feeds it entry by entry. -/
def step : Machine.Step Replay Entry (Option Message) := feed

/-! ## §2. No panics. -/

/-- The invariant of a replay. -/
structure WF (r : Replay) : Prop where
  node : r.node.WF
  etp : r.etp.WF

variable {r : Replay} {entry : Entry} {frame : Frame}

/-- A tick keeps the invariant of a node. -/
theorem wf_tick {BUF SESSIONS : Nat} {n : Node BUF SESSIONS} (h : n.WF) (elapsedMs : Nat) :
    (n.tick elapsedMs).2.WF :=
  (h.step (i := .tick elapsedMs) rfl).1

theorem wf_new (name : Name) (address : Address) : (new name address).WF := by
  have hstart : (Node.new name address : Node 1785 8).start.2.WF :=
    ((Node.wf_new name address).step (i := .start) rfl).1
  exact ⟨wf_tick hstart _, Reassembler.wf_new⟩

theorem WF.advance (h : r.WF) (entry : Entry) :
    (r.advance entry).WF ∧ (r.advance entry).previous = some entry.timestamp := by
  refine ⟨?_, rfl⟩
  unfold Replay.advance
  cases r.ticked entry with
  | none => exact ⟨h.node, h.etp⟩
  | some elapsedMs => exact ⟨wf_tick h.node elapsedMs, h.etp⟩

theorem WF.recordClaim (h : r.WF) (frame : Frame) :
    (r.recordClaim frame).WF ∧ (r.recordClaim frame).previous = r.previous := by
  unfold Replay.recordClaim
  split
  · exact ⟨⟨h.node, h.etp⟩, rfl⟩
  · exact ⟨h, rfl⟩

theorem WF.feedEtp (h : r.WF) (frame : Frame) :
    ∃ out r', r.feedEtp frame = .ok (out, r') ∧ r'.WF ∧ r'.previous = r.previous := by
  unfold Replay.feedEtp
  split
  · cases hdecode : EtpCm.decode frame.payload with
    | error e => exact ⟨none, r, rfl, h, rfl⟩
    | ok cm =>
      rcases Reassembler.onEtpCm_refines h.etp frame.sourceAddress cm with
        ⟨etp, hok, hfocus⟩ | ⟨-, packets, offset, pgn, rfl, hwide⟩
      · simp only [hok, ok_bind, pure_eq_ok]
        exact ⟨_, _, rfl, ⟨h.node, hfocus.wf⟩, rfl⟩
      · -- an offset off the wire is never that large
        have := Reassembler.offset_lt_of_decode hdecode
        omega
  · obtain ⟨etp, hok, hfocus⟩ :=
      Reassembler.onEtpDt_refines h.etp frame.sourceAddress (EtpDt.decode frame.payload)
    simp only [hok, ok_bind, pure_eq_ok]
    exact ⟨_, _, rfl, ⟨h.node, hfocus.wf⟩, rfl⟩

theorem WF.feedNode (h : r.WF) (frame : Frame) :
    ∃ out r', r.feedNode frame = .ok (out, r') ∧ r'.WF ∧ r'.previous = r.previous := by
  obtain ⟨out, n', hstep, hwf, -⟩ := Node.step_spec h.node (.frame frame)
  simp only [Node.step, bind_eq_ok, Prod.exists, pure_eq_ok, Except.ok.injEq,
    Prod.mk.injEq] at hstep
  obtain ⟨event, n'', hok, -, rfl⟩ := hstep
  simp only [Replay.feedNode, hok, ok_bind, pure_eq_ok]
  cases event <;> exact ⟨_, _, rfl, ⟨hwf, h.etp⟩, rfl⟩

/-- **No frame makes a replay panic**, and its timestamp is the one
remembered. -/
theorem WF.feed (h : r.WF) (entry : Entry) :
    ∃ out r', r.feed entry = .ok (out, r') ∧ r'.WF ∧ r'.previous = some entry.timestamp := by
  obtain ⟨h₁, hprevious₁⟩ := h.advance entry
  obtain ⟨h₂, hprevious₂⟩ := h₁.recordClaim entry.frame
  rw [hprevious₁] at hprevious₂
  rw [← hprevious₂]
  unfold Replay.feed
  dsimp only
  split
  · exact h₂.feedEtp entry.frame
  · exact h₂.feedNode entry.frame

/-! ## §3. The time that passes. -/

/-- The milliseconds a run of a replay ticks its node with, in total. -/
def elapsedTotal (tr : List (Machine.Entry Replay Entry (Option Message))) : Nat :=
  (tr.map fun e => (e.before.ticked e.event).getD 0).sum

/-- Gaps of at most 65 seconds are not cut short. -/
theorem elapsedMs_eq {previous timestamp : Nat} (h : timestamp - previous ≤ 65000000) :
    elapsedMs previous timestamp = (timestamp - previous) / 1000 := by
  unfold elapsedMs
  omega

/-- After the first entry, every entry ticks the node with the whole
milliseconds of the gap before it. -/
theorem run_elapsed_from {previous : Nat} {capture : List Entry} (h : r.WF)
    (hprevious : r.previous = some previous)
    (hgaps : ∀ g ∈ gaps (previous :: capture.map Entry.timestamp), g ≤ 65000000) :
    ∃ tr r', Machine.run step r capture = .ok (tr, r')
      ∧ elapsedTotal tr = whole 1000 (gaps (previous :: capture.map Entry.timestamp)) := by
  induction capture generalizing r previous with
  | nil => exact ⟨[], r, rfl, rfl⟩
  | cons entry capture ih =>
    rw [List.map_cons, gaps_cons_cons] at hgaps ⊢
    obtain ⟨out, r₁, hfeed, h₁, hprevious₁⟩ := h.feed entry
    obtain ⟨tr, r', hrun, htotal⟩ :=
      ih h₁ hprevious₁ fun g hg => hgaps g (List.mem_cons_of_mem _ hg)
    have hfirst : (r.ticked entry).getD 0 = (entry.timestamp - previous) / 1000 := by
      rw [ticked, hprevious]
      exact elapsedMs_eq (hgaps _ (List.mem_cons_self ..))
    refine ⟨⟨r, entry, out, r₁⟩ :: tr, r', ?_, ?_⟩
    · simp only [Machine.run, step, hfeed, ok_bind, pure_eq_ok]
      rw [show Machine.run Replay.feed r₁ capture = .ok (tr, r') from hrun]
      rfl
    · unfold elapsedTotal whole at *
      rw [List.map_cons, List.sum_cons, List.map_cons, List.sum_cons, htotal, hfirst]

/-- **A replay ticks its node with the whole milliseconds of each gap**
between the frames of a capture. -/
theorem run_elapsed (name : Name) (address : Address) {capture : List Entry}
    (hgaps : ∀ g ∈ gaps (capture.map Entry.timestamp), g ≤ 65000000) :
    ∃ tr r, Machine.run step (new name address) capture = .ok (tr, r)
      ∧ elapsedTotal tr = whole 1000 (gaps (capture.map Entry.timestamp)) := by
  cases capture with
  | nil => exact ⟨[], _, rfl, rfl⟩
  | cons entry capture =>
    -- the first entry only sets the clock
    obtain ⟨out, r₁, hfeed, h₁, hprevious₁⟩ := (wf_new name address).feed entry
    obtain ⟨tr, r, hrun, htotal⟩ := run_elapsed_from h₁ hprevious₁ hgaps
    refine ⟨⟨new name address, entry, out, r₁⟩ :: tr, r, ?_, ?_⟩
    · simp only [Machine.run, step, hfeed, ok_bind, pure_eq_ok]
      rw [show Machine.run Replay.feed r₁ capture = .ok (tr, r) from hrun]
      rfl
    · unfold elapsedTotal at *
      rw [List.map_cons, List.sum_cons, htotal]
      exact Nat.zero_add _

/-- On a capture whose frames are all less than a millisecond apart, no
time passes at all. -/
theorem busy_capture_stands_still (name : Name) (address : Address) {capture : List Entry}
    (hbusy : ∀ g ∈ gaps (capture.map Entry.timestamp), g < 1000) :
    ∃ tr r, Machine.run step (new name address) capture = .ok (tr, r) ∧ elapsedTotal tr = 0 := by
  have hgaps : ∀ g ∈ gaps (capture.map Entry.timestamp), g ≤ 65000000 := by
    intro g hg
    have := hbusy g hg
    omega
  obtain ⟨tr, r, hrun, htotal⟩ := run_elapsed name address hgaps
  refine ⟨tr, r, hrun, htotal.trans (List.sum_eq_zero fun n hn => ?_)⟩
  obtain ⟨g, hg, rfl⟩ := List.mem_map.mp hn
  exact Nat.div_eq_of_lt (hbusy g hg)

end Replay

/-! ## §4. The live clock. -/

/-- The clock of a live ECU: when its timers were last advanced. -/
structure LiveClock where
  lastTick : Nat

namespace LiveClock

/-- The milliseconds `Ecu::tick` advances the timers by.  The remainder is
carried forward: `lastTick` moves on only by what is reported. -/
def tick (c : LiveClock) (now : Nat) : Nat × LiveClock :=
  let elapsedMs := min ((now - c.lastTick) / 1000) 0xFFFF
  if elapsedMs = 0 then (0, c)
  else (elapsedMs, ⟨c.lastTick + 1000 * elapsedMs⟩)

/-- What the timers are advanced by over a list of readings. -/
def elapsedTotal : LiveClock → List Nat → Nat
  | _, [] => 0
  | c, now :: rest => (c.tick now).1 + elapsedTotal (c.tick now).2 rest

theorem tick_eq (c : LiveClock) (now : Nat) :
    c.tick now = ((carry 1000 0xFFFF c.lastTick now).1,
      ⟨(carry 1000 0xFFFF c.lastTick now).2⟩) := by
  unfold tick carry
  dsimp only
  split
  next h => simp only [h, Nat.mul_zero, Nat.add_zero]
  next => rfl

theorem elapsedTotal_eq (c : LiveClock) (ts : List Nat) :
    c.elapsedTotal ts = (carryAll 1000 0xFFFF c.lastTick ts).1 := by
  induction ts generalizing c with
  | nil => rfl
  | cons t ts ih => rw [elapsedTotal, tick_eq, ih, carryAll]

/-- **The live clock keeps time**, whatever the spacing of its readings. -/
theorem keepsTime {t₀ : Nat} {ts : List Nat} (hrising : (t₀ :: ts).IsChain (· ≤ ·))
    (hgaps : ∀ g ∈ gaps (t₀ :: ts), g ≤ 65000000) :
    Agrees 1000 (t₀ :: ts) (elapsedTotal ⟨t₀⟩ ts) := by
  rw [elapsedTotal_eq]
  refine carrying_error (by decide) hrising fun g hg => ?_
  have := hgaps g hg
  omega

end LiveClock

/-! ## §5. Keeping the time of a capture. -/

namespace Replay

/-- **A replay keeps the time of its capture exactly as long as the
fractions of a millisecond it drops add up to less than one.**  On any
capture with rising timestamps and gaps of at most 65 seconds it ticks its
node with a total that agrees with the capture up to a millisecond just in
that case; a live clock read at the same instants always does. -/
theorem keepsTime_iff (name : Name) (address : Address) {capture : List Entry}
    (hrising : (capture.map Entry.timestamp).IsChain (· ≤ ·))
    (hgaps : ∀ g ∈ gaps (capture.map Entry.timestamp), g ≤ 65000000) :
    (∃ tr r, Machine.run step (new name address) capture = .ok (tr, r)
      ∧ (Agrees 1000 (capture.map Entry.timestamp) (elapsedTotal tr)
        ↔ leftover 1000 (gaps (capture.map Entry.timestamp)) < 1000))
    ∧ ∀ t₀ ts, capture.map Entry.timestamp = t₀ :: ts →
        Agrees 1000 (t₀ :: ts) (LiveClock.elapsedTotal ⟨t₀⟩ ts) := by
  constructor
  · obtain ⟨tr, r, hrun, htotal⟩ := run_elapsed name address hgaps
    refine ⟨tr, r, hrun, ?_⟩
    rw [htotal]
    exact dropping_error hrising
  · intro t₀ ts hts
    rw [hts] at hrising hgaps
    exact LiveClock.keepsTime hrising hgaps

/-- A fault report at a given time. -/
def reportAt (timestamp : Nat) : Entry :=
  ⟨timestamp, Frame.fromPayload (Id.broadcast .default .dm1 ⟨0x80⟩) fun _ => fill⟩

/-- Two frames one and a half milliseconds apart. -/
theorem keepsTime_iff_two_frames :
    ∃ tr r, Machine.run step (new ⟨1⟩ ⟨0xF9⟩) [reportAt 0, reportAt 1500] = .ok (tr, r)
      ∧ Agrees 1000 [0, 1500] (elapsedTotal tr) := by
  have hgaps : ∀ g ∈ gaps ([reportAt 0, reportAt 1500].map Entry.timestamp), g ≤ 65000000 := by
    decide
  obtain ⟨⟨tr, r, hrun, hiff⟩, -⟩ := keepsTime_iff ⟨1⟩ ⟨0xF9⟩ (by decide) hgaps
  exact ⟨tr, r, hrun, hiff.mpr (by decide)⟩

/-- Three frames 0.6 milliseconds apart: no time passes in the replay,
though more than a millisecond does in the capture. -/
theorem time_stands_still :
    ∃ tr r, Machine.run step (new ⟨1⟩ ⟨0xF9⟩) [reportAt 0, reportAt 600, reportAt 1200]
        = .ok (tr, r)
      ∧ elapsedTotal tr = 0 ∧ ¬ Agrees 1000 [0, 600, 1200] (elapsedTotal tr) := by
  have hbusy : ∀ g ∈ gaps ([reportAt 0, reportAt 600, reportAt 1200].map Entry.timestamp),
      g < 1000 := by decide
  obtain ⟨tr, r, hrun, htotal⟩ := busy_capture_stands_still ⟨1⟩ ⟨0xF9⟩ hbusy
  refine ⟨tr, r, hrun, htotal, ?_⟩
  rw [htotal]
  decide

end Replay

end SaeJ1939.Host
