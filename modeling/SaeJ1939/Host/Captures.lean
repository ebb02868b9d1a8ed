/-
  SaeJ1939.Host.Captures — whole captures, and replaying them (`log.rs`,
  `parse` and `Replay::run`).

  A capture is read to its end before any of it is replayed.  The reading
  stops at the first line in error, and panics at a line whose token is
  cut inside a character, if it gets there; the replaying never panics.

  Main results:
    * `parseLines_returns_iff` — when the lines of a capture are read.
    * `TimedReplay.run_ok` — a capture that was read is replayed.
    * `returns_iff` — a line, a capture and a replay return exactly if no
      token that is reached is cut inside a character.
-/
import SaeJ1939.Host.Log

namespace SaeJ1939.Host.Log

open Checked Text

/-! ## §1. Captures. -/

/-- The loop over the lines of a capture. -/
def parseLines (τ : Type) [Seconds τ] : Nat → List (Entry τ) → List (List Char) →
    Exec (Except LogError (List (Entry τ)))
  | _, entries, [] => .ok (.ok entries)
  | index, entries, line :: rest => do
      match ← parseLine τ line (index + 1) with
      | .error e => return .error e
      | .ok none => parseLines τ (index + 1) entries rest
      | .ok (some entry) => parseLines τ (index + 1) (entries ++ [entry]) rest

/-- Parse a whole capture. -/
def parse (τ : Type) [Seconds τ] (text : List Char) : Exec (Except LogError (List (Entry τ))) :=
  parseLines τ 0 [] (lines text)

/-- A line whose token is cut inside a character. -/
def TornLine (line : List Char) : Prop := ∃ stamp token, Framed line stamp token ∧ Torn token

/-- A line that is skipped or read as a frame. -/
def Readable (line : List Char) : Prop :=
  Blank line ∨ ∃ stamp token, Framed line stamp token
    ∧ (Skipped token ∨ ∃ frame, Loose token frame)

/-- **The captures that are cut inside a character**: such a line comes,
and the lines before it are skipped or read. -/
inductive TornLines : List (List Char) → Prop where
  | here {line : List Char} {rest : List (List Char)} : TornLine line → TornLines (line :: rest)
  | later {line : List Char} {rest : List (List Char)} : Readable line → TornLines rest →
      TornLines (line :: rest)

section Captures

variable (τ : Type) [Seconds τ] (number : Nat) {line : List Char}

theorem parseLine_readable (h : Readable line) :
    ∃ entry, parseLine τ line number = .ok (.ok entry) := by
  rcases h with hblank | ⟨stamp, token, hframed, hskipped | ⟨frame, hloose⟩⟩
  · exact ⟨_, parseLine_blank τ number hblank⟩
  · exact ⟨_, parseLine_skipped τ number hframed hskipped⟩
  · exact ⟨_, parseLine_loose τ number hframed hloose⟩

theorem parseLine_tornLine (h : TornLine line) : parseLine τ line number = .error .slice := by
  obtain ⟨stamp, token, hframed, htorn⟩ := h
  exact parseLine_torn τ number hframed htorn

/-- **Every other line is an error.** -/
theorem parseLine_neither (hreadable : ¬ Readable line) (htorn : ¬ TornLine line) :
    ∃ e, parseLine τ line number = .ok (.error e) := by
  have hblank : ¬ Blank line := fun h => hreadable (Or.inl h)
  by_cases hframed : ∃ stamp token, Framed line stamp token
  · obtain ⟨stamp, token, hframed⟩ := hframed
    refine parseLine_refused τ number hframed (fun h => ?_) (fun frame h => ?_) (fun h => ?_)
    · exact hreadable (Or.inr ⟨stamp, token, hframed, Or.inl h⟩)
    · exact hreadable (Or.inr ⟨stamp, token, hframed, Or.inr ⟨frame, h⟩⟩)
    · exact htorn ⟨stamp, token, hframed, h⟩
  · obtain ⟨expected, herror⟩ := parseLine_malformed τ number hblank fun stamp token h =>
      hframed ⟨stamp, token, h⟩
    exact ⟨_, herror⟩

/-- **A line is read, or refused, exactly if its token is not cut inside a
character.** -/
theorem parseLine_returns_iff :
    (∃ out, parseLine τ line number = .ok out) ↔ ¬ TornLine line := by
  constructor
  · rintro ⟨out, hparse⟩ htorn
    cases hparse.symm.trans (parseLine_tornLine τ number htorn)
  · intro htorn
    by_cases hreadable : Readable line
    · obtain ⟨entry, hparse⟩ := parseLine_readable τ number hreadable
      exact ⟨_, hparse⟩
    · obtain ⟨e, hparse⟩ := parseLine_neither τ number hreadable htorn
      exact ⟨_, hparse⟩

/-- The lines behind one that is skipped or read. -/
theorem parseLines_readable (h : Readable line) (index : Nat) (entries : List (Entry τ))
    (rest : List (List Char)) : ∃ entries', parseLines τ index entries (line :: rest)
      = parseLines τ (index + 1) entries' rest := by
  obtain ⟨entry, hparse⟩ := parseLine_readable τ (index + 1) h
  rw [parseLines, hparse, ok_bind]
  cases entry with
  | none => exact ⟨entries, rfl⟩
  | some entry => exact ⟨entries ++ [entry], rfl⟩

/-- **When the lines of a capture are read.** -/
theorem parseLines_returns_iff (index : Nat) (entries : List (Entry τ)) (ls : List (List Char)) :
    (∃ out, parseLines τ index entries ls = .ok out) ↔ ¬ TornLines ls := by
  induction ls generalizing index entries with
  | nil =>
    constructor
    · intro _ htorn
      cases htorn
    · intro _
      exact ⟨_, rfl⟩
  | cons line rest ih =>
    by_cases htorn : TornLine line
    · have hpanic : parseLines τ index entries (line :: rest) = .error .slice := by
        rw [parseLines, parseLine_tornLine τ (index + 1) htorn]
        rfl
      constructor
      · rintro ⟨out, hparse⟩
        cases hparse.symm.trans hpanic
      · intro h
        exact absurd (.here htorn) h
    · by_cases hreadable : Readable line
      · -- what follows decides
        obtain ⟨entries', hstep⟩ := parseLines_readable τ hreadable index entries rest
        rw [hstep, ih]
        constructor
        · intro h hlines
          cases hlines with
          | here hline => exact htorn hline
          | later _ hrest => exact h hrest
        · intro h hrest
          exact h (.later hreadable hrest)
      · -- the reading stops here
        obtain ⟨e, hparse⟩ := parseLine_neither τ (index + 1) hreadable htorn
        constructor
        · intro _ hlines
          cases hlines with
          | here hline => exact htorn hline
          | later hline _ => exact hreadable hline
        · intro _
          refine ⟨.error e, ?_⟩
          rw [parseLines, hparse]
          rfl

end Captures

/-! ## §2. Replaying a capture. -/

/-- A replay, with the timestamp of the previous frame as it was read. -/
structure TimedReplay (τ : Type) where
  replay : Replay
  previous : Option τ

namespace TimedReplay

variable {τ : Type} [Seconds τ]

def new (name : Name) (address : Address) : TimedReplay τ where
  replay := Replay.new name address
  previous := none

/-- The milliseconds an entry ticks the node with. -/
def elapsed (r : TimedReplay τ) (entry : Entry τ) : Option Nat :=
  r.previous.map fun previous => (Seconds.elapsedMs previous entry.timestamp).toNat

/-- The replay with its clock set to the previous frame. -/
def rewound (r : TimedReplay τ) (entry : Entry τ) : Replay :=
  { r.replay with previous := (r.elapsed entry).map fun _ => 0 }

/-- The entry on that clock. -/
def clocked (r : TimedReplay τ) (entry : Entry τ) : Host.Entry :=
  ⟨1000 * (r.elapsed entry).getD 0, entry.frame⟩

/-- Feed one entry, returning any message it completed. -/
def feed (r : TimedReplay τ) (entry : Entry τ) : Exec (Option Message × TimedReplay τ) := do
  let (message, replay) ← (r.rewound entry).feed (r.clocked entry)
  return (message, ⟨replay, some entry.timestamp⟩)

/-- A replay as a machine. -/
def step : Machine.Step (TimedReplay τ) (Entry τ) (Option Message) := feed

/-- Replay a whole capture, returning every message it completed. -/
def run (r : TimedReplay τ) (text : List Char) :
    Exec (Except LogError (List Message) × TimedReplay τ) := do
  match ← parse τ text with
  | .error e => return (.error e, r)
  | .ok entries => do
      let (fed, r) ← Machine.run step r entries
      return (.ok (fed.filterMap Machine.Entry.out), r)

/-- **The node is ticked with the time between the timestamps.** -/
theorem ticked_rewound (r : TimedReplay τ) (entry : Entry τ) :
    (r.rewound entry).ticked (r.clocked entry) = r.elapsed entry := by
  unfold Replay.ticked rewound clocked
  cases helapsed : r.elapsed entry with
  | none => rfl
  | some e =>
    have hlt : e < 65536 := by
      obtain ⟨previous, -, rfl⟩ := Option.map_eq_some_iff.mp helapsed
      exact UInt16.toNat_lt _
    show some (min ((1000 * e - 0) / 1000) 0xFFFF) = some e
    congr 1
    omega

/-- No entry makes a replay panic. -/
theorem feed_ok {r : TimedReplay τ} (h : r.replay.WF) (entry : Entry τ) :
    ∃ out r', r.feed entry = .ok (out, r') ∧ r'.replay.WF := by
  have hrewound : (r.rewound entry).WF := ⟨h.node, h.etp⟩
  obtain ⟨message, replay, hfeed, hwf, -⟩ := hrewound.feed (r.clocked entry)
  refine ⟨message, ⟨replay, some entry.timestamp⟩, ?_, hwf⟩
  unfold feed
  rw [hfeed]
  rfl

/-- The invariant of a replay holds after any entries. -/
theorem wf_of_reachable {name : Name} {address : Address} {r : TimedReplay τ}
    (h : Machine.Reachable step (new name address) r) : r.replay.WF := by
  refine h.invariant (I := fun r => r.replay.WF) (fun s e o s' hs hstep => ?_)
    (Replay.wf_new name address)
  obtain ⟨out, r', hfeed, hwf⟩ := feed_ok hs e
  obtain ⟨-, rfl⟩ := Prod.mk.inj (Except.ok.inj (hfeed.symm.trans hstep))
  exact hwf

/-- **A replay returns exactly if reading the capture does.** -/
theorem run_returns_iff {r : TimedReplay τ} (h : r.replay.WF) (text : List Char) :
    (∃ out, r.run text = .ok out) ↔ ∃ out, parse τ text = .ok out := by
  unfold run
  cases hparse : parse τ text with
  | error p =>
    constructor <;> rintro ⟨out, hout⟩ <;> cases hout
  | ok read =>
    refine ⟨fun _ => ⟨read, rfl⟩, fun _ => ?_⟩
    cases read with
    | error e => exact ⟨_, rfl⟩
    | ok entries =>
      obtain ⟨fed, r', hrun, -⟩ := Machine.run_ok (fun s e hs => feed_ok hs e) entries h
      rw [ok_bind]
      dsimp only
      refine ⟨(.ok (fed.filterMap Machine.Entry.out), r'), ?_⟩
      have hrun' : Machine.run step r entries = .ok (fed, r') := hrun
      rw [hrun']
      rfl

end TimedReplay

/-! ## §3. No panics. -/

/-- **Reading panics exactly on a token that is cut inside a character**:
a line returns unless its own is, a capture and a replay of it return
unless they get to such a line. -/
theorem returns_iff (τ : Type) [Seconds τ] :
    (∀ line number, (∃ out, parseLine τ line number = .ok out) ↔ ¬ TornLine line)
    ∧ (∀ text, (∃ out, parse τ text = .ok out) ↔ ¬ TornLines (lines text))
    ∧ ∀ (name : Name) (address : Address) (r : TimedReplay τ),
        Machine.Reachable TimedReplay.step (TimedReplay.new name address) r → ∀ text,
        ((∃ out, r.run text = .ok out) ↔ ¬ TornLines (lines text)) := by
  refine ⟨fun line number => parseLine_returns_iff τ number,
    fun text => parseLines_returns_iff τ 0 [] (lines text), fun name address r hreached text => ?_⟩
  rw [TimedReplay.run_returns_iff (TimedReplay.wf_of_reachable hreached)]
  exact parseLines_returns_iff τ 0 [] (lines text)

/-- A capture of one frame. -/
theorem returns_iff_capture :
    ∃ out, (TimedReplay.new ⟨1⟩ ⟨0xF9⟩ : TimedReplay Nat).run
      "(1.0) can0 18FECA80#04002B".toList = .ok out := by
  have hreached : Machine.Reachable TimedReplay.step (TimedReplay.new ⟨1⟩ ⟨0xF9⟩)
      (TimedReplay.new ⟨1⟩ ⟨0xF9⟩ : TimedReplay Nat) := ⟨[], [], rfl⟩
  refine ((returns_iff Nat).2.2 _ _ _ hreached _).mpr fun htorn => ?_
  have hlines : lines "(1.0) can0 18FECA80#04002B".toList
      = ["(1.0) can0 18FECA80#04002B".toList] := by decide +kernel
  have hread : (parseLine Nat "(1.0) can0 18FECA80#04002B".toList 1).isOk = true := by
    decide +kernel
  rw [hlines] at htorn
  cases htorn with
  | here hline =>
    rw [parseLine_tornLine Nat 1 hline] at hread
    cases hread
  | later _ hrest => cases hrest

/-- **A payload with a wide character where a digit should be**: `aéa` is
four bytes, and the first two of them end inside the `é`. -/
theorem capture_panics :
    parseLine Nat "(1.0) can0 18FECA80#aéa".toList 1 = .error .slice
      ∧ parse Nat "(1.0) can0 18FECA80#aéa".toList = .error .slice
      ∧ (TimedReplay.new ⟨1⟩ ⟨0xF9⟩ : TimedReplay Nat).run "(1.0) can0 18FECA80#aéa".toList
        = .error .slice := by
  have hparse : parse Nat "(1.0) can0 18FECA80#aéa".toList = .error .slice := by decide +kernel
  refine ⟨by decide +kernel, hparse, ?_⟩
  unfold TimedReplay.run
  rw [hparse]
  rfl

end SaeJ1939.Host.Log
