/-
  SaeJ1939.Schedule.Schedule — what to transmit, and how often
  (`schedule.rs`).

  The array of the source is read through its length only, so it is
  modelled by the list of its used slots.  Every index the source uses is
  one that a search has just returned, or is guarded by the capacity, so
  no operation panics.

  Main results:
    * `entry_tick`, `entry_nextDue`, `entry_sendEvery`, `entry_remove` —
      what each operation does to one registered message.
    * `WF.apply` — within the capacity, no message registered twice,
      every timer below its period, nothing due while suspended.
-/
import SaeJ1939.Core.Pgn
import SaeJ1939.Lib.Machine

namespace SaeJ1939

open Checked
open Machine hiding Entry

/-! ## §1. The schedule. -/

/-- A message that is due. -/
structure Due where
  pgn : Pgn
  destination : Address
  deriving DecidableEq

namespace Schedule

/-- How long a suspension lasts if nothing renews it, in ms. -/
def defaultSuspendMs : Nat := 5000

/-- A registered message and its timer. -/
structure Entry where
  pgn : Pgn
  destination : Address
  periodMs : Nat
  /-- Time accumulated toward the next transmission. -/
  elapsedMs : Nat
  /-- Due, and not drained yet. -/
  due : Bool
  deriving DecidableEq

/-- The slot filler; never read. -/
def unused : Entry := ⟨Pgn.newMasked 0, Address.global, 1, 0, false⟩

/-- Advance one timer; it becomes due once however many periods passed. -/
def Entry.advance (elapsedMs : Nat) (e : Entry) : Entry :=
  let elapsed := saturatingAdd 16 e.elapsedMs elapsedMs
  if elapsed ≥ e.periodMs then { e with elapsedMs := elapsed % e.periodMs, due := true }
  else { e with elapsedMs := elapsed }

/-- A rate change keeps the phase, but within the new period. -/
def Entry.retime (periodMs : Nat) (e : Entry) : Entry :=
  { e with periodMs := periodMs, elapsedMs := min e.elapsedMs (periodMs - 1) }

/-- The message has been taken, or dropped. -/
def Entry.drop (e : Entry) : Entry := { e with due := false }

end Schedule

/-- Up to `N` periodic messages. -/
structure Schedule (N : Nat) where
  entries : List Schedule.Entry
  /-- Milliseconds left before broadcasts resume, zero when running. -/
  suspendedMs : Nat
  deriving DecidableEq

namespace Schedule

variable {N : Nat}

def new : Schedule N := ⟨[], 0⟩

def position (s : Schedule N) (pgn : Pgn) (destination : Address) : Option Nat :=
  s.entries.findIdx? fun entry => entry.pgn == pgn && entry.destination == destination

/-- Send `pgn` to one ECU every `periodMs` milliseconds. -/
def sendEvery (s : Schedule N) (pgn : Pgn) (destination : Address) (periodMs : Nat) :
    Result Unit × Schedule N :=
  if periodMs = 0 then (.error (.valueOutOfRange "transmission period" 0), s)
  else
    match s.position pgn destination with
    | some index =>
      (.ok (), { s with entries := s.entries.modify index (Entry.retime periodMs) })
    | none =>
      if s.entries.length = N then
        (.error (.valueOutOfRange "schedule capacity" (N % 2 ^ 32)), s)
      else (.ok (), { s with entries := s.entries ++ [⟨pgn, destination, periodMs, 0, false⟩] })

def broadcastEvery (s : Schedule N) (pgn : Pgn) (periodMs : Nat) : Result Unit × Schedule N :=
  s.sendEvery pgn Address.global periodMs

/-- Stop transmitting `pgn` to `destination`. -/
def remove (s : Schedule N) (pgn : Pgn) (destination : Address) : Bool × Schedule N :=
  match s.position pgn destination with
  | none => (false, s)
  | some index => (true, { s with entries := s.entries.eraseIdx index })

/-- Stop transmitting everything. -/
def clear (s : Schedule N) : Schedule N := { s with entries := [] }

def contains (s : Schedule N) (pgn : Pgn) (destination : Address) : Bool :=
  (s.position pgn destination).isSome

/-- The period `pgn` is scheduled at, if it is. -/
def period (s : Schedule N) (pgn : Pgn) (destination : Address) : Option Nat :=
  (s.position pgn destination).map fun index => (s.entries.getD index unused).periodMs

/-- How many messages are waiting to be sent. -/
def pending (s : Schedule N) : Nat := s.entries.countP Entry.due

/-- Advance every timer; how many messages are now waiting. -/
def tick (s : Schedule N) (elapsedMs : Nat) : Nat × Schedule N :=
  if s.suspendedMs > 0 then
    -- only the suspension timer runs
    (0, { s with suspendedMs := s.suspendedMs - elapsedMs })
  else
    let s := { s with entries := s.entries.map (Entry.advance elapsedMs) }
    (s.pending, s)

/-- Take the next message that is due. -/
def nextDue (s : Schedule N) : Option Due × Schedule N :=
  match s.entries.findIdx? Entry.due with
  | none => (none, s)
  | some index =>
    let entry := s.entries.getD index unused
    (some ⟨entry.pgn, entry.destination⟩,
      { s with entries := s.entries.modify index Entry.drop })

/-- Stop transmitting for `timeoutMs`; anything already due is dropped. -/
def suspend (s : Schedule N) (timeoutMs : Nat) : Schedule N where
  entries := s.entries.map Entry.drop
  suspendedMs := timeoutMs

/-- Resume transmitting now. -/
def resume (s : Schedule N) : Schedule N := { s with suspendedMs := 0 }

def isSuspended (s : Schedule N) : Bool := s.suspendedMs > 0

/-- Milliseconds until broadcasts resume on their own. -/
def resumesInMs (s : Schedule N) : Option Nat :=
  if s.suspendedMs > 0 then some s.suspendedMs else none

/-! ## §2. Runs of the schedule. -/

/-- What an application may ask of its schedule. -/
inductive Op where
  | sendEvery (pgn : Pgn) (destination : Address) (periodMs : Nat)
  | remove (pgn : Pgn) (destination : Address)
  | clear
  | tick (elapsedMs : Nat)
  | nextDue
  | suspend (timeoutMs : Nat)
  | resume
  deriving DecidableEq

/-- What the schedule answers. -/
inductive Reply where
  | registered (r : Result Unit)
  | removed (wasScheduled : Bool)
  | waiting (count : Nat)
  | drained (due : Option Due)
  | done
  deriving DecidableEq

def apply (s : Schedule N) : Op → Reply × Schedule N
  | .sendEvery pgn destination periodMs =>
      (.registered (s.sendEvery pgn destination periodMs).1,
        (s.sendEvery pgn destination periodMs).2)
  | .remove pgn destination =>
      (.removed (s.remove pgn destination).1, (s.remove pgn destination).2)
  | .clear => (.done, s.clear)
  | .tick elapsedMs => (.waiting (s.tick elapsedMs).1, (s.tick elapsedMs).2)
  | .nextDue => (.drained s.nextDue.1, s.nextDue.2)
  | .suspend timeoutMs => (.done, s.suspend timeoutMs)
  | .resume => (.done, s.resume)

def step : Step (Schedule N) Op Reply := fun s op => .ok (s.apply op)

/-! ## §3. One registered message. -/

/-- What identifies a registered message. -/
abbrev Key := Pgn × Address

def Entry.key (e : Entry) : Key := (e.pgn, e.destination)

/-- The entry of one message. -/
def entryIn (entries : List Entry) (k : Key) : Option Entry :=
  entries.find? fun e => decide (e.key = k)

def entry (s : Schedule N) (k : Key) : Option Entry := entryIn s.entries k

theorem retime_key (periodMs : Nat) (e : Entry) : (e.retime periodMs).key = e.key := rfl

theorem drop_key (e : Entry) : e.drop.key = e.key := rfl

@[simp] theorem advance_key (elapsedMs : Nat) (e : Entry) : (e.advance elapsedMs).key = e.key := by
  unfold Entry.advance
  dsimp only
  split <;> rfl

@[simp] theorem advance_periodMs (elapsedMs : Nat) (e : Entry) :
    (e.advance elapsedMs).periodMs = e.periodMs := by
  unfold Entry.advance
  dsimp only
  split <;> rfl

/-- **What a tick does to a timer**: the time is added as far as a `u16`
goes, and reduced modulo the period. -/
theorem advance_elapsedMs (elapsedMs : Nat) (e : Entry) :
    (e.advance elapsedMs).elapsedMs = min (e.elapsedMs + elapsedMs) 65535 % e.periodMs := by
  unfold Entry.advance
  show (if min (e.elapsedMs + elapsedMs) 65535 ≥ e.periodMs then _ else _ : Entry).elapsedMs = _
  split
  next => rfl
  next h => exact (Nat.mod_eq_of_lt (Nat.not_le.mp h)).symm

theorem advance_due (elapsedMs : Nat) (e : Entry) :
    (e.advance elapsedMs).due
      = (e.due || decide (e.periodMs ≤ min (e.elapsedMs + elapsedMs) 65535)) := by
  unfold Entry.advance
  show (if min (e.elapsedMs + elapsedMs) 65535 ≥ e.periodMs then _ else _ : Entry).due = _
  split
  next h =>
    rw [decide_eq_true h, Bool.or_true]
  next h =>
    rw [decide_eq_false h, Bool.or_false]

theorem key_of_entryIn {entries : List Entry} {k : Key} {x : Entry}
    (h : entryIn entries k = some x) : x.key = k ∧ x ∈ entries :=
  ⟨by simpa using List.find?_some h, List.mem_of_find?_eq_some h⟩

/-- A change of every entry changes the one looked for. -/
theorem entryIn_map {entries : List Entry} {k : Key} {f : Entry → Entry}
    (hf : ∀ e, (f e).key = e.key) : entryIn (entries.map f) k = (entryIn entries k).map f := by
  unfold entryIn
  rw [List.find?_map]
  simp only [Function.comp_def, hf]

/-- A change of one entry changes that one only. -/
theorem entryIn_modify {entries : List Entry} {k : Key} {f : Entry → Entry} {i : Nat}
    (hnodup : (entries.map Entry.key).Nodup) (hf : ∀ e, (f e).key = e.key)
    (hi : i < entries.length) :
    entryIn (entries.modify i f) k
      = if entries[i].key = k then some (f entries[i]) else entryIn entries k := by
  induction entries generalizing i with
  | nil => exact absurd hi (Nat.not_lt_zero i)
  | cons e es ih =>
    rw [List.map_cons, List.nodup_cons] at hnodup
    cases i with
    | zero =>
      show (f e :: es).find? _ = if e.key = k then _ else (e :: es).find? _
      by_cases he : e.key = k
      · rw [if_pos he, List.find?_cons_of_pos]
        · rfl
        · rw [hf, he]
          exact decide_eq_true rfl
      · rw [if_neg he, List.find?_cons_of_neg, List.find?_cons_of_neg]
        · simpa using he
        · rw [hf]
          simpa using he
    | succ i =>
      have hi' : i < es.length := Nat.lt_of_succ_lt_succ hi
      show (e :: es.modify i f).find? _ = if es[i].key = k then _ else (e :: es).find? _
      by_cases he : e.key = k
      · -- the one looked for stands in front, so it is another one
        have hne : es[i].key ≠ k := by
          intro hk
          exact hnodup.1 (he ▸ hk ▸ List.mem_map_of_mem (List.getElem_mem hi'))
        rw [if_neg hne, List.find?_cons_of_pos, List.find?_cons_of_pos] <;> simpa using he
      · rw [List.find?_cons_of_neg, List.find?_cons_of_neg]
        · exact ih hnodup.2 hi'
        · simpa using he
        · simpa using he

/-- Taking one entry out leaves the others. -/
theorem entryIn_eraseIdx {entries : List Entry} {k : Key} {i : Nat} (hi : i < entries.length)
    (hne : entries[i].key ≠ k) : entryIn (entries.eraseIdx i) k = entryIn entries k := by
  induction entries generalizing i with
  | nil => rfl
  | cons e es ih =>
    cases i with
    | zero =>
      show es.find? _ = (e :: es).find? _
      rw [List.find?_cons_of_neg]
      simpa using hne
    | succ i =>
      show (e :: es.eraseIdx i).find? _ = (e :: es).find? _
      have hrest := ih (Nat.lt_of_succ_lt_succ hi) hne
      unfold entryIn at hrest
      rw [List.find?_cons, List.find?_cons, hrest]

theorem position_eq_some {s : Schedule N} {pgn : Pgn} {destination : Address} {index : Nat}
    (h : s.position pgn destination = some index) :
    ∃ hlt : index < s.entries.length, s.entries[index].key = (pgn, destination) := by
  obtain ⟨hlt, hkey, -⟩ := List.findIdx?_eq_some_iff_getElem.mp h
  simp only [Bool.and_eq_true, beq_iff_eq] at hkey
  exact ⟨hlt, Prod.ext hkey.1 hkey.2⟩

theorem position_eq_none {s : Schedule N} {pgn : Pgn} {destination : Address} :
    s.position pgn destination = none ↔ ∀ e ∈ s.entries, e.key ≠ (pgn, destination) := by
  simp [position, List.findIdx?_eq_none_iff, Entry.key]

/-- **Everything a registration can do**: it is refused, it changes the
period of a message registered already, or it adds one. -/
theorem sendEvery_cases (s : Schedule N) (pgn : Pgn) (destination : Address) (periodMs : Nat) :
    (∃ e, s.sendEvery pgn destination periodMs = (.error e, s))
    ∨ (∃ index, ∃ hlt : index < s.entries.length, periodMs ≠ 0
        ∧ s.entries[index].key = (pgn, destination)
        ∧ s.sendEvery pgn destination periodMs
          = (.ok (), { s with entries := s.entries.modify index (Entry.retime periodMs) }))
    ∨ ((∀ e ∈ s.entries, e.key ≠ (pgn, destination)) ∧ periodMs ≠ 0 ∧ s.entries.length ≠ N
        ∧ s.sendEvery pgn destination periodMs
          = (.ok (), { s with
              entries := s.entries ++ [⟨pgn, destination, periodMs, 0, false⟩] })) := by
  unfold sendEvery
  by_cases hzero : periodMs = 0
  · exact Or.inl ⟨_, if_pos hzero⟩
  rw [if_neg hzero]
  cases hpos : s.position pgn destination with
  | some index =>
    obtain ⟨hlt, hkey⟩ := position_eq_some hpos
    exact Or.inr (Or.inl ⟨index, hlt, hzero, hkey, rfl⟩)
  | none =>
    by_cases hfull : s.entries.length = N
    · exact Or.inl ⟨_, if_pos hfull⟩
    · exact Or.inr (Or.inr ⟨position_eq_none.mp hpos, hzero, hfull, if_neg hfull⟩)

/-- **Everything a removal can do.** -/
theorem remove_cases (s : Schedule N) (pgn : Pgn) (destination : Address) :
    (s.remove pgn destination = (false, s))
    ∨ ∃ index, ∃ hlt : index < s.entries.length, s.entries[index].key = (pgn, destination)
        ∧ s.remove pgn destination = (true, { s with entries := s.entries.eraseIdx index }) := by
  unfold remove
  cases hpos : s.position pgn destination with
  | none => exact Or.inl rfl
  | some index =>
    obtain ⟨hlt, hkey⟩ := position_eq_some hpos
    exact Or.inr ⟨index, hlt, hkey, rfl⟩

/-- **Everything draining can do**: there is nothing, or the first message
due is taken. -/
theorem nextDue_cases (s : Schedule N) :
    ((∀ e ∈ s.entries, e.due = false) ∧ s.nextDue = (none, s))
    ∨ ∃ index, ∃ hlt : index < s.entries.length, s.entries[index].due = true
        ∧ s.nextDue = (some ⟨s.entries[index].pgn, s.entries[index].destination⟩,
            { s with entries := s.entries.modify index Entry.drop }) := by
  unfold nextDue
  cases hfind : s.entries.findIdx? Entry.due with
  | none =>
    refine Or.inl ⟨fun e he => ?_, rfl⟩
    simpa using List.findIdx?_eq_none_iff.mp hfind e he
  | some index =>
    obtain ⟨hlt, hdue, -⟩ := List.findIdx?_eq_some_iff_getElem.mp hfind
    refine Or.inr ⟨index, hlt, hdue, ?_⟩
    have hget : s.entries.getD index unused = s.entries[index] := by
      rw [List.getD_eq_getElem?_getD, List.getElem?_eq_getElem hlt, Option.getD_some]
    dsimp only
    rw [hget]

/-! ## §4. Well-formed schedules. -/

/-- Within the capacity, no message registered twice, every timer below
its period, and nothing due while suspended. -/
structure WF (s : Schedule N) : Prop where
  length_le : s.entries.length ≤ N
  nodup : (s.entries.map Entry.key).Nodup
  elapsed_lt : ∀ e ∈ s.entries, e.elapsedMs < e.periodMs
  quiet : s.isSuspended = true → ∀ e ∈ s.entries, e.due = false

theorem WF.new : (Schedule.new : Schedule N).WF where
  length_le := Nat.zero_le N
  nodup := List.nodup_nil
  elapsed_lt := fun e he => by cases he
  quiet := fun _ e he => by cases he

/-- What changes entries in place keeps them distinct. -/
theorem map_key_modify (entries : List Entry) {f : Entry → Entry} (hf : ∀ e, (f e).key = e.key)
    (i : Nat) : (entries.modify i f).map Entry.key = entries.map Entry.key := by
  apply List.ext_getElem
  · simp
  · intro j hj hj'
    rw [List.getElem_map, List.getElem_map, List.getElem_modify]
    split
    · exact hf _
    · rfl

theorem mem_modify {entries : List Entry} {f : Entry → Entry} {i : Nat} {e : Entry}
    (h : e ∈ entries.modify i f) : e ∈ entries ∨ ∃ e₀ ∈ entries, e = f e₀ := by
  obtain ⟨j, hj, rfl⟩ := List.getElem_of_mem h
  have hj' : j < entries.length := by simpa using hj
  rw [List.getElem_modify]
  split
  · exact Or.inr ⟨entries[j], List.getElem_mem hj', rfl⟩
  · exact Or.inl (List.getElem_mem hj')

section Operations

variable {s : Schedule N}

theorem WF.sendEvery (h : s.WF) (pgn : Pgn) (destination : Address) (periodMs : Nat) :
    (s.sendEvery pgn destination periodMs).2.WF := by
  rcases s.sendEvery_cases pgn destination periodMs with
    ⟨e, ho⟩ | ⟨index, hlt, hzero, -, ho⟩ | ⟨hnew, hzero, hroom, ho⟩
  · rw [ho]
    exact h
  · rw [ho]
    refine ⟨(List.length_modify ..).trans_le h.length_le, ?_, ?_, ?_⟩
    · show ((s.entries.modify index _).map Entry.key).Nodup
      rw [map_key_modify s.entries (retime_key periodMs)]
      exact h.nodup
    · intro e he
      rcases mem_modify he with hold | ⟨e₀, -, rfl⟩
      · exact h.elapsed_lt e hold
      · show min e₀.elapsedMs (periodMs - 1) < periodMs
        omega
    · intro hsusp e he
      rcases mem_modify he with hold | ⟨e₀, he₀, rfl⟩
      · exact h.quiet hsusp e hold
      · exact h.quiet hsusp e₀ he₀
  · rw [ho]
    have hlen := h.length_le
    refine ⟨?_, ?_, ?_, ?_⟩
    · rw [List.length_append, List.length_singleton]
      omega
    · rw [List.map_append, List.map_singleton]
      refine List.Nodup.append h.nodup (List.nodup_singleton _) ?_
      intro k hk hk'
      obtain ⟨e, he, rfl⟩ := List.mem_map.mp hk
      exact hnew e he (List.mem_singleton.mp hk')
    · intro e he
      rcases List.mem_append.mp he with hold | hlast
      · exact h.elapsed_lt e hold
      · rw [List.mem_singleton.mp hlast]
        exact Nat.pos_of_ne_zero hzero
    · intro hsusp e he
      rcases List.mem_append.mp he with hold | hlast
      · exact h.quiet hsusp e hold
      · rw [List.mem_singleton.mp hlast]

/-- What only takes entries away keeps a schedule well-formed. -/
theorem WF.of_sublist (h : s.WF) {entries : List Entry} (hsub : List.Sublist entries s.entries) :
    ({ s with entries := entries } : Schedule N).WF where
  length_le := hsub.length_le.trans h.length_le
  nodup := (hsub.map Entry.key).nodup h.nodup
  elapsed_lt := fun e he => h.elapsed_lt e (hsub.subset he)
  quiet := fun hsusp e he => h.quiet hsusp e (hsub.subset he)

theorem WF.remove (h : s.WF) (pgn : Pgn) (destination : Address) :
    (s.remove pgn destination).2.WF := by
  rcases s.remove_cases pgn destination with ho | ⟨index, hlt, -, ho⟩ <;> rw [ho]
  · exact h
  · exact h.of_sublist (List.eraseIdx_sublist _ _)

theorem WF.tick (h : s.WF) (elapsedMs : Nat) : (s.tick elapsedMs).2.WF := by
  unfold Schedule.tick
  by_cases hsusp : s.suspendedMs > 0
  · rw [if_pos hsusp]
    exact ⟨h.length_le, h.nodup, h.elapsed_lt, fun _ => h.quiet (decide_eq_true hsusp)⟩
  · rw [if_neg hsusp]
    refine ⟨(List.length_map ..).trans_le h.length_le, ?_, ?_, fun hs => ?_⟩
    · show ((s.entries.map (Entry.advance elapsedMs)).map Entry.key).Nodup
      rw [List.map_map]
      have hkeys : Entry.key ∘ Entry.advance elapsedMs = Entry.key :=
        funext fun e => advance_key elapsedMs e
      rw [hkeys]
      exact h.nodup
    · intro e he
      obtain ⟨e₀, he₀, rfl⟩ := List.mem_map.mp he
      rw [advance_elapsedMs, advance_periodMs]
      exact Nat.mod_lt _ (Nat.zero_lt_of_lt (h.elapsed_lt e₀ he₀))
    · exact absurd (of_decide_eq_true hs) hsusp

theorem WF.nextDue (h : s.WF) : s.nextDue.2.WF := by
  rcases s.nextDue_cases with ⟨-, ho⟩ | ⟨index, hlt, -, ho⟩ <;> rw [ho]
  · exact h
  · refine ⟨(List.length_modify ..).trans_le h.length_le, ?_, ?_, ?_⟩
    · show ((s.entries.modify index _).map Entry.key).Nodup
      rw [map_key_modify s.entries drop_key]
      exact h.nodup
    · intro e he
      rcases mem_modify he with hold | ⟨e₀, he₀, rfl⟩
      · exact h.elapsed_lt e hold
      · exact h.elapsed_lt e₀ he₀
    · intro hsusp e he
      rcases mem_modify he with hold | ⟨e₀, -, rfl⟩
      · exact h.quiet hsusp e hold
      · rfl

theorem WF.suspend (h : s.WF) (timeoutMs : Nat) : (s.suspend timeoutMs).WF := by
  refine ⟨(List.length_map ..).trans_le h.length_le, ?_, ?_, fun _ => ?_⟩
  · unfold Schedule.suspend
    rw [List.map_map]
    exact h.nodup
  · intro e he
    obtain ⟨e₀, he₀, rfl⟩ := List.mem_map.mp he
    exact h.elapsed_lt e₀ he₀
  · intro e he
    obtain ⟨e₀, -, rfl⟩ := List.mem_map.mp he
    rfl

/-- **Every operation keeps a schedule well-formed.** -/
theorem WF.apply (h : s.WF) (op : Op) : (s.apply op).2.WF := by
  cases op with
  | sendEvery pgn destination periodMs => exact h.sendEvery pgn destination periodMs
  | remove pgn destination => exact h.remove pgn destination
  | clear => exact h.of_sublist (List.nil_sublist _)
  | tick elapsedMs => exact h.tick elapsedMs
  | nextDue => exact h.nextDue
  | suspend timeoutMs => exact h.suspend timeoutMs
  | resume =>
    refine ⟨h.length_le, h.nodup, h.elapsed_lt, fun hsusp => ?_⟩
    cases hsusp

theorem step_eq {s s' : Schedule N} {op : Op} {o : Reply} (h : step s op = .ok (o, s')) :
    o = (s.apply op).1 ∧ s' = (s.apply op).2 := by
  have heq : s.apply op = (o, s') := Except.ok.inj h
  rw [heq]
  exact ⟨rfl, rfl⟩

/-- Every schedule that can be reached is well-formed. -/
theorem WF.of_reachable (h : Reachable step (Schedule.new : Schedule N) s) : s.WF :=
  h.invariant (fun _ op _ _ hs hstep => (step_eq hstep).2 ▸ hs.apply op) WF.new

/-- Every run of a schedule returns. -/
theorem run_returns (s₀ : Schedule N) (ops : List Op) : ∃ tr s, run step s₀ ops = .ok (tr, s) := by
  have hstep : ∀ (s : Schedule N) (op : Op), True →
      ∃ o s', step s op = .ok (o, s') ∧ True := fun _ _ _ => ⟨_, _, rfl, trivial⟩
  obtain ⟨tr, s, hrun, -⟩ := run_ok hstep ops trivial
  exact ⟨tr, s, hrun⟩

/-! ## §5. What each operation does to one registered message. -/

/-- A tick that finds the schedule running advances the message. -/
theorem entry_tick {k : Key} (hrunning : s.suspendedMs = 0) (elapsedMs : Nat) :
    (s.tick elapsedMs).2.entry k = (s.entry k).map (Entry.advance elapsedMs) := by
  unfold Schedule.tick
  rw [if_neg (by omega)]
  exact entryIn_map (advance_key elapsedMs)

/-- Draining takes the message, if it was due, or another one. -/
theorem entry_nextDue (h : s.WF) {k : Key} {x : Entry} (hx : s.entry k = some x) :
    (s.nextDue.1 = some ⟨k.1, k.2⟩ ∧ x.due = true
        ∧ s.nextDue.2.entry k = some x.drop)
    ∨ (s.nextDue.1 ≠ some ⟨k.1, k.2⟩ ∧ s.nextDue.2.entry k = some x) := by
  rcases s.nextDue_cases with ⟨-, ho⟩ | ⟨index, hlt, hdue, ho⟩ <;> rw [ho]
  · exact Or.inr ⟨(fun hnone => by cases hnone), hx⟩
  · have hmod : entryIn (s.entries.modify index Entry.drop) k
        = if s.entries[index].key = k then some s.entries[index].drop
          else entryIn s.entries k := entryIn_modify h.nodup drop_key hlt
    by_cases hkey : s.entries[index].key = k
    · -- no other entry is of that message
      have hsame : s.entries[index] = x := by
        have hid := entryIn_modify (k := k) (f := id) h.nodup (fun _ => rfl) hlt
        rw [if_pos hkey, List.modify_id] at hid
        exact Option.some.inj (hid.symm.trans hx)
      rw [if_pos hkey, hsame] at hmod
      refine Or.inl ⟨?_, hsame ▸ hdue, hmod⟩
      rw [← hkey]
      rfl
    · rw [if_neg hkey] at hmod
      refine Or.inr ⟨fun heq => hkey ?_, hmod.trans hx⟩
      injection heq with heq
      injection heq with hpgn hdest
      exact Prod.ext hpgn hdest

/-- Registering another message leaves this one alone. -/
theorem entry_sendEvery (h : s.WF) {k : Key} {x : Entry} (hx : s.entry k = some x) {pgn : Pgn}
    {destination : Address} (hk : (pgn, destination) ≠ k) (periodMs : Nat) :
    (s.sendEvery pgn destination periodMs).2.entry k = some x := by
  rcases s.sendEvery_cases pgn destination periodMs with
    ⟨e, ho⟩ | ⟨index, hlt, -, hkey, ho⟩ | ⟨-, -, -, ho⟩ <;> rw [ho]
  · exact hx
  · refine (entryIn_modify h.nodup (retime_key periodMs) hlt).trans ?_
    rw [if_neg (fun heq => hk (hkey.symm.trans heq))]
    exact hx
  · show (s.entries ++ [_]).find? _ = some x
    have hfound : s.entries.find? (fun e => decide (e.key = k)) = some x := hx
    rw [List.find?_append, hfound]
    rfl

/-- Removing another message leaves this one alone. -/
theorem entry_remove {k : Key} {x : Entry} (hx : s.entry k = some x) {pgn : Pgn}
    {destination : Address} (hk : (pgn, destination) ≠ k) :
    (s.remove pgn destination).2.entry k = some x := by
  rcases s.remove_cases pgn destination with ho | ⟨index, hlt, hkey, ho⟩ <;> rw [ho]
  · exact hx
  · exact (entryIn_eraseIdx hlt fun heq => hk (hkey.symm.trans heq)).trans hx

end Operations

end Schedule

end SaeJ1939
