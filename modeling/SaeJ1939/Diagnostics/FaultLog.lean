/-
  SaeJ1939.Diagnostics.FaultLog — the faults an ECU has, and those it has
  had (`fault_log.rs`).

  The arrays of the source are read through their lengths only, so each
  of them is modelled by the list of its used slots; `copy_within` then
  removes one entry.  Every index the source uses is one that `find` has
  just returned, or is guarded by the capacity, so no operation panics.

  Main results:
    * `set_cases`, `clear_cases`, `tick_cases` — everything an operation
      can do.
    * `WF.apply` — the lists stay within the capacity, in step with each
      other, and name no fault twice; every code fits its encoding.
-/
import SaeJ1939.Diagnostics.Message
import SaeJ1939.Lib.Machine

namespace SaeJ1939.Diagnostics

open Checked Machine

/-! ## §1. The log. -/

/-- How often DM1 is broadcast, and the shortest gap between two DM1s. -/
def dm1IntervalMs : Nat := 1000

/-- The slot filler; never read. -/
def unused : Dtc := ⟨0, 0, 0, true⟩

/-- Up to `N` active codes and up to `N` previously active ones. -/
structure FaultLog (N : Nat) where
  active : List Dtc
  /-- The lamp each active code lights, parallel to `active`. -/
  activeLamps : List Lamp
  previous : List Dtc
  sinceDm1Ms : Nat
  /-- A DM1 saying "nothing is wrong any more" is still owed. -/
  owesAllClear : Bool
  deriving DecidableEq

/-- Where a fault sits in a list, matched on SPN and FMI. -/
def find (dtcs : List Dtc) (spn : Nat) (fmi : UInt8) : Option Nat :=
  dtcs.findIdx? fun dtc => dtc.spn == spn && dtc.fmi == fmi

/-- Lamps plus one code per fault, and never less than a full frame. -/
def payloadLen (count : Nat) : Nat :=
  let body := 2 + (if count = 0 then 1 else count) * 4
  if body < 8 then 8 else body

namespace FaultLog

variable {N : Nat}

/-- An ECU with nothing wrong with it. -/
def new : FaultLog N where
  active := []
  activeLamps := []
  previous := []
  -- pre-charged: the first fault is reported at the first tick
  sinceDm1Ms := dm1IntervalMs
  owesAllClear := false

def isActive (log : FaultLog N) (spn : Nat) (fmi : UInt8) : Bool :=
  (find log.active spn fmi).isSome

def isHealthy (log : FaultLog N) : Bool := log.active.length == 0

def removeActive (log : FaultLog N) (index : Nat) : FaultLog N :=
  { log with
    active := log.active.eraseIdx index
    activeLamps := log.activeLamps.eraseIdx index }

def removePrevious (log : FaultLog N) (index : Nat) : FaultLog N :=
  { log with previous := log.previous.eraseIdx index }

def recordPrevious (log : FaultLog N) (dtc : Dtc) : FaultLog N :=
  match find log.previous dtc.spn dtc.fmi with
  | some index => { log with previous := log.previous.set index dtc }
  | none =>
    let log := if log.previous.length = N then log.removePrevious 0 else log
    { log with previous := log.previous ++ [dtc] }

/-- Raise a fault, or refresh one already raised. -/
def set (log : FaultLog N) (spn : Nat) (fmi : UInt8) (lamp : Lamp) : Result Unit × FaultLog N :=
  match Dtc.new spn fmi 1 with
  | .error e => (.error e, log)
  | .ok dtc =>
    match find log.active spn fmi with
    | some index =>
      -- the same occurrence: only the lamp may have been reassessed
      (.ok (), { log with activeLamps := log.activeLamps.set index lamp })
    | none =>
      if log.active.length = N then
        (.error (.valueOutOfRange "active fault log capacity" (N % 2 ^ 32)), log)
      else
        let (dtc, log) :=
          match find log.previous spn fmi with
          | some index =>
            let seen := (log.previous.getD index unused).occurrenceCount
            let count := UInt8.ofNat
              (min (saturatingAdd 8 seen.toNat 1) maxOccurrenceCount.toNat)
            ({ dtc with occurrenceCount := count }, log.removePrevious index)
          | none => (dtc, log)
        (.ok (), { log with
          active := log.active ++ [dtc]
          activeLamps := log.activeLamps ++ [lamp]
          owesAllClear := false })

/-- Retire a fault whose condition has gone away. -/
def clear (log : FaultLog N) (spn : Nat) (fmi : UInt8) : Bool × FaultLog N :=
  match find log.active spn fmi with
  | none => (false, log)
  | some index =>
    let dtc := log.active.getD index unused
    let log := (log.removeActive index).recordPrevious dtc
    (true, if log.active.length = 0 then { log with owesAllClear := true } else log)

/-- Discard the active codes without recording them (DM11). -/
def clearActive (log : FaultLog N) : FaultLog N :=
  { log with
    active := []
    activeLamps := []
    owesAllClear := if log.active.length > 0 then true else log.owesAllClear }

/-- Discard the fault history (DM3). -/
def clearPreviouslyActive (log : FaultLog N) : FaultLog N := { log with previous := [] }

/-- Every lamp named by an active code is on, the rest off. -/
def lamps (log : FaultLog N) : Lamps :=
  log.activeLamps.foldl (fun lamps lamp => lamps.withStatus lamp .on) Lamps.new

/-- Encode the DM1 payload. -/
def dm1 (log : FaultLog N) (out : List UInt8) : Result Nat × List UInt8 :=
  if log.active.length = 0 then encode log.lamps [Dtc.default] out
  else encode log.lamps log.active out

/-- Encode the DM2 payload. -/
def dm2 (log : FaultLog N) (out : List UInt8) : Result Nat × List UInt8 :=
  if log.previous.length = 0 then encode Lamps.new [Dtc.default] out
  else encode Lamps.new log.previous out

def dm1Len (log : FaultLog N) : Nat := payloadLen log.active.length

def dm2Len (log : FaultLog N) : Nat := payloadLen log.previous.length

/-- Advance the DM1 timer; whether a DM1 should be transmitted now. -/
def tick (log : FaultLog N) (elapsedMs : Nat) : Bool × FaultLog N :=
  let log := { log with sinceDm1Ms := saturatingAdd 32 log.sinceDm1Ms elapsedMs }
  if log.sinceDm1Ms < dm1IntervalMs then (false, log)
  else if log.active.length = 0 ∧ log.owesAllClear = false then (false, log)
  else (true, { log with sinceDm1Ms := 0, owesAllClear := false })

/-! ## §2. Runs of the log. -/

/-- What an application may ask of its log. -/
inductive Op where
  | set (spn : Nat) (fmi : UInt8) (lamp : Lamp)
  | clear (spn : Nat) (fmi : UInt8)
  | clearActive
  | clearPreviouslyActive
  | tick (elapsedMs : Nat)
  deriving Repr, DecidableEq

/-- What the log answers. -/
inductive Reply where
  | raised (r : Result Unit)
  | cleared (wasActive : Bool)
  | done
  | due (dm1 : Bool)
  deriving DecidableEq

def apply (log : FaultLog N) : Op → Reply × FaultLog N
  | .set spn fmi lamp => (.raised (log.set spn fmi lamp).1, (log.set spn fmi lamp).2)
  | .clear spn fmi => (.cleared (log.clear spn fmi).1, (log.clear spn fmi).2)
  | .clearActive => (.done, log.clearActive)
  | .clearPreviouslyActive => (.done, log.clearPreviouslyActive)
  | .tick elapsedMs => (.due (log.tick elapsedMs).1, (log.tick elapsedMs).2)

def step : Step (FaultLog N) Op Reply := fun log op => .ok (log.apply op)

/-- The entry an operation adds to the run. -/
def entry (log : FaultLog N) (op : Op) : Entry (FaultLog N) Op Reply :=
  ⟨log, op, (log.apply op).1, (log.apply op).2⟩

end FaultLog

/-! ## §3. What each operation does. -/

/-- The pair that identifies a fault. -/
def Dtc.key (d : Dtc) : Nat × UInt8 := (d.spn, d.fmi)

/-- Whether a list names a fault. -/
def Names (dtcs : List Dtc) (k : Nat × UInt8) : Prop := ∃ d ∈ dtcs, d.key = k

instance (dtcs : List Dtc) (k : Nat × UInt8) : Decidable (Names dtcs k) :=
  inferInstanceAs (Decidable (∃ d ∈ dtcs, d.key = k))

theorem find_eq_none {dtcs : List Dtc} {spn : Nat} {fmi : UInt8} :
    find dtcs spn fmi = none ↔ ¬ Names dtcs (spn, fmi) := by
  simp [find, Names, Dtc.key, List.findIdx?_eq_none_iff]

theorem find_eq_some {dtcs : List Dtc} {spn : Nat} {fmi : UInt8} {index : Nat}
    (h : find dtcs spn fmi = some index) :
    ∃ hlt : index < dtcs.length, dtcs[index].key = (spn, fmi) := by
  obtain ⟨hlt, hkey, -⟩ := List.findIdx?_eq_some_iff_getElem.mp h
  simp only [Bool.and_eq_true, beq_iff_eq] at hkey
  exact ⟨hlt, Prod.ext hkey.1 hkey.2⟩

/-- A list without the entry of one fault. -/
def without (dtcs : List Dtc) (spn : Nat) (fmi : UInt8) : List Dtc :=
  match find dtcs spn fmi with
  | some index => dtcs.eraseIdx index
  | none => dtcs

theorem without_sublist (dtcs : List Dtc) (spn : Nat) (fmi : UInt8) :
    List.Sublist (without dtcs spn fmi) dtcs := by
  unfold without
  split
  · exact List.eraseIdx_sublist _ _
  · exact List.Sublist.refl _

/-- The occurrence a fault is raised with: one more than history says. -/
def nextCount (previous : List Dtc) (spn : Nat) (fmi : UInt8) : UInt8 :=
  match find previous spn fmi with
  | some index =>
      UInt8.ofNat (min ((previous.getD index unused).occurrenceCount.toNat + 1) 127)
  | none => 1

theorem Dtc.new_cases (spn : Nat) (fmi : UInt8) :
    (Dtc.new spn fmi 1 = .error .invalidDtc ∧ ¬ (spn ≤ maxSpn ∧ fmi ≤ maxFmi))
    ∨ (Dtc.new spn fmi 1 = .ok ⟨spn, fmi, 1, true⟩ ∧ spn ≤ maxSpn ∧ fmi ≤ maxFmi) := by
  have hone : ¬ (1 : UInt8) > maxOccurrenceCount := by decide
  unfold Dtc.new
  by_cases h : spn ≤ maxSpn ∧ fmi ≤ maxFmi
  · refine Or.inr ⟨if_neg ?_, h⟩
    rintro (hs | hf | hc)
    · exact absurd h.1 (Nat.not_le.mpr hs)
    · exact absurd h.2 (UInt8.not_le.mpr hf)
    · exact hone hc
  · refine Or.inl ⟨if_pos ?_, h⟩
    by_contra hno
    push Not at hno
    exact h ⟨hno.1, UInt8.not_lt.mp hno.2.1⟩

namespace FaultLog

variable {N : Nat}

/-- **Everything raising a fault can do**: it is refused, it refreshes the
lamp of a fault already active, or it adds one. -/
theorem set_cases (log : FaultLog N) (spn : Nat) (fmi : UInt8) (lamp : Lamp) :
    (∃ e, (¬ (spn ≤ maxSpn ∧ fmi ≤ maxFmi)
          ∨ (¬ Names log.active (spn, fmi) ∧ log.active.length = N))
        ∧ log.set spn fmi lamp = (.error e, log))
    ∨ (∃ index, find log.active spn fmi = some index
        ∧ (spn ≤ maxSpn ∧ fmi ≤ maxFmi)
        ∧ log.set spn fmi lamp
          = (.ok (), { log with activeLamps := log.activeLamps.set index lamp }))
    ∨ (¬ Names log.active (spn, fmi) ∧ log.active.length ≠ N
        ∧ (spn ≤ maxSpn ∧ fmi ≤ maxFmi)
        ∧ log.set spn fmi lamp
          = (.ok (), { log with
              active := log.active ++ [⟨spn, fmi, nextCount log.previous spn fmi, true⟩]
              activeLamps := log.activeLamps ++ [lamp]
              previous := without log.previous spn fmi
              owesAllClear := false })) := by
  unfold set
  rcases Dtc.new_cases spn fmi with ⟨hnew, hbad⟩ | ⟨hnew, hgood⟩
  · rw [hnew]
    exact Or.inl ⟨_, Or.inl hbad, rfl⟩
  rw [hnew]
  dsimp only
  cases hfind : find log.active spn fmi with
  | some index => exact Or.inr (Or.inl ⟨index, rfl, hgood, rfl⟩)
  | none =>
    have hnot := find_eq_none.mp hfind
    dsimp only
    by_cases hfull : log.active.length = N
    · rw [if_pos hfull]
      exact Or.inl ⟨_, Or.inr ⟨hnot, hfull⟩, rfl⟩
    refine Or.inr (Or.inr ⟨hnot, hfull, hgood, ?_⟩)
    rw [if_neg hfull]
    unfold nextCount without
    cases hprev : find log.previous spn fmi with
    | none => rfl
    | some index =>
      -- the count saturates at 127 before the byte does
      have hcount : min (saturatingAdd 8 (log.previous.getD index unused).occurrenceCount.toNat 1)
          maxOccurrenceCount.toNat
          = min ((log.previous.getD index unused).occurrenceCount.toNat + 1) 127 := by
        show min (min _ (2 ^ 8 - 1)) 127 = _
        omega
      dsimp only
      rw [hcount]
      rfl

/-- **Everything retiring a fault can do**, where it is not also in the
history: nothing, or the fault moves behind the youngest one there, and
the oldest one goes if there is no room. -/
theorem clear_cases (log : FaultLog N) (spn : Nat) (fmi : UInt8)
    (hdisjoint : ∀ k, Names log.active k → ¬ Names log.previous k) :
    (¬ Names log.active (spn, fmi) ∧ log.clear spn fmi = (false, log))
    ∨ ∃ index, ∃ hlt : index < log.active.length,
        find log.active spn fmi = some index ∧ log.active[index].key = (spn, fmi)
        ∧ log.clear spn fmi
          = (true, { log with
              active := log.active.eraseIdx index
              activeLamps := log.activeLamps.eraseIdx index
              previous := (if log.previous.length = N then log.previous.tail else log.previous)
                ++ [log.active[index]]
              owesAllClear :=
                if (log.active.eraseIdx index).length = 0 then true else log.owesAllClear }) := by
  unfold clear
  cases hfind : find log.active spn fmi with
  | none => exact Or.inl ⟨find_eq_none.mp hfind, rfl⟩
  | some index =>
    obtain ⟨hlt, hkey⟩ := find_eq_some hfind
    refine Or.inr ⟨index, hlt, rfl, hkey, ?_⟩
    have hget : log.active.getD index unused = log.active[index] := by
      rw [List.getD_eq_getElem?_getD, List.getElem?_eq_getElem hlt, Option.getD_some]
    have hnew : find log.previous log.active[index].spn log.active[index].fmi = none := by
      refine find_eq_none.mpr (hdisjoint _ ⟨log.active[index], List.getElem_mem hlt, rfl⟩)
    have hrecord : (log.removeActive index).recordPrevious log.active[index]
        = { log with
            active := log.active.eraseIdx index
            activeLamps := log.activeLamps.eraseIdx index
            previous := (if log.previous.length = N then log.previous.tail else log.previous)
              ++ [log.active[index]] } := by
      unfold recordPrevious removeActive
      simp only [hnew]
      split
      · simp only [removePrevious, List.eraseIdx_zero]
      · rfl
    dsimp only
    rw [hget, hrecord]
    dsimp only
    split <;> rfl

/-- **Everything a tick can do**: it is too early, there is nothing to
say, or a DM1 is due. -/
theorem tick_cases (log : FaultLog N) (elapsedMs : Nat) :
    let elapsed := min (log.sinceDm1Ms + elapsedMs) (2 ^ 32 - 1)
    ((elapsed < 1000 ∨ (log.active = [] ∧ log.owesAllClear = false))
        ∧ log.tick elapsedMs = (false, { log with sinceDm1Ms := elapsed }))
    ∨ (1000 ≤ elapsed ∧ (log.active ≠ [] ∨ log.owesAllClear = true)
        ∧ log.tick elapsedMs = (true, { log with sinceDm1Ms := 0, owesAllClear := false })) := by
  intro elapsed
  unfold tick
  show _ ∨ (_ ∧ _ ∧ (if elapsed < 1000 then _ else _) = _)
  by_cases hearly : elapsed < 1000
  · exact Or.inl ⟨Or.inl hearly, if_pos hearly⟩
  by_cases hquiet : log.active.length = 0 ∧ log.owesAllClear = false
  · refine Or.inl ⟨Or.inr ⟨List.length_eq_zero_iff.mp hquiet.1, hquiet.2⟩, ?_⟩
    exact (if_neg hearly).trans (if_pos hquiet)
  · refine Or.inr ⟨Nat.not_lt.mp hearly, ?_, (if_neg hearly).trans (if_neg hquiet)⟩
    rw [List.length_eq_zero_iff, not_and_or, Bool.not_eq_false] at hquiet
    exact hquiet

/-! ## §4. Well-formed logs. -/

/-- The lists stay within the capacity and in step with each other, name
no fault twice, and hold codes that fit their encoding. -/
structure WF (log : FaultLog N) : Prop where
  active_le : log.active.length ≤ N
  previous_le : log.previous.length ≤ N
  lamps_length : log.activeLamps.length = log.active.length
  nodup : ((log.active ++ log.previous).map Dtc.key).Nodup
  inRange : ∀ d ∈ log.active ++ log.previous, d.InRange

theorem WF.new : (FaultLog.new : FaultLog N).WF where
  active_le := Nat.zero_le N
  previous_le := Nat.zero_le N
  lamps_length := rfl
  nodup := List.nodup_nil
  inRange := fun d hd => by cases hd

/-- A fault is not active and history at once. -/
theorem WF.disjoint {log : FaultLog N} (h : log.WF) (k : Nat × UInt8)
    (hactive : Names log.active k) : ¬ Names log.previous k := by
  have hnodup := h.nodup
  rw [List.map_append, List.nodup_append] at hnodup
  rintro ⟨d', hd', hkey'⟩
  obtain ⟨d, hd, hkey⟩ := hactive
  exact hnodup.2.2 _ (List.mem_map_of_mem hd) _ (List.mem_map_of_mem hd')
    (hkey.trans hkey'.symm)

theorem WF.active_nodup {log : FaultLog N} (h : log.WF) : (log.active.map Dtc.key).Nodup := by
  have hnodup := h.nodup
  rw [List.map_append, List.nodup_append] at hnodup
  exact hnodup.1

theorem WF.previous_nodup {log : FaultLog N} (h : log.WF) :
    (log.previous.map Dtc.key).Nodup := by
  have hnodup := h.nodup
  rw [List.map_append, List.nodup_append] at hnodup
  exact hnodup.2.1

/-- What only loses or moves codes keeps a log well-formed. -/
theorem WF.of_subperm {log log' : FaultLog N} (h : log.WF)
    (hactive : log'.active.length ≤ N) (hprevious : log'.previous.length ≤ N)
    (hlamps : log'.activeLamps.length = log'.active.length)
    (hsub : List.Subperm (log'.active ++ log'.previous) (log.active ++ log.previous)) :
    log'.WF where
  active_le := hactive
  previous_le := hprevious
  lamps_length := hlamps
  nodup := by
    obtain ⟨l, hperm, hsublist⟩ := hsub
    exact (hperm.map Dtc.key).nodup_iff.mp ((hsublist.map Dtc.key).nodup h.nodup)
  inRange := fun d hd => h.inRange d (hsub.subset hd)

end FaultLog

/-- Taking a fault out of a list without duplicates leaves none of it. -/
theorem not_names_without {dtcs : List Dtc} (h : (dtcs.map Dtc.key).Nodup) (spn : Nat)
    (fmi : UInt8) : ¬ Names (without dtcs spn fmi) (spn, fmi) := by
  unfold without
  cases hfind : find dtcs spn fmi with
  | none => exact find_eq_none.mp hfind
  | some index =>
    obtain ⟨hlt, hkey⟩ := find_eq_some hfind
    rintro ⟨d, hd, hd'⟩
    -- the code taken out comes first in a list with the same codes
    have hperm := (List.getElem_cons_eraseIdx_perm hlt).map Dtc.key
    have hnodup := hperm.nodup_iff.mpr h
    rw [List.map_cons, List.nodup_cons, hkey, ← hd'] at hnodup
    exact hnodup.1 (List.mem_map_of_mem hd)

theorem nextCount_le (previous : List Dtc) (spn : Nat) (fmi : UInt8) :
    nextCount previous spn fmi ≤ maxOccurrenceCount := by
  unfold nextCount
  split
  · refine UInt8.le_iff_toNat_le.mpr ?_
    rw [UInt8.toNat_ofNat']
    show _ ≤ 127
    omega
  · decide

namespace FaultLog

variable {N : Nat} {log : FaultLog N}

theorem WF.set (h : log.WF) (spn : Nat) (fmi : UInt8) (lamp : Lamp) :
    (log.set spn fmi lamp).2.WF := by
  rcases log.set_cases spn fmi lamp with
    ⟨e, -, ho⟩ | ⟨index, hfind, -, ho⟩ | ⟨hnew, hroom, hgood, ho⟩
  · rw [ho]
    exact h
  · rw [ho]
    exact h.of_subperm h.active_le h.previous_le
      ((List.length_set ..).trans h.lamps_length) (List.Subperm.refl _)
  · rw [ho]
    have hsub := without_sublist log.previous spn fmi
    have hrest : List.Sublist (log.active ++ without log.previous spn fmi)
        (log.active ++ log.previous) := (List.Sublist.refl _).append hsub
    -- the new code in front of the old ones
    have hperm : ∀ d : Dtc, List.Perm ((log.active ++ [d]) ++ without log.previous spn fmi)
        (d :: (log.active ++ without log.previous spn fmi)) := by
      intro d
      rw [List.append_assoc]
      exact List.perm_middle
    have hactive := h.active_le
    refine ⟨?_, hsub.length_le.trans h.previous_le, ?_, ?_, ?_⟩
    · show (log.active ++ [_]).length ≤ N
      rw [List.length_append, List.length_singleton]
      omega
    · show (log.activeLamps ++ [lamp]).length = (log.active ++ [_]).length
      rw [List.length_append, List.length_append, h.lamps_length]
      rfl
    · refine ((hperm _).map Dtc.key).nodup_iff.mpr ?_
      rw [List.map_cons, List.nodup_cons]
      refine ⟨?_, (hrest.map Dtc.key).nodup h.nodup⟩
      rw [List.map_append, List.mem_append, not_or]
      refine ⟨fun hmem => hnew ?_, fun hmem => ?_⟩
      · obtain ⟨d, hd, hkey⟩ := List.mem_map.mp hmem
        exact ⟨d, hd, hkey⟩
      · obtain ⟨d, hd, hkey⟩ := List.mem_map.mp hmem
        exact not_names_without h.previous_nodup spn fmi ⟨d, hd, hkey⟩
    · intro d hd
      rcases List.mem_cons.mp ((hperm _).subset hd) with rfl | hold
      · exact ⟨hgood.1, hgood.2, nextCount_le _ _ _⟩
      · exact h.inRange d (hrest.subset hold)

theorem WF.clear (h : log.WF) (spn : Nat) (fmi : UInt8) : (log.clear spn fmi).2.WF := by
  rcases log.clear_cases spn fmi h.disjoint with ⟨-, ho⟩ | ⟨index, hlt, -, -, ho⟩
  · rw [ho]
    exact h
  · rw [ho]
    have hactive := h.active_le
    have hprevious := h.previous_le
    refine h.of_subperm ?_ ?_ ?_ ?_
    · exact (List.length_eraseIdx_le _ _).trans h.active_le
    · show ((if log.previous.length = N then log.previous.tail else log.previous)
        ++ [log.active[index]]).length ≤ N
      rw [List.length_append, List.length_singleton]
      split
      · rw [List.length_tail]
        omega
      · omega
    · show (log.activeLamps.eraseIdx index).length = (log.active.eraseIdx index).length
      rw [List.length_eraseIdx, List.length_eraseIdx, h.lamps_length]
    · -- the retired code has moved behind what is left of the history
      have hkept : List.Sublist
          (if log.previous.length = N then log.previous.tail else log.previous) log.previous := by
        split
        · exact List.tail_sublist _
        · exact List.Sublist.refl _
      generalize (if log.previous.length = N then log.previous.tail else log.previous) = kept
        at hkept
      have hperm : List.Perm (log.active.eraseIdx index ++ (kept ++ [log.active[index]]))
          (log.active ++ kept) := by
        calc List.Perm (log.active.eraseIdx index ++ (kept ++ [log.active[index]]))
              (log.active[index] :: (log.active.eraseIdx index ++ kept)) := by
                rw [← List.append_assoc]
                exact List.perm_append_singleton _ _
          List.Perm _ (log.active ++ kept) :=
                (List.getElem_cons_eraseIdx_perm hlt).append_right kept
      exact ⟨_, hperm.symm, (List.Sublist.refl _).append hkept⟩

theorem WF.tick (h : log.WF) (elapsedMs : Nat) : (log.tick elapsedMs).2.WF := by
  rcases log.tick_cases elapsedMs with ⟨-, ho⟩ | ⟨-, -, ho⟩ <;> rw [ho] <;>
    exact ⟨h.active_le, h.previous_le, h.lamps_length, h.nodup, h.inRange⟩

/-- **Every operation keeps a log well-formed.** -/
theorem WF.apply (h : log.WF) (op : Op) : (log.apply op).2.WF := by
  cases op with
  | set spn fmi lamp => exact h.set spn fmi lamp
  | clear spn fmi => exact h.clear spn fmi
  | clearActive =>
    refine h.of_subperm (Nat.zero_le N) h.previous_le rfl ?_
    exact (List.sublist_append_right _ _).subperm
  | clearPreviouslyActive =>
    refine h.of_subperm h.active_le (Nat.zero_le N) h.lamps_length ?_
    show List.Subperm (log.active ++ []) _
    rw [List.append_nil]
    exact (List.sublist_append_left _ _).subperm
  | tick elapsedMs => exact h.tick elapsedMs

theorem step_eq {log log' : FaultLog N} {op : Op} {o : Reply}
    (h : step log op = .ok (o, log')) :
    (⟨log, op, o, log'⟩ : Entry (FaultLog N) Op Reply) = log.entry op
      ∧ log' = (log.apply op).2 := by
  have heq : log.apply op = (o, log') := Except.ok.inj h
  unfold entry
  rw [heq]
  exact ⟨rfl, rfl⟩

theorem trace_wf {tr : List (Entry (FaultLog N) Op Reply)} {log : FaultLog N}
    (h : Trace step FaultLog.new tr log) : log.WF :=
  h.invariant (fun _ op _ _ hs hstep => (step_eq hstep).2 ▸ hs.apply op) WF.new

/-- Every run of a log returns, and leads to a well-formed log. -/
theorem run_wf (ops : List Op) : ∃ tr log, run step (FaultLog.new : FaultLog N) ops = .ok (tr, log)
    ∧ log.WF :=
  run_ok (fun _ op h => ⟨_, _, rfl, h.apply op⟩) ops WF.new

end FaultLog

end SaeJ1939.Diagnostics
