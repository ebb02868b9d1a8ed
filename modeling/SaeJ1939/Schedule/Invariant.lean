/-
  SaeJ1939.Schedule.Invariant — what holds of a schedule whatever is asked
  of it.

  The seven operations share one array: registrations are appended,
  removals shift, a new period clamps the phase, and a suspension drops
  what was due.  The messages a run leaves registered, in their order, can
  be read off its requests and replies alone; that order is the one in
  which due messages are drained.

  Main results:
    * `keys_apply` — what one operation does to the registered messages.
    * `Orderly.of_apply` — only a tick makes a message due, and only
      draining, suspending, removing or clearing makes it not due.
    * `drain_in_order` — draining yields what is due in registration
      order, and then nothing.
    * `invariant_of_run` — all of it, along every run.
-/
import SaeJ1939.Schedule.Rate

namespace SaeJ1939.Schedule

open Machine hiding Entry

variable {N : Nat}

/-! ## §1. Entries and what identifies them. -/

section Entries

variable {s : Schedule N}

/-- **An entry is found by its message**, no message being registered
twice. -/
theorem WF.entry_of_mem (h : s.WF) {e : Entry} (he : e ∈ s.entries) : s.entry e.key = some e := by
  obtain ⟨i, hi, rfl⟩ := List.getElem_of_mem he
  have hfound := entryIn_modify (k := s.entries[i].key) (f := id) h.nodup (fun _ => rfl) hi
  rw [if_pos rfl, List.modify_id] at hfound
  exact hfound

theorem WF.isDue_of_mem (h : s.WF) {e : Entry} (he : e ∈ s.entries) : s.isDue e.key = e.due :=
  isDue_eq (h.entry_of_mem he)

/-- A message is due exactly if there is an entry of it that is. -/
theorem WF.isDue_iff (h : s.WF) {k : Key} :
    s.isDue k = true ↔ ∃ e ∈ s.entries, e.key = k ∧ e.due = true := by
  constructor
  · intro hdue
    unfold isDue at hdue
    cases hx : s.entry k with
    | none =>
      rw [hx] at hdue
      cases hdue
    | some x =>
      rw [hx] at hdue
      obtain ⟨hkey, hmem⟩ := key_of_entryIn hx
      exact ⟨x, hmem, hkey, hdue⟩
  · rintro ⟨e, he, rfl, hdue⟩
    rw [h.isDue_of_mem he, hdue]

/-- What stands at an index before one entry is changed still stands
there after, changed or not. -/
theorem mem_modify_of_mem {entries : List Entry} {f : Entry → Entry} {e : Entry} (i : Nat)
    (h : e ∈ entries) : e ∈ entries.modify i f ∨ f e ∈ entries.modify i f := by
  obtain ⟨j, hj, rfl⟩ := List.getElem_of_mem h
  have hj' : j < (entries.modify i f).length := by rwa [List.length_modify]
  have hmem := List.getElem_mem hj'
  rw [List.getElem_modify] at hmem
  by_cases hij : i = j
  · rw [if_pos hij] at hmem
    exact Or.inr hmem
  · rw [if_neg hij] at hmem
    exact Or.inl hmem

end Entries

/-! ## §2. The messages registered, in their order. -/

/-- What a request and its reply do to the list of registered messages:
a new one comes last, and the others keep their order. -/
def register (keys : List Key) (e : Machine.Entry (Schedule N) Op Reply) : List Key :=
  match e.event, e.out with
  | .sendEvery pgn destination _, .registered (.ok ()) =>
      if (pgn, destination) ∈ keys then keys else keys ++ [(pgn, destination)]
  | .remove pgn destination, _ => keys.erase (pgn, destination)
  | .clear, _ => []
  | _, _ => keys

/-- The messages a run leaves registered, in registration order. -/
def registrations (tr : List (Machine.Entry (Schedule N) Op Reply)) : List Key :=
  tr.foldl register []

section Keys

variable {s : Schedule N}

theorem contains_iff {k : Key} :
    s.contains k.1 k.2 = true ↔ k ∈ s.entries.map Entry.key := by
  unfold contains
  rw [Option.isSome_iff_ne_none, Ne, position_eq_none, List.mem_map]
  constructor
  · intro h
    by_contra hnone
    exact h fun e he hkey => hnone ⟨e, he, hkey⟩
  · rintro ⟨e, he, hkey⟩ hnone
    exact hnone e he hkey

/-- **A registration is refused** for a period of zero, and for a new
message when the schedule is full. -/
theorem sendEvery_refused_iff (s : Schedule N) (pgn : Pgn) (destination : Address)
    (periodMs : Nat) :
    (∃ e, (s.sendEvery pgn destination periodMs).1 = .error e)
      ↔ periodMs = 0 ∨ s.contains pgn destination = false ∧ s.entries.length = N := by
  unfold sendEvery contains
  by_cases hzero : periodMs = 0
  · rw [if_pos hzero]
    exact iff_of_true ⟨_, rfl⟩ (Or.inl hzero)
  · rw [if_neg hzero]
    cases s.position pgn destination with
    | some index =>
      refine iff_of_false (fun h => (nomatch h)) ?_
      rintro (h | ⟨h, -⟩)
      · exact hzero h
      · cases h
    | none =>
      dsimp only
      by_cases hfull : s.entries.length = N
      · rw [if_pos hfull]
        exact iff_of_true ⟨_, rfl⟩ (Or.inr ⟨rfl, hfull⟩)
      · rw [if_neg hfull]
        refine iff_of_false (fun h => (nomatch h)) ?_
        rintro (h | ⟨-, h⟩)
        · exact hzero h
        · exact hfull h

theorem keys_sendEvery (s : Schedule N) (pgn : Pgn) (destination : Address) (periodMs : Nat) :
    (s.sendEvery pgn destination periodMs).2.entries.map Entry.key
      = register (s.entries.map Entry.key)
          ⟨s, .sendEvery pgn destination periodMs,
            .registered (s.sendEvery pgn destination periodMs).1,
            (s.sendEvery pgn destination periodMs).2⟩ := by
  unfold register
  rcases s.sendEvery_cases pgn destination periodMs with
    ⟨e, ho⟩ | ⟨index, hlt, -, hkey, ho⟩ | ⟨hnew, -, -, ho⟩ <;> rw [ho]
  · -- registered already
    have hmem : (pgn, destination) ∈ s.entries.map Entry.key := by
      rw [← hkey]
      exact List.mem_map_of_mem (List.getElem_mem hlt)
    show (s.entries.modify index (Entry.retime periodMs)).map Entry.key
      = if (pgn, destination) ∈ s.entries.map Entry.key then s.entries.map Entry.key else _
    rw [if_pos hmem]
    exact map_key_modify s.entries (retime_key periodMs) index
  · have hmem : (pgn, destination) ∉ s.entries.map Entry.key := by
      intro hin
      obtain ⟨e, he, hkey⟩ := List.mem_map.mp hin
      exact hnew e he hkey
    show (s.entries ++ [_]).map Entry.key
      = if (pgn, destination) ∈ s.entries.map Entry.key then _ else _
    rw [if_neg hmem, List.map_append]
    rfl

/-- Removal keeps the order of what is left. -/
theorem keys_remove (h : s.WF) (pgn : Pgn) (destination : Address) :
    (s.remove pgn destination).2.entries.map Entry.key
      = (s.entries.map Entry.key).erase (pgn, destination) := by
  unfold remove
  cases hpos : s.position pgn destination with
  | none =>
    show s.entries.map Entry.key = _
    have hmem : (pgn, destination) ∉ s.entries.map Entry.key := by
      intro hin
      obtain ⟨e, he, hkey⟩ := List.mem_map.mp hin
      exact position_eq_none.mp hpos e he hkey
    rw [List.erase_of_not_mem hmem]
  | some index =>
    obtain ⟨hlt, hkey⟩ := position_eq_some hpos
    have hlt' : index < (s.entries.map Entry.key).length := by rwa [List.length_map]
    have herase := h.nodup.erase_getElem index hlt'
    rw [List.getElem_map, hkey] at herase
    show (s.entries.eraseIdx index).map Entry.key = _
    rw [herase, List.eraseIdx_map]

theorem keys_tick (s : Schedule N) (elapsedMs : Nat) :
    (s.tick elapsedMs).2.entries.map Entry.key = s.entries.map Entry.key := by
  unfold tick
  by_cases hsusp : s.suspendedMs > 0
  · rw [if_pos hsusp]
  · rw [if_neg hsusp]
    show (s.entries.map (Entry.advance elapsedMs)).map Entry.key = _
    rw [List.map_map]
    exact List.map_congr_left fun e _ => advance_key elapsedMs e

theorem keys_nextDue (s : Schedule N) :
    s.nextDue.2.entries.map Entry.key = s.entries.map Entry.key := by
  rcases s.nextDue_cases with ⟨-, ho⟩ | ⟨index, hlt, -, ho⟩ <;> rw [ho]
  exact map_key_modify s.entries drop_key index

theorem keys_suspend (s : Schedule N) (timeoutMs : Nat) :
    (s.suspend timeoutMs).entries.map Entry.key = s.entries.map Entry.key := by
  show (s.entries.map Entry.drop).map Entry.key = s.entries.map Entry.key
  rw [List.map_map]
  exact List.map_congr_left fun e _ => drop_key e

/-- **What one operation does to the registered messages** can be read off
the request and the reply. -/
theorem keys_apply (h : s.WF) (op : Op) :
    (s.apply op).2.entries.map Entry.key
      = register (s.entries.map Entry.key) ⟨s, op, (s.apply op).1, (s.apply op).2⟩ := by
  cases op with
  | sendEvery pgn destination periodMs => exact keys_sendEvery s pgn destination periodMs
  | remove pgn destination => exact keys_remove h pgn destination
  | clear => rfl
  | tick elapsedMs => exact keys_tick s elapsedMs
  | nextDue => exact keys_nextDue s
  | suspend timeoutMs => exact keys_suspend s timeoutMs
  | resume => rfl

/-- The registered messages of a run, in the order it registered them. -/
theorem keys_trace {tr : List (Machine.Entry (Schedule N) Op Reply)}
    (htrace : Trace step Schedule.new tr s) :
    s.WF ∧ s.entries.map Entry.key = registrations tr := by
  induction htrace with
  | nil => exact ⟨WF.new, rfl⟩
  | @snoc tr s s' op o htrace hstep ih =>
    obtain ⟨hwf, hkeys⟩ := ih
    obtain ⟨rfl, rfl⟩ := step_eq hstep
    refine ⟨hwf.apply op, ?_⟩
    unfold registrations at hkeys ⊢
    rw [List.foldl_append, ← hkeys]
    exact keys_apply hwf op

end Keys

/-! ## §3. Draining. -/

/-- The messages due, in the order they stand. -/
def waiting (s : Schedule N) : List Key := (s.entries.filter Entry.due).map Entry.key

/-- A message as it is handed out. -/
def asDue (k : Key) : Due := ⟨k.1, k.2⟩

/-- Taking the first entry due leaves the others due. -/
theorem filter_due_modify {entries : List Entry} {i : Nat}
    (h : entries.findIdx? Entry.due = some i) :
    ∃ hi : i < entries.length,
      entries.filter Entry.due
        = entries[i] :: (entries.modify i Entry.drop).filter Entry.due := by
  induction entries generalizing i with
  | nil => cases h
  | cons e es ih =>
    rw [List.findIdx?_cons] at h
    cases hdue : e.due with
    | true =>
      -- the first one is taken
      rw [hdue, if_pos rfl] at h
      obtain rfl := Option.some.inj h
      refine ⟨Nat.succ_pos _, ?_⟩
      show (e :: es).filter Entry.due = e :: (e.drop :: es).filter Entry.due
      rw [List.filter_cons_of_pos hdue, List.filter_cons_of_neg Bool.false_ne_true]
    | false =>
      rw [hdue, if_neg Bool.false_ne_true] at h
      obtain ⟨j, hj, rfl⟩ := Option.map_eq_some_iff.mp h
      obtain ⟨hlt, hrest⟩ := ih hj
      refine ⟨Nat.succ_lt_succ hlt, ?_⟩
      show (e :: es).filter Entry.due = es[j] :: (e :: es.modify j Entry.drop).filter Entry.due
      have hneg : ¬ e.due = true := by
        rw [hdue]
        exact Bool.false_ne_true
      rw [List.filter_cons_of_neg hneg, List.filter_cons_of_neg hneg, hrest]

/-- **Draining takes the first message due**, and leaves the others. -/
theorem nextDue_waiting (s : Schedule N) :
    s.nextDue.1 = s.waiting.head?.map asDue ∧ s.nextDue.2.waiting = s.waiting.tail := by
  unfold nextDue waiting
  cases hfind : s.entries.findIdx? Entry.due with
  | none =>
    have hnone : s.entries.filter Entry.due = [] := by
      rw [List.filter_eq_nil_iff]
      intro e he hdue
      rw [List.findIdx?_eq_none_iff] at hfind
      exact Bool.false_ne_true ((hfind e he).symm.trans hdue)
    show none = _ ∧ (s.entries.filter Entry.due).map Entry.key = _
    rw [hnone]
    exact ⟨rfl, rfl⟩
  | some index =>
    obtain ⟨hlt, hfilter⟩ := filter_due_modify hfind
    have hget : s.entries.getD index unused = s.entries[index] := by
      rw [List.getD_eq_getElem?_getD, List.getElem?_eq_getElem hlt, Option.getD_some]
    dsimp only
    rw [hget, hfilter]
    exact ⟨rfl, rfl⟩

/-- **Draining over and over** yields what is due in order, and then
nothing. -/
theorem run_nextDue (s : Schedule N) (n : Nat) :
    ∃ tr s', run step s (List.replicate n .nextDue) = .ok (tr, s')
      ∧ tr.map Machine.Entry.out
        = (List.range n).map fun i => Reply.drained (s.waiting[i]?.map asDue) := by
  induction n generalizing s with
  | zero => exact ⟨[], s, rfl, rfl⟩
  | succ n ih =>
    obtain ⟨hfirst, hrest⟩ := nextDue_waiting s
    obtain ⟨tr, s', hrun, hout⟩ := ih s.nextDue.2
    refine ⟨⟨s, .nextDue, .drained s.nextDue.1, s.nextDue.2⟩ :: tr, s', ?_, ?_⟩
    · rw [List.replicate_succ]
      show (do
        let (tr', s'') ← run step s.nextDue.2 (List.replicate n .nextDue)
        return (_ :: tr', s'')) = _
      rw [hrun]
      rfl
    · rw [List.map_cons, hout, List.range_succ_eq_map, List.map_cons, List.map_map, hfirst, hrest,
        List.head?_eq_getElem?]
      congr 1
      refine List.map_congr_left fun i _ => ?_
      show _ = Reply.drained (s.waiting[i + 1]?.map asDue)
      rw [List.getElem?_tail]

/-- What stands due is what is registered and due, in the same order. -/
theorem WF.waiting_eq {s : Schedule N} (h : s.WF) :
    s.waiting = (s.entries.map Entry.key).filter s.isDue := by
  unfold waiting
  rw [List.filter_map]
  congr 1
  refine List.filter_congr fun e he => ?_
  exact (h.isDue_of_mem he).symm

/-! ## §4. When a message becomes due, and when it stops being due. -/

/-- What an operation may do to what is due, and what it replies. -/
structure Orderly (e : Machine.Entry (Schedule N) Op Reply) : Prop where
  /-- Only a tick that finds the schedule running makes a message due. -/
  rises : ∀ k, e.before.isDue k = false → e.after.isDue k = true →
    e.before.isSuspended = false ∧ ∃ elapsedMs, e.event = .tick elapsedMs
  /-- A message stays due until it is drained, suspended, removed or
  cleared. -/
  falls : ∀ k, e.before.isDue k = true → e.after.isDue k = false →
    e.out = .drained (some (asDue k)) ∨ (∃ timeoutMs, e.event = .suspend timeoutMs)
      ∨ e.event = .remove k.1 k.2 ∨ e.event = .clear
  /-- What is handed out was due, and no longer is. -/
  taken : ∀ k, e.out = .drained (some (asDue k)) →
    e.before.isDue k = true ∧ e.after.isDue k = false
  /-- Draining hands out the first message due. -/
  first : e.event = .nextDue → e.out = .drained
    (((e.before.entries.map Entry.key).filter e.before.isDue).head?.map asDue)
  /-- A refused registration changes nothing. -/
  refused : ∀ err, e.out = .registered (.error err) → e.after = e.before

section Steps

variable {s : Schedule N}

/-- Nothing but a tick of a running schedule makes an entry due. -/
theorem due_of_apply {op : Op} {e : Entry} (he : e ∈ (s.apply op).2.entries) (hdue : e.due = true) :
    (∃ e₀ ∈ s.entries, e₀.key = e.key ∧ e₀.due = true)
      ∨ (s.isSuspended = false ∧ ∃ elapsedMs, op = .tick elapsedMs) := by
  cases op with
  | sendEvery pgn destination periodMs =>
    have he' : e ∈ (s.sendEvery pgn destination periodMs).2.entries := he
    rcases s.sendEvery_cases pgn destination periodMs with
      ⟨err, ho⟩ | ⟨index, hlt, -, -, ho⟩ | ⟨-, -, -, ho⟩
    · rw [ho] at he'
      exact Or.inl ⟨e, he', rfl, hdue⟩
    · rw [ho] at he'
      rcases mem_modify he' with hold | ⟨e₀, he₀, rfl⟩
      · exact Or.inl ⟨e, hold, rfl, hdue⟩
      · exact Or.inl ⟨e₀, he₀, rfl, hdue⟩
    · rw [ho] at he'
      rcases List.mem_append.mp he' with hold | hlast
      · exact Or.inl ⟨e, hold, rfl, hdue⟩
      · -- a new message is not due yet
        rw [List.mem_singleton.mp hlast] at hdue
        exact absurd hdue Bool.false_ne_true
  | remove pgn destination =>
    have he' : e ∈ (s.remove pgn destination).2.entries := he
    rcases s.remove_cases pgn destination with ho | ⟨index, hlt, -, ho⟩ <;> rw [ho] at he'
    · exact Or.inl ⟨e, he', rfl, hdue⟩
    · exact Or.inl ⟨e, (List.eraseIdx_sublist _ _).subset he', rfl, hdue⟩
  | clear => exact absurd he List.not_mem_nil
  | tick elapsedMs =>
    by_cases hsusp : s.suspendedMs > 0
    · have he' : e ∈ (s.tick elapsedMs).2.entries := he
      unfold tick at he'
      rw [if_pos hsusp] at he'
      exact Or.inl ⟨e, he', rfl, hdue⟩
    · exact Or.inr ⟨decide_eq_false hsusp, elapsedMs, rfl⟩
  | nextDue =>
    have he' : e ∈ s.nextDue.2.entries := he
    rcases s.nextDue_cases with ⟨-, ho⟩ | ⟨index, hlt, -, ho⟩ <;> rw [ho] at he'
    · exact Or.inl ⟨e, he', rfl, hdue⟩
    · rcases mem_modify he' with hold | ⟨e₀, -, rfl⟩
      · exact Or.inl ⟨e, hold, rfl, hdue⟩
      · exact absurd hdue Bool.false_ne_true
  | suspend timeoutMs =>
    obtain ⟨e₀, -, rfl⟩ := List.mem_map.mp he
    exact absurd hdue Bool.false_ne_true
  | resume => exact Or.inl ⟨e, he, rfl, hdue⟩

/-- An entry that is due stays due, unless it is drained, suspended,
removed or cleared. -/
theorem due_apply (op : Op) {e : Entry} (he : e ∈ s.entries) (hdue : e.due = true) :
    (∃ e' ∈ (s.apply op).2.entries, e'.key = e.key ∧ e'.due = true)
      ∨ (s.apply op).1 = .drained (some (asDue e.key))
      ∨ (∃ timeoutMs, op = .suspend timeoutMs) ∨ op = .remove e.key.1 e.key.2 ∨ op = .clear := by
  cases op with
  | sendEvery pgn destination periodMs =>
    left
    show ∃ e' ∈ (s.sendEvery pgn destination periodMs).2.entries, _
    rcases s.sendEvery_cases pgn destination periodMs with
      ⟨err, ho⟩ | ⟨index, hlt, -, -, ho⟩ | ⟨-, -, -, ho⟩ <;> rw [ho]
    · exact ⟨e, he, rfl, hdue⟩
    · rcases mem_modify_of_mem index he with hsame | hretimed
      · exact ⟨e, hsame, rfl, hdue⟩
      · exact ⟨e.retime periodMs, hretimed, rfl, hdue⟩
    · exact ⟨e, List.mem_append_left _ he, rfl, hdue⟩
  | remove pgn destination =>
    by_cases hkey : (pgn, destination) = e.key
    · have hevent : Op.remove pgn destination = .remove e.key.1 e.key.2 := by rw [← hkey]
      exact Or.inr (Or.inr (Or.inr (Or.inl hevent)))
    · left
      show ∃ e' ∈ (s.remove pgn destination).2.entries, _
      rcases s.remove_cases pgn destination with ho | ⟨index, hlt, hat, ho⟩ <;> rw [ho]
      · exact ⟨e, he, rfl, hdue⟩
      · obtain ⟨j, hj, rfl⟩ := List.getElem_of_mem he
        have hne : j ≠ index := by
          rintro rfl
          exact hkey hat.symm
        exact ⟨_, List.mem_eraseIdx_iff_getElem.mpr ⟨j, hj, hne, rfl⟩, rfl, hdue⟩
  | clear => exact Or.inr (Or.inr (Or.inr (Or.inr rfl)))
  | tick elapsedMs =>
    left
    show ∃ e' ∈ (s.tick elapsedMs).2.entries, _
    unfold tick
    by_cases hsusp : s.suspendedMs > 0
    · rw [if_pos hsusp]
      exact ⟨e, he, rfl, hdue⟩
    · rw [if_neg hsusp]
      refine ⟨_, List.mem_map_of_mem he, advance_key elapsedMs e, ?_⟩
      rw [advance_due, hdue, Bool.true_or]
  | nextDue =>
    show (∃ e' ∈ s.nextDue.2.entries, _) ∨ Reply.drained s.nextDue.1 = _ ∨ _
    rcases s.nextDue_cases with ⟨-, ho⟩ | ⟨index, hlt, -, ho⟩ <;> rw [ho]
    · exact Or.inl ⟨e, he, rfl, hdue⟩
    · obtain ⟨j, hj, rfl⟩ := List.getElem_of_mem he
      by_cases hij : index = j
      · subst hij
        exact Or.inr (Or.inl rfl)
      · have hj' : j < (s.entries.modify index Entry.drop).length := by rwa [List.length_modify]
        have hmem := List.getElem_mem hj'
        rw [List.getElem_modify, if_neg hij] at hmem
        exact Or.inl ⟨_, hmem, rfl, hdue⟩
  | suspend timeoutMs => exact Or.inr (Or.inr (Or.inl ⟨timeoutMs, rfl⟩))
  | resume => exact Or.inl ⟨e, he, rfl, hdue⟩

/-- What is handed out was due, and no longer is. -/
theorem WF.taken_apply (h : s.WF) {op : Op} {k : Key}
    (hout : (s.apply op).1 = .drained (some (asDue k))) :
    s.isDue k = true ∧ (s.apply op).2.isDue k = false := by
  cases op with
  | nextDue =>
    have hdrained : s.nextDue.1 = some (asDue k) := Reply.drained.inj hout
    have hhead := (nextDue_waiting s).1
    rw [hdrained, h.waiting_eq] at hhead
    obtain ⟨k', hk', hasDue⟩ := Option.map_eq_some_iff.mp hhead.symm
    have hsame : k' = k := by
      injection hasDue with hpgn hdest
      exact Prod.ext hpgn hdest
    have hmem := List.mem_of_mem_head? hk'
    rw [hsame] at hmem
    have hdue : s.isDue k = true := (List.mem_filter.mp hmem).2
    refine ⟨hdue, ?_⟩
    obtain ⟨e, he, rfl, -⟩ := h.isDue_iff.mp hdue
    show s.nextDue.2.isDue e.key = false
    rcases entry_nextDue h (h.entry_of_mem he) with ⟨-, -, hentry⟩ | ⟨hother, -⟩
    · exact isDue_eq hentry
    · exact absurd hdrained hother
  | _ => cases hout

/-- **Every operation is orderly.** -/
theorem Orderly.of_apply (h : s.WF) (op : Op) :
    Orderly ⟨s, op, (s.apply op).1, (s.apply op).2⟩ where
  rises := by
    intro k hbefore hafter
    obtain ⟨e, he, rfl, hdue⟩ := (h.apply op).isDue_iff.mp hafter
    rcases due_of_apply he hdue with ⟨e₀, he₀, hkey, hdue₀⟩ | htick
    · have hold : s.isDue e.key = true := h.isDue_iff.mpr ⟨e₀, he₀, hkey, hdue₀⟩
      exact absurd (hbefore.symm.trans hold) Bool.false_ne_true
    · exact htick
  falls := by
    intro k hbefore hafter
    obtain ⟨e, he, rfl, hdue⟩ := h.isDue_iff.mp hbefore
    rcases due_apply op he hdue with hkept | hfalls
    · have hstill := (h.apply op).isDue_iff.mpr hkept
      exact absurd (hafter.symm.trans hstill) Bool.false_ne_true
    · exact hfalls
  taken := fun k hout => h.taken_apply hout
  first := by
    rintro rfl
    show Reply.drained s.nextDue.1 = _
    rw [(nextDue_waiting s).1, h.waiting_eq]
  refused := by
    intro err hout
    cases op with
    | sendEvery pgn destination periodMs =>
      have hreg : (s.sendEvery pgn destination periodMs).1 = .error err := Reply.registered.inj hout
      show (s.sendEvery pgn destination periodMs).2 = s
      rcases s.sendEvery_cases pgn destination periodMs with
        ⟨e, ho⟩ | ⟨index, hlt, -, -, ho⟩ | ⟨-, -, -, ho⟩ <;> rw [ho] at hreg ⊢ <;> cases hreg
    | _ => cases hout

end Steps

/-! ## §5. Whole runs. -/

/-- How many ticks a run has. -/
def ticks (tr : List (Machine.Entry (Schedule N) Op Reply)) : Nat :=
  tr.countP fun e => match e.event with
    | .tick _ => true
    | _ => false

/-- Whether a message is due where a part of a run begins. -/
def startsDue (k : Key) (tr : List (Machine.Entry (Schedule N) Op Reply)) : Bool :=
  match tr with
  | [] => false
  | e :: _ => e.before.isDue k

section Runs

variable {s₀ s : Schedule N} {tr : List (Machine.Entry (Schedule N) Op Reply)}

/-- Whether an event is a tick, counted. -/
theorem ticks_snoc (tr : List (Machine.Entry (Schedule N) Op Reply))
    (e : Machine.Entry (Schedule N) Op Reply) : ticks (tr ++ [e]) = ticks tr + ticks [e] :=
  List.countP_append

theorem WF.of_trace (h₀ : s₀.WF) (htrace : Trace step s₀ tr s) : s.WF :=
  htrace.invariant (fun _ op _ _ hs hstep => (step_eq hstep).2 ▸ hs.apply op) h₀

/-- Every entry of a run is orderly. -/
theorem Orderly.of_mem (h₀ : s₀.WF) (htrace : Trace step s₀ tr s)
    {e : Machine.Entry (Schedule N) Op Reply} (he : e ∈ tr) : Orderly e := by
  obtain ⟨pre, post, rfl⟩ := List.append_of_mem he
  obtain ⟨hpre, hstep⟩ := htrace.split
  obtain ⟨hout, hafter⟩ := step_eq hstep
  have hwf : e.before.WF := h₀.of_trace hpre
  have horderly := Orderly.of_apply hwf e.event
  rw [← hout, ← hafter] at horderly
  exact horderly

/-- **One step of the account**: a message drained, or due after, was made
due by this tick, or was due before. -/
theorem Orderly.drains_le {e : Machine.Entry (Schedule N) Op Reply} (h : Orderly e) (k : Key) :
    (if drains k e then 1 else 0) + (if e.after.isDue k then 1 else 0)
      ≤ ticks [e] + if e.before.isDue k then 1 else 0 := by
  by_cases hdrains : drains k e = true
  · obtain ⟨hbefore, hafter⟩ := h.taken k (of_decide_eq_true hdrains)
    rw [if_pos hdrains, hbefore, hafter, if_neg Bool.false_ne_true, if_pos rfl]
    omega
  · rw [if_neg hdrains]
    cases hafter : e.after.isDue k with
    | false =>
      rw [if_neg Bool.false_ne_true]
      omega
    | true =>
      cases hbefore : e.before.isDue k with
      | true => omega
      | false =>
        -- it has just become due, so this is a tick
        obtain ⟨-, elapsedMs, hevent⟩ := h.rises k hbefore hafter
        have htick : ticks [e] = 1 := by
          unfold ticks
          rw [List.countP_singleton, hevent]
          rfl
        rw [htick, if_pos rfl, if_neg Bool.false_ne_true]

/-- **A message is drained at most once for every tick**, and once more if
it was due at the start. -/
theorem drained_le (h₀ : s₀.WF) (htrace : Trace step s₀ tr s) (k : Key) :
    drained k tr + (if s.isDue k then 1 else 0) ≤ ticks tr + if s₀.isDue k then 1 else 0 := by
  induction htrace with
  | nil =>
    show 0 + _ ≤ 0 + _
    exact Nat.le_refl _
  | @snoc tr s s' op o htrace hstep ih =>
    have hlast : (⟨s, op, o, s'⟩ : Machine.Entry (Schedule N) Op Reply)
        ∈ tr ++ [⟨s, op, o, s'⟩] := List.mem_append_right _ (List.mem_singleton_self _)
    have hone := (Orderly.of_mem h₀ (htrace.snoc hstep) hlast).drains_le k
    rw [drained_snoc, ticks_snoc]
    dsimp only at hone
    omega

/-- The start of a part of a run, read off its first entry. -/
theorem startsDue_eq (htrace : Trace step s₀ tr s) (hne : tr ≠ []) (k : Key) :
    startsDue k tr = s₀.isDue k := by
  cases tr with
  | nil => exact absurd rfl hne
  | cons e tr =>
    have hsplit : Trace step s₀ ([] ++ e :: tr) s := htrace
    show e.before.isDue k = s₀.isDue k
    rw [hsplit.split.1.eq_of_nil]

/-- **A part of a run drains a message at most once for every tick**, and
once more if it begins with the message due. -/
theorem drained_le_of_infix (h₀ : s₀.WF) (htrace : Trace step s₀ tr s) (k : Key)
    {mid : List (Machine.Entry (Schedule N) Op Reply)} (hmid : mid <:+: tr) :
    drained k mid ≤ ticks mid + if startsDue k mid then 1 else 0 := by
  obtain ⟨pre, post, rfl⟩ := hmid
  obtain ⟨s₂, hfront, -⟩ := htrace.cut
  obtain ⟨s₁, hpre, hmid⟩ := hfront.cut
  by_cases hne : mid = []
  · rw [hne]
    exact Nat.zero_le _
  · rw [startsDue_eq hmid hne]
    have hcount := drained_le (h₀.of_trace hpre) hmid k
    omega

end Runs

/-- **The invariant of a schedule.**  Every run returns.  It leaves at most
`N` messages, none twice, every period positive and every timer below it,
and nothing due while suspended; what is registered, in its order, is what
the requests and replies say; every step is orderly; draining yields what
is due in registration order; and no part of the run drains a message more
often than it ticks, but for one that was due at its start. -/
theorem invariant_of_run (N : Nat) (ops : List Op) :
    ∃ tr s, run step (Schedule.new : Schedule N) ops = .ok (tr, s)
      ∧ (s.entries.length ≤ N ∧ (s.entries.map Entry.key).Nodup
        ∧ (∀ e ∈ s.entries, 0 < e.periodMs ∧ e.elapsedMs < e.periodMs)
        ∧ (s.isSuspended = true → ∀ e ∈ s.entries, e.due = false))
      ∧ s.entries.map Entry.key = registrations tr
      ∧ (∀ e ∈ tr, Orderly e)
      ∧ (∀ n, ∃ drainage s', run step s (List.replicate n .nextDue) = .ok (drainage, s')
        ∧ drainage.map Machine.Entry.out = (List.range n).map fun i =>
          Reply.drained (((registrations tr).filter s.isDue)[i]?.map asDue))
      ∧ ∀ k mid, mid <:+: tr → drained k mid ≤ ticks mid + if startsDue k mid then 1 else 0 := by
  obtain ⟨tr, s, hrun⟩ := run_returns (Schedule.new : Schedule N) ops
  obtain ⟨htrace, -⟩ := run_trace hrun
  obtain ⟨hwf, hkeys⟩ := keys_trace htrace
  refine ⟨tr, s, hrun, ⟨hwf.length_le, hwf.nodup, ?_, hwf.quiet⟩, hkeys, ?_, ?_, ?_⟩
  · intro e he
    have hlt := hwf.elapsed_lt e he
    exact ⟨Nat.zero_lt_of_lt hlt, hlt⟩
  · intro e he
    exact Orderly.of_mem WF.new htrace he
  · intro n
    rw [← hkeys, ← hwf.waiting_eq]
    exact run_nextDue s n
  · intro k mid hmid
    exact drained_le_of_infix WF.new htrace k hmid

end SaeJ1939.Schedule
