/-
  SaeJ1939.Diagnostics.Lifecycle — what a fault log remembers of its run.

  A fault is raised when it goes from inactive to active, retired when it
  moves into the history, and forgotten when the log names it no more:
  by DM3, by DM11, or because a younger fault took the last place in the
  history.  These are events of the run; the lists of the log, their
  order, the occurrence counts and the lamps are all functions of them.

  Main results:
    * `occurrences_snoc` — how often a fault was raised since it was last
      forgotten, one operation at a time.
    * `Remembers.apply` — every operation keeps the log in agreement with
      its run.
    * `log_refines_its_history` — after any operations, the log is what
      its history says.
-/
import SaeJ1939.Diagnostics.FaultLog

namespace SaeJ1939.Diagnostics.FaultLog

open Machine

variable {N : Nat}

/-! ## §1. The history of a fault. -/

/-- The log names the fault, as active or as history. -/
def Listed (log : FaultLog N) (k : Nat × UInt8) : Prop := Names (log.active ++ log.previous) k

instance (log : FaultLog N) (k : Nat × UInt8) : Decidable (log.Listed k) :=
  inferInstanceAs (Decidable (Names _ _))

/-- The fault goes from inactive to active. -/
def raises (k : Nat × UInt8) (e : Entry (FaultLog N) Op Reply) : Bool :=
  !decide (Names e.before.active k) && decide (Names e.after.active k)

/-- The fault goes from active into the history. -/
def retires (k : Nat × UInt8) (e : Entry (FaultLog N) Op Reply) : Bool :=
  decide (Names e.before.active k) && decide (Names e.after.previous k)

/-- The fault is forgotten by DM3, by DM11, or because the history loses
it while another fault retires. -/
def forgets (k : Nat × UInt8) (e : Entry (FaultLog N) Op Reply) : Bool :=
  match e.event with
  | .clearPreviouslyActive => decide (Names e.before.previous k)
  | .clearActive => decide (Names e.before.active k)
  | .clear _ _ => decide (Names e.before.previous k) && !decide (e.after.Listed k)
  | .set _ _ _ => false
  | .tick _ => false

/-- How often the fault was raised since it was last forgotten. -/
def occurrences (tr : List (Entry (FaultLog N) Op Reply)) (k : Nat × UInt8) : Nat :=
  (since (forgets k) tr).countP (raises k)

/-- The lamp an operation names for a fault. -/
def naming (k : Nat × UInt8) (e : Entry (FaultLog N) Op Reply) : Option Lamp :=
  match e.event with
  | .set spn fmi lamp => if (spn, fmi) = k then some lamp else none
  | _ => none

/-- The lamp last named for a fault. -/
def lastNamed (tr : List (Entry (FaultLog N) Op Reply)) (k : Nat × UInt8) : Option Lamp :=
  tr.reverse.findSome? (naming k)

theorem occurrences_snoc (tr : List (Entry (FaultLog N) Op Reply))
    (e : Entry (FaultLog N) Op Reply) (k : Nat × UInt8) :
    occurrences (tr ++ [e]) k
      = if forgets k e then 0 else occurrences tr k + (if raises k e then 1 else 0) := by
  unfold occurrences
  cases hf : forgets k e with
  | true =>
    rw [since_snoc_of hf]
    rfl
  | false =>
    rw [since_snoc_not hf, List.countP_append, List.countP_singleton]
    rfl

theorem lastNamed_snoc (tr : List (Entry (FaultLog N) Op Reply))
    (e : Entry (FaultLog N) Op Reply) (k : Nat × UInt8) :
    lastNamed (tr ++ [e]) k = (naming k e).or (lastNamed tr k) := by
  unfold lastNamed
  rw [List.reverse_append, List.reverse_singleton, List.singleton_append, List.findSome?_cons]
  cases naming k e <;> rfl

/-! ## §2. What an operation does to the fault it names, and to others. -/

theorem listed_iff {log : FaultLog N} {k : Nat × UInt8} :
    log.Listed k ↔ Names log.active k ∨ Names log.previous k := by
  simp only [Listed, Names, List.mem_append, or_and_right, exists_or]

theorem names_without {dtcs : List Dtc} {spn : Nat} {fmi : UInt8} {k : Nat × UInt8}
    (h : Names dtcs k) (hk : k ≠ (spn, fmi)) : Names (without dtcs spn fmi) k := by
  unfold without
  cases hfind : find dtcs spn fmi with
  | none => exact h
  | some index =>
    obtain ⟨hlt, hkey⟩ := find_eq_some hfind
    obtain ⟨d, hd, rfl⟩ := h
    rcases List.mem_cons.mp ((List.getElem_cons_eraseIdx_perm hlt).symm.subset hd) with rfl | hmem
    · exact absurd hkey hk
    · exact ⟨d, hmem, rfl⟩

/-- An entry of the list is the one taken out, or is still there. -/
theorem mem_eraseIdx_or {dtcs : List Dtc} {index : Nat} (hlt : index < dtcs.length) {d : Dtc}
    (hd : d ∈ dtcs) : d = dtcs[index] ∨ d ∈ dtcs.eraseIdx index :=
  List.mem_cons.mp ((List.getElem_cons_eraseIdx_perm hlt).symm.subset hd)

/-- In a list without duplicates a fault stands at one place. -/
theorem index_eq_of_key {dtcs : List Dtc} (h : (dtcs.map Dtc.key).Nodup) {i j : Nat}
    (hi : i < dtcs.length) (hj : j < dtcs.length) (hkey : dtcs[i].key = dtcs[j].key) : i = j := by
  have hi' : i < (dtcs.map Dtc.key).length := by simpa using hi
  have hj' : j < (dtcs.map Dtc.key).length := by simpa using hj
  have heq : (dtcs.map Dtc.key)[i] = (dtcs.map Dtc.key)[j] := by
    rw [List.getElem_map, List.getElem_map]
    exact hkey
  exact h.getElem_inj_iff.mp heq

/-- **Forgetting is being named no more.** -/
theorem forgets_iff {log : FaultLog N} (h : log.WF) (op : Op) (k : Nat × UInt8) :
    forgets k (log.entry op) = true
      ↔ log.Listed k ∧ ¬ (log.apply op).2.Listed k := by
  cases op with
  | set spn fmi lamp =>
    -- raising a fault takes no name away
    refine iff_of_false Bool.false_ne_true ?_
    rintro ⟨hbefore, hafter⟩
    refine hafter ?_
    simp only [apply]
    rcases log.set_cases spn fmi lamp with ⟨e, -, ho⟩ | ⟨index, -, -, ho⟩ | ⟨-, -, -, ho⟩
    · rw [ho]
      exact hbefore
    · rw [ho]
      exact hbefore
    · rw [ho]
      by_cases hk : k = (spn, fmi)
      · subst hk
        exact ⟨_, List.mem_append_left _ (List.mem_append_right _ (List.mem_singleton_self _)), rfl⟩
      · refine listed_iff.mpr ?_
        rcases listed_iff.mp hbefore with ⟨d, hd, hkey⟩ | hprev
        · exact Or.inl ⟨d, List.mem_append_left _ hd, hkey⟩
        · exact Or.inr (names_without hprev hk)
  | clear spn fmi =>
    show (decide (Names log.previous k) && !decide ((log.clear spn fmi).2.Listed k)) = true ↔ _
    rw [Bool.and_eq_true, decide_eq_true_eq, Bool.not_eq_true', decide_eq_false_iff_not]
    refine and_congr_left fun hafter => ⟨fun hprev => listed_iff.mpr (Or.inr hprev), ?_⟩
    intro hbefore
    refine (listed_iff.mp hbefore).resolve_left fun hactive => hafter ?_
    rcases log.clear_cases spn fmi h.disjoint with ⟨-, ho⟩ | ⟨index, hlt, -, -, ho⟩
    · rw [ho]
      exact hbefore
    · -- an active fault stays, or is the one that becomes history
      rw [ho]
      obtain ⟨d, hd, hkey⟩ := hactive
      rcases mem_eraseIdx_or hlt hd with rfl | hmem
      · exact ⟨_, List.mem_append_right _ (List.mem_append_right _ (List.mem_singleton_self _)),
          hkey⟩
      · exact ⟨d, List.mem_append_left _ hmem, hkey⟩
  | clearActive =>
    show decide (Names log.active k) = true ↔ log.Listed k ∧ ¬ log.clearActive.Listed k
    rw [decide_eq_true_eq, listed_iff, listed_iff]
    have hnone : ¬ Names (log.clearActive).active k := by
      rintro ⟨d, hd, -⟩
      cases hd
    constructor
    · intro hactive
      exact ⟨Or.inl hactive, fun hafter => hafter.elim hnone (h.disjoint k hactive)⟩
    · rintro ⟨hbefore, hafter⟩
      exact hbefore.resolve_right fun hprev => hafter (Or.inr hprev)
  | clearPreviouslyActive =>
    show decide (Names log.previous k) = true ↔
      log.Listed k ∧ ¬ log.clearPreviouslyActive.Listed k
    rw [decide_eq_true_eq, listed_iff, listed_iff]
    have hnone : ¬ Names (log.clearPreviouslyActive).previous k := by
      rintro ⟨d, hd, -⟩
      cases hd
    constructor
    · intro hprev
      exact ⟨Or.inr hprev, fun hafter => hafter.elim (fun ha => h.disjoint k ha hprev) hnone⟩
    · rintro ⟨hbefore, hafter⟩
      exact hbefore.resolve_left fun hactive => hafter (Or.inl hactive)
  | tick elapsedMs =>
    refine iff_of_false Bool.false_ne_true ?_
    rintro ⟨hbefore, hafter⟩
    refine hafter ?_
    simp only [apply]
    rcases log.tick_cases elapsedMs with ⟨-, ho⟩ | ⟨-, -, ho⟩ <;> rw [ho] <;> exact hbefore

/-! ## §3. Agreement with the run, one operation at a time. -/

/-- The codes stand in the order in which they last saw an event of the
kind `p`. -/
def InOrder (p : Nat × UInt8 → Entry (FaultLog N) Op Reply → Bool)
    (tr : List (Entry (FaultLog N) Op Reply)) (dtcs : List Dtc) : Prop :=
  dtcs.Pairwise fun d d' => (since (p d'.key) tr).length < (since (p d.key) tr).length

/-- **The log agrees with its run.** -/
structure Remembers (tr : List (Entry (FaultLog N) Op Reply)) (log : FaultLog N) : Prop where
  raised : InOrder raises tr log.active
  retired : InOrder retires tr log.previous
  counts : ∀ d ∈ log.active ++ log.previous,
    d.occurrenceCount.toNat = min 127 (occurrences tr d.key)
  unlisted : ∀ k, ¬ log.Listed k → occurrences tr k = 0
  lamps : log.activeLamps.map some = log.active.map fun d => lastNamed tr d.key

section Order

variable {p : Nat × UInt8 → Entry (FaultLog N) Op Reply → Bool}
  {tr : List (Entry (FaultLog N) Op Reply)} {e : Entry (FaultLog N) Op Reply} {dtcs : List Dtc}

theorem InOrder.sublist {dtcs' : List Dtc} (h : InOrder p tr dtcs)
    (hsub : List.Sublist dtcs' dtcs) : InOrder p tr dtcs' :=
  List.Pairwise.sublist hsub h

/-- Codes that see no event keep their order. -/
theorem InOrder.snoc (h : InOrder p tr dtcs) (hno : ∀ d ∈ dtcs, p d.key e = false) :
    InOrder p (tr ++ [e]) dtcs := by
  refine h.imp_of_mem fun {d d'} hd hd' hlt => ?_
  rw [since_snoc_not (hno d hd), since_snoc_not (hno d' hd'), List.length_append,
    List.length_append]
  omega

/-- The code that sees the event goes last. -/
theorem InOrder.snoc_last (h : InOrder p tr dtcs) (hno : ∀ d ∈ dtcs, p d.key e = false) {x : Dtc}
    (hx : p x.key e = true) : InOrder p (tr ++ [e]) (dtcs ++ [x]) := by
  refine List.pairwise_append.mpr ⟨h.snoc hno, List.pairwise_singleton _ _, ?_⟩
  intro d hd y hy
  rw [List.mem_singleton.mp hy, since_snoc_of hx, since_snoc_not (hno d hd), List.length_append]
  exact Nat.succ_pos _

end Order

section Step

variable {log : FaultLog N} {tr : List (Entry (FaultLog N) Op Reply)}

/-- A fault that is active already is not raised. -/
theorem raises_of_active {op : Op} {d : Dtc} (hd : d ∈ log.active) :
    raises d.key (log.entry op) = false := by
  have hnames : Names log.active d.key := ⟨d, hd, rfl⟩
  show (!decide (Names log.active d.key) && _) = false
  rw [decide_eq_true hnames]
  rfl

/-- A fault in the history does not retire. -/
theorem retires_of_previous (h : log.WF) {op : Op} {d : Dtc} (hd : d ∈ log.previous) :
    retires d.key (log.entry op) = false := by
  have hnot : ¬ Names log.active d.key := fun hactive => h.disjoint _ hactive ⟨d, hd, rfl⟩
  show (decide (Names log.active d.key) && _) = false
  rw [decide_eq_false hnot]
  rfl

/-- Nothing is raised that is not active afterwards. -/
theorem raises_of_not_active {op : Op} {k : Nat × UInt8}
    (hk : Names (log.apply op).2.active k → Names log.active k) :
    raises k (log.entry op) = false := by
  show (!decide (Names log.active k) && decide (Names (log.apply op).2.active k)) = false
  by_cases hafter : Names (log.apply op).2.active k
  · rw [decide_eq_true (hk hafter)]
    rfl
  · rw [decide_eq_false hafter, Bool.and_false]

/-- What the log names afterwards was not forgotten. -/
theorem occurrences_listed (h : log.WF) {op : Op} {k : Nat × UInt8}
    (hk : (log.apply op).2.Listed k) :
    occurrences (tr ++ [log.entry op]) k
      = occurrences tr k + (if raises k (log.entry op) then 1 else 0) := by
  rw [occurrences_snoc, if_neg]
  intro hforgets
  exact ((forgets_iff h op k).mp hforgets).2 hk

/-- A fault the log does not name has no occurrences. -/
theorem Remembers.unlisted_apply (hr : Remembers tr log) (h : log.WF) (op : Op) (k : Nat × UInt8)
    (hk : ¬ (log.apply op).2.Listed k) : occurrences (tr ++ [log.entry op]) k = 0 := by
  rw [occurrences_snoc]
  by_cases hbefore : log.Listed k
  · rw [if_pos ((forgets_iff h op k).mpr ⟨hbefore, hk⟩)]
  · have hraise : raises k (log.entry op) = false :=
      raises_of_not_active fun hafter => absurd (listed_iff.mpr (Or.inl hafter)) hk
    rw [hraise, hr.unlisted k hbefore]
    split <;> rfl

/-- A code the log had before, of a fault that was not raised, keeps its
count. -/
theorem Remembers.count_old (hr : Remembers tr log) (h : log.WF) {op : Op} {d : Dtc}
    (hold : d ∈ log.active ++ log.previous)
    (hnew : d ∈ (log.apply op).2.active ++ (log.apply op).2.previous)
    (hraise : raises d.key (log.entry op) = false) :
    d.occurrenceCount.toNat = min 127 (occurrences (tr ++ [log.entry op]) d.key) := by
  rw [occurrences_listed h ⟨d, hnew, rfl⟩, hraise]
  exact hr.counts d hold

/-- An operation that names no lamp for the active faults leaves them what
they were last named. -/
theorem lastNamed_other {op : Op} {dtcs : List Dtc}
    (hno : ∀ d ∈ dtcs, naming d.key (log.entry op) = none) :
    (dtcs.map fun d => lastNamed (tr ++ [log.entry op]) d.key)
      = dtcs.map fun d => lastNamed tr d.key := by
  refine List.map_congr_left fun d hd => ?_
  rw [lastNamed_snoc, hno d hd, Option.none_or]

/-- **An operation that only takes codes away** keeps the agreement. -/
theorem Remembers.of_loss (hr : Remembers tr log) (h : log.WF) {op : Op}
    (hactive : List.Sublist (log.apply op).2.active log.active)
    (hprevious : List.Sublist (log.apply op).2.previous log.previous)
    (hlamps : (log.apply op).2.activeLamps.map some
      = (log.apply op).2.active.map fun d => lastNamed (tr ++ [log.entry op]) d.key) :
    Remembers (tr ++ [log.entry op]) (log.apply op).2 where
  raised := (hr.raised.sublist hactive).snoc fun _ hd => raises_of_active (hactive.subset hd)
  retired := (hr.retired.sublist hprevious).snoc fun _ hd =>
    retires_of_previous h (hprevious.subset hd)
  counts := fun _ hd => hr.count_old h ((hactive.append hprevious).subset hd) hd
    (raises_of_not_active fun ⟨d, hd, hkey⟩ => ⟨d, hactive.subset hd, hkey⟩)
  unlisted := hr.unlisted_apply h op
  lamps := hlamps

/-- Raising a fault anew continues the count the log had for it. -/
theorem Remembers.nextCount_eq (hr : Remembers tr log) {spn : Nat} {fmi : UInt8}
    (hnew : ¬ Names log.active (spn, fmi)) :
    (nextCount log.previous spn fmi).toNat = min 127 (occurrences tr (spn, fmi) + 1) := by
  unfold nextCount
  cases hfind : find log.previous spn fmi with
  | none =>
    have hnone : ¬ log.Listed (spn, fmi) := fun hlisted =>
      (listed_iff.mp hlisted).elim hnew (find_eq_none.mp hfind)
    rw [hr.unlisted _ hnone]
    rfl
  | some index =>
    obtain ⟨hlt, hkey⟩ := find_eq_some hfind
    have hcount := hr.counts _ (List.mem_append_right log.active (List.getElem_mem hlt))
    rw [hkey] at hcount
    show (UInt8.ofNat (min ((log.previous.getD index unused).occurrenceCount.toNat + 1) 127)).toNat
      = _
    rw [List.getD_eq_getElem?_getD, List.getElem?_eq_getElem hlt, Option.getD_some, hcount,
      UInt8.toNat_ofNat']
    omega

theorem naming_set (spn : Nat) (fmi : UInt8) (lamp : Lamp) :
    naming (spn, fmi) (log.entry (.set spn fmi lamp)) = some lamp :=
  if_pos rfl

theorem naming_set_of_ne {spn : Nat} {fmi : UInt8} (lamp : Lamp) {k : Nat × UInt8}
    (hk : k ≠ (spn, fmi)) : naming k (log.entry (.set spn fmi lamp)) = none :=
  if_neg (Ne.symm hk)

/-- **A fault that is raised anew** is listed last, with the count the log
had for it continued. -/
theorem Remembers.raise (hr : Remembers tr log) (h : log.WF) {spn : Nat} {fmi : UInt8}
    {lamp : Lamp} (hnew : ¬ Names log.active (spn, fmi))
    (hlog : (log.apply (.set spn fmi lamp)).2 = { log with
      active := log.active ++ [⟨spn, fmi, nextCount log.previous spn fmi, true⟩]
      activeLamps := log.activeLamps ++ [lamp]
      previous := without log.previous spn fmi
      owesAllClear := false }) :
    Remembers (tr ++ [log.entry (.set spn fmi lamp)]) (log.apply (.set spn fmi lamp)).2 := by
  generalize hx : (⟨spn, fmi, nextCount log.previous spn fmi, true⟩ : Dtc) = x at hlog
  have hxkey : x.key = (spn, fmi) := by rw [← hx]; rfl
  have hxmem : x ∈ (log.apply (.set spn fmi lamp)).2.active := by
    rw [hlog]
    exact List.mem_append_right _ (List.mem_singleton_self x)
  have hxraise : raises x.key (log.entry (.set spn fmi lamp)) = true := by
    show (!decide (Names log.active x.key)
      && decide (Names (log.apply (.set spn fmi lamp)).2.active x.key)) = true
    have hafter : Names (log.apply (.set spn fmi lamp)).2.active x.key := ⟨x, hxmem, rfl⟩
    rw [decide_eq_true hafter, hxkey, decide_eq_false hnew]
    rfl
  have hsub := without_sublist log.previous spn fmi
  refine ⟨?_, ?_, ?_, hr.unlisted_apply h _, ?_⟩
  · rw [hlog]
    exact hr.raised.snoc_last (fun d hd => raises_of_active hd) hxraise
  · rw [hlog]
    exact (hr.retired.sublist hsub).snoc fun d hd => retires_of_previous h (hsub.subset hd)
  · intro d hd
    by_cases hdx : d = x
    · subst hdx
      rw [occurrences_listed h ⟨d, hd, rfl⟩, hxraise, if_pos rfl, hxkey, ← hx]
      exact hr.nextCount_eq hnew
    · have hmem : d ∈ log.active ∨ d ∈ without log.previous spn fmi := by
        rw [hlog] at hd
        simp only [List.mem_append, List.mem_singleton, hdx, or_false] at hd
        exact hd
      have hne : d.key ≠ (spn, fmi) := by
        intro hkey
        rcases hmem with ha | hp
        · exact hnew ⟨d, ha, hkey⟩
        · exact not_names_without h.previous_nodup spn fmi ⟨d, hp, hkey⟩
      refine hr.count_old h ?_ hd (raises_of_not_active ?_)
      · exact List.mem_append.mpr (hmem.imp_right fun hp => hsub.subset hp)
      · rw [hlog]
        rintro ⟨d', hd', hkey'⟩
        rcases List.mem_append.mp hd' with hold | hlast
        · exact ⟨d', hold, hkey'⟩
        · rw [List.mem_singleton.mp hlast, hxkey] at hkey'
          exact absurd hkey'.symm hne
  · rw [hlog]
    show (log.activeLamps ++ [lamp]).map some = (log.active ++ [x]).map _
    rw [List.map_append, List.map_append,
      lastNamed_other fun d hd => naming_set_of_ne lamp fun hkey => hnew ⟨d, hd, hkey⟩,
      ← hr.lamps, List.map_singleton, List.map_singleton, lastNamed_snoc, hxkey, naming_set,
      Option.some_or]

/-- **Raising a fault** keeps the agreement. -/
theorem Remembers.set (hr : Remembers tr log) (h : log.WF) (spn : Nat) (fmi : UInt8)
    (lamp : Lamp) :
    Remembers (tr ++ [log.entry (.set spn fmi lamp)]) (log.apply (.set spn fmi lamp)).2 := by
  rcases log.set_cases spn fmi lamp with
    ⟨e, hwhy, ho⟩ | ⟨index, hfind, -, ho⟩ | ⟨hnew, -, -, ho⟩
  · -- refused: nothing active is called that
    have hlog : (log.apply (.set spn fmi lamp)).2 = log := congrArg Prod.snd ho
    have hnot : ¬ Names log.active (spn, fmi) := by
      rcases hwhy with hbad | hfull
      · rintro ⟨d, hd, hkey⟩
        have hrange := h.inRange d (List.mem_append_left _ hd)
        have hspn : d.spn = spn := congrArg Prod.fst hkey
        have hfmi : d.fmi = fmi := congrArg Prod.snd hkey
        exact hbad ⟨hspn ▸ hrange.1, hfmi ▸ hrange.2.1⟩
      · exact hfull.1
    refine hr.of_loss h ?_ ?_ ?_ <;> rw [hlog]
    rw [lastNamed_other fun d hd => naming_set_of_ne lamp fun hkey => hnot ⟨d, hd, hkey⟩]
    exact hr.lamps
  · -- refreshed: only the lamp of that fault is another one
    have hlog : (log.apply (.set spn fmi lamp)).2
        = { log with activeLamps := log.activeLamps.set index lamp } := congrArg Prod.snd ho
    obtain ⟨hlt, hkey⟩ := find_eq_some hfind
    refine hr.of_loss h ?_ ?_ ?_ <;> rw [hlog]
    show (log.activeLamps.set index lamp).map some = _
    rw [List.map_set, hr.lamps]
    apply List.ext_getElem
    · simp
    · intro j hj hj'
      have hjlt : j < log.active.length := by simpa using hj'
      rw [List.getElem_map, lastNamed_snoc]
      by_cases hji : index = j
      · subst hji
        rw [List.getElem_set_self, hkey, naming_set, Option.some_or]
      · have hne : log.active[j].key ≠ (spn, fmi) := by
          rw [← hkey]
          exact fun heq => hji (index_eq_of_key h.active_nodup hlt hjlt heq.symm)
        rw [List.getElem_set_ne hji, List.getElem_map, naming_set_of_ne lamp hne, Option.none_or]
  · -- raised: the new code goes last
    exact hr.raise h hnew (congrArg Prod.snd ho)

/-- **Retiring a fault** keeps the agreement. -/
theorem Remembers.clear (hr : Remembers tr log) (h : log.WF) (spn : Nat) (fmi : UInt8) :
    Remembers (tr ++ [log.entry (.clear spn fmi)]) (log.apply (.clear spn fmi)).2 := by
  have hnaming : ∀ k, naming k (log.entry (.clear spn fmi)) = none := fun _ => rfl
  rcases log.clear_cases spn fmi h.disjoint with ⟨-, ho⟩ | ⟨index, hlt, -, hkey, ho⟩
  · have hlog : (log.apply (.clear spn fmi)).2 = log := congrArg Prod.snd ho
    refine hr.of_loss h ?_ ?_ ?_ <;> rw [hlog]
    rw [lastNamed_other fun d _ => hnaming d.key]
    exact hr.lamps
  · have hlog := congrArg Prod.snd ho
    have hkept : List.Sublist
        (if log.previous.length = N then log.previous.tail else log.previous) log.previous := by
      split
      · exact List.tail_sublist _
      · exact List.Sublist.refl _
    generalize (if log.previous.length = N then log.previous.tail else log.previous) = kept
      at hlog hkept
    have hx : log.active[index] ∈ log.active := List.getElem_mem hlt
    have hsub := List.eraseIdx_sublist log.active index
    have hactive : (log.apply (.clear spn fmi)).2.active = log.active.eraseIdx index :=
      congrArg FaultLog.active hlog
    have hprevious : (log.apply (.clear spn fmi)).2.previous = kept ++ [log.active[index]] :=
      congrArg FaultLog.previous hlog
    have hlamps : (log.apply (.clear spn fmi)).2.activeLamps = log.activeLamps.eraseIdx index :=
      congrArg FaultLog.activeLamps hlog
    refine ⟨?_, ?_, ?_, hr.unlisted_apply h _, ?_⟩
    · rw [hactive]
      exact (hr.raised.sublist hsub).snoc fun d hd => raises_of_active (hsub.subset hd)
    · rw [hprevious]
      refine (hr.retired.sublist hkept).snoc_last
        (fun d hd => retires_of_previous h (hkept.subset hd)) ?_
      show (decide (Names log.active log.active[index].key)
        && decide (Names (log.apply (.clear spn fmi)).2.previous log.active[index].key)) = true
      have hbefore : Names log.active log.active[index].key := ⟨_, hx, rfl⟩
      have hafter : Names (log.apply (.clear spn fmi)).2.previous log.active[index].key := by
        rw [hprevious]
        exact ⟨_, List.mem_append_right _ (List.mem_singleton_self _), rfl⟩
      rw [decide_eq_true hbefore, decide_eq_true hafter]
      rfl
    · intro d hd
      refine hr.count_old h ?_ hd (raises_of_not_active ?_)
      · rw [hactive, hprevious] at hd
        rcases List.mem_append.mp hd with ha | hp
        · exact List.mem_append_left _ (hsub.subset ha)
        rcases List.mem_append.mp hp with hk | hlast
        · exact List.mem_append_right _ (hkept.subset hk)
        · rw [List.mem_singleton.mp hlast]
          exact List.mem_append_left _ hx
      · rw [hactive]
        rintro ⟨d', hd', hkey'⟩
        exact ⟨d', hsub.subset hd', hkey'⟩
    · rw [hlamps, hactive, lastNamed_other fun d _ => hnaming d.key, ← List.eraseIdx_map,
        hr.lamps, List.eraseIdx_map]

/-- **Every operation keeps the log in agreement with its run.** -/
theorem Remembers.apply (hr : Remembers tr log) (h : log.WF) (op : Op) :
    Remembers (tr ++ [log.entry op]) (log.apply op).2 := by
  cases op with
  | set spn fmi lamp => exact hr.set h spn fmi lamp
  | clear spn fmi => exact hr.clear h spn fmi
  | clearActive =>
    exact hr.of_loss h (List.nil_sublist _) (List.Sublist.refl _) rfl
  | clearPreviouslyActive =>
    refine hr.of_loss h (List.Sublist.refl _) (List.nil_sublist _) ?_
    exact hr.lamps.trans (lastNamed_other fun _ _ => rfl).symm
  | tick elapsedMs =>
    have hlists : (log.apply (.tick elapsedMs)).2.active = log.active
        ∧ (log.apply (.tick elapsedMs)).2.previous = log.previous
        ∧ (log.apply (.tick elapsedMs)).2.activeLamps = log.activeLamps := by
      simp only [FaultLog.apply]
      rcases log.tick_cases elapsedMs with ⟨-, ho⟩ | ⟨-, -, ho⟩ <;> rw [ho] <;>
        exact ⟨rfl, rfl, rfl⟩
    obtain ⟨hactive, hprevious, hlamps⟩ := hlists
    refine hr.of_loss h (by rw [hactive]) (by rw [hprevious]) ?_
    rw [hlamps, hactive, lastNamed_other fun _ _ => rfl]
    exact hr.lamps

end Step

/-! ## §4. Whole runs. -/

theorem lit_status (lit : List Lamp) (l : Lamps) (lamp : Lamp) :
    (lit.foldl (fun l lamp => l.withStatus lamp .on) l).statusOf lamp
      = if lamp ∈ lit then .on else l.statusOf lamp := by
  induction lit generalizing l with
  | nil => rfl
  | cons first rest ih =>
    rw [List.foldl_cons, ih, Lamps.statusOf_withStatus]
    by_cases hrest : lamp ∈ rest
    · rw [if_pos hrest, if_pos (List.mem_cons_of_mem _ hrest)]
    · simp only [hrest, if_false, List.mem_cons, or_false]

theorem lit_flash (lit : List Lamp) (l : Lamps) :
    (lit.foldl (fun l lamp => l.withStatus lamp .on) l).flash = l.flash := by
  induction lit generalizing l with
  | nil => rfl
  | cons first rest ih =>
    rw [List.foldl_cons, ih]
    rfl

theorem trace_remembers {tr : List (Entry (FaultLog N) Op Reply)} {log : FaultLog N}
    (h : Trace step FaultLog.new tr log) : Remembers tr log := by
  induction h with
  | nil =>
    refine ⟨List.Pairwise.nil, List.Pairwise.nil, ?_, fun _ _ => rfl, rfl⟩
    intro d hd
    cases hd
  | @snoc tr log log' op o htrace hstep ih =>
    obtain ⟨hentry, hlog⟩ := step_eq hstep
    rw [hentry, hlog]
    exact ih.apply (trace_wf htrace) op

/-- A code leaves the history when DM3 clears it, when its fault is raised
again, or as the oldest of a full one. -/
theorem leaves_history {log : FaultLog N} (h : log.WF) {op : Op} {d : Dtc}
    (hd : d ∈ log.previous) (hgone : d ∉ (log.apply op).2.previous)
    (hdm3 : op ≠ .clearPreviouslyActive) (hraise : raises d.key (log.entry op) = false) :
    log.previous.head? = some d ∧ log.previous.length = N := by
  cases op with
  | set spn fmi lamp =>
    rcases log.set_cases spn fmi lamp with ⟨e, -, ho⟩ | ⟨index, -, -, ho⟩ | ⟨hnew, -, -, ho⟩
    · exact absurd ((congrArg (fun r => r.2.previous) ho).symm ▸ hd) hgone
    · exact absurd ((congrArg (fun r => r.2.previous) ho).symm ▸ hd) hgone
    · -- the one taken out of the history is the one raised
      have hprevious : (log.apply (.set spn fmi lamp)).2.previous = without log.previous spn fmi :=
        congrArg (fun r => r.2.previous) ho
      have hkey : d.key = (spn, fmi) := by
        rw [hprevious] at hgone
        unfold without at hgone
        cases hfind : find log.previous spn fmi with
        | none =>
          rw [hfind] at hgone
          exact absurd hd hgone
        | some index =>
          rw [hfind] at hgone
          obtain ⟨hlt, hkey⟩ := find_eq_some hfind
          rw [(mem_eraseIdx_or hlt hd).resolve_right hgone, hkey]
      have hafter : Names (log.apply (.set spn fmi lamp)).2.active d.key := by
        rw [hkey]
        refine ⟨⟨spn, fmi, nextCount log.previous spn fmi, true⟩, ?_, rfl⟩
        rw [show (log.apply (.set spn fmi lamp)).2.active = log.active ++ [_] from
          congrArg (fun r => r.2.active) ho]
        exact List.mem_append_right _ (List.mem_singleton_self _)
      have hraised : raises d.key (log.entry (.set spn fmi lamp)) = true := by
        show (!decide (Names log.active d.key)
          && decide (Names (log.apply (.set spn fmi lamp)).2.active d.key)) = true
        rw [decide_eq_true hafter, hkey, decide_eq_false hnew]
        rfl
      rw [hraise] at hraised
      cases hraised
  | clear spn fmi =>
    rcases log.clear_cases spn fmi h.disjoint with ⟨-, ho⟩ | ⟨index, hlt, -, -, ho⟩
    · exact absurd ((congrArg (fun r => r.2.previous) ho).symm ▸ hd) hgone
    · have hprevious : (log.apply (.clear spn fmi)).2.previous
          = (if log.previous.length = N then log.previous.tail else log.previous)
            ++ [log.active[index]] := congrArg (fun r => r.2.previous) ho
      rw [hprevious, List.mem_append, not_or] at hgone
      by_cases hfull : log.previous.length = N
      · refine ⟨?_, hfull⟩
        rw [if_pos hfull] at hgone
        cases hlist : log.previous with
        | nil =>
          rw [hlist] at hd
          cases hd
        | cons oldest rest =>
          rw [hlist] at hd hgone
          rcases List.mem_cons.mp hd with rfl | hrest
          · rfl
          · exact absurd hrest hgone.1
      · rw [if_neg hfull] at hgone
        exact absurd hd hgone.1
  | clearActive => exact absurd hd hgone
  | clearPreviouslyActive => exact absurd rfl hdm3
  | tick elapsedMs =>
    rcases log.tick_cases elapsedMs with ⟨-, ho⟩ | ⟨-, -, ho⟩ <;>
      exact absurd ((congrArg (fun r => r.2.previous) ho).symm ▸ hd) hgone

/-- A fault that is refused changes nothing. -/
theorem refused_unchanged {log : FaultLog N} {op : Op} {err : Error}
    (h : (log.apply op).1 = .raised (.error err)) : (log.apply op).2 = log := by
  cases op with
  | set spn fmi lamp =>
    rcases log.set_cases spn fmi lamp with ⟨e, -, ho⟩ | ⟨index, -, -, ho⟩ | ⟨-, -, -, ho⟩
    · exact congrArg Prod.snd ho
    · have hreply : Reply.raised (log.set spn fmi lamp).1 = .raised (.error err) := h
      rw [ho] at hreply
      cases hreply
    · have hreply : Reply.raised (log.set spn fmi lamp).1 = .raised (.error err) := h
      rw [ho] at hreply
      cases hreply
  | clear spn fmi => cases h
  | clearActive => cases h
  | clearPreviouslyActive => cases h
  | tick elapsedMs => cases h

/-- What raising a fault does to the lists: nothing if it is active, and
else it goes behind the active ones and out of the history. -/
theorem set_lists {log : FaultLog N} {spn : Nat} {fmi : UInt8} {lamp : Lamp}
    (h : (log.apply (.set spn fmi lamp)).1 = .raised (.ok ())) :
    if Names log.active (spn, fmi) then
      (log.apply (.set spn fmi lamp)).2.active = log.active
        ∧ (log.apply (.set spn fmi lamp)).2.previous = log.previous
    else
      (log.apply (.set spn fmi lamp)).2.active
          = log.active ++ [⟨spn, fmi, nextCount log.previous spn fmi, true⟩]
        ∧ (log.apply (.set spn fmi lamp)).2.previous = without log.previous spn fmi := by
  have hraised : Reply.raised (log.set spn fmi lamp).1 = .raised (.ok ()) := h
  show if Names log.active (spn, fmi) then
      (log.set spn fmi lamp).2.active = log.active ∧ (log.set spn fmi lamp).2.previous = log.previous
    else _
  rcases log.set_cases spn fmi lamp with ⟨e, -, ho⟩ | ⟨index, hfind, -, ho⟩ | ⟨hnot, -, -, ho⟩
  · rw [ho] at hraised
    cases hraised
  · obtain ⟨hlt, hkey⟩ := find_eq_some hfind
    rw [if_pos ⟨log.active[index], List.getElem_mem hlt, hkey⟩, ho]
    exact ⟨rfl, rfl⟩
  · rw [if_neg hnot]
    exact ⟨congrArg (fun r => r.2.active) ho, congrArg (fun r => r.2.previous) ho⟩

/-- What retiring a fault does to the lists: nothing if it is not active,
and else it goes behind the history, which makes room if it is full. -/
theorem clear_lists {log : FaultLog N} (h : log.WF) (spn : Nat) (fmi : UInt8) :
    if Names log.active (spn, fmi) then
      (log.apply (.clear spn fmi)).1 = .cleared true
        ∧ ∃ index, ∃ hlt : index < log.active.length, log.active[index].key = (spn, fmi)
          ∧ (log.apply (.clear spn fmi)).2.active = log.active.eraseIdx index
          ∧ (log.apply (.clear spn fmi)).2.previous
            = (if log.previous.length = N then log.previous.tail else log.previous)
              ++ [log.active[index]]
    else (log.apply (.clear spn fmi)).1 = .cleared false
      ∧ (log.apply (.clear spn fmi)).2 = log := by
  rcases log.clear_cases spn fmi h.disjoint with ⟨hnot, ho⟩ | ⟨index, hlt, -, hkey, ho⟩
  · rw [if_neg hnot]
    exact ⟨congrArg (fun r : Bool × FaultLog N => Reply.cleared r.1) ho, congrArg Prod.snd ho⟩
  · rw [if_pos ⟨log.active[index], List.getElem_mem hlt, hkey⟩]
    exact ⟨congrArg (fun r : Bool × FaultLog N => Reply.cleared r.1) ho, index, hlt, hkey,
      congrArg (fun r => r.2.active) ho, congrArg (fun r => r.2.previous) ho⟩

/-- **What the log shows is what its run says.** -/
structure Refines (tr : List (Entry (FaultLog N) Op Reply)) (log : FaultLog N) : Prop where
  active_le : log.active.length ≤ N
  previous_le : log.previous.length ≤ N
  nodup : ((log.active ++ log.previous).map Dtc.key).Nodup
  raised : InOrder raises tr log.active
  retired : InOrder retires tr log.previous
  counts : ∀ d ∈ log.active ++ log.previous,
    d.occurrenceCount.toNat = min 127 (occurrences tr d.key)
  evicted : ∀ e ∈ tr, ∀ d ∈ e.before.previous, d ∉ e.after.previous →
    e.event ≠ .clearPreviouslyActive → raises d.key e = false →
    e.before.previous.head? = some d ∧ e.before.previous.length = N
  lit : ∀ lamp, log.lamps.statusOf lamp
    = if ∃ d ∈ log.active, lastNamed tr d.key = some lamp then .on else .off
  steady : ∀ lamp, log.lamps.flashStatus lamp = .off
  refused : ∀ e ∈ tr, ∀ err, e.out = .raised (.error err) → e.after = e.before
  accepted : ∀ e ∈ tr, ∀ spn fmi lamp, e.event = .set spn fmi lamp → e.out = .raised (.ok ()) →
    if Names e.before.active (spn, fmi) then
      e.after.active = e.before.active ∧ e.after.previous = e.before.previous
    else
      e.after.active
          = e.before.active ++ [⟨spn, fmi, nextCount e.before.previous spn fmi, true⟩]
        ∧ e.after.previous = without e.before.previous spn fmi
  cleared : ∀ e ∈ tr, ∀ spn fmi, e.event = .clear spn fmi →
    if Names e.before.active (spn, fmi) then
      e.out = .cleared true
        ∧ ∃ index, ∃ hlt : index < e.before.active.length,
          e.before.active[index].key = (spn, fmi)
          ∧ e.after.active = e.before.active.eraseIdx index
          ∧ e.after.previous
            = (if e.before.previous.length = N then e.before.previous.tail else e.before.previous)
              ++ [e.before.active[index]]
    else e.out = .cleared false ∧ e.after = e.before

/-- **The log refines its history**: after any operations on a new log of
any capacity, its lists, their order, its counts and its lamps are those
the run determines, and every fault raised or retired on the way went
where it belongs. -/
theorem log_refines_its_history (ops : List Op) :
    ∃ tr log, run step (FaultLog.new : FaultLog N) ops = .ok (tr, log) ∧ Refines tr log := by
  obtain ⟨tr, log, hrun, h⟩ := run_wf (N := N) ops
  obtain ⟨htrace, -⟩ := run_trace hrun
  have hr := trace_remembers htrace
  -- every entry is an operation on a well-formed log
  have hentry : ∀ e ∈ tr, e.before.WF ∧ e = e.before.entry e.event := by
    intro e he
    obtain ⟨pre, post, rfl⟩ := List.append_of_mem he
    obtain ⟨hpre, hstep⟩ := htrace.split
    exact ⟨trace_wf hpre, (step_eq hstep).1⟩
  refine ⟨tr, log, hrun, h.active_le, h.previous_le, h.nodup, hr.raised, hr.retired, hr.counts,
    ?_, ?_, ?_, ?_, ?_, ?_⟩
  · intro e he d hd hgone hdm3 hraise
    obtain ⟨hwf, heq⟩ := hentry e he
    rw [heq] at hgone hraise
    exact leaves_history hwf hd hgone hdm3 hraise
  · intro lamp
    have hmem : lamp ∈ log.activeLamps ↔ ∃ d ∈ log.active, lastNamed tr d.key = some lamp := by
      rw [← List.mem_map, ← hr.lamps]
      simp
    unfold lamps
    rw [lit_status]
    by_cases hlit : lamp ∈ log.activeLamps
    · rw [if_pos hlit, if_pos (hmem.mp hlit)]
    · rw [if_neg hlit, if_neg (fun hex => hlit (hmem.mpr hex))]
      cases lamp <;> rfl
  · intro lamp
    unfold lamps Lamps.flashStatus
    rw [lit_flash]
    cases lamp <;> rfl
  · intro e he err hout
    obtain ⟨-, heq⟩ := hentry e he
    rw [heq] at hout ⊢
    exact refused_unchanged hout
  · intro e he spn fmi lamp hset hout
    obtain ⟨-, heq⟩ := hentry e he
    rw [heq, hset] at hout ⊢
    exact set_lists hout
  · intro e he spn fmi hclear
    obtain ⟨hwf, heq⟩ := hentry e he
    rw [heq, hclear]
    exact clear_lists hwf spn fmi

end SaeJ1939.Diagnostics.FaultLog
