/-
  SaeJ1939.Host.Definitions — which definitions of a DBC file survive its
  parsing (`dbc.rs`).

  What a file says is its messages, each with the signals below it, and
  the lines that name a signal.  The parser keeps one message for a
  parameter group, so of several with one group, from different ECUs say,
  it keeps the last.

  Main results:
    * `message_parse` — what a message is looked up as.
    * `losesNothing_iff` — exactly which files lose no definition.
    * `lastRepeats_of_distinct` — among them all in which no group is
      defined twice and no signal is named twice.
-/
import SaeJ1939.Host.Dbc

namespace SaeJ1939.Host.Dbc

open Checked Text

/-! ## §1. What a file says. -/

/-- The last message of a group, of messages with the last of them first. -/
def lastOf {φ : Type} (blocks : List (Message φ)) (pgn : Nat) : Option (Message φ) :=
  blocks.find? fun m => m.pgn.raw == pgn

theorem lastOf_cons {φ : Type} (m : Message φ) (blocks : List (Message φ)) (pgn : Nat) :
    lastOf (m :: blocks) pgn = if m.pgn.raw = pgn then some m else lastOf blocks pgn := by
  unfold lastOf
  rw [List.find?_cons]
  by_cases h : m.pgn.raw = pgn
  · rw [if_pos h, beq_iff_eq.mpr h]
  · rw [if_neg h, beq_eq_false_iff_ne.mpr h]

theorem exists_lastOf {φ : Type} {block : Message φ} {blocks : List (Message φ)}
    (h : block ∈ blocks) : ∃ last, lastOf blocks block.pgn.raw = some last :=
  Option.isSome_iff_exists.mp (List.find?_isSome.mpr ⟨block, h, beq_self_eq_true _⟩)

theorem pgn_lastOf {φ : Type} {last : Message φ} {blocks : List (Message φ)} {pgn : Nat}
    (h : lastOf blocks pgn = some last) : last.pgn.raw = pgn := by
  simpa using List.find?_some h

/-- The definitions of a file. -/
structure Written (φ : Type) where
  /-- The messages, the last of them first. -/
  blocks : List (Message φ)
  valueTables : List (Attribute ValueNames)
  spnAttributes : List (Attribute Nat)

namespace Written

variable {φ : Type}

/-- What one more line says; nothing, where it is malformed. -/
def readLine [F64 φ] (w : Written φ) (rawLine : List Char) (number : Nat) : Written φ :=
  let line := trim rawLine
  match stripLead "BO_ ".toList line with
  | some rest =>
      match parseMessage rest number with
      | .ok message => { w with blocks := message :: w.blocks }
      | .error _ => w
  | none =>
  match stripLead "SG_ ".toList line with
  | some rest =>
      match parseSignal rest number, w.blocks with
      | .ok signal, block :: blocks => { w with blocks := block.push signal :: blocks }
      | _, _ => w
  | none =>
  match stripLead "VAL_ ".toList line with
  | some rest => { w with valueTables := w.valueTables ++ (parseValueTable rest).toList }
  | none =>
  match stripLead "BA_ ".toList line with
  | some rest => { w with spnAttributes := w.spnAttributes ++ (parseSpnAttribute rest).toList }
  | none => w

end Written

/-- What a text says. -/
def written (φ : Type) [F64 φ] (text : List Char) : Written φ :=
  (lines text).zipIdx.foldl (fun w (rawLine, index) => w.readLine rawLine (index + 1)) ⟨[], [], []⟩

/-! ## §2. What the parser keeps of it. -/

section Parsing

variable {φ : Type}

/-- What the loop has kept of the lines so far: the last message of each
group, and every line that names a signal. -/
structure Keeps (p : Parsing φ) (w : Written φ) : Prop where
  messages : ∀ key : Nat, p.messages[key]? = lastOf w.blocks key
  /-- Signals are added to the last message. -/
  current : ∀ key, p.current = some key → ∃ m rest, w.blocks = m :: rest ∧ m.pgn.raw = key
  valueTables : p.valueTables = w.valueTables
  spnAttributes : p.spnAttributes = w.spnAttributes
  /-- A signal is written before any line names it. -/
  fresh : ∀ m ∈ w.blocks, ∀ s ∈ m.signals, s.spn = none ∧ s.valueNames = ∅

theorem keeps_start : Keeps (Parsing.start : Parsing φ) ⟨[], [], []⟩ where
  messages _ := Std.ExtTreeMap.getElem?_empty
  current _ h := nomatch h
  valueTables := rfl
  spnAttributes := rfl
  fresh _ h := nomatch h

theorem okOr_eq_ok {α : Type} {value : Option α} {e : DbcError} {a : α} :
    okOr value e = .ok a ↔ value = some a := by
  cases value with
  | none => simp [okOr]
  | some b => simp [okOr]

/-- A message is written without signals. -/
theorem parseMessage_signals {rest : List Char} {line : Nat} {m : Message φ}
    (h : parseMessage rest line = .ok m) : m.signals = [] := by
  unfold parseMessage at h
  obtain ⟨⟨idText, rest⟩, -, h⟩ := bind_eq_ok.mp h
  obtain ⟨rawId, -, h⟩ := bind_eq_ok.mp h
  dsimp only at h
  split at h
  next => cases h
  next id _ =>
    obtain ⟨⟨name, rest⟩, -, h⟩ := bind_eq_ok.mp h
    obtain ⟨dlcText, -, h⟩ := bind_eq_ok.mp h
    obtain ⟨dlc, -, h⟩ := bind_eq_ok.mp h
    cases h
    rfl

/-- A signal is written without what other lines say of it. -/
theorem parseSignal_fresh [F64 φ] {rest : List Char} {line : Nat} {s : Signal φ}
    (h : parseSignal rest line = .ok s) : s.spn = none ∧ s.valueNames = ∅ := by
  obtain ⟨layout, -, hs⟩ := bind_eq_ok.mp h
  cases hs
  exact ⟨rfl, rfl⟩

/-- A message line, kept. -/
theorem Keeps.message {p : Parsing φ} {w : Written φ} (h : Keeps p w) {m : Message φ}
    (hm : m.signals = []) :
    Keeps { p with current := some m.pgn.raw, messages := p.messages.insert m.pgn.raw m }
      { w with blocks := m :: w.blocks } where
  messages key := by
    rw [Std.ExtTreeMap.getElem?_insert, lastOf_cons, h.messages]
    simp only [Nat.compare_eq_eq]
  current key hkey := ⟨m, w.blocks, rfl, Option.some.inj hkey⟩
  valueTables := h.valueTables
  spnAttributes := h.spnAttributes
  fresh m' hm' := by
    rcases List.mem_cons.mp hm' with rfl | hm'
    · rw [hm]
      intro s hs
      exact absurd hs List.not_mem_nil
    · exact h.fresh m' hm'

/-- A signal line, kept. -/
theorem Keeps.signal {p : Parsing φ} {blocks : List (Message φ)} {m : Message φ}
    {tables : List (Attribute ValueNames)} {spns : List (Attribute Nat)}
    (h : Keeps p ⟨m :: blocks, tables, spns⟩) {key : Nat} (hcurrent : p.current = some key)
    {s : Signal φ} (hs : s.spn = none ∧ s.valueNames = ∅) :
    Keeps { p with messages := p.messages.modify key fun m => m.push s }
      ⟨m.push s :: blocks, tables, spns⟩ where
  messages key' := by
    obtain ⟨m', rest, hblocks, hkey⟩ := h.current key hcurrent
    injection hblocks with hm' _
    subst hm'
    -- the signal goes to the last message, which is the one kept for its group
    have hpush : (m.push s).pgn = m.pgn := rfl
    have hmessages := h.messages
    simp only [lastOf_cons, hkey] at hmessages
    simp only [Std.ExtTreeMap.getElem?_modify, lastOf_cons, hpush, hkey, hmessages,
      Nat.compare_eq_eq, if_true, Option.map_some]
    split <;> rfl
  current key' hkey' := by
    obtain ⟨m', rest, hblocks, hkey⟩ := h.current key' hkey'
    injection hblocks with hm' _
    subst hm'
    exact ⟨m.push s, blocks, rfl, hkey⟩
  valueTables := h.valueTables
  spnAttributes := h.spnAttributes
  fresh m' hm' := by
    rcases List.mem_cons.mp hm' with rfl | hm'
    · intro s' hs'
      rcases List.mem_append.mp hs' with hs' | hs'
      · exact h.fresh m List.mem_cons_self s' hs'
      · exact List.mem_singleton.mp hs' ▸ hs
    · exact h.fresh m' (List.mem_cons_of_mem _ hm')

variable [F64 φ]

/-- **One line, kept.** -/
theorem Keeps.readLine {p p' : Parsing φ} {w : Written φ} {rawLine : List Char} {number : Nat}
    (h : Keeps p w) (hline : p.readLine rawLine number = .ok p') :
    Keeps p' (w.readLine rawLine number) := by
  unfold Parsing.readLine at hline
  unfold Written.readLine
  dsimp only at hline ⊢
  cases hbo : stripLead "BO_ ".toList (trim rawLine) with
  | some rest =>
    rw [hbo] at hline
    obtain ⟨m, hm, hline⟩ := bind_eq_ok.mp hline
    cases hline
    dsimp only
    rw [hm]
    exact h.message (parseMessage_signals hm)
  | none =>
    rw [hbo] at hline
    dsimp only at hline ⊢
    cases hsg : stripLead "SG_ ".toList (trim rawLine) with
    | some rest =>
      rw [hsg] at hline
      obtain ⟨key, hkey, hline⟩ := bind_eq_ok.mp hline
      obtain ⟨s, hs, hline⟩ := bind_eq_ok.mp hline
      cases hline
      have hcurrent := okOr_eq_ok.mp hkey
      obtain ⟨blocks, tables, spns⟩ := w
      obtain ⟨m, rest', hblocks, -⟩ := h.current key hcurrent
      cases hblocks
      dsimp only
      rw [hs]
      exact h.signal hcurrent (parseSignal_fresh hs)
    | none =>
      rw [hsg] at hline
      dsimp only at hline ⊢
      -- what is left does not touch the messages
      cases hval : stripLead "VAL_ ".toList (trim rawLine) with
      | some rest =>
        rw [hval] at hline
        cases hline
        exact ⟨h.messages, fun _ h => (nomatch h), congrArg (· ++ _) h.valueTables,
          h.spnAttributes, h.fresh⟩
      | none =>
        rw [hval] at hline
        dsimp only at hline ⊢
        cases hba : stripLead "BA_ ".toList (trim rawLine) with
        | some rest =>
          rw [hba] at hline
          cases hline
          exact ⟨h.messages, fun _ h => (nomatch h), h.valueTables,
            congrArg (· ++ _) h.spnAttributes, h.fresh⟩
        | none =>
          rw [hba] at hline
          dsimp only at hline ⊢
          split at hline
          next =>
            cases hline
            exact ⟨h.messages, fun _ h => (nomatch h), h.valueTables, h.spnAttributes, h.fresh⟩
          next =>
            cases hline
            exact h

/-- **All the lines, kept.** -/
theorem Keeps.readLines (numbered : List (List Char × Nat)) {p p' : Parsing φ} {w : Written φ}
    (h : Keeps p w)
    (hlines : numbered.foldlM
      (fun (p : Parsing φ) (rawLine, index) => p.readLine rawLine (index + 1)) p = .ok p') :
    Keeps p' (numbered.foldl (fun w (rawLine, index) => w.readLine rawLine (index + 1)) w) := by
  induction numbered generalizing p w with
  | nil =>
    cases hlines
    exact h
  | cons line numbered ih =>
    obtain ⟨rawLine, index⟩ := line
    rw [List.foldlM_cons] at hlines
    obtain ⟨next, hnext, hlines⟩ := bind_eq_ok.mp hlines
    exact ih (h.readLine hnext) hlines

/-- A message with what lines say of its signals. -/
def Written.decorate (w : Written φ) (m : Message φ) : Message φ :=
  (m.amendAll setValueNames w.valueTables).amendAll setSpn w.spnAttributes

/-- **What a group is looked up as**: its last message, with what the
lines that name that message say of its signals. -/
theorem message_parse {text : List Char} {dbc : Dbc φ} (h : parse text = .ok dbc) (pgn : Pgn) :
    dbc.message pgn
      = (lastOf (written φ text).blocks pgn.raw).map (written φ text).decorate := by
  obtain ⟨p, hp, hdbc⟩ := bind_eq_ok.mp h
  cases hdbc
  have hkeeps : Keeps p (written φ text) := keeps_start.readLines _ hp
  have hkeyed : Keyed p.messages := by
    intro key m hm
    rw [hkeeps.messages] at hm
    exact pgn_lastOf hm
  unfold Dbc.message
  rw [getElem?_attach (keyed_attach hkeyed _ _), getElem?_attach hkeyed, hkeeps.messages,
    hkeeps.valueTables, hkeeps.spnAttributes, Option.map_map]
  rfl

theorem fresh_of_parse {text : List Char} {dbc : Dbc φ} (h : parse text = .ok dbc) :
    ∀ m ∈ (written φ text).blocks, ∀ s ∈ m.signals, s.spn = none ∧ s.valueNames = ∅ := by
  obtain ⟨p, hp, -⟩ := bind_eq_ok.mp h
  exact (keeps_start.readLines _ hp).fresh

end Parsing

/-! ## §3. What is lost. -/

section Losing

variable {φ : Type}

theorem layouts_decorate (w : Written φ) (m : Message φ) :
    (w.decorate m).signals.map Signal.toLayout = m.signals.map Signal.toLayout := by
  unfold Written.decorate
  rw [layouts_amendAll (f := setSpn) fun _ _ => rfl,
    layouts_amendAll (f := setValueNames) fun _ _ => rfl]

/-- The last line of either kind counts for a signal. -/
theorem signal_decorate (w : Written φ) (m : Message φ) (name : List Char) :
    (w.decorate m).signal name = (m.signal name).map fun s =>
      (lastValue w.spnAttributes m.id.raw name).elim
        ((lastValue w.valueTables m.id.raw name).elim s fun table => setValueNames table s)
        fun spn => setSpn spn
          ((lastValue w.valueTables m.id.raw name).elim s fun table => setValueNames table s) := by
  unfold Written.decorate
  rw [signal_amendAll (f := setSpn) (fun _ _ => rfl) (fun _ _ _ => rfl),
    signal_amendAll (f := setValueNames) (fun _ _ => rfl) (fun _ _ _ => rfl), id_amendAll,
    Option.map_map]
  rfl

/-- A signal that is written, with what the last lines for it say. -/
theorem signal_decorate_some (w : Written φ) {m : Message φ}
    (hfresh : ∀ s ∈ m.signals, s.spn = none ∧ s.valueNames = ∅) {name : List Char}
    {s : Signal φ} (hs : m.signal name = some s) :
    (w.decorate m).signal name = some
      { toLayout := s.toLayout
        spn := lastValue w.spnAttributes m.id.raw name
        valueNames := (lastValue w.valueTables m.id.raw name).getD ∅ } := by
  -- nothing is attached to it but what these lines say
  obtain ⟨hspn, hnames⟩ := hfresh s (List.mem_of_find?_eq_some hs)
  rw [signal_decorate, hs, Option.map_some]
  obtain ⟨layout, spn, names⟩ := s
  dsimp only at hspn hnames
  subst hspn hnames
  cases lastValue w.spnAttributes m.id.raw name <;>
    cases lastValue w.valueTables m.id.raw name <;> rfl

/-- A signal of the decorated message is one that is written. -/
theorem signal_of_decorate (w : Written φ) {m : Message φ} {name : List Char} {s' : Signal φ}
    (hs' : (w.decorate m).signal name = some s') : ∃ s, m.signal name = some s := by
  rw [signal_decorate] at hs'
  obtain ⟨s, hs, -⟩ := Option.map_eq_some_iff.mp hs'
  exact ⟨s, hs⟩

/-- **No definition is lost**: every signal is found, as it is written,
under the group of its message, and whatever a line says of a signal that
is defined is attached to it there. -/
structure LosesNothing (w : Written φ) (dbc : Dbc φ) : Prop where
  signals : ∀ block ∈ w.blocks, ∀ s ∈ block.signals, ∃ m, dbc.message block.pgn = some m
    ∧ ∃ s' ∈ m.signals, s'.toLayout = s.toLayout
  valueTables : ∀ a ∈ w.valueTables, ∀ block ∈ w.blocks, block.id.raw = a.id →
    ∀ s, block.signal a.signal = some s → ∃ m s', dbc.message block.pgn = some m
      ∧ m.signal a.signal = some s' ∧ s'.toLayout = s.toLayout ∧ s'.valueNames = a.value
  spnAttributes : ∀ a ∈ w.spnAttributes, ∀ block ∈ w.blocks, block.id.raw = a.id →
    ∀ s, block.signal a.signal = some s → ∃ m s', dbc.message block.pgn = some m
      ∧ m.signal a.signal = some s' ∧ s'.toLayout = s.toLayout ∧ s'.spn = some a.value

/-- **The last message of each group repeats the others**: it has every
signal of theirs, as it is written there, and the last lines for its
signals say what any line says of theirs. -/
structure LastRepeats (w : Written φ) : Prop where
  signals : ∀ block ∈ w.blocks, ∀ s ∈ block.signals,
    ∀ last, lastOf w.blocks block.pgn.raw = some last →
      ∃ s' ∈ last.signals, s'.toLayout = s.toLayout
  valueTables : ∀ a ∈ w.valueTables, ∀ block ∈ w.blocks, block.id.raw = a.id →
    ∀ s, block.signal a.signal = some s → ∀ last, lastOf w.blocks block.pgn.raw = some last →
      (∃ s', last.signal a.signal = some s' ∧ s'.toLayout = s.toLayout)
        ∧ (lastValue w.valueTables last.id.raw a.signal).getD ∅ = a.value
  spnAttributes : ∀ a ∈ w.spnAttributes, ∀ block ∈ w.blocks, block.id.raw = a.id →
    ∀ s, block.signal a.signal = some s → ∀ last, lastOf w.blocks block.pgn.raw = some last →
      (∃ s', last.signal a.signal = some s' ∧ s'.toLayout = s.toLayout)
        ∧ lastValue w.spnAttributes last.id.raw a.signal = some a.value

/-- The layouts of a message and of its decorated form. -/
theorem exists_layout_iff (w : Written φ) (m : Message φ) (layout : Layout φ) :
    (∃ s' ∈ (w.decorate m).signals, s'.toLayout = layout)
      ↔ ∃ s' ∈ m.signals, s'.toLayout = layout := by
  have hmem : ∀ signals : List (Signal φ),
      (∃ s' ∈ signals, s'.toLayout = layout) ↔ layout ∈ signals.map Signal.toLayout := by
    intro signals
    rw [List.mem_map]
  rw [hmem, hmem, layouts_decorate]

/-- What a decorated message has under a name. -/
theorem exists_signal_iff (w : Written φ) {m : Message φ}
    (hfresh : ∀ s ∈ m.signals, s.spn = none ∧ s.valueNames = ∅) (name : List Char)
    (layout : Layout φ) (P : Signal φ → Prop) (Q : Prop)
    (hPQ : P { toLayout := layout
               spn := lastValue w.spnAttributes m.id.raw name
               valueNames := (lastValue w.valueTables m.id.raw name).getD ∅ } ↔ Q) :
    (∃ s', (w.decorate m).signal name = some s' ∧ s'.toLayout = layout ∧ P s')
      ↔ (∃ s', m.signal name = some s' ∧ s'.toLayout = layout) ∧ Q := by
  constructor
  · rintro ⟨s', hs', hlayout, hP⟩
    obtain ⟨s, hs⟩ := signal_of_decorate w hs'
    rw [signal_decorate_some w hfresh hs] at hs'
    cases hs'
    dsimp only at hlayout
    subst hlayout
    exact ⟨⟨s, hs, rfl⟩, hPQ.mp hP⟩
  · rintro ⟨⟨s, hs, hlayout⟩, hQ⟩
    subst hlayout
    exact ⟨_, signal_decorate_some w hfresh hs, rfl, hPQ.mpr hQ⟩

/-- What a group is looked up as has, under a name, what its last message
has. -/
theorem found_iff {w : Written φ} {dbc : Dbc φ}
    (hmessage : ∀ pgn : Pgn, dbc.message pgn = (lastOf w.blocks pgn.raw).map w.decorate)
    (hfresh : ∀ m ∈ w.blocks, ∀ s ∈ m.signals, s.spn = none ∧ s.valueNames = ∅)
    {block : Message φ} (hblock : block ∈ w.blocks) (name : List Char) (layout : Layout φ)
    (P : Signal φ → Prop) (Q : Message φ → Prop)
    (hPQ : ∀ last : Message φ, P { toLayout := layout
                                   spn := lastValue w.spnAttributes last.id.raw name
                                   valueNames := (lastValue w.valueTables last.id.raw name).getD ∅ }
      ↔ Q last) :
    (∃ m s', dbc.message block.pgn = some m ∧ m.signal name = some s' ∧ s'.toLayout = layout
        ∧ P s')
      ↔ ∀ last, lastOf w.blocks block.pgn.raw = some last →
          (∃ s', last.signal name = some s' ∧ s'.toLayout = layout) ∧ Q last := by
  obtain ⟨last, hlast⟩ := exists_lastOf hblock
  have hlookup : dbc.message block.pgn = some (w.decorate last) := by
    rw [hmessage, hlast, Option.map_some]
  have hiff := exists_signal_iff w (hfresh last (List.mem_of_find?_eq_some hlast)) name layout P
    (Q last) (hPQ last)
  constructor
  · rintro ⟨m, s', hm, hs'⟩ last' hlast'
    cases hlast.symm.trans hlast'
    cases hlookup.symm.trans hm
    exact hiff.mp ⟨s', hs'⟩
  · intro h
    obtain ⟨s', hs'⟩ := hiff.mpr (h last hlast)
    exact ⟨_, s', hlookup, hs'⟩

/-- The same of its layouts. -/
theorem found_layout_iff {w : Written φ} {dbc : Dbc φ}
    (hmessage : ∀ pgn : Pgn, dbc.message pgn = (lastOf w.blocks pgn.raw).map w.decorate)
    {block : Message φ} (hblock : block ∈ w.blocks) (layout : Layout φ) :
    (∃ m, dbc.message block.pgn = some m ∧ ∃ s' ∈ m.signals, s'.toLayout = layout)
      ↔ ∀ last, lastOf w.blocks block.pgn.raw = some last →
          ∃ s' ∈ last.signals, s'.toLayout = layout := by
  obtain ⟨last, hlast⟩ := exists_lastOf hblock
  have hlookup : dbc.message block.pgn = some (w.decorate last) := by
    rw [hmessage, hlast, Option.map_some]
  constructor
  · rintro ⟨m, hm, hs'⟩ last' hlast'
    cases hlast.symm.trans hlast'
    cases hlookup.symm.trans hm
    exact (exists_layout_iff w last layout).mp hs'
  · intro h
    exact ⟨_, hlookup, (exists_layout_iff w last layout).mpr (h last hlast)⟩

/-- The exact condition, of what a group is looked up as. -/
theorem losesNothing_of_message {w : Written φ} {dbc : Dbc φ}
    (hmessage : ∀ pgn : Pgn, dbc.message pgn = (lastOf w.blocks pgn.raw).map w.decorate)
    (hfresh : ∀ m ∈ w.blocks, ∀ s ∈ m.signals, s.spn = none ∧ s.valueNames = ∅) :
    LosesNothing w dbc ↔ LastRepeats w := by
  have htable : ∀ {block : Message φ}, block ∈ w.blocks → ∀ (a : Attribute ValueNames) layout, _ :=
    fun hblock a layout => found_iff hmessage hfresh hblock a.signal layout
      (fun s' => s'.valueNames = a.value)
      (fun last => (lastValue w.valueTables last.id.raw a.signal).getD ∅ = a.value)
      (fun _ => Iff.rfl)
  have hspn : ∀ {block : Message φ}, block ∈ w.blocks → ∀ (a : Attribute Nat) layout, _ :=
    fun hblock a layout => found_iff hmessage hfresh hblock a.signal layout
      (fun s' => s'.spn = some a.value)
      (fun last => lastValue w.spnAttributes last.id.raw a.signal = some a.value)
      (fun _ => Iff.rfl)
  constructor
  · intro h
    exact
      { signals := fun block hblock s hs =>
          (found_layout_iff hmessage hblock s.toLayout).mp (h.signals block hblock s hs)
        valueTables := fun a ha block hblock hid s hs =>
          (htable hblock a s.toLayout).mp (h.valueTables a ha block hblock hid s hs)
        spnAttributes := fun a ha block hblock hid s hs =>
          (hspn hblock a s.toLayout).mp (h.spnAttributes a ha block hblock hid s hs) }
  · intro h
    exact
      { signals := fun block hblock s hs =>
          (found_layout_iff hmessage hblock s.toLayout).mpr (h.signals block hblock s hs)
        valueTables := fun a ha block hblock hid s hs =>
          (htable hblock a s.toLayout).mpr (h.valueTables a ha block hblock hid s hs)
        spnAttributes := fun a ha block hblock hid s hs =>
          (hspn hblock a s.toLayout).mpr (h.spnAttributes a ha block hblock hid s hs) }

/-- A group that is written once is its own last. -/
theorem lastOf_of_distinct {blocks : List (Message φ)}
    (h : blocks.Pairwise fun m m' => m.pgn.raw ≠ m'.pgn.raw) {m : Message φ} (hm : m ∈ blocks) :
    lastOf blocks m.pgn.raw = some m := by
  induction h with
  | nil => exact absurd hm List.not_mem_nil
  | @cons first blocks hfirst _ ih =>
    rw [lastOf_cons]
    rcases List.mem_cons.mp hm with rfl | hm
    · exact if_pos rfl
    · rw [if_neg (hfirst m hm), ih hm]

/-- A line for a signal that has no other counts. -/
theorem lastValue_of_distinct {α : Type} {attributes : List (Attribute α)}
    (h : attributes.Pairwise fun a b => ¬ (a.id = b.id ∧ a.signal = b.signal)) {a : Attribute α}
    (ha : a ∈ attributes) : lastValue attributes a.id a.signal = some a.value := by
  have hnone : ∀ (rest : List (Attribute α)) (b : Attribute α),
      (∀ c ∈ rest, ¬ (b.id = c.id ∧ b.signal = c.signal)) →
        lastValue rest b.id b.signal = none := by
    intro rest b hrest
    induction rest with
    | nil => rfl
    | cons c rest ih =>
      have hc := hrest c List.mem_cons_self
      rw [lastValue, ih fun d hd => hrest d (List.mem_cons_of_mem _ hd), Option.none_or,
        if_neg fun he => hc ⟨he.1.symm, he.2.symm⟩]
  induction h with
  | nil => exact absurd ha List.not_mem_nil
  | @cons first rest hfirst _ ih =>
    rw [lastValue]
    -- a line counts unless one behind it names the same signal
    rcases List.mem_cons.mp ha with rfl | ha
    · rw [hnone rest a hfirst, Option.none_or, if_pos ⟨rfl, rfl⟩]
    · rw [ih ha, Option.some_or]

/-- **Nothing is lost where nothing is said twice**: no group has two
messages, and no signal two tables or two numbers. -/
theorem lastRepeats_of_distinct {w : Written φ}
    (hblocks : w.blocks.Pairwise fun m m' => m.pgn.raw ≠ m'.pgn.raw)
    (htables : w.valueTables.Pairwise fun a b => ¬ (a.id = b.id ∧ a.signal = b.signal))
    (hspns : w.spnAttributes.Pairwise fun a b => ¬ (a.id = b.id ∧ a.signal = b.signal)) :
    LastRepeats w where
  signals := by
    intro block hblock s hs last hlast
    cases (lastOf_of_distinct hblocks hblock).symm.trans hlast
    exact ⟨s, hs, rfl⟩
  valueTables := by
    intro a ha block hblock hid s hs last hlast
    cases (lastOf_of_distinct hblocks hblock).symm.trans hlast
    rw [hid, lastValue_of_distinct htables ha]
    exact ⟨⟨s, hs, rfl⟩, rfl⟩
  spnAttributes := by
    intro a ha block hblock hid s hs last hlast
    cases (lastOf_of_distinct hblocks hblock).symm.trans hlast
    rw [hid, lastValue_of_distinct hspns ha]
    exact ⟨⟨s, hs, rfl⟩, rfl⟩

/-- A signal is lost if the last message of its group has none of that
name. -/
theorem not_lastRepeats {w : Written φ} {last block : Message φ} {rest : List (Message φ)}
    (hblocks : w.blocks = last :: rest) (hblock : block ∈ rest)
    (hpgn : last.pgn.raw = block.pgn.raw) {s : Signal φ} (hs : s ∈ block.signals)
    (hname : s.name ∉ last.signals.map fun s => s.name) : ¬ LastRepeats w := by
  intro h
  have hmem : block ∈ w.blocks := by
    rw [hblocks]
    exact List.mem_cons_of_mem _ hblock
  have hlast : lastOf w.blocks block.pgn.raw = some last := by
    rw [hblocks, lastOf_cons, if_pos hpgn]
  obtain ⟨s', hs', hlayout⟩ := h.signals block hmem s hs last hlast
  have hsame : s'.name = s.name := congrArg Layout.name hlayout
  rw [← hsame] at hname
  exact hname (List.mem_map_of_mem hs')

/-- **Exactly which files lose no definition**: those in which the last
message of each group repeats the others. -/
theorem losesNothing_iff [F64 φ] {text : List Char} {dbc : Dbc φ} (h : parse text = .ok dbc) :
    LosesNothing (written φ text) dbc ↔ LastRepeats (written φ text) :=
  losesNothing_of_message (message_parse h) (fresh_of_parse h)

end Losing

/-- What is accepted has a result. -/
theorem exists_of_accepted {α : Type} {x : Except DbcError α} (h : x.toOption.isSome = true) :
    ∃ a, x = .ok a := by
  cases x with
  | error e => cases h
  | ok a => exact ⟨a, rfl⟩

/-- A message and a table for its signal. -/
def oneController : List Char :=
  "BO_ 2364540158 TEST: 8 Engine\n".toList
    ++ " SG_ Mode : 0|2@1+ (1,0) [0|3] \"\" Dash\n".toList
    ++ "VAL_ 2364540158 Mode 0 \"Off\" 1 \"On\" ;\n".toList

/-- Nothing in it is said twice, so nothing is lost. -/
theorem losesNothing_iff_oneController :
    ∃ dbc : Dbc (List Char), parse oneController = .ok dbc
      ∧ LastRepeats (written (List Char) oneController)
      ∧ LosesNothing (written (List Char) oneController) dbc := by
  have haccepted : ∃ dbc, (parse oneController : Except DbcError (Dbc (List Char))) = .ok dbc :=
    exists_of_accepted (by decide +kernel)
  have hrepeats : LastRepeats (written (List Char) oneController) :=
    lastRepeats_of_distinct (by decide +kernel) (by decide +kernel) (by decide +kernel)
  obtain ⟨dbc, h⟩ := haccepted
  exact ⟨dbc, h, hrepeats, (losesNothing_iff h).mpr hrepeats⟩

/-- Two ECUs that send the same group. -/
def twoControllers : List Char :=
  "BO_ 2364540158 EEC1: 8 Engine\n".toList
    ++ " SG_ EngineSpeed : 24|16@1+ (0.125,0) [0|8031.875] \"rpm\" Dash\n".toList
    ++ "BO_ 2364539904 EEC1B: 8 Retarder\n".toList
    ++ " SG_ BrakeTorque : 16|8@1+ (1,-125) [-125|125] \"%\" Dash\n".toList

/-- **The second message replaces the first**, whose signal is gone. -/
theorem later_message_replaces :
    ∃ dbc : Dbc (List Char), parse twoControllers = .ok dbc
      ∧ ((written (List Char) twoControllers).blocks.map fun m =>
          (m.pgn.raw, m.signals.map fun s => s.name))
        = [(0xF004, ["BrakeTorque".toList]), (0xF004, ["EngineSpeed".toList])]
      ∧ ¬ LosesNothing (written (List Char) twoControllers) dbc := by
  have haccepted : ∃ dbc, (parse twoControllers : Except DbcError (Dbc (List Char))) = .ok dbc :=
    exists_of_accepted (by decide +kernel)
  have hwritten : ((written (List Char) twoControllers).blocks.map fun m =>
      (m.pgn.raw, m.signals.map fun s => s.name))
      = [(0xF004, ["BrakeTorque".toList]), (0xF004, ["EngineSpeed".toList])] := by
    decide +kernel
  obtain ⟨dbc, h⟩ := haccepted
  obtain ⟨last, rest, hblocks, hlast, hrest⟩ := List.map_eq_cons_iff.mp hwritten
  obtain ⟨block, rest', hrest', hblock, -⟩ := List.map_eq_cons_iff.mp hrest
  obtain ⟨hlastPgn, hlastSignals⟩ := Prod.mk.inj hlast
  obtain ⟨hblockPgn, hblockSignals⟩ := Prod.mk.inj hblock
  obtain ⟨s, _, hsignals, hname, -⟩ := List.map_eq_cons_iff.mp hblockSignals
  have hmem : block ∈ rest := hrest' ▸ List.mem_cons_self
  have hs : s ∈ block.signals := hsignals ▸ List.mem_cons_self
  have hgone : s.name ∉ last.signals.map fun s => s.name := by
    rw [hname, hlastSignals]
    decide +kernel
  refine ⟨dbc, h, hwritten, ?_⟩
  rw [losesNothing_of_message (message_parse h) (fresh_of_parse h)]
  exact not_lastRepeats hblocks hmem (hlastPgn.trans hblockPgn.symm) hs hgone

end SaeJ1939.Host.Dbc
