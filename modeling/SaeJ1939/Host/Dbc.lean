/-
  SaeJ1939.Host.Dbc — reading signal definitions from a DBC file
  (`dbc.rs`).

  A file is read line by line: `BO_` starts a message, `SG_` adds a signal
  to it, and `VAL_` and `BA_` lines are kept and attached to the signals
  they name at the end.  The messages are kept by parameter group, which
  their identifier determines; the lines name them by identifier.  The
  numbers of a signal are floats, of which nothing is used but that they
  were read from a text.

  Main results:
    * `getElem?_attach` — what attaching one line does to each message.
-/
import SaeJ1939.Core.Id
import SaeJ1939.Host.Signal

namespace SaeJ1939.Host

open Text

namespace Dbc

/-! ## §1. Definitions. -/

/-- What is used of a float: that it is read from a text. -/
class F64 (φ : Type) where
  ofText : List Char → φ

/-- A number as it is written. -/
instance : F64 (List Char) := ⟨id⟩

/-- The names of the values of a signal. -/
abbrev ValueNames := Std.ExtTreeMap Nat (List Char)

/-- What a `SG_` line says: where the bits of a signal are and how to
scale them. -/
structure Layout (φ : Type) extends Host.Signal where
  name : List Char
  /-- Whether the raw value is two's-complement signed. -/
  signed : Bool
  factor : φ
  offset : φ
  minimum : φ
  maximum : φ
  /-- The unit, without its quotes. -/
  unit : List Char

/-- One signal within a message, with what other lines say of it. -/
structure Signal (φ : Type) extends Layout φ where
  /-- From a `BA_ "SPN" SG_ ..` attribute. -/
  spn : Option Nat
  /-- From a `VAL_` table. -/
  valueNames : ValueNames

/-- One message definition: a parameter group and the signals inside it. -/
structure Message (φ : Type) where
  pgn : Pgn
  /-- The full identifier as written in the file. -/
  id : Id
  pgn_eq : pgn = id.pgn
  name : List Char
  /-- The data length the file declares. -/
  dlc : Nat
  signals : List (Signal φ)

/-- The name a file gives to a raw value. -/
def Signal.valueName {φ : Type} (s : Signal φ) (raw : Nat) : Option (List Char) :=
  s.valueNames[raw]?

/-- A signal by name. -/
def Message.signal {φ : Type} (m : Message φ) (name : List Char) : Option (Signal φ) :=
  m.signals.find? fun s => s.name == name

/-- A line that names a signal by the identifier of its message: a value
table or a number. -/
structure Attribute (α : Type) where
  id : Nat
  signal : List Char
  value : α

/-! ## §2. Lines. -/

/-- `ok_or`. -/
def okOr {α : Type} (value : Option α) (e : DbcError) : Except DbcError α :=
  match value with
  | some a => .ok a
  | none => .error e

/-- The text between the first `opening` and the next `closing`, and what
follows. -/
def sliceBetween (text : List Char) (opening closing : Char) : Option (List Char × List Char) := do
  let (_, rest) ← splitOnce opening text
  splitOnce closing rest

/-- An extended identifier without the flag in bit 31. -/
def extended (raw : Nat) : Nat := raw &&& 0x1FFFFFFF

section Lines

variable {φ : Type} [F64 φ]

/-- `parse` of a float. -/
def parseFloat (text : List Char) : Option φ :=
  if isFloat (trim text) then some (F64.ofText (trim text)) else none

/-- `<id> <name>: <dlc> <transmitter>` -/
def parseMessage (rest : List Char) (line : Nat) : Except DbcError (Message φ) := do
  let (idText, rest) ← okOr (splitOnceBy isWhitespace rest)
    (.malformed line "BO_ <id> <name>: <dlc> <transmitter>")
  let rawId ← okOr (parseUnsigned 32 idText) (.malformed line "a numeric message identifier")
  match Id.new (extended rawId) with
  | .error _ => .error (.notJ1939 line rawId)
  | .ok id => do
      let (name, rest) ← okOr (splitOnce ':' rest)
        (.malformed line "a ':' after the message name")
      let dlcText ← okOr (splitWhitespace rest).head? (.malformed line "a data length")
      let dlc ← okOr (parseUnsigned 64 dlcText) (.malformed line "a numeric data length")
      return {
        pgn := id.pgn, id := id, pgn_eq := rfl, name := trim name, dlc := dlc, signals := [] }

/-- `<start>|<len>@<order><sign>` -/
def parseGeometry (layout : List Char) (line : Nat) : Except DbcError (Host.Signal × Bool) := do
  let (startText, tail) ← okOr (splitOnce '|' layout)
    (.malformed line "'|' between start bit and length")
  let (lenText, tail) ← okOr (splitOnce '@' tail) (.malformed line "'@' before the byte order")
  let startBit ← okOr (parseUnsigned 16 startText) (.malformed line "a numeric start bit")
  let bitLength ← okOr (parseUnsigned 16 lenText) (.malformed line "a numeric bit length")
  let byteOrder ← match tail.head? with
    | some '1' => .ok ByteOrder.littleEndian
    | some '0' => .ok ByteOrder.bigEndian
    | _ => .error (.malformed line "byte order '0' or '1' after '@'")
  let signed ← match tail.tail.head? with
    | some '+' => .ok false
    | some '-' => .ok true
    | _ => .error (.malformed line "sign '+' or '-'")
  return (⟨UInt16.ofNat startBit, UInt16.ofNat bitLength, byteOrder⟩, signed)

/-- A `SG_` line:
`<name> : <layout> (<factor>,<offset>) [<min>|<max>] "<unit>" <receivers>` -/
def parseLayout (rest : List Char) (line : Nat) : Except DbcError (Layout φ) := do
  let (namePart, rest) ← okOr (splitOnce ':' rest) (.malformed line "a ':' after the signal name")
  -- a multiplexed signal is written `name m0` or `name M`
  let name ← okOr (splitWhitespace namePart).head? (.malformed line "a signal name")
  let (layout, rest) ← okOr (splitOnce ' ' (trimStart rest))
    (.malformed line "<start>|<len>@<order><sign>")
  let (geometry, signed) ← parseGeometry layout line
  let (scaling, rest) ← okOr (sliceBetween (trimStart rest) '(' ')')
    (.malformed line "(factor,offset)")
  let (factorText, offsetText) ← okOr (splitOnce ',' scaling)
    (.malformed line "a ',' between factor and offset")
  let factor ← okOr (parseFloat factorText) (.malformed line "a numeric factor")
  let offset ← okOr (parseFloat offsetText) (.malformed line "a numeric offset")
  let (range, rest) ← okOr (sliceBetween rest '[' ']') (.malformed line "[min|max]")
  let (minText, maxText) ← okOr (splitOnce '|' range)
    (.malformed line "a '|' between minimum and maximum")
  let minimum ← okOr (parseFloat minText) (.malformed line "a numeric minimum")
  let maximum ← okOr (parseFloat maxText) (.malformed line "a numeric maximum")
  let unit := ((sliceBetween rest '"' '"').map Prod.fst).getD []
  return { geometry with name, signed, factor, offset, minimum, maximum, unit }

/-- A signal as it is written, before any other line names it. -/
def parseSignal (rest : List Char) (line : Nat) : Except DbcError (Signal φ) := do
  let layout ← parseLayout rest line
  return { layout with spn := none, valueNames := ∅ }

theorem splitOnceBy_lt {p : Char → Bool} {s front back : List Char}
    (h : splitOnceBy p s = some (front, back)) : back.length < s.length := by
  induction s generalizing front with
  | nil => cases h
  | cons c s ih =>
    unfold splitOnceBy at h
    split at h
    next =>
      cases h
      exact Nat.lt_succ_self _
    next =>
      obtain ⟨⟨front', back'⟩, hsplit, heq⟩ := Option.map_eq_some_iff.mp h
      cases heq
      exact Nat.lt_succ_of_lt (ih hsplit)

theorem splitOnce_lt {c : Char} {s front back : List Char}
    (h : splitOnce c s = some (front, back)) : back.length < s.length := by
  obtain ⟨rfl, -⟩ := splitOnce_eq_some.mp h
  rw [List.length_append, List.length_cons]
  omega

theorem sliceBetween_lt {text inner rest : List Char} {opening closing : Char}
    (h : sliceBetween text opening closing = some (inner, rest)) : rest.length < text.length := by
  obtain ⟨⟨_, tail⟩, hopening, hclosing⟩ := Option.bind_eq_some_iff.mp h
  exact Nat.lt_trans (splitOnce_lt hclosing) (splitOnce_lt hopening)

theorem trimStart_le (s : List Char) : (trimStart s).length ≤ s.length :=
  (List.dropWhile_sublist _).length_le

/-- The loop over the entries `<value> "<name>"` of a table.  It ends at
the first that is malformed. -/
def readEntries (rest : List Char) (table : ValueNames) : ValueNames :=
  match _h₁ : splitOnceBy isWhitespace (trimStart rest) with
  | none => table
  | some (valueText, tail) =>
      match parseUnsigned 32 valueText with
      | none => table
      | some value =>
          match _h₂ : sliceBetween tail '"' '"' with
          | none => table
          | some (name, tail) => readEntries tail (table.insert value name)
termination_by rest.length
decreasing_by
  exact Nat.lt_of_lt_of_le (Nat.lt_trans (sliceBetween_lt _h₂) (splitOnceBy_lt _h₁))
    (trimStart_le _)

/-- `VAL_ <message id> <signal> <value> "<name>" <value> "<name>" ... ;` -/
def parseValueTable (rest : List Char) : Option (Attribute ValueNames) := do
  let rest := trimEndMatches ';' (trim rest)
  let (idText, rest) ← splitOnceBy isWhitespace rest
  let id ← parseUnsigned 32 idText
  let (signal, rest) ← splitOnceBy isWhitespace (trimStart rest)
  return { id := extended id, signal := signal, value := readEntries rest ∅ }

/-- `BA_ "SPN" SG_ <message id> <signal> <number>;`  Every other attribute
is ignored. -/
def parseSpnAttribute (rest : List Char) : Option (Attribute Nat) := do
  let rest := trimEndMatches ';' (trim rest)
  let (name, rest) ← sliceBetween rest '"' '"'
  if name ≠ "SPN".toList then none
  else
    match splitWhitespace rest with
    | keyword :: idText :: signal :: spnText :: _ =>
        if keyword ≠ "SG_".toList then none
        else do
          let id ← parseUnsigned 32 idText
          let spn ← parseUnsigned 32 spnText
          return { id := extended id, signal := signal, value := spn }
    | _ => none

end Lines

end Dbc

/-! ## §3. Files. -/

/-- A parsed DBC file, its messages keyed by parameter group. -/
structure Dbc (φ : Type) where
  messages : Std.ExtTreeMap Nat (Dbc.Message φ)

namespace Dbc

/-- The definition for a parameter group, if the file has one. -/
def message {φ : Type} (dbc : Dbc φ) (pgn : Pgn) : Option (Message φ) := dbc.messages[pgn.raw]?

/-- What the loop over the lines carries along. -/
structure Parsing (φ : Type) where
  messages : Std.ExtTreeMap Nat (Message φ)
  /-- The group of the message that signals are added to. -/
  current : Option Nat
  /-- `VAL_` lines, applied at the end. -/
  valueTables : List (Attribute ValueNames)
  /-- `BA_ "SPN"` lines, applied at the end. -/
  spnAttributes : List (Attribute Nat)

/-- Before the first line. -/
def Parsing.start {φ : Type} : Parsing φ := ⟨∅, none, [], []⟩

/-- The first element with a property, modified. -/
def modifyFirst {α : Type} (p : α → Bool) (f : α → α) : List α → List α
  | [] => []
  | a :: as => if p a then f a :: as else a :: modifyFirst p f as

section Files

variable {φ : Type}

/-- A signal added to a message. -/
def Message.push (m : Message φ) (s : Signal φ) : Message φ :=
  { m with signals := m.signals ++ [s] }

/-- One line of a file.  What describes nothing of interest is skipped. -/
def Parsing.readLine [F64 φ] (p : Parsing φ) (rawLine : List Char) (number : Nat) :
    Except DbcError (Parsing φ) :=
  let line := trim rawLine
  match stripLead "BO_ ".toList line with
  | some rest => do
      let message ← parseMessage rest number
      let key := message.pgn.raw
      return { p with current := some key, messages := p.messages.insert key message }
  | none =>
  match stripLead "SG_ ".toList line with
  | some rest => do
      let key ← okOr p.current (.orphanSignal number)
      let signal ← parseSignal rest number
      return { p with messages := p.messages.modify key fun m => m.push signal }
  | none =>
  match stripLead "VAL_ ".toList line with
  | some rest =>
      .ok { p with current := none, valueTables := p.valueTables ++ (parseValueTable rest).toList }
  | none =>
  match stripLead "BA_ ".toList line with
  | some rest =>
      .ok { p with
        current := none
        spnAttributes := p.spnAttributes ++ (parseSpnAttribute rest).toList }
  | none =>
    -- a blank line ends a message block
    if line.isEmpty then .ok { p with current := none } else .ok p

/-- The signal a line refers to, found by the identifier of its message and
its name (`find_signal`), modified. -/
def modifySignal (messages : Std.ExtTreeMap Nat (Message φ)) (id : Nat) (signal : List Char)
    (f : Signal φ → Signal φ) : Std.ExtTreeMap Nat (Message φ) :=
  match messages.toList.find? fun entry => entry.2.id.raw == id with
  | none => messages
  | some (key, _) =>
      messages.modify key fun m =>
        { m with signals := modifyFirst (fun s => s.name == signal) f m.signals }

/-- Attach what lines say to the signals they name, line by line. -/
def attach {α : Type} (f : α → Signal φ → Signal φ) (attributes : List (Attribute α))
    (messages : Std.ExtTreeMap Nat (Message φ)) : Std.ExtTreeMap Nat (Message φ) :=
  attributes.foldl (fun messages a => modifySignal messages a.id a.signal (f a.value)) messages

/-- `signal.value_names = table` -/
def setValueNames (table : ValueNames) (s : Signal φ) : Signal φ := { s with valueNames := table }

/-- `signal.spn = Some(spn)` -/
def setSpn (spn : Nat) (s : Signal φ) : Signal φ := { s with spn := some spn }

/-- Parse DBC text. -/
def parse [F64 φ] (text : List Char) : Except DbcError (Dbc φ) := do
  let p ← (lines text).zipIdx.foldlM
    (fun (p : Parsing φ) (rawLine, index) => p.readLine rawLine (index + 1)) .start
  let messages := attach setValueNames p.valueTables p.messages
  let messages := attach setSpn p.spnAttributes messages
  return ⟨messages⟩

end Files

/-! ## §4. Attaching. -/

section Attaching

variable {φ α : Type}

/-- What a line does to a message: nothing, if it names another. -/
def Message.amend (m : Message φ) (id : Nat) (signal : List Char) (f : Signal φ → Signal φ) :
    Message φ :=
  if m.id.raw = id then { m with signals := modifyFirst (fun s => s.name == signal) f m.signals }
  else m

/-- What lines do to a message, one after the other. -/
def Message.amendAll (f : α → Signal φ → Signal φ) (attributes : List (Attribute α))
    (m : Message φ) : Message φ :=
  attributes.foldl (fun m a => m.amend a.id a.signal (f a.value)) m

/-- Every message is kept under its own group. -/
def Keyed (messages : Std.ExtTreeMap Nat (Message φ)) : Prop :=
  ∀ (key : Nat) (m : Message φ), messages[key]? = some m → m.pgn.raw = key

@[simp] theorem pgn_amend (m : Message φ) (id : Nat) (signal : List Char)
    (f : Signal φ → Signal φ) : (m.amend id signal f).pgn = m.pgn := by
  unfold Message.amend
  split <;> rfl

@[simp] theorem id_amend (m : Message φ) (id : Nat) (signal : List Char)
    (f : Signal φ → Signal φ) : (m.amend id signal f).id = m.id := by
  unfold Message.amend
  split <;> rfl

/-- **What one line does to each message**: the one it names is found,
since its identifier determines its group. -/
theorem getElem?_modifySignal {messages : Std.ExtTreeMap Nat (Message φ)} (h : Keyed messages)
    (id : Nat) (signal : List Char) (f : Signal φ → Signal φ) (key : Nat) :
    (modifySignal messages id signal f)[key]?
      = messages[key]?.map fun m : Message φ => m.amend id signal f := by
  unfold modifySignal
  cases hfind : messages.toList.find? fun entry => entry.2.id.raw == id with
  | none =>
    -- no message has the identifier, so no line amends one
    dsimp only
    cases hm : messages[key]? with
    | none => rfl
    | some m =>
      have hmem : (key, m) ∈ messages.toList :=
        Std.ExtTreeMap.mem_toList_iff_getElem?_eq_some.mpr hm
      have hother : ¬ m.id.raw = id := by
        simpa using List.find?_eq_none.mp hfind _ hmem
      rw [Option.map_some, Message.amend, if_neg hother]
  | some entry =>
    obtain ⟨found, m₀⟩ := entry
    have hm₀ : messages[found]? = some m₀ :=
      Std.ExtTreeMap.mem_toList_iff_getElem?_eq_some.mp (List.mem_of_find?_eq_some hfind)
    have hid : m₀.id.raw = id := by
      simpa using List.find?_some hfind
    dsimp only
    rw [Std.ExtTreeMap.getElem?_modify]
    by_cases hkey : found = key
    · subst hkey
      rw [if_pos (Nat.compare_eq_eq.mpr rfl), hm₀, Option.map_some, Option.map_some,
        Message.amend, if_pos hid]
    · rw [if_neg fun he => hkey (Nat.compare_eq_eq.mp he)]
      cases hm : messages[key]? with
      | none => rfl
      | some m =>
        -- another message with this identifier would be of the same group
        have hother : ¬ m.id.raw = id := by
          intro hsame
          have heq : m.id = m₀.id := Id.ext_raw (hsame.trans hid.symm)
          have hpgn : m.pgn = m₀.pgn := by rw [m.pgn_eq, m₀.pgn_eq, heq]
          exact hkey ((h found m₀ hm₀).symm.trans ((congrArg Pgn.raw hpgn.symm).trans (h key m hm)))
        rw [Option.map_some, Message.amend, if_neg hother]

theorem keyed_modifySignal {messages : Std.ExtTreeMap Nat (Message φ)} (h : Keyed messages)
    (id : Nat) (signal : List Char) (f : Signal φ → Signal φ) :
    Keyed (modifySignal messages id signal f) := by
  intro key m hm
  rw [getElem?_modifySignal h] at hm
  obtain ⟨m₀, hm₀, rfl⟩ := Option.map_eq_some_iff.mp hm
  rw [pgn_amend]
  exact h key m₀ hm₀

/-- **What all the lines do to each message.** -/
theorem getElem?_attach {messages : Std.ExtTreeMap Nat (Message φ)} (h : Keyed messages)
    (f : α → Signal φ → Signal φ) (attributes : List (Attribute α)) (key : Nat) :
    (attach f attributes messages)[key]? = messages[key]?.map (Message.amendAll f attributes) := by
  induction attributes generalizing messages with
  | nil =>
    show messages[key]? = messages[key]?.map fun m => m
    rw [Option.map_id']
  | cons a attributes ih =>
    -- a line moves no message to another group, so the rest find them where they were
    show (attach f attributes (modifySignal messages a.id a.signal (f a.value)))[key]? = _
    rw [ih (keyed_modifySignal h a.id a.signal (f a.value)),
      getElem?_modifySignal h, Option.map_map]
    rfl

theorem keyed_attach {messages : Std.ExtTreeMap Nat (Message φ)} (h : Keyed messages)
    (f : α → Signal φ → Signal φ) (attributes : List (Attribute α)) :
    Keyed (attach f attributes messages) := by
  induction attributes generalizing messages with
  | nil => exact h
  | cons a attributes ih => exact ih (keyed_modifySignal h a.id a.signal (f a.value))

/-! ## §5. Signals of an amended message. -/

/-- The value that the last line for a signal gives it. -/
def lastValue (attributes : List (Attribute α)) (id : Nat) (signal : List Char) : Option α :=
  match attributes with
  | [] => none
  | a :: rest =>
      (lastValue rest id signal).or (if a.id = id ∧ a.signal = signal then some a.value else none)

theorem find?_modifyFirst_of_ne {β : Type} {p q : β → Bool} {f : β → β}
    (hf : ∀ b, q (f b) = q b) (hpq : ∀ b, p b = true → q b = false) (bs : List β) :
    (modifyFirst p f bs).find? q = bs.find? q := by
  induction bs with
  | nil => rfl
  | cons b bs ih =>
    unfold modifyFirst
    by_cases hp : p b = true
    · rw [if_pos hp, List.find?_cons_of_neg (by rw [hf, hpq b hp]; decide),
        List.find?_cons_of_neg (by rw [hpq b hp]; decide)]
    · rw [if_neg hp]
      cases hq : q b with
      | true => rw [List.find?_cons_of_pos hq, List.find?_cons_of_pos hq]
      | false => rw [List.find?_cons_of_neg (by rw [hq]; decide), ih,
          List.find?_cons_of_neg (by rw [hq]; decide)]

theorem find?_modifyFirst {β : Type} {p : β → Bool} {f : β → β} (hf : ∀ b, p (f b) = p b)
    (bs : List β) : (modifyFirst p f bs).find? p = (bs.find? p).map f := by
  induction bs with
  | nil => rfl
  | cons b bs ih =>
    unfold modifyFirst
    by_cases hp : p b = true
    · rw [if_pos hp, List.find?_cons_of_pos ((hf b).trans hp), List.find?_cons_of_pos hp]
      rfl
    · rw [if_neg hp, List.find?_cons_of_neg hp, ih, List.find?_cons_of_neg hp]

theorem map_modifyFirst {β γ : Type} {p : β → Bool} {f : β → β} {g : β → γ}
    (hf : ∀ b, g (f b) = g b) (bs : List β) : (modifyFirst p f bs).map g = bs.map g := by
  induction bs with
  | nil => rfl
  | cons b bs ih =>
    unfold modifyFirst
    split
    · rw [List.map_cons, hf, List.map_cons]
    · rw [List.map_cons, ih, List.map_cons]

/-- One line changes the signal it names. -/
theorem signal_amend (m : Message φ) (id : Nat) (signal name : List Char)
    {f : Signal φ → Signal φ} (hf : ∀ s, (f s).toLayout = s.toLayout) :
    (m.amend id signal f).signal name
      = if id = m.id.raw ∧ signal = name then (m.signal name).map f else m.signal name := by
  have hname : ∀ s, (f s).name = s.name := fun s => congrArg Layout.name (hf s)
  unfold Message.amend Message.signal
  by_cases hid : m.id.raw = id
  · rw [if_pos hid]
    dsimp only
    by_cases hsignal : signal = name
    · subst hsignal
      rw [if_pos ⟨hid.symm, rfl⟩]
      exact find?_modifyFirst (fun s => by rw [hname]) m.signals
    · rw [if_neg fun h => hsignal h.2]
      refine find?_modifyFirst_of_ne (fun s => by rw [hname]) (fun s hs => ?_) m.signals
      have hs : s.name = signal := by simpa using hs
      rw [hs]
      simpa using hsignal
  · rw [if_neg hid, if_neg fun h => hid h.1.symm]

/-- **The last line for a signal counts.** -/
theorem signal_amendAll {f : α → Signal φ → Signal φ}
    (hf : ∀ a s, (f a s).toLayout = s.toLayout) (hover : ∀ a b s, f a (f b s) = f a s)
    (attributes : List (Attribute α)) (m : Message φ) (name : List Char) :
    (m.amendAll f attributes).signal name
      = (m.signal name).map fun s =>
        (lastValue attributes m.id.raw name).elim s fun a => f a s := by
  induction attributes generalizing m with
  | nil =>
    show m.signal name = (m.signal name).map fun s => s
    rw [Option.map_id']
  | cons a attributes ih =>
    show ((m.amend a.id a.signal (f a.value)).amendAll f attributes).signal name = _
    rw [ih, id_amend, signal_amend _ _ _ _ (hf a.value), lastValue]
    by_cases hnamed : a.id = m.id.raw ∧ a.signal = name
    · rw [if_pos hnamed, if_pos hnamed, Option.map_map]
      congr 1
      funext s
      -- a later line for the signal overrides this one
      cases lastValue attributes m.id.raw name with
      | none => rfl
      | some b => exact hover b a.value s
    · rw [if_neg hnamed, if_neg hnamed, Option.or_none]

/-- No line changes where the bits of a signal are. -/
theorem layouts_amendAll {f : α → Signal φ → Signal φ}
    (hf : ∀ a s, (f a s).toLayout = s.toLayout) (attributes : List (Attribute α))
    (m : Message φ) :
    (m.amendAll f attributes).signals.map Signal.toLayout = m.signals.map Signal.toLayout := by
  induction attributes generalizing m with
  | nil => rfl
  | cons a attributes ih =>
    refine (ih (m.amend a.id a.signal (f a.value))).trans ?_
    unfold Message.amend
    split
    · exact map_modifyFirst (hf a.value) m.signals
    · rfl

theorem id_amendAll (f : α → Signal φ → Signal φ) (attributes : List (Attribute α))
    (m : Message φ) : (m.amendAll f attributes).id = m.id := by
  induction attributes generalizing m with
  | nil => rfl
  | cons a attributes ih => exact (ih _).trans (id_amend m a.id a.signal (f a.value))

end Attaching

end Dbc

end SaeJ1939.Host
