/-
  SaeJ1939.Host.Log — reading `candump` captures (`log.rs`).

  A line of a capture is a timestamp, an interface and a frame token
  `ID#DATA`.  The payload is cut into pairs by byte positions, after a
  check of its length in bytes only; the numbers are read by a library
  that allows a plus sign in front.  The value of a timestamp is that of a
  64-bit float, of which nothing is used but the time between two of them.

  Main results:
    * `parseHead_framed`, `parseToken_loose`, `parseToken_torn`,
      `parseToken_refused` — what each kind of line and of token does.
    * `returns_iff` — reading a capture panics exactly on a line whose
      payload has a wide character where a pair of digits should be.
    * `exactly_candump_iff` — the parser accepts what it should exactly if
      no such character and no plus sign stands in the token.
-/
import SaeJ1939.Host.Replay
import SaeJ1939.Lib.Text

namespace SaeJ1939.Host.Log

open Checked Text

/-! ## §1. The parser. -/

/-- Something that went wrong reading a capture. -/
inductive LogError where
  /-- A line was not in `candump` format. -/
  | malformed (line : Nat) (expected : String)
  /-- An identifier that is not a valid 29-bit J1939 identifier. -/
  | notJ1939 (line : Nat) (id : List Char)
  /-- A payload with an odd number of hex digits, or more than eight bytes. -/
  | badPayload (line : Nat)
  deriving Repr, DecidableEq

/-- What is used of the floats that timestamps are. -/
class Seconds (τ : Type) where
  /-- The value of a text that a float is read from. -/
  ofText : List Char → τ
  /-- The whole milliseconds from one to another: none when time goes back,
  and at most `u16::MAX`. -/
  elapsedMs : τ → τ → UInt16

/-- The value of some decimal digits. -/
def decimal (s : List Char) : Nat := s.foldl (fun value c => 10 * value + (c.toNat - 48)) 0

/-- Seconds in whole microseconds, as `candump` writes them: digits, a
point and digits. -/
instance : Seconds Nat where
  ofText s :=
    let fraction := (s.dropWhile Char.isDigit).tail
    1000000 * decimal (s.takeWhile Char.isDigit)
      + decimal ((fraction ++ List.replicate 6 '0').take 6)
  elapsedMs previous timestamp := UInt16.ofNat (Replay.elapsedMs previous timestamp)

/-- One frame from a capture, with the time it was seen. -/
structure Entry (τ : Type) where
  timestamp : τ
  frame : Frame
  deriving DecidableEq

/-- `ok_or`. -/
def okOr {α : Type} (value : Option α) (e : LogError) : Except LogError α :=
  match value with
  | some a => .ok a
  | none => .error e

section Parser

variable (τ : Type) [Seconds τ]

/-- `parse` of a timestamp. -/
def parseSeconds (text : List Char) : Option τ :=
  if isFloat text then some (Seconds.ofText text) else none

/-- A line up to its frame token; nothing for an empty line or a comment. -/
def parseHead (line : List Char) (number : Nat) : Except LogError (Option (τ × List Char)) :=
  let line := trim line
  if line.isEmpty || line.head? == some '#' then .ok none
  else do
    let rest ← okOr (stripFront '(' line) (.malformed number "a '(' starting the timestamp")
    let (timestampText, rest) ←
      okOr (splitOnce ')' rest) (.malformed number "a ')' after the timestamp")
    let timestamp ←
      okOr (parseSeconds τ (trim timestampText)) (.malformed number "a numeric timestamp")
    let parts := splitWhitespace rest
    let _interface ← okOr parts[0]? (.malformed number "an interface name")
    let frameText ← okOr parts[1]? (.malformed number "an ID#DATA frame")
    return some (timestamp, frameText)

/-- The loop over the pairs of a payload, from pair `i` on, with so many
left. -/
def decodePairs (payloadText : List Char) (number : Nat) :
    Nat → Nat → Payload → Exec (Except LogError Payload)
  | _, 0, data => .ok (.ok data)
  | i, left + 1, data => do
      let pair ← substr payloadText (i * 2) (i * 2 + 2)
      match fromStrRadix16 8 pair with
      | none => return .error (.badPayload number)
      | some byte => do
          let data ← write data i (i + 1) [UInt8.ofNat byte]
          decodePairs payloadText number (i + 1) left data

/-- The frame of an identifier and the text of its payload. -/
def parsePayload (id : Id) (payloadText : List Char) (number : Nat) :
    Exec (Except LogError (Option Frame)) :=
  if byteLen payloadText % 2 ≠ 0 ∨ byteLen payloadText > 16 then
    .ok (.error (.badPayload number))
  else do
    let len := byteLen payloadText / 2
    match ← decodePairs payloadText number 0 len fun _ => 0 with
    | .error e => return .error e
    | .ok data => do
        let data ← slice (List.ofFn data) 0 len
        match Frame.new id data with
        | .ok frame => return .ok (some frame)
        | .error _ => return .error (.badPayload number)

/-- The identifier of a frame token. -/
def parseId (idText : List Char) (number : Nat) : Except LogError Id := do
  let raw ← okOr (fromStrRadix16 32 idText) (.notJ1939 number idText)
  match Id.new raw with
  | .ok id => return id
  | .error _ => .error (.notJ1939 number idText)

/-- A frame token; nothing for CAN FD, a remote frame or an 11-bit
identifier. -/
def parseToken (frameText : List Char) (number : Nat) : Exec (Except LogError (Option Frame)) :=
  if ['#', '#'] <:+: frameText then .ok (.ok none)
  else
    match splitOnce '#' frameText with
    | none => .ok (.error (.malformed number "a '#' between identifier and payload"))
    | some (idText, payloadText) =>
        if payloadText.head? = some 'R' ∨ payloadText.head? = some 'r' then .ok (.ok none)
        else if byteLen idText ≤ 3 then .ok (.ok none)
        else
          match parseId idText number with
          | .error e => .ok (.error e)
          | .ok id => parsePayload id payloadText number

/-- Parse one `candump -l` line. -/
def parseLine (line : List Char) (number : Nat) : Exec (Except LogError (Option (Entry τ))) :=
  match parseHead τ line number with
  | .error e => .ok (.error e)
  | .ok none => .ok (.ok none)
  | .ok (some (timestamp, frameText)) => do
      match ← parseToken frameText number with
      | .error e => return .error e
      | .ok none => return .ok none
      | .ok (some frame) => return .ok (some ⟨timestamp, frame⟩)

end Parser

/-! ## §2. Lines. -/

/-- An empty line or a comment. -/
def Blank (line : List Char) : Prop := trim line = [] ∨ (trim line).head? = some '#'

/-- **A line as far as its frame token**: the timestamp in parentheses, the
interface and the token. -/
structure Framed (line stamp token : List Char) : Prop where
  text : ∃ rest interface others, trim line = '(' :: (stamp ++ ')' :: rest)
    ∧ splitWhitespace rest = interface :: token :: others
  closed : ')' ∉ stamp
  numeric : isFloat (trim stamp) = true

section Lines

variable (τ : Type) [Seconds τ] (number : Nat) {line stamp token : List Char}

/-- A value is unwrapped, or the error returned. -/
theorem okOr_bind {α β : Type} (value : Option α) (e : LogError) (f : α → Except LogError β) :
    (okOr value e >>= f) = value.elim (.error e) f := by
  cases value <;> rfl

theorem parseHead_blank (h : Blank line) : parseHead τ line number = .ok none := by
  have hblank : ((trim line).isEmpty || (trim line).head? == some '#') = true := by
    rcases h with h | h <;> simp [h]
  unfold parseHead
  dsimp only
  rw [if_pos hblank]

/-- A framed line is read as far as its token. -/
theorem parseHead_framed (h : Framed line stamp token) :
    parseHead τ line number = .ok (some (Seconds.ofText (trim stamp), token)) := by
  obtain ⟨rest, interface, others, htext, hparts⟩ := h.text
  have hstrip : stripFront '(' (trim line) = some (stamp ++ ')' :: rest) :=
    stripFront_eq_some.mpr htext
  have hsplit : splitOnce ')' (stamp ++ ')' :: rest) = some (stamp, rest) :=
    splitOnce_eq_some.mpr ⟨rfl, h.closed⟩
  have hseconds : parseSeconds τ (trim stamp) = some (Seconds.ofText (trim stamp)) :=
    if_pos h.numeric
  have hopen : ¬ ((trim line).isEmpty || (trim line).head? == some '#') = true := by
    rw [htext]
    show ¬ (some '(' == some '#') = true
    decide
  unfold parseHead
  dsimp only
  rw [if_neg hopen, okOr_bind, hstrip, Option.elim_some, okOr_bind, hsplit, Option.elim_some]
  dsimp only
  rw [okOr_bind, hseconds, Option.elim_some, hparts]
  rfl

/-- **Any other line is malformed.** -/
theorem parseHead_malformed (hblank : ¬ Blank line)
    (hframed : ∀ stamp token, ¬ Framed line stamp token) :
    ∃ expected, parseHead τ line number = .error (.malformed number expected) := by
  have hopen : ¬ ((trim line).isEmpty || (trim line).head? == some '#') = true := by
    intro h
    rw [Bool.or_eq_true, List.isEmpty_iff, beq_iff_eq] at h
    exact hblank h
  unfold parseHead
  dsimp only
  rw [if_neg hopen, okOr_bind]
  cases hstrip : stripFront '(' (trim line) with
  | none => exact ⟨_, rfl⟩
  | some rest =>
    rw [Option.elim_some, okOr_bind]
    cases hsplit : splitOnce ')' rest with
    | none => exact ⟨_, rfl⟩
    | some parts =>
      obtain ⟨stamp, rest'⟩ := parts
      obtain ⟨rfl, hclosed⟩ := splitOnce_eq_some.mp hsplit
      rw [Option.elim_some]
      dsimp only
      rw [okOr_bind]
      by_cases hnumeric : isFloat (trim stamp) = true
      · have hseconds : parseSeconds τ (trim stamp) = some (Seconds.ofText (trim stamp)) :=
          if_pos hnumeric
        rw [hseconds, Option.elim_some]
        cases hparts : splitWhitespace rest' with
        | nil => exact ⟨_, rfl⟩
        | cons interface others =>
          cases others with
          | nil => exact ⟨_, rfl⟩
          | cons token others =>
            -- nothing is missing
            have htext := stripFront_eq_some.mp hstrip
            exact absurd ⟨⟨rest', interface, others, htext, hparts⟩, hclosed, hnumeric⟩
              (hframed stamp token)
      · have hseconds : parseSeconds τ (trim stamp) = none := if_neg hnumeric
        rw [hseconds]
        exact ⟨_, rfl⟩

end Lines

/-! ## §3. Payloads. -/

/-- Two characters that are read as a byte: two digits, or a plus sign and
a digit. -/
inductive Pair : Char → Char → UInt8 → Prop where
  | digits {a b : Char} : isHex a = true → isHex b = true →
      Pair a b (UInt8.ofNat (hexValue [a, b]))
  | sign {b : Char} : isHex b = true → Pair '+' b (UInt8.ofNat (hexValue [b]))

/-- **The payloads that are read**, with their bytes. -/
inductive Pairs : List Char → List UInt8 → Prop where
  | nil : Pairs [] []
  | cons {a b : Char} {byte : UInt8} {rest : List Char} {bytes : List UInt8} :
      Pair a b byte → Pairs rest bytes → Pairs (a :: b :: rest) (byte :: bytes)

/-- **The payloads that are cut inside a character**: after the pairs that
are read comes a character of three bytes or more, or one of two bytes or
more behind one of a single byte. -/
inductive TornPairs : List Char → Prop where
  | wide {c : Char} {rest : List Char} : 3 ≤ c.utf8Size → TornPairs (c :: rest)
  | straddling {c d : Char} {rest : List Char} : c.utf8Size = 1 → 2 ≤ d.utf8Size →
      TornPairs (c :: d :: rest)
  | later {a b : Char} {byte : UInt8} {rest : List Char} :
      Pair a b byte → TornPairs rest → TornPairs (a :: b :: rest)

theorem pair_iff {a b : Char} {byte : UInt8} :
    Pair a b byte ↔ ∃ v, fromStrRadix16 8 [a, b] = some v ∧ byte = UInt8.ofNat v := by
  constructor
  · intro h
    cases h with
    | digits ha hb => exact ⟨_, fromStrRadix16_pair.mpr ⟨hb, Or.inl ⟨ha, rfl⟩⟩, rfl⟩
    | sign hb => exact ⟨_, fromStrRadix16_pair.mpr ⟨hb, Or.inr ⟨rfl, rfl⟩⟩, rfl⟩
  · rintro ⟨v, hread, rfl⟩
    obtain ⟨hb, ⟨ha, rfl⟩ | ⟨rfl, rfl⟩⟩ := fromStrRadix16_pair.mp hread
    · exact .digits ha hb
    · exact .sign hb

/-- A pair is two bytes of text. -/
theorem Pair.byteLen {a b : Char} {byte : UInt8} (h : Pair a b byte) : Text.byteLen [a, b] = 2 := by
  cases h with
  | digits ha hb =>
    show a.utf8Size + (b.utf8Size + 0) = 2
    rw [utf8Size_of_isHex ha, utf8Size_of_isHex hb]
  | sign hb =>
    show Char.utf8Size '+' + (b.utf8Size + 0) = 2
    rw [utf8Size_of_isHex hb]
    decide

section Loop

variable {read rest : List Char} {number i left : Nat} {data : Payload}

variable (rest number left data) in
/-- A pair is read. -/
theorem decodePairs_pair {a b : Char} {byte : UInt8} (h : Pair a b byte)
    (hread : byteLen read = i * 2) (hi : i < 8) :
    ∃ data', write data i (i + 1) [byte] = .ok data'
      ∧ decodePairs (read ++ a :: b :: rest) number i (left + 1) data
        = decodePairs ((read ++ [a, b]) ++ rest) number (i + 1) left data' := by
  obtain ⟨v, hvalue, rfl⟩ := pair_iff.mp h
  have hcut : cutAt (a :: b :: rest) 2 = .ok ([a, b], rest) := by
    have hcut := cutAt_append [a, b] rest
    rw [h.byteLen] at hcut
    exact hcut
  have hwrite := @write_ok _ 8 data i (i + 1) [UInt8.ofNat v] (Nat.le_succ i) hi
    (by rw [List.length_singleton]; omega)
  refine ⟨_, hwrite, ?_⟩
  rw [decodePairs, ← hread, substr_append hcut, ok_bind, hvalue]
  dsimp only
  rw [hwrite, ok_bind, List.append_assoc]
  rfl

/-- Something else between two bytes is no pair. -/
theorem decodePairs_bad {text rest' : List Char} (hread : byteLen read = i * 2)
    (hcut : cutAt rest 2 = .ok (text, rest')) (htext : fromStrRadix16 8 text = none) :
    decodePairs (read ++ rest) number i (left + 1) data = .ok (.error (.badPayload number)) := by
  rw [decodePairs, ← hread, substr_append hcut, ok_bind, htext]
  rfl

/-- A cut inside a character. -/
theorem decodePairs_inside (hread : byteLen read = i * 2) (hcut : cutAt rest 2 = .error .slice) :
    decodePairs (read ++ rest) number i (left + 1) data = .error .slice := by
  rw [decodePairs, ← hread, substr_inside hcut]
  rfl

/-- The text read so far, grown by a pair. -/
theorem byteLen_read {a b : Char} {byte : UInt8} (h : Pair a b byte)
    (hread : byteLen read = i * 2) : byteLen (read ++ [a, b]) = (i + 1) * 2 := by
  rw [byteLen_append, hread, h.byteLen]
  omega

/-- The pairs left behind a pair. -/
theorem left_succ {a b : Char} {byte : UInt8} (h : Pair a b byte)
    (hleft : byteLen (a :: b :: rest) = left * 2) : ∃ n, left = n + 1 ∧ byteLen rest = n * 2 := by
  have happend := byteLen_append [a, b] rest
  rw [h.byteLen, List.cons_append, List.cons_append, List.nil_append, hleft] at happend
  exact ⟨left - 1, by omega, by omega⟩

/-- **The loop reads the pairs**, in their order. -/
theorem decodePairs_pairs {bytes : List UInt8} (h : Pairs rest bytes)
    (hread : byteLen read = i * 2) (hleft : byteLen rest = left * 2) (hi : i + left ≤ 8) :
    ∃ data', decodePairs (read ++ rest) number i left data = .ok (.ok data')
      ∧ (List.ofFn data').take (i + left) = (List.ofFn data).take i ++ bytes := by
  induction h generalizing read i left data with
  | nil =>
    have hzero : left = 0 := by
      rw [byteLen_nil] at hleft
      omega
    subst hzero
    exact ⟨data, rfl, (List.append_nil _).symm⟩
  | @cons a b byte rest bytes hpair _ ih =>
    obtain ⟨left, rfl, hleft'⟩ := left_succ hpair hleft
    obtain ⟨data₁, hwrite, hstep⟩ := decodePairs_pair rest number left data hpair hread
      (by omega)
    obtain ⟨data', hloop, htake⟩ := ih (byteLen_read hpair hread) hleft' (by omega)
    refine ⟨data', hstep.trans hloop, ?_⟩
    have hplace : i + (left + 1) = i + 1 + left := by omega
    rw [hplace, htake, take_write hwrite, List.append_assoc]
    rfl

/-- **The loop panics on a payload cut inside a character.** -/
theorem decodePairs_torn (h : TornPairs rest) (hread : byteLen read = i * 2)
    (hleft : byteLen rest = left * 2) (hi : i + left ≤ 8) :
    decodePairs (read ++ rest) number i left data = .error .slice := by
  induction h generalizing read i left data with
  | @wide c rest hc =>
    rw [byteLen_cons] at hleft
    obtain ⟨left, rfl⟩ : ∃ n, left = n + 1 := ⟨left - 1, by omega⟩
    exact decodePairs_inside hread (cutAt_inside Nat.two_pos hc)
  | @straddling c d rest hc hd =>
    rw [byteLen_cons] at hleft
    obtain ⟨left, rfl⟩ : ∃ n, left = n + 1 := ⟨left - 1, by omega⟩
    have hcut : cutAt (c :: d :: rest) 2 = .error .slice := by
      rw [cutAt_cons (by omega), hc, cutAt_inside Nat.one_pos hd]
      rfl
    exact decodePairs_inside hread hcut
  | @later a b byte rest hpair _ ih =>
    obtain ⟨left, rfl, hleft'⟩ := left_succ hpair hleft
    obtain ⟨data', -, hstep⟩ := decodePairs_pair rest number left data hpair hread
      (by omega)
    exact hstep.trans (ih (byteLen_read hpair hread) hleft' (by omega))

/-- **On any other payload that is no pairs it returns an error.** -/
theorem decodePairs_refused (hpairs : ∀ bytes, ¬ Pairs rest bytes) (htorn : ¬ TornPairs rest)
    (hread : byteLen read = i * 2) (hleft : byteLen rest = left * 2) (hi : i + left ≤ 8) :
    decodePairs (read ++ rest) number i left data = .ok (.error (.badPayload number)) := by
  induction left generalizing read rest i data with
  | zero =>
    rw [Nat.zero_mul] at hleft
    exact absurd (byteLen_eq_zero hleft ▸ Pairs.nil) (hpairs [])
  | succ left ih =>
    cases rest with
    | nil =>
      rw [byteLen_nil] at hleft
      omega
    | cons c rest =>
      have hnarrow : c.utf8Size < 3 := Nat.not_le.mp fun hwide => htorn (.wide hwide)
      have hpos := c.utf8Size_pos
      by_cases hc : c.utf8Size = 1
      · cases rest with
        | nil =>
          rw [byteLen_cons, byteLen_nil] at hleft
          omega
        | cons d rest =>
          have hd : d.utf8Size = 1 := by
            have hdpos := d.utf8Size_pos
            have hdlt : d.utf8Size < 2 := Nat.not_le.mp fun hwide => htorn (.straddling hc hwide)
            omega
          have hcut : cutAt (c :: d :: rest) 2 = .ok ([c, d], rest) := by
            have hcut := cutAt_append [c, d] rest
            rw [byteLen_cons, byteLen_cons, byteLen_nil, hc, hd] at hcut
            exact hcut
          cases hvalue : fromStrRadix16 8 [c, d] with
          | none => exact decodePairs_bad hread hcut hvalue
          | some v =>
            -- a pair, so that the error comes later
            have hpair : Pair c d (UInt8.ofNat v) := pair_iff.mpr ⟨v, hvalue, rfl⟩
            obtain ⟨n, hn, hleft'⟩ := left_succ hpair hleft
            cases hn
            obtain ⟨data', -, hstep⟩ := decodePairs_pair rest number left data hpair
              hread (by omega)
            exact hstep.trans (ih (fun bytes h => hpairs _ (.cons hpair h))
              (fun h => htorn (.later hpair h)) (byteLen_read hpair hread) hleft' (by omega))
      · -- a single character of two bytes
        have hcut : cutAt (c :: rest) 2 = .ok ([c], rest) := by
          have hcut := cutAt_append [c] rest
          have htwo : byteLen [c] = 2 := by
            rw [byteLen_cons, byteLen_nil]
            omega
          rw [htwo] at hcut
          exact hcut
        have hvalue : fromStrRadix16 8 [c] = none := by
          refine Option.eq_none_iff_forall_ne_some.mpr fun v hv => ?_
          obtain ⟨digits, hsign, hne, hdigits, -⟩ := fromStrRadix16_eq_some.mp hv
          rcases hsign with rfl | hsign
          · exact hc (utf8Size_of_isHex (hdigits c List.mem_cons_self))
          · injection hsign with _ hnil
            exact hne hnil.symm
        exact decodePairs_bad hread hcut hvalue

end Loop

/-- **A payload of pairs makes a frame** of their bytes. -/
theorem parsePayload_pairs (id : Id) (number : Nat) {payload : List Char} {bytes : List UInt8}
    (h : Pairs payload bytes) (heven : byteLen payload % 2 = 0) (hlen : byteLen payload ≤ 16) :
    ∃ frame, parsePayload id payload number = .ok (.ok (some frame))
      ∧ frame.id = id ∧ frame.data = bytes := by
  have hleft : byteLen payload = byteLen payload / 2 * 2 := by omega
  obtain ⟨data', hloop, htake⟩ : ∃ data',
      decodePairs ([] ++ payload) number 0 (byteLen payload / 2) (fun _ => 0) = .ok (.ok data')
        ∧ (List.ofFn data').take (0 + byteLen payload / 2) = [] ++ bytes :=
    decodePairs_pairs h rfl hleft (by omega)
  rw [Nat.zero_add, List.nil_append] at htake
  have hfits : (List.ofFn data').length = 8 := List.length_ofFn
  have hshort : bytes.length ≤ Frame.maxPayload := by
    rw [← htake, List.length_take, hfits]
    exact Nat.min_le_right ..
  obtain ⟨frame, hframe⟩ := Frame.new_ok id hshort
  refine ⟨frame, ?_, Frame.data_new hframe⟩
  rw [List.nil_append] at hloop
  unfold parsePayload
  rw [if_neg (by omega)]
  dsimp only
  rw [hloop, ok_bind]
  dsimp only
  rw [slice_zero_ok (by omega), ok_bind, htake, hframe]
  rfl

theorem parsePayload_torn {id : Id} {payload : List Char} {number : Nat} (h : TornPairs payload)
    (heven : byteLen payload % 2 = 0) (hlen : byteLen payload ≤ 16) :
    parsePayload id payload number = .error .slice := by
  have hleft : byteLen payload = byteLen payload / 2 * 2 := by omega
  have hloop : decodePairs ([] ++ payload) number 0 (byteLen payload / 2) (fun _ => 0)
      = .error .slice := decodePairs_torn h rfl hleft (by omega)
  rw [List.nil_append] at hloop
  unfold parsePayload
  rw [if_neg (by omega)]
  dsimp only
  rw [hloop]
  rfl

theorem parsePayload_refused {id : Id} {payload : List Char} {number : Nat}
    (h : byteLen payload % 2 = 0 → byteLen payload ≤ 16 →
      (∀ bytes, ¬ Pairs payload bytes) ∧ ¬ TornPairs payload) :
    parsePayload id payload number = .ok (.error (.badPayload number)) := by
  unfold parsePayload
  split
  next => rfl
  next hcond =>
    obtain ⟨hpairs, htorn⟩ := h (by omega) (by omega)
    have hleft : byteLen payload = byteLen payload / 2 * 2 := by omega
    have hloop : decodePairs ([] ++ payload) number 0 (byteLen payload / 2) (fun _ => 0)
        = .ok (.error (.badPayload number)) :=
      decodePairs_refused hpairs htorn rfl hleft (by omega)
    rw [List.nil_append] at hloop
    dsimp only
    rw [hloop]
    rfl

/-! ## §4. Frame tokens. -/

/-- What stands for no frame of a J1939 bus: CAN FD, a remote frame or an
11-bit identifier. -/
inductive Skipped (token : List Char) : Prop where
  | canFd : ['#', '#'] <:+: token → Skipped token
  | foreign {idText payload : List Char} : token = idText ++ '#' :: payload → '#' ∉ idText →
      payload.head? = some 'R' ∨ payload.head? = some 'r' ∨ byteLen idText ≤ 3 → Skipped token

/-- **A token as far as its payload**: an identifier of more than three
characters, digits or a plus sign and digits, that fits 29 bits; and a
payload of an even number of bytes, at most sixteen. -/
structure Shaped (token payload : List Char) (id : Id) : Prop where
  text : ∃ idText digits, token = idText ++ '#' :: payload ∧ 3 < byteLen idText
    ∧ (idText = digits ∨ idText = '+' :: digits) ∧ (∀ c ∈ digits, isHex c = true)
    ∧ id.raw = hexValue digits
  classic : ¬ ['#', '#'] <:+: token
  data : payload.head? ≠ some 'R' ∧ payload.head? ≠ some 'r'
  even : byteLen payload % 2 = 0
  short : byteLen payload ≤ 16

/-- **The tokens that are read as a frame.** -/
def Loose (token : List Char) (frame : Frame) : Prop :=
  ∃ payload, Shaped token payload frame.id ∧ Pairs payload frame.data

/-- **The tokens that are cut inside a character.** -/
def Torn (token : List Char) : Prop :=
  ∃ payload id, Shaped token payload id ∧ TornPairs payload

section Tokens

variable (number : Nat) {token payload : List Char} {id : Id} {frame : Frame}

theorem parseId_eq_ok {idText : List Char} :
    parseId idText number = .ok id ↔ ∃ digits, (idText = digits ∨ idText = '+' :: digits)
      ∧ digits ≠ [] ∧ (∀ c ∈ digits, isHex c = true) ∧ id.raw = hexValue digits := by
  have hid := id.raw_le
  unfold parseId
  rw [okOr_bind]
  cases hread : fromStrRadix16 32 idText with
  | none =>
    rw [Option.elim_none]
    constructor
    · intro h
      cases h
    · rintro ⟨digits, hsign, hne, hdigits, hraw⟩
      have hfits : hexValue digits < 2 ^ 32 := by omega
      have hsome := fromStrRadix16_eq_some.mpr ⟨digits, hsign, hne, hdigits, hfits, rfl⟩
      cases hread.symm.trans hsome
  | some raw =>
    rw [Option.elim_some]
    have hnew : (match Id.new raw with
        | .ok id => pure id
        | .error _ => .error (.notJ1939 number idText) : Except LogError Id) = .ok id
        ↔ Id.new raw = .ok id := by
      cases Id.new raw with
      | error e => constructor <;> intro h <;> cases h
      | ok id' =>
        show (Except.ok id' : Except LogError Id) = .ok id ↔ (Except.ok id' : Result Id) = .ok id
        rw [Except.ok.injEq, Except.ok.injEq]
    rw [hnew, Id.new_eq_ok]
    constructor
    · rintro ⟨-, hraw⟩
      obtain ⟨digits, hsign, hne, hdigits, -, rfl⟩ := fromStrRadix16_eq_some.mp hread
      exact ⟨digits, hsign, hne, hdigits, hraw⟩
    · rintro ⟨digits, hsign, hne, hdigits, hraw⟩
      have hfits : hexValue digits < 2 ^ 32 := by omega
      have hsome := fromStrRadix16_eq_some.mpr ⟨digits, hsign, hne, hdigits, hfits, rfl⟩
      rw [hread, Option.some.injEq] at hsome
      exact ⟨by omega, by omega⟩

/-- No separator among the digits. -/
theorem hash_notMem {idText digits : List Char} (hsign : idText = digits ∨ idText = '+' :: digits)
    (hdigits : ∀ c ∈ digits, isHex c = true) : '#' ∉ idText := by
  have hnot : '#' ∉ digits := by
    intro hmem
    have hhash := hdigits '#' hmem
    have hfalse : isHex '#' = false := by decide
    rw [hfalse] at hhash
    cases hhash
  rcases hsign with rfl | rfl
  · exact hnot
  · exact List.not_mem_cons_of_ne_of_not_mem (by decide) hnot

/-- A token of the right shape is as good as its payload. -/
theorem parseToken_shaped (h : Shaped token payload id) :
    parseToken token number = parsePayload id payload number := by
  obtain ⟨idText, digits, htext, hlong, hsign, hdigits, hraw⟩ := h.text
  have hne : digits ≠ [] := by
    rintro rfl
    rcases hsign with rfl | rfl
    · exact absurd hlong (by decide)
    · exact absurd hlong (by decide)
  have hsplit : splitOnce '#' token = some (idText, payload) :=
    splitOnce_eq_some.mpr ⟨htext, hash_notMem hsign hdigits⟩
  have hid : parseId idText number = .ok id :=
    (parseId_eq_ok number).mpr ⟨digits, hsign, hne, hdigits, hraw⟩
  unfold parseToken
  rw [if_neg h.classic, hsplit]
  dsimp only
  rw [if_neg (not_or.mpr h.data), if_neg (Nat.not_le.mpr hlong), hid]

theorem parseToken_skipped (h : Skipped token) : parseToken token number = .ok (.ok none) := by
  unfold parseToken
  by_cases hfd : ['#', '#'] <:+: token
  · rw [if_pos hfd]
  · cases h with
    | canFd h => exact absurd h hfd
    | @foreign idText payload htext hnot hwhy =>
      rw [if_neg hfd, splitOnce_eq_some.mpr ⟨htext, hnot⟩]
      dsimp only
      split
      next => rfl
      next hdata =>
        obtain ⟨hR, hr⟩ := not_or.mp hdata
        rw [if_pos (hwhy.resolve_left hR |>.resolve_left hr)]

theorem parseToken_loose (h : Loose token frame) :
    parseToken token number = .ok (.ok (some frame)) := by
  obtain ⟨payload, hshaped, hpairs⟩ := h
  obtain ⟨frame', hparse, hid, hdata⟩ := parsePayload_pairs frame.id number hpairs
    hshaped.even hshaped.short
  rw [parseToken_shaped number hshaped, hparse, Frame.eq_of_data hid hdata]

theorem parseToken_torn (h : Torn token) : parseToken token number = .error .slice := by
  obtain ⟨payload, id, hshaped, htorn⟩ := h
  rw [parseToken_shaped number hshaped]
  exact parsePayload_torn htorn hshaped.even hshaped.short

/-- **Any other token is an error.** -/
theorem parseToken_refused (hskipped : ¬ Skipped token) (hloose : ∀ frame, ¬ Loose token frame)
    (htorn : ¬ Torn token) : ∃ e, parseToken token number = .ok (.error e) := by
  have hfd : ¬ ['#', '#'] <:+: token := fun h => hskipped (.canFd h)
  unfold parseToken
  rw [if_neg hfd]
  cases hsplit : splitOnce '#' token with
  | none => exact ⟨_, rfl⟩
  | some parts =>
    obtain ⟨idText, payload⟩ := parts
    obtain ⟨htext, hnot⟩ := splitOnce_eq_some.mp hsplit
    have hforeign : ¬ (payload.head? = some 'R' ∨ payload.head? = some 'r' ∨ byteLen idText ≤ 3) :=
      fun h => hskipped (.foreign htext hnot h)
    obtain ⟨hR, hr, hlong⟩ : payload.head? ≠ some 'R' ∧ payload.head? ≠ some 'r'
        ∧ ¬ byteLen idText ≤ 3 := by
      rw [not_or, not_or] at hforeign
      exact hforeign
    dsimp only
    rw [if_neg (not_or.mpr ⟨hR, hr⟩), if_neg hlong]
    cases hid : parseId idText number with
    | error e => exact ⟨_, rfl⟩
    | ok id =>
      obtain ⟨digits, hsign, hne, hdigits, hraw⟩ := (parseId_eq_ok number).mp hid
      refine ⟨_, parsePayload_refused fun heven hshort => ?_⟩
      have hshaped : Shaped token payload id :=
        ⟨⟨idText, digits, htext, Nat.not_le.mp hlong, hsign, hdigits, hraw⟩, hfd, ⟨hR, hr⟩, heven,
          hshort⟩
      refine ⟨fun bytes hpairs => ?_, fun htornPairs => htorn ⟨payload, id, hshaped, htornPairs⟩⟩
      -- its pairs would make it a frame
      obtain ⟨frame, -, hframe, hdata⟩ := parsePayload_pairs id number hpairs heven hshort
      exact hloose frame ⟨payload, hframe ▸ hshaped, hdata ▸ hpairs⟩

end Tokens

/-! ## §5. Lines and their frames. -/

section Entries

variable (τ : Type) [Seconds τ] (number : Nat) {line stamp token : List Char} {frame : Frame}

theorem parseLine_blank (h : Blank line) : parseLine τ line number = .ok (.ok none) := by
  unfold parseLine
  rw [parseHead_blank τ number h]

theorem parseLine_malformed (hblank : ¬ Blank line)
    (hframed : ∀ stamp token, ¬ Framed line stamp token) :
    ∃ expected, parseLine τ line number = .ok (.error (.malformed number expected)) := by
  obtain ⟨expected, hhead⟩ := parseHead_malformed τ number hblank hframed
  refine ⟨expected, ?_⟩
  unfold parseLine
  rw [hhead]

/-- A framed line is as good as its token. -/
theorem parseLine_framed (h : Framed line stamp token) :
    parseLine τ line number = do
      match ← parseToken token number with
      | .error e => return .error e
      | .ok none => return .ok none
      | .ok (some frame) => return .ok (some ⟨Seconds.ofText (trim stamp), frame⟩) := by
  unfold parseLine
  rw [parseHead_framed τ number h]

theorem parseLine_skipped (h : Framed line stamp token) (htoken : Skipped token) :
    parseLine τ line number = .ok (.ok none) := by
  rw [parseLine_framed τ number h, parseToken_skipped number htoken]
  rfl

theorem parseLine_loose (h : Framed line stamp token) (htoken : Loose token frame) :
    parseLine τ line number = .ok (.ok (some ⟨Seconds.ofText (trim stamp), frame⟩)) := by
  rw [parseLine_framed τ number h, parseToken_loose number htoken]
  rfl

theorem parseLine_torn (h : Framed line stamp token) (htoken : Torn token) :
    parseLine τ line number = .error .slice := by
  rw [parseLine_framed τ number h, parseToken_torn number htoken]
  rfl

theorem parseLine_refused (h : Framed line stamp token) (hskipped : ¬ Skipped token)
    (hloose : ∀ frame, ¬ Loose token frame) (htorn : ¬ Torn token) :
    ∃ e, parseLine τ line number = .ok (.error e) := by
  obtain ⟨e, htoken⟩ := parseToken_refused number hskipped hloose htorn
  refine ⟨e, ?_⟩
  rw [parseLine_framed τ number h, htoken]
  rfl

/-- **A frame comes from a framed line** with a token that is read as it. -/
theorem parseLine_some {entry : Entry τ} (h : parseLine τ line number = .ok (.ok (some entry))) :
    ∃ stamp token, Framed line stamp token ∧ Loose token entry.frame
      ∧ entry.timestamp = Seconds.ofText (trim stamp) := by
  by_cases hblank : Blank line
  · cases h.symm.trans (parseLine_blank τ number hblank)
  · by_cases hframed : ∃ stamp token, Framed line stamp token
    · obtain ⟨stamp, token, hframed⟩ := hframed
      by_cases hskipped : Skipped token
      · cases h.symm.trans (parseLine_skipped τ number hframed hskipped)
      · by_cases htorn : Torn token
        · cases h.symm.trans (parseLine_torn τ number hframed htorn)
        · by_cases hloose : ∃ frame, Loose token frame
          · obtain ⟨frame, hloose⟩ := hloose
            cases h.symm.trans (parseLine_loose τ number hframed hloose)
            exact ⟨stamp, token, hframed, hloose, rfl⟩
          · obtain ⟨e, herror⟩ := parseLine_refused τ number hframed hskipped
              (not_exists.mp hloose) htorn
            cases h.symm.trans herror
    · have hnone : ∀ stamp token, ¬ Framed line stamp token :=
        fun stamp token hframe => hframed ⟨stamp, token, hframe⟩
      obtain ⟨expected, herror⟩ := parseLine_malformed τ number hblank hnone
      cases h.symm.trans herror

end Entries

/-! ## §6. Frames in candump format. -/

/-- The bytes of some digits, two for each. -/
def hexBytes : List Char → List UInt8
  | a :: b :: rest => UInt8.ofNat (hexValue [a, b]) :: hexBytes rest
  | _ => []

/-- **A frame as candump writes it**: an identifier of more than three
digits that fits 29 bits, `#`, and an even number of digits, at most
sixteen. -/
structure Candump (token : List Char) (frame : Frame) : Prop where
  text : ∃ idText payload, token = idText ++ '#' :: payload
    ∧ ((∀ c ∈ idText, isHex c = true) ∧ 3 < idText.length ∧ hexValue idText ≤ 0x1FFFFFFF
      ∧ frame.id.raw = hexValue idText)
    ∧ ((∀ c ∈ payload, isHex c = true) ∧ payload.length % 2 = 0 ∧ payload.length ≤ 16
      ∧ frame.data = hexBytes payload)

/-- **The tokens with a sign** in front of the identifier or of a digit of
the payload that are read as a frame all the same. -/
def Signed (token : List Char) : Prop := (∃ frame, Loose token frame) ∧ '+' ∈ token

theorem notMem_of_isHex {s : List Char} (h : ∀ c ∈ s, isHex c = true) {c : Char}
    (hc : isHex c = false) : c ∉ s := by
  intro hmem
  cases hc.symm.trans (h c hmem)

/-- Digits are pairs. -/
theorem pairs_hexBytes (payload : List Char) (h : ∀ c ∈ payload, isHex c = true)
    (heven : payload.length % 2 = 0) : Pairs payload (hexBytes payload) := by
  induction payload using hexBytes.induct with
  | case1 a b rest ih =>
    have hrest := ih (fun c hc => h c (List.mem_cons_of_mem _ (List.mem_cons_of_mem _ hc))) (by
      rw [List.length_cons, List.length_cons] at heven
      omega)
    exact .cons (.digits (h a List.mem_cons_self)
      (h b (List.mem_cons_of_mem _ List.mem_cons_self))) hrest
  | case2 payload hshort =>
    cases payload with
    | nil => exact .nil
    | cons a rest =>
      cases rest with
      | nil =>
        rw [List.length_singleton] at heven
        omega
      | cons b rest => exact absurd rfl (hshort a b rest)

/-- Pairs without a sign are digits. -/
theorem Pairs.unsigned {payload : List Char} {bytes : List UInt8} (h : Pairs payload bytes)
    (hplus : '+' ∉ payload) : (∀ c ∈ payload, isHex c = true) ∧ payload.length % 2 = 0
      ∧ bytes = hexBytes payload := by
  induction h with
  | nil => exact ⟨fun c hc => absurd hc List.not_mem_nil, rfl, rfl⟩
  | @cons a b byte rest bytes hpair _ ih =>
    obtain ⟨hrest, heven, hbytes⟩ := ih fun hmem =>
      hplus (List.mem_cons_of_mem _ (List.mem_cons_of_mem _ hmem))
    cases hpair with
    | sign hb => exact absurd List.mem_cons_self hplus
    | digits ha hb =>
      refine ⟨?_, ?_, congrArg _ hbytes⟩
      · intro c hc
        rcases List.mem_cons.mp hc with rfl | hc
        · exact ha
        · rcases List.mem_cons.mp hc with rfl | hc
          · exact hb
          · exact hrest c hc
      · rw [List.length_cons, List.length_cons]
        omega

/-- **A frame in candump format is what is read without a sign.** -/
theorem candump_iff {token : List Char} {frame : Frame} :
    Candump token frame ↔ Loose token frame ∧ '+' ∉ token := by
  constructor
  · intro h
    obtain ⟨idText, payload, rfl, ⟨hid, hlong, -, hraw⟩, hdigits, heven, hshort, hdata⟩ := h.text
    have hsize := byteLen_of_isHex hdigits
    have hhash : isHex '#' = false := by decide
    have hclassic : ¬ ['#', '#'] <:+: idText ++ '#' :: payload := by
      intro hfd
      -- a single separator
      have hleft : idText.count '#' = 0 := List.count_eq_zero.mpr (notMem_of_isHex hid hhash)
      have hright : payload.count '#' = 0 := List.count_eq_zero.mpr (notMem_of_isHex hdigits hhash)
      have hcount := hfd.sublist.count_le '#'
      simp only [List.count_append, List.count_cons_self, List.count_nil, hleft, hright] at hcount
      omega
    have hhead : ∀ c, isHex c = false → payload.head? ≠ some c :=
      fun c hc h => notMem_of_isHex hdigits hc (List.mem_of_mem_head? h)
    refine ⟨⟨payload, ⟨⟨idText, idText, rfl, ?_, Or.inl rfl, hid, hraw⟩, hclassic,
      ⟨hhead 'R' (by decide), hhead 'r' (by decide)⟩, ?_, ?_⟩, ?_⟩, ?_⟩
    · rw [byteLen_of_isHex hid]
      exact hlong
    · rw [hsize]
      exact heven
    · rw [hsize]
      exact hshort
    · rw [hdata]
      exact pairs_hexBytes payload hdigits heven
    · intro hplus
      rcases List.mem_append.mp hplus with hplus | hplus
      · exact notMem_of_isHex hid isHex_plus hplus
      · exact notMem_of_isHex hdigits isHex_plus (List.mem_of_ne_of_mem (by decide) hplus)
  · rintro ⟨⟨payload, hshaped, hpairs⟩, hplus⟩
    obtain ⟨idText, digits, htext, hlong, hsign, hdigits, hraw⟩ := hshaped.text
    rw [htext] at hplus
    have hid : idText = digits := by
      rcases hsign with hid | hid
      · exact hid
      · exact absurd (List.mem_append_left _ (hid ▸ List.mem_cons_self)) hplus
    subst hid
    obtain ⟨hpayload, heven, hdata⟩ := hpairs.unsigned fun hmem =>
      hplus (List.mem_append_right _ (List.mem_cons_of_mem _ hmem))
    have hshort := hshaped.short
    rw [byteLen_of_isHex hpayload] at hshort
    rw [byteLen_of_isHex hdigits] at hlong
    exact ⟨⟨idText, payload, htext, ⟨hdigits, hlong, hraw ▸ frame.id.raw_le, hraw⟩, hpayload,
      heven, hshort, hdata⟩⟩

/-- **The parser should accept exactly candump frames.** -/
structure ExactlyCandump (τ : Type) [Seconds τ] (line : List Char) (number : Nat) : Prop where
  /-- A frame comes from a token in candump format, with the value of its
  digits. -/
  read : ∀ entry, parseLine τ line number = .ok (.ok (some entry)) → ∃ stamp token,
    Framed line stamp token ∧ Candump token entry.frame
      ∧ entry.timestamp = Seconds.ofText (trim stamp)
  /-- Such a token is accepted. -/
  accepted : ∀ stamp token frame, Framed line stamp token → Candump token frame →
    parseLine τ line number = .ok (.ok (some ⟨Seconds.ofText (trim stamp), frame⟩))
  /-- Any other token that is not skipped is an error. -/
  refused : ∀ stamp token, Framed line stamp token → ¬ Skipped token →
    (∀ frame, ¬ Candump token frame) → ∃ e, parseLine τ line number = .ok (.error e)

/-- A line has one token. -/
theorem Framed.unique {line stamp stamp' token token' : List Char} (h : Framed line stamp token)
    (h' : Framed line stamp' token') : token = token' := by
  have hsame := (parseHead_framed Nat 0 h).symm.trans (parseHead_framed Nat 0 h')
  exact (Prod.mk.inj (Option.some.inj (Except.ok.inj hsame))).2

/-- **It does, exactly if the token of the line is not cut inside a
character and has no sign where a digit should be.** -/
theorem exactly_candump_iff (τ : Type) [Seconds τ] (line : List Char) (number : Nat) :
    ExactlyCandump τ line number
      ↔ ∀ stamp token, Framed line stamp token → ¬ Torn token ∧ ¬ Signed token := by
  constructor
  · intro h stamp token hframed
    constructor
    · intro htorn
      have hpanic := parseLine_torn τ number hframed htorn
      have hskipped : ¬ Skipped token := fun hskipped =>
        (nomatch hpanic.symm.trans (parseLine_skipped τ number hframed hskipped))
      have hcandump : ∀ frame, ¬ Candump token frame := fun frame hcandump =>
        (nomatch hpanic.symm.trans
          (parseLine_loose τ number hframed (candump_iff.mp hcandump).1))
      obtain ⟨e, herror⟩ := h.refused stamp token hframed hskipped hcandump
      cases hpanic.symm.trans herror
    · rintro ⟨⟨frame, hloose⟩, hplus⟩
      obtain ⟨stamp', token', hframed', hcandump, -⟩ :=
        h.read _ (parseLine_loose τ number hframed hloose)
      exact (candump_iff.mp hcandump).2 (hframed.unique hframed' ▸ hplus)
  · intro h
    constructor
    · intro entry hparse
      obtain ⟨stamp, token, hframed, hloose, htimestamp⟩ := parseLine_some τ number hparse
      obtain ⟨-, hsigned⟩ := h stamp token hframed
      have hplus : '+' ∉ token := fun hplus => hsigned ⟨⟨_, hloose⟩, hplus⟩
      exact ⟨stamp, token, hframed, candump_iff.mpr ⟨hloose, hplus⟩, htimestamp⟩
    · intro stamp token frame hframed hcandump
      exact parseLine_loose τ number hframed (candump_iff.mp hcandump).1
    · intro stamp token hframed hskipped hcandump
      obtain ⟨htorn, hsigned⟩ := h stamp token hframed
      refine parseLine_refused τ number hframed hskipped (fun frame hloose => ?_) htorn
      have hplus : '+' ∉ token := fun hplus => hsigned ⟨⟨_, hloose⟩, hplus⟩
      exact hcandump frame (candump_iff.mpr ⟨hloose, hplus⟩)

/-- **Signs are read as digits**: `+8FECA80#+F` becomes a frame of one
byte. -/
theorem signs_accepted :
    ∃ frame : Frame, frame.id.raw = 0x8FECA80 ∧ frame.data = [0x0F]
      ∧ parseLine Nat "(1.0) can0 +8FECA80#+F".toList 1 = .ok (.ok (some ⟨1000000, frame⟩))
      ∧ ¬ ExactlyCandump Nat "(1.0) can0 +8FECA80#+F".toList 1 := by
  have hframed : Framed "(1.0) can0 +8FECA80#+F".toList "1.0".toList "+8FECA80#+F".toList := by
    refine ⟨⟨" can0 +8FECA80#+F".toList, "can0".toList, [], ?_, ?_⟩, ?_, ?_⟩ <;> decide +kernel
  have hnew : ∃ frame, Frame.new ⟨0x8FECA80, by decide⟩ [0x0F] = .ok frame :=
    Frame.new_ok _ (by decide)
  obtain ⟨frame, hframe⟩ := hnew
  obtain ⟨hid, hdata⟩ := Frame.data_new hframe
  have hshaped : Shaped "+8FECA80#+F".toList ['+', 'F'] frame.id := by
    rw [hid]
    have hdigits : ∀ c ∈ "8FECA80".toList, isHex c = true :=
      List.all_eq_true.mp (by decide +kernel)
    refine ⟨⟨"+8FECA80".toList, "8FECA80".toList, ?_, ?_, ?_, hdigits, ?_⟩, ?_, ?_, ?_, ?_⟩ <;>
      decide +kernel
  have hpairs : Pairs ['+', 'F'] frame.data := by
    rw [hdata]
    exact .cons (.sign (by decide)) .nil
  have hparse := parseLine_loose Nat 1 hframed ⟨_, hshaped, hpairs⟩
  have hstamp : (Seconds.ofText (trim "1.0".toList) : Nat) = 1000000 := by decide +kernel
  rw [hstamp] at hparse
  refine ⟨frame, by rw [hid], hdata, hparse, fun h => ?_⟩
  obtain ⟨stamp, token, hframed', hcandump, -⟩ := h.read _ hparse
  have hplus := (candump_iff.mp hcandump).2
  rw [← hframed.unique hframed'] at hplus
  exact hplus (by decide +kernel)

end SaeJ1939.Host.Log
