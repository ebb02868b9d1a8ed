/-
  SaeJ1939.Lib.Text — text, as strings in UTF-8 have it.

  A text is the list of its characters, but its length and the places
  where it is cut are counted in bytes.  A cut inside a character is a
  panic.  Numbers are read from text the way a standard library reads
  them, which is more generous than their digits: a plus sign may stand
  in front.

  Main results:
    * `cutAt_append`, `cutAt_inside` — a cut between characters, and a cut
      inside one.
    * `splitOnce_eq_some` — a text split at the first separator.
    * `readDigits_eq_some` — digits read one by one are their value, if
      it fits.
    * `fromStrRadix16_eq_some` — the texts that are read as a number.
    * `fromStrRadix16_pair` — those of them that are two characters.
    * `zeroPadded_upperHex` — a number written with a width is read back.
    * `mem_of_isFloat` — the characters of a float.
    * `lines_flatMap` — a text written line by line is split into its
      lines.
-/
import Mathlib.Data.List.DropRight
import SaeJ1939.Lib.Checked

namespace Text

open Checked

/-! ## §1. Lengths and cuts, in bytes. -/

/-- `s.len()`. -/
def byteLen (s : List Char) : Nat := (s.map Char.utf8Size).sum

@[simp] theorem byteLen_nil : byteLen [] = 0 := rfl

@[simp] theorem byteLen_cons (c : Char) (s : List Char) :
    byteLen (c :: s) = c.utf8Size + byteLen s := rfl

@[simp] theorem byteLen_append (s t : List Char) : byteLen (s ++ t) = byteLen s + byteLen t := by
  unfold byteLen
  rw [List.map_append, List.sum_append]

theorem byteLen_eq_zero {s : List Char} (h : byteLen s = 0) : s = [] := by
  cases s with
  | nil => rfl
  | cons c s =>
    have hpos := c.utf8Size_pos
    rw [byteLen_cons] at h
    omega

/-- A text before byte `n` and from it on. -/
def cutAt : List Char → Nat → Exec (List Char × List Char)
  | [], n => if n = 0 then .ok ([], []) else .error .slice
  | c :: s, n =>
      if n = 0 then .ok ([], c :: s)
      else if c.utf8Size ≤ n then do
        let (front, back) ← cutAt s (n - c.utf8Size)
        return (c :: front, back)
      else .error .slice

/-- `&s[start..stop]`. -/
def substr (s : List Char) (start stop : Nat) : Exec (List Char) :=
  if start ≤ stop then do
    let (_, rest) ← cutAt s start
    let (text, _) ← cutAt rest (stop - start)
    return text
  else .error .slice

theorem cutAt_zero (s : List Char) : cutAt s 0 = .ok ([], s) := by
  cases s with
  | nil => rfl
  | cons c s => exact if_pos rfl

/-- A character that ends before the cut. -/
theorem cutAt_cons {c : Char} {s : List Char} {n : Nat} (h : c.utf8Size ≤ n) :
    cutAt (c :: s) n = do
      let (front, back) ← cutAt s (n - c.utf8Size)
      return (c :: front, back) := by
  have hpos := c.utf8Size_pos
  have hn : n ≠ 0 := by omega
  rw [cutAt, if_neg hn, if_pos h]

/-- **A cut inside a character panics.** -/
theorem cutAt_inside {c : Char} {s : List Char} {n : Nat} (hn : 0 < n) (h : n < c.utf8Size) :
    cutAt (c :: s) n = .error .slice := by
  rw [cutAt, if_neg (Nat.pos_iff_ne_zero.mp hn), if_neg (Nat.not_le.mpr h)]

/-- **A cut between characters.** -/
theorem cutAt_append (s t : List Char) : cutAt (s ++ t) (byteLen s) = .ok (s, t) := by
  induction s with
  | nil => exact cutAt_zero t
  | cons c s ih =>
    rw [List.cons_append, byteLen_cons, cutAt_cons (Nat.le_add_right ..), Nat.add_sub_cancel_left,
      ih]
    rfl

/-- A part that starts between characters, and ends between two. -/
theorem substr_append {s t text rest : List Char} {n : Nat} (h : cutAt t n = .ok (text, rest)) :
    substr (s ++ t) (byteLen s) (byteLen s + n) = .ok text := by
  rw [substr, if_pos (Nat.le_add_right ..), cutAt_append, ok_bind, Nat.add_sub_cancel_left]
  dsimp only
  rw [h]
  rfl

/-- One that ends inside a character. -/
theorem substr_inside {s t : List Char} {n : Nat} {p : Panic} (h : cutAt t n = .error p) :
    substr (s ++ t) (byteLen s) (byteLen s + n) = .error p := by
  rw [substr, if_pos (Nat.le_add_right ..), cutAt_append, ok_bind, Nat.add_sub_cancel_left]
  dsimp only
  rw [h]
  rfl

/-! ## §2. Splitting. -/

/-- The white space of Unicode. -/
def isWhitespace (c : Char) : Bool :=
  let n := c.toNat
  (0x09 ≤ n && n ≤ 0x0D) || n == 0x20 || n == 0x85 || n == 0xA0 || n == 0x1680
    || (0x2000 ≤ n && n ≤ 0x200A) || n == 0x2028 || n == 0x2029 || n == 0x202F || n == 0x205F
    || n == 0x3000

/-- `s.trim()`. -/
def trim (s : List Char) : List Char := (s.dropWhile isWhitespace).rdropWhile isWhitespace

/-- `s.strip_prefix(c)`. -/
def stripFront (c : Char) : List Char → Option (List Char)
  | [] => none
  | d :: s => if d = c then some s else none

/-- `s.split_once(c)`: around the first `c`. -/
def splitOnce (c : Char) : List Char → Option (List Char × List Char)
  | [] => none
  | d :: s =>
      if d = c then some ([], s) else (splitOnce c s).map fun (front, back) => (d :: front, back)

/-- `s.split_whitespace()`. -/
def splitWhitespace (s : List Char) : List (List Char) :=
  (s.splitOnP isWhitespace).filter fun part => !part.isEmpty

/-- `s.split_inclusive('\n')`: every piece but the last ends a line. -/
def splitInclusive : List Char → List (List Char)
  | [] => []
  | c :: s =>
      if c = '\n' then [c] :: splitInclusive s
      else
        match splitInclusive s with
        | [] => [[c]]
        | piece :: pieces => (c :: piece) :: pieces

/-- A piece without its end of line, `\n` or `\r\n`. -/
def chomp (piece : List Char) : List Char :=
  if piece.getLast? = some '\n' then
    let line := piece.dropLast
    if line.getLast? = some '\r' then line.dropLast else line
  else piece

/-- `s.lines()`. -/
def lines (s : List Char) : List (List Char) := (splitInclusive s).map chomp

theorem stripFront_eq_some {c : Char} {s rest : List Char} :
    stripFront c s = some rest ↔ s = c :: rest := by
  cases s with
  | nil => simp [stripFront]
  | cons d s =>
    unfold stripFront
    split
    next h => simp [h]
    next h => simp [h]

/-- **A text split at the first separator.** -/
theorem splitOnce_eq_some {c : Char} {s front back : List Char} :
    splitOnce c s = some (front, back) ↔ s = front ++ c :: back ∧ c ∉ front := by
  induction s generalizing front with
  | nil => simp [splitOnce]
  | cons d s ih =>
    unfold splitOnce
    by_cases hd : d = c
    · -- the separator stands in front
      rw [if_pos hd, hd]
      constructor
      · intro h
        obtain ⟨rfl, rfl⟩ := Prod.mk.inj (Option.some.inj h)
        exact ⟨rfl, List.not_mem_nil⟩
      · rintro ⟨hs, hc⟩
        cases front with
        | nil =>
          injection hs with _ hs
          rw [hs]
        | cons e front =>
          injection hs with he _
          exact absurd (he ▸ List.mem_cons_self) hc
    · rw [if_neg hd, Option.map_eq_some_iff]
      constructor
      · rintro ⟨⟨front', back'⟩, hsplit, heq⟩
        obtain ⟨rfl, rfl⟩ := Prod.mk.inj heq
        obtain ⟨rfl, hc⟩ := ih.mp hsplit
        exact ⟨rfl, List.not_mem_cons_of_ne_of_not_mem (Ne.symm hd) hc⟩
      · rintro ⟨hs, hc⟩
        cases front with
        | nil =>
          injection hs with he _
          exact absurd he hd
        | cons e front =>
          injection hs with he hs
          exact ⟨(front, back), ih.mpr ⟨hs, fun hmem => hc (List.mem_cons_of_mem _ hmem)⟩,
            by rw [he]⟩

/-! ## §3. Hexadecimal numbers. -/

/-- `c.to_digit(16)`. -/
def hexDigit (c : Char) : Option Nat :=
  let n := c.toNat
  if 48 ≤ n ∧ n ≤ 57 then some (n - 48)
  else if 97 ≤ n ∧ n ≤ 102 then some (n - 97 + 10)
  else if 65 ≤ n ∧ n ≤ 70 then some (n - 65 + 10)
  else none

/-- Whether a character is a hexadecimal digit. -/
def isHex (c : Char) : Bool := (hexDigit c).isSome

/-- The value of some digits, the first of them the most significant. -/
def hexValue (s : List Char) : Nat := s.foldl (fun value c => 16 * value + (hexDigit c).getD 0) 0

/-- One more digit, if the value still fits the type. -/
def pushDigit (bits value : Nat) (c : Char) : Option Nat := do
  let digit ← hexDigit c
  if 16 * value + digit < 2 ^ bits then some (16 * value + digit) else none

/-- The digits one by one. -/
def readDigits (bits : Nat) (s : List Char) : Option Nat := s.foldlM (pushDigit bits) 0

/-- `from_str_radix(s, 16)` of an unsigned type of `bits` bits. -/
def fromStrRadix16 (bits : Nat) (s : List Char) : Option Nat :=
  let digits := match s with
    | '+' :: digits => digits
    | _ => s
  if digits.isEmpty then none else readDigits bits digits

theorem hexDigit_lt {c : Char} {digit : Nat} (h : hexDigit c = some digit) :
    digit < 16 ∧ c.toNat < 128 := by
  unfold hexDigit at h
  dsimp only at h
  split at h
  next hc =>
    cases h
    omega
  next =>
    split at h
    next hc =>
      cases h
      omega
    next =>
      split at h
      next hc =>
        cases h
        omega
      next => cases h

/-- A digit is a single byte. -/
theorem utf8Size_of_isHex {c : Char} (h : isHex c = true) : c.utf8Size = 1 := by
  obtain ⟨digit, hdigit⟩ := Option.isSome_iff_exists.mp h
  have hc : c.toNat < 128 := (hexDigit_lt hdigit).2
  have hval : c.val ≤ 0x7F := by
    rw [UInt32.le_iff_toNat_le]
    exact Nat.le_of_lt_succ hc
  exact if_pos hval

/-- Digits are as long as they are many. -/
theorem byteLen_of_isHex {s : List Char} (h : ∀ c ∈ s, isHex c = true) :
    byteLen s = s.length := by
  induction s with
  | nil => rfl
  | cons c s ih =>
    rw [byteLen_cons, utf8Size_of_isHex (h c List.mem_cons_self),
      ih fun d hd => h d (List.mem_cons_of_mem _ hd), List.length_cons, Nat.add_comm]

theorem hexValue_snoc (s : List Char) (c : Char) :
    hexValue (s ++ [c]) = 16 * hexValue s + (hexDigit c).getD 0 := by
  unfold hexValue
  rw [List.foldl_append]
  rfl

theorem readDigits_snoc (bits : Nat) (s : List Char) (c : Char) :
    readDigits bits (s ++ [c]) = (readDigits bits s).bind fun value => pushDigit bits value c := by
  unfold readDigits
  rw [List.foldlM_append]
  cases s.foldlM (pushDigit bits) 0 with
  | none => rfl
  | some value =>
    show [c].foldlM (pushDigit bits) value = pushDigit bits value c
    rw [List.foldlM_cons]
    cases pushDigit bits value c <;> rfl

theorem pushDigit_eq_some {bits value : Nat} {c : Char} {v : Nat} :
    pushDigit bits value c = some v
      ↔ isHex c = true ∧ 16 * value + (hexDigit c).getD 0 < 2 ^ bits
        ∧ v = 16 * value + (hexDigit c).getD 0 := by
  unfold pushDigit isHex
  cases hexDigit c with
  | none => simp
  | some digit =>
    simp only [Option.bind_eq_bind, Option.bind_some, Option.isSome_some, Option.getD_some,
      true_and, Option.ite_none_right_eq_some, Option.some.injEq]
    exact and_congr_right fun _ => eq_comm

/-- **Digits read one by one are their value**, if it fits the type. -/
theorem readDigits_eq_some {bits : Nat} {s : List Char} {v : Nat} :
    readDigits bits s = some v
      ↔ (∀ c ∈ s, isHex c = true) ∧ hexValue s < 2 ^ bits ∧ v = hexValue s := by
  induction s using List.reverseRecOn generalizing v with
  | nil =>
    show some 0 = some v ↔ _
    have hzero : hexValue [] = 0 := rfl
    rw [hzero, Option.some.injEq]
    constructor
    · rintro rfl
      exact ⟨fun c hc => absurd hc List.not_mem_nil, Nat.two_pow_pos bits, rfl⟩
    · rintro ⟨-, -, rfl⟩
      rfl
  | append_singleton s c ih =>
    rw [readDigits_snoc, hexValue_snoc, Option.bind_eq_some_iff]
    constructor
    · rintro ⟨value, hread, hpush⟩
      obtain ⟨hs, -, rfl⟩ := ih.mp hread
      obtain ⟨hc, hfits, hv⟩ := pushDigit_eq_some.mp hpush
      refine ⟨fun d hd => ?_, hfits, hv⟩
      rcases List.mem_append.mp hd with hd | hd
      · exact hs d hd
      · exact List.mem_singleton.mp hd ▸ hc
    · rintro ⟨hdigits, hfits, hv⟩
      -- a prefix of digits that fit fits
      refine ⟨hexValue s, ih.mpr ⟨fun d hd => hdigits d (List.mem_append_left _ hd), by omega, rfl⟩,
        pushDigit_eq_some.mpr ⟨hdigits c (List.mem_append_right _ List.mem_cons_self), hfits, hv⟩⟩

theorem isHex_plus : isHex '+' = false := by decide

/-- **The texts that are read as a number**: digits whose value fits, or
such digits behind a plus sign. -/
theorem fromStrRadix16_eq_some {bits : Nat} {s : List Char} {v : Nat} :
    fromStrRadix16 bits s = some v
      ↔ ∃ digits, (s = digits ∨ s = '+' :: digits) ∧ digits ≠ []
        ∧ (∀ c ∈ digits, isHex c = true) ∧ hexValue digits < 2 ^ bits ∧ v = hexValue digits := by
  have hread : ∀ digits : List Char,
      (if digits.isEmpty then none else readDigits bits digits) = some v
        ↔ digits ≠ [] ∧ (∀ c ∈ digits, isHex c = true) ∧ hexValue digits < 2 ^ bits
          ∧ v = hexValue digits := by
    intro digits
    rw [← readDigits_eq_some]
    cases digits with
    | nil => simp
    | cons c digits => simp
  unfold fromStrRadix16
  dsimp only
  rw [hread]
  split
  next digits =>
    constructor
    · intro h
      exact ⟨digits, Or.inr rfl, h⟩
    · rintro ⟨digits', heq | heq, hne, hdigits, hrest⟩
      · -- a plus sign is no digit
        have hplus := hdigits '+' (heq ▸ List.mem_cons_self)
        rw [isHex_plus] at hplus
        cases hplus
      · injection heq with _ heq
        exact heq ▸ ⟨hne, hdigits, hrest⟩
  next hplus =>
    constructor
    · intro h
      exact ⟨s, Or.inl rfl, h⟩
    · rintro ⟨digits, rfl | heq, h⟩
      · exact h
      · exact absurd heq (hplus digits)

/-- **Two characters read as a byte**: two digits, or a plus sign and one. -/
theorem fromStrRadix16_pair {a b : Char} {v : Nat} :
    fromStrRadix16 8 [a, b] = some v
      ↔ isHex b = true
        ∧ ((isHex a = true ∧ v = hexValue [a, b]) ∨ (a = '+' ∧ v = hexValue [b])) := by
  have hfits : ∀ s : List Char, s.length ≤ 2 → hexValue s < 2 ^ 8 := by
    intro s hs
    have hdigit : ∀ c, (hexDigit c).getD 0 < 16 := by
      intro c
      cases h : hexDigit c with
      | none => decide
      | some digit => exact (hexDigit_lt h).1
    match s, hs with
    | [], _ => decide
    | [c], _ =>
      have hc := hdigit c
      show 16 * 0 + (hexDigit c).getD 0 < 256
      omega
    | [c, d], _ =>
      have hc := hdigit c
      have hd := hdigit d
      show 16 * (16 * 0 + (hexDigit c).getD 0) + (hexDigit d).getD 0 < 256
      omega
  rw [fromStrRadix16_eq_some]
  constructor
  · rintro ⟨digits, rfl | heq, hne, hdigits, -, hv⟩
    · exact ⟨hdigits b (by simp), Or.inl ⟨hdigits a (by simp), hv⟩⟩
    · injection heq with ha hb
      subst hb
      exact ⟨hdigits b List.mem_cons_self, Or.inr ⟨ha, hv⟩⟩
  · rintro ⟨hb, ⟨ha, hv⟩ | ⟨ha, hv⟩⟩
    · refine ⟨[a, b], Or.inl rfl, List.cons_ne_nil _ _, fun c hc => ?_, hfits _ (by simp), hv⟩
      rcases List.mem_cons.mp hc with rfl | hc
      · exact ha
      · exact List.mem_singleton.mp hc ▸ hb
    · exact ⟨[b], Or.inr (by rw [ha]), List.cons_ne_nil _ _,
        fun c hc => List.mem_singleton.mp hc ▸ hb, hfits _ (by simp), hv⟩

/-! ## §4. Decimal numbers. -/

/-- What follows a sign, if there is one. -/
def dropSign : List Char → List Char
  | '+' :: s => s
  | '-' :: s => s
  | s => s

/-- Nothing, or an exponent. -/
def isExponent : List Char → Bool
  | [] => true
  | c :: s =>
      (c == 'e' || c == 'E') && !(dropSign s).isEmpty && (dropSign s).all Char.isDigit

/-- Digits, a point somewhere among them or none, and perhaps an exponent. -/
def isDecimal (s : List Char) : Bool :=
  let whole := s.takeWhile Char.isDigit
  match s.dropWhile Char.isDigit with
  | '.' :: rest =>
      (!whole.isEmpty || !(rest.takeWhile Char.isDigit).isEmpty)
        && isExponent (rest.dropWhile Char.isDigit)
  | rest => !whole.isEmpty && isExponent rest

/-- The texts that `f64` is read from. -/
def isFloat (s : List Char) : Bool :=
  let s := dropSign s
  isDecimal s || s.map Char.toLower ∈ ["inf".toList, "infinity".toList, "nan".toList]

/-! ## §5. Writing numbers. -/

/-- A digit as `X` writes it. -/
def upperHexDigit (digit : Nat) : Char :=
  Char.ofNat (if digit < 10 then 48 + digit else 55 + digit)

/-- The digits `X` writes a number with. -/
def upperHex (n : Nat) : List Char :=
  if n < 16 then [upperHexDigit n] else upperHex (n / 16) ++ [upperHexDigit (n % 16)]

/-- `0` and a width: zeros in front, up to the width. -/
def zeroPadded (width : Nat) (digits : List Char) : List Char :=
  List.replicate (width - digits.length) '0' ++ digits

theorem hexDigit_upperHexDigit {digit : Nat} (h : digit < 16) :
    hexDigit (upperHexDigit digit) = some digit := by
  have hall : ∀ d < 16, hexDigit (upperHexDigit d) = some d := by decide
  exact hall digit h

theorem isHex_upperHexDigit {digit : Nat} (h : digit < 16) :
    isHex (upperHexDigit digit) = true := by
  rw [isHex, hexDigit_upperHexDigit h]
  rfl

/-- What is written for a number are digits, and they are read as it. -/
theorem upperHex_digits (n : Nat) :
    (∀ c ∈ upperHex n, isHex c = true) ∧ hexValue (upperHex n) = n := by
  induction n using upperHex.induct with
  | case1 n hlt =>
    rw [upperHex, if_pos hlt]
    constructor
    · intro c hc
      exact List.mem_singleton.mp hc ▸ isHex_upperHexDigit hlt
    · show 16 * 0 + (hexDigit (upperHexDigit n)).getD 0 = n
      rw [hexDigit_upperHexDigit hlt, Option.getD_some]
      omega
  | case2 n hge ih =>
    have hmod : n % 16 < 16 := Nat.mod_lt _ (by decide)
    rw [upperHex, if_neg hge]
    constructor
    · intro c hc
      rcases List.mem_append.mp hc with hc | hc
      · exact ih.1 c hc
      · exact List.mem_singleton.mp hc ▸ isHex_upperHexDigit hmod
    · rw [hexValue_snoc, ih.2, hexDigit_upperHexDigit hmod, Option.getD_some]
      omega

/-- A number below `16 ^ width` takes no more than `width` digits. -/
theorem length_upperHex_le {n width : Nat} (hpos : 0 < width) (h : n < 16 ^ width) :
    (upperHex n).length ≤ width := by
  induction n using upperHex.induct generalizing width with
  | case1 n hlt =>
    rw [upperHex, if_pos hlt]
    exact hpos
  | case2 n hge ih =>
    rw [upperHex, if_neg hge, List.length_append, List.length_singleton]
    cases width with
    | zero => exact absurd hpos (by decide)
    | succ width =>
      rw [Nat.pow_succ] at h
      have hwidth : 0 < width := by
        by_contra hzero
        have hw : width = 0 := by omega
        rw [hw] at h
        omega
      have hdiv : n / 16 < 16 ^ width := by omega
      exact Nat.succ_le_succ (ih hwidth hdiv)

theorem hexValue_zeros (k : Nat) (s : List Char) :
    hexValue (List.replicate k '0' ++ s) = hexValue s := by
  induction k with
  | zero => rfl
  | succ k ih => exact ih

/-- **A number written with a width is read back**, from as many digits. -/
theorem zeroPadded_upperHex {n width : Nat} (hpos : 0 < width) (h : n < 16 ^ width) :
    (zeroPadded width (upperHex n)).length = width
      ∧ (∀ c ∈ zeroPadded width (upperHex n), isHex c = true)
      ∧ hexValue (zeroPadded width (upperHex n)) = n := by
  obtain ⟨hdigits, hvalue⟩ := upperHex_digits n
  have hlength := length_upperHex_le hpos h
  unfold zeroPadded
  refine ⟨?_, ?_, ?_⟩
  · rw [List.length_append, List.length_replicate]
    omega
  · intro c hc
    rcases List.mem_append.mp hc with hc | hc
    · exact (List.mem_replicate.mp hc).2 ▸ (by decide : isHex '0' = true)
    · exact hdigits c hc
  · rw [hexValue_zeros, hvalue]

/-! ## §6. What a number is made of. -/

/-- A digit is no white space. -/
theorem isWhitespace_of_isHex {c : Char} (h : isHex c = true) : isWhitespace c = false := by
  have hrange : 48 ≤ c.toNat ∧ c.toNat ≤ 102 := by
    by_contra hout
    have hnone : hexDigit c = none := by
      unfold hexDigit
      dsimp only
      rw [if_neg (by omega), if_neg (by omega), if_neg (by omega)]
    rw [isHex, hnone] at h
    cases h
  unfold isWhitespace
  simp only [Bool.or_eq_false_iff, Bool.and_eq_false_iff, beq_eq_false_iff_ne,
    decide_eq_false_iff_not]
  omega

theorem mem_dropSign {s : List Char} {c : Char} (hc : c ∈ s) :
    c ∈ dropSign s ∨ c ∈ ['+', '-'] := by
  unfold dropSign
  split
  next s =>
    rcases List.mem_cons.mp hc with rfl | hc
    · exact Or.inr (by decide)
    · exact Or.inl hc
  next s =>
    rcases List.mem_cons.mp hc with rfl | hc
    · exact Or.inr (by decide)
    · exact Or.inl hc
  next => exact Or.inl hc

theorem mem_signs {c : Char} (hc : c ∈ ['+', '-']) : c ∈ ['.', 'e', 'E', '+', '-'] := by
  rcases List.mem_cons.mp hc with rfl | hc
  · decide
  · rw [List.mem_singleton.mp hc]
    decide

/-- The characters of an exponent. -/
theorem mem_of_isExponent {s : List Char} (h : isExponent s = true) {c : Char} (hc : c ∈ s) :
    c.isDigit = true ∨ c ∈ ['.', 'e', 'E', '+', '-'] := by
  cases s with
  | nil => exact absurd hc List.not_mem_nil
  | cons d s =>
    unfold isExponent at h
    simp only [Bool.and_eq_true, Bool.or_eq_true, beq_iff_eq, List.all_eq_true] at h
    obtain ⟨⟨hletter, -⟩, hdigits⟩ := h
    rcases List.mem_cons.mp hc with rfl | hc
    · rcases hletter with rfl | rfl <;> exact Or.inr (by decide)
    · rcases mem_dropSign hc with hc | hc
      · exact Or.inl (hdigits c hc)
      · exact Or.inr (mem_signs hc)

/-- The characters of a number in decimals. -/
theorem mem_of_isDecimal {s : List Char} (h : isDecimal s = true) {c : Char} (hc : c ∈ s) :
    c.isDigit = true ∨ c ∈ ['.', 'e', 'E', '+', '-'] := by
  have htake : ∀ t : List Char, c ∈ t.takeWhile Char.isDigit → c.isDigit = true :=
    fun t ht => List.mem_takeWhile_imp ht
  rw [← s.takeWhile_append_dropWhile (p := Char.isDigit)] at hc
  rcases List.mem_append.mp hc with hc | hc
  · exact Or.inl (htake s hc)
  · unfold isDecimal at h
    dsimp only at h
    split at h
    next rest hrest =>
      rw [hrest] at hc
      rcases List.mem_cons.mp hc with rfl | hc
      · exact Or.inr (by decide)
      · rw [← rest.takeWhile_append_dropWhile (p := Char.isDigit)] at hc
        rcases List.mem_append.mp hc with hc | hc
        · exact Or.inl (htake rest hc)
        · exact mem_of_isExponent (Bool.and_eq_true_iff.mp h).2 hc
    next => exact mem_of_isExponent (Bool.and_eq_true_iff.mp h).2 hc

/-- **The characters of a float.** -/
theorem mem_of_isFloat {s : List Char} (h : isFloat s = true) {c : Char} (hc : c ∈ s) :
    c.isDigit = true ∨ c ∈ ['.', 'e', 'E', '+', '-'] ∨ c.toLower ∈ "infinityna".toList := by
  unfold isFloat at h
  simp only [Bool.or_eq_true, decide_eq_true_eq] at h
  rcases mem_dropSign hc with hc | hc
  · rcases h with h | h
    · rcases mem_of_isDecimal h hc with hc | hc
      · exact Or.inl hc
      · exact Or.inr (Or.inl hc)
    · have hlower : c.toLower ∈ (dropSign s).map Char.toLower := List.mem_map_of_mem hc
      have hwords : ["inf".toList, "infinity".toList, "nan".toList].all
          (fun word => word.all fun d => decide (d ∈ "infinityna".toList)) = true := by
        decide +kernel
      have hword := List.all_eq_true.mp (List.all_eq_true.mp hwords _ h) _ hlower
      exact Or.inr (Or.inr (of_decide_eq_true hword))
  · exact Or.inr (Or.inl (mem_signs hc))

/-- A text that neither starts nor ends in white space is trimmed
already. -/
theorem trim_eq_self {c d : Char} {s : List Char} (hc : isWhitespace c = false)
    (hd : isWhitespace d = false) : trim (c :: (s ++ [d])) = c :: (s ++ [d]) := by
  unfold trim
  rw [List.dropWhile_cons_of_neg (by rw [hc]; decide), ← List.cons_append,
    List.rdropWhile_concat_neg _ _ _ (by rw [hd]; decide)]

theorem mem_dropWhile {c : Char} {s : List Char} {p : Char → Bool} (hc : c ∈ s)
    (hp : p c = false) : c ∈ s.dropWhile p := by
  rw [← s.takeWhile_append_dropWhile (p := p)] at hc
  rcases List.mem_append.mp hc with hc | hc
  · exact absurd (List.mem_takeWhile_imp hc) (by rw [hp]; decide)
  · exact hc

/-- Only white space is trimmed. -/
theorem mem_trim {c : Char} {s : List Char} (hc : c ∈ s) (hsolid : isWhitespace c = false) :
    c ∈ trim s := by
  have hfront : c ∈ (s.dropWhile isWhitespace).reverse :=
    List.mem_reverse.mpr (mem_dropWhile hc hsolid)
  exact List.mem_reverse.mpr (mem_dropWhile hfront hsolid)

/-- Two words, behind a blank each. -/
theorem splitWhitespace_two {s t : List Char} (hs : s ≠ []) (ht : t ≠ [])
    (hs' : ∀ c ∈ s, isWhitespace c = false) (ht' : ∀ c ∈ t, isWhitespace c = false) :
    splitWhitespace (' ' :: (s ++ ' ' :: t)) = [s, t] := by
  have hblank : isWhitespace ' ' = true := by decide
  have hfirst : (' ' :: (s ++ ' ' :: t)).splitOnP isWhitespace
      = [] :: (s ++ ' ' :: t).splitOnP isWhitespace :=
    List.splitOnP_append_cons_of_forall_mem (fun c hc => absurd hc List.not_mem_nil) ' ' hblank _
  have hsecond : (s ++ ' ' :: t).splitOnP isWhitespace = s :: t.splitOnP isWhitespace :=
    List.splitOnP_append_cons_of_forall_mem hs' ' ' hblank t
  have hlast : t.splitOnP isWhitespace = [t] :=
    List.splitOnP_eq_singleton ht'
  unfold splitWhitespace
  rw [hfirst, hsecond, hlast]
  cases s with
  | nil => exact absurd rfl hs
  | cons c s =>
    cases t with
    | nil => exact absurd rfl ht
    | cons d t => rfl

/-! ## §7. Lines. -/

theorem splitInclusive_line {line : List Char} (h : '\n' ∉ line) (rest : List Char) :
    splitInclusive (line ++ '\n' :: rest) = (line ++ ['\n']) :: splitInclusive rest := by
  induction line with
  | nil =>
    show splitInclusive ('\n' :: rest) = _
    rw [splitInclusive, if_pos rfl]
    rfl
  | cons c line ih =>
    have hc : c ≠ '\n' := fun heq => h (heq ▸ List.mem_cons_self)
    show splitInclusive (c :: (line ++ '\n' :: rest)) = _
    rw [splitInclusive, if_neg hc, ih fun hmem => h (List.mem_cons_of_mem _ hmem)]
    rfl

theorem chomp_line {line : List Char} (h : line.getLast? ≠ some '\r') :
    chomp (line ++ ['\n']) = line := by
  unfold chomp
  rw [List.getLast?_concat, if_pos rfl, List.dropLast_concat]
  exact if_neg h

/-- **A text written line by line is split into its lines.** -/
theorem lines_flatMap {ls : List (List Char)}
    (h : ∀ l ∈ ls, '\n' ∉ l ∧ l.getLast? ≠ some '\r') :
    lines (ls.flatMap fun l => l ++ ['\n']) = ls := by
  unfold lines
  induction ls with
  | nil => rfl
  | cons l ls ih =>
    obtain ⟨hnewline, hreturn⟩ := h l List.mem_cons_self
    rw [List.flatMap_cons, List.append_assoc, List.singleton_append,
      splitInclusive_line hnewline, List.map_cons, chomp_line hreturn,
      ih fun l' hl' => h l' (List.mem_cons_of_mem _ hl')]

/-! ## §8. The parts of a line. -/

/-- `s.strip_prefix(lead)`. -/
def stripLead (lead s : List Char) : Option (List Char) :=
  if lead <+: s then some (s.drop lead.length) else none

/-- `s.split_once(p)`: around the first character with a property. -/
def splitOnceBy (p : Char → Bool) : List Char → Option (List Char × List Char)
  | [] => none
  | c :: s =>
      if p c then some ([], s) else (splitOnceBy p s).map fun (front, back) => (c :: front, back)

/-- `s.trim_start()`. -/
def trimStart (s : List Char) : List Char := s.dropWhile isWhitespace

/-- `s.trim_end_matches(c)`. -/
def trimEndMatches (c : Char) (s : List Char) : List Char := s.rdropWhile (· == c)

/-- `parse` of an unsigned type of `bits` bits: digits, perhaps behind a
plus sign, whose value fits. -/
def parseUnsigned (bits : Nat) (s : List Char) : Option Nat :=
  let digits := match s with
    | '+' :: digits => digits
    | _ => s
  if digits.isEmpty || !digits.all Char.isDigit then none
  else
    let value := digits.foldl (fun value c => 10 * value + (c.toNat - 48)) 0
    if value < 2 ^ bits then some value else none

end Text
