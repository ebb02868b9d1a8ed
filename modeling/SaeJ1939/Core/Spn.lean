/-
  SaeJ1939.Core.Spn — a parameter inside a payload, and the codes that are
  no measurement (`spn.rs`).

  Where a parameter lies is all that reading it depends on; its number,
  its name and its scaling are left out.

  Main results:
    * `readIntel_ok`, `readIntel_overflow` — the bit loop reads the field
      of the payload as a little-endian number, or leaves the type of its
      index.
    * `classify_ok` — no width in use makes the classification panic.
    * `classify_monotone` — the values of a width are divided into bands,
      in one order, and none of a measurement is lost.
    * `extract_short`, `extract_ok` — what a parameter is extracted as.
-/
import SaeJ1939.Core.Types
import SaeJ1939.Lib.Bits
import SaeJ1939.Lib.Checked

namespace SaeJ1939

open Checked Bits

/-! ## §1. The codes that are no measurement. -/

/-- The raw field, classified against the reserved ranges. -/
inductive RawValue where
  | valid (raw : Nat)
  /-- The sender reports a fault. -/
  | error
  | notAvailable
  | reserved
  deriving Repr, DecidableEq

/-- The same class, of another raw value. -/
def RawValue.carrying (raw : Nat) : RawValue → RawValue
  | .valid _ => .valid raw
  | status => status

namespace Spn

/-- The widest parameter that is extracted. -/
def maxBitLength : Nat := 32

/-- A field whose `top` is looked up in the bands of a width: measurements
up to `lastValid`, reserved values up to `lastReserved`, the error and
what is not available above them. -/
def bands (lastValid lastReserved top raw : Nat) : RawValue :=
  if top ≤ lastValid then .valid raw
  else if top ≤ lastReserved then .reserved
  else if top = lastReserved + 1 then .error
  else .notAvailable

/-- Classify a raw field against the values reserved at the top of its
range. -/
def classify (raw bitLength : Nat) : Exec RawValue :=
  match bitLength with
  | 1 => .ok (.valid raw)
  | 2 => .ok (bands 1 1 raw raw)
  | 4 => .ok (bands 0xA 0xD raw raw)
  | 8 => .ok (bands 0xFA 0xFD raw raw)
  | 3 | 5 | 6 | 7 =>
      -- widths that are not tabulated: the top two values only
      let max := 2 ^ bitLength - 1
      if raw = max then .ok .notAvailable
      else if raw = max - 1 then .ok .error
      else .ok (.valid raw)
  | _ => do
      let top ← shrU 32 raw (← subU bitLength 8)
      return bands 0xFA 0xFD top raw

/-- The widths that are not tabulated. -/
theorem top_two_ok (raw max : Nat) : ∃ value, (if raw = max then .ok .notAvailable
    else if raw = max - 1 then .ok .error else .ok (.valid raw) : Exec RawValue) = .ok value := by
  split
  · exact ⟨_, rfl⟩
  · split <;> exact ⟨_, rfl⟩

/-- A field wider than a byte is looked up by its top byte. -/
theorem classify_wide {bitLength : Nat} (hwide : 8 < bitLength) (hmax : bitLength ≤ maxBitLength)
    (raw : Nat) :
    classify raw bitLength = .ok (bands 0xFA 0xFD (raw / 2 ^ (bitLength - 8)) raw) := by
  have hmax' : bitLength ≤ 32 := hmax
  unfold classify
  split
  case h_9 =>
    rw [subU_ok (Nat.le_of_lt hwide), ok_bind, shrU_ok (by omega), Nat.shiftRight_eq_div_pow]
    rfl
  all_goals omega

/-- **No width in use makes the classification panic.** -/
theorem classify_ok (raw : Nat) {bitLength : Nat} (h₁ : 0 < bitLength)
    (h₂ : bitLength ≤ maxBitLength) : ∃ value, classify raw bitLength = .ok value := by
  by_cases hwide : 8 < bitLength
  · exact ⟨_, classify_wide hwide h₂ raw⟩
  · match bitLength, h₁, hwide with
    | 1, _, _ | 2, _, _ | 4, _, _ | 8, _, _ => exact ⟨_, rfl⟩
    | 3, _, _ | 5, _, _ | 6, _, _ | 7, _, _ => exact top_two_ok raw _
    | 0, h, _ => exact absurd h (by decide)
    | bitLength + 9, _, h => exact absurd h (by omega)

/-! ## §2. The bands of a width. -/

/-- How the values of a field of some width are divided up: measurements,
then reserved values, then the error, then what is not available. -/
structure Bands (width : Nat) where
  reservedFrom : Nat
  errorFrom : Nat
  notAvailableFrom : Nat
  zero_valid : 0 < reservedFrom
  reserved_le_error : reservedFrom ≤ errorFrom
  error_le_notAvailable : errorFrom ≤ notAvailableFrom
  notAvailable_le : notAvailableFrom ≤ 2 ^ width
  /-- A field of two bits or more has room for both codes. -/
  codes : 2 ≤ width → errorFrom < notAvailableFrom ∧ notAvailableFrom < 2 ^ width

/-- The band a value lies in. -/
def Bands.at {width : Nat} (b : Bands width) (raw : Nat) : RawValue :=
  if raw < b.reservedFrom then .valid raw
  else if raw < b.errorFrom then .reserved
  else if raw < b.notAvailableFrom then .error
  else .notAvailable

/-- Bands looked up by what is left of a value without its low `k` bits. -/
theorem bands_shift (lastValid lastReserved raw k : Nat) :
    bands lastValid lastReserved (raw / 2 ^ k) raw
      = if raw < (lastValid + 1) * 2 ^ k then .valid raw
        else if raw < (lastReserved + 1) * 2 ^ k then .reserved
        else if raw < (lastReserved + 2) * 2 ^ k then .error
        else .notAvailable := by
  have hlt : ∀ n, raw / 2 ^ k < n ↔ raw < n * 2 ^ k :=
    fun n => Nat.div_lt_iff_lt_mul (Nat.two_pow_pos k)
  simp only [← hlt]
  unfold bands
  generalize raw / 2 ^ k = top
  simp only [Nat.lt_succ_iff]
  split
  next => rfl
  next =>
    split
    next => rfl
    next h₁ h₂ =>
      -- a value above the reserved ones is the error exactly if it is the next
      have hnext : top = lastReserved + 1 ↔ top ≤ lastReserved + 1 := by omega
      simp only [hnext]

/-- The widths that are not tabulated have their two codes only. -/
theorem top_two_eq (raw max : Nat) (hraw : raw ≤ max) :
    (if raw = max then .ok .notAvailable
      else if raw = max - 1 then .ok .error else .ok (.valid raw) : Exec RawValue)
      = .ok (if raw < max - 1 then .valid raw
          else if raw < max - 1 then .reserved
          else if raw < max then .error
          else .notAvailable) := by
  by_cases h₁ : raw = max
  · rw [if_pos h₁, if_neg (by omega), if_neg (by omega), if_neg (by omega)]
  · rw [if_neg h₁]
    by_cases h₂ : raw = max - 1
    · rw [if_pos h₂, if_neg (by omega), if_neg (by omega), if_pos (by omega)]
    · rw [if_neg h₂, if_pos (by omega)]

/-- The bands of a width whose top is looked up, above its low `k` bits. -/
def Bands.tabulated {width : Nat} (lastValid lastReserved k : Nat) (h : lastValid ≤ lastReserved)
    (hwidth : (lastReserved + 3) * 2 ^ k = 2 ^ width) : Bands width where
  reservedFrom := (lastValid + 1) * 2 ^ k
  errorFrom := (lastReserved + 1) * 2 ^ k
  notAvailableFrom := (lastReserved + 2) * 2 ^ k
  zero_valid := Nat.mul_pos (Nat.succ_pos _) (Nat.two_pow_pos k)
  reserved_le_error := Nat.mul_le_mul_right _ (by omega)
  error_le_notAvailable := Nat.mul_le_mul_right _ (by omega)
  notAvailable_le := hwidth ▸ Nat.mul_le_mul_right _ (by omega)
  codes := by
    intro _
    rw [← hwidth]
    exact ⟨Nat.mul_lt_mul_of_pos_right (by omega) (Nat.two_pow_pos k),
      Nat.mul_lt_mul_of_pos_right (by omega) (Nat.two_pow_pos k)⟩

/-- The bands of a width that is not tabulated. -/
def Bands.topTwo {width : Nat} (h : 2 ≤ width) : Bands width :=
  have hfour : 2 ^ 2 ≤ 2 ^ width := Nat.pow_le_pow_right (by decide) h
  { reservedFrom := 2 ^ width - 2
    errorFrom := 2 ^ width - 2
    notAvailableFrom := 2 ^ width - 1
    zero_valid := by omega
    reserved_le_error := le_rfl
    error_le_notAvailable := by omega
    notAvailable_le := by omega
    codes := by omega }

/-- A single bit has no room for a code. -/
def Bands.bit : Bands 1 where
  reservedFrom := 2
  errorFrom := 2
  notAvailableFrom := 2
  zero_valid := by decide
  reserved_le_error := le_rfl
  error_le_notAvailable := le_rfl
  notAvailable_le := le_rfl
  codes := by omega

/-- Looking a value up is finding its band. -/
theorem Bands.tabulated_at {width lastValid lastReserved k : Nat} (h : lastValid ≤ lastReserved)
    (hwidth : (lastReserved + 3) * 2 ^ k = 2 ^ width) (raw : Nat) :
    bands lastValid lastReserved (raw / 2 ^ k) raw
      = (Bands.tabulated lastValid lastReserved k h hwidth).at raw :=
  bands_shift lastValid lastReserved raw k

theorem Bands.tabulated_at_zero {width lastValid lastReserved : Nat}
    (h : lastValid ≤ lastReserved) (hwidth : (lastReserved + 3) * 2 ^ 0 = 2 ^ width) (raw : Nat) :
    bands lastValid lastReserved raw raw
      = (Bands.tabulated lastValid lastReserved 0 h hwidth).at raw := by
  have hat := Bands.tabulated_at h hwidth raw
  rwa [Nat.pow_zero, Nat.div_one] at hat

/-- **Every width divides its values into bands.** -/
theorem exists_bands {width : Nat} (h₁ : 0 < width) (h₂ : width ≤ maxBitLength) :
    ∃ b : Bands width, ∀ raw < 2 ^ width, classify raw width = .ok (b.at raw) := by
  have hmax : width ≤ 32 := h₂
  by_cases hwide : 8 < width
  · have hpow : (0xFD + 3) * 2 ^ (width - 8) = 2 ^ width := by
      show 2 ^ 8 * 2 ^ (width - 8) = 2 ^ width
      rw [← Nat.pow_add, Nat.add_sub_cancel' (Nat.le_of_lt hwide)]
    refine ⟨.tabulated 0xFA 0xFD (width - 8) (by decide) hpow, ?_⟩
    intro raw _
    rw [classify_wide hwide h₂, Bands.tabulated_at (by decide) hpow]
  · -- up to a byte, the code has an arm of its own for each width
    match width, h₁, hwide with
    | 1, _, _ =>
      refine ⟨.bit, ?_⟩
      intro raw hraw
      exact congrArg Except.ok (if_pos hraw).symm
    | 2, _, _ =>
      refine ⟨.tabulated 1 1 0 (by decide) (by decide), ?_⟩
      intro raw _
      exact congrArg Except.ok (Bands.tabulated_at_zero (by decide) (by decide) raw)
    | 4, _, _ =>
      refine ⟨.tabulated 0xA 0xD 0 (by decide) (by decide), ?_⟩
      intro raw _
      exact congrArg Except.ok (Bands.tabulated_at_zero (by decide) (by decide) raw)
    | 8, _, _ =>
      refine ⟨.tabulated 0xFA 0xFD 0 (by decide) (by decide), ?_⟩
      intro raw _
      exact congrArg Except.ok (Bands.tabulated_at_zero (by decide) (by decide) raw)
    | 3, _, _ | 5, _, _ | 6, _, _ | 7, _, _ =>
      refine ⟨.topTwo (by decide), ?_⟩
      intro raw hraw
      exact top_two_eq raw _ (Nat.le_sub_one_of_lt hraw)
    | 0, h, _ => exact absurd h (by decide)
    | width + 9, _, h => exact absurd h (by omega)

/-- **A field wider than a byte is classified by its top byte**, as that
byte alone would be. -/
theorem classify_top_byte {width : Nat} (hwide : 8 < width) (hmax : width ≤ maxBitLength)
    (raw : Nat) :
    classify raw width = (classify (raw >>> (width - 8)) 8).map (RawValue.carrying raw) := by
  rw [classify_wide hwide hmax, Nat.shiftRight_eq_div_pow]
  show Except.ok _ = Except.ok ((bands 0xFA 0xFD (raw / 2 ^ (width - 8)) _).carrying raw)
  unfold bands
  split
  · rfl
  · split
    · rfl
    · split <;> rfl

theorem Bands.at_zero {width : Nat} (b : Bands width) : b.at 0 = .valid 0 := if_pos b.zero_valid

/-- The value of all ones is the code for what is not available. -/
theorem Bands.at_ones {width : Nat} (b : Bands width) (h : 2 ≤ width) :
    b.at (2 ^ width - 1) = .notAvailable := by
  obtain ⟨herror, htop⟩ := b.codes h
  have hreserved := b.reserved_le_error
  rw [Bands.at, if_neg (by omega), if_neg (by omega), if_neg (by omega)]

/-- **Classification is monotone and lossless.**  The values of every
width in use are divided into bands, in their order; zero is a measurement
and all ones are not available; a field wider than a byte is classified by
its top byte. -/
theorem classify_monotone {width : Nat} (h₁ : 0 < width) (h₂ : width ≤ maxBitLength) :
    (∃ b : Bands width, ∀ raw < 2 ^ width, classify raw width = .ok (b.at raw))
      ∧ classify 0 width = .ok (.valid 0)
      ∧ (2 ≤ width → classify (2 ^ width - 1) width = .ok .notAvailable)
      ∧ (8 < width → ∀ raw < 2 ^ width,
          classify raw width
            = (classify (raw >>> (width - 8)) 8).map (RawValue.carrying raw)) := by
  obtain ⟨b, hb⟩ := exists_bands h₁ h₂
  have hpos : 0 < 2 ^ width := Nat.two_pow_pos width
  refine ⟨⟨b, hb⟩, ?_, ?_, ?_⟩
  · rw [hb 0 hpos, b.at_zero]
  · intro h
    rw [hb _ (Nat.sub_one_lt_of_lt hpos), b.at_ones h]
  · intro hwide raw _
    exact classify_top_byte hwide h₂ raw

/-- A field of two bytes. -/
theorem classify_monotone_sixteen :
    (∃ b : Bands 16, ∀ raw < 2 ^ 16, classify raw 16 = .ok (b.at raw))
      ∧ classify 0 16 = .ok (.valid 0)
      ∧ (2 ≤ 16 → classify (2 ^ 16 - 1) 16 = .ok .notAvailable)
      ∧ (8 < 16 → ∀ raw < 2 ^ 16,
          classify raw 16 = (classify (raw >>> (16 - 8)) 8).map (RawValue.carrying raw)) :=
  classify_monotone (by decide) (by decide)

/-! ## §3. Reading a field, bit by bit. -/

/-- `(data[index / 8] >> (index % 8)) & 1`. -/
def fieldBit (data : List UInt8) (index : Nat) : Exec Nat := do
  let byte ← elemAt data (index / 8)
  return (byte.toNat >>> (index % 8)) &&& 1

/-- The loop that collects a field from its least significant bit on.  The
position of a bit is a `u16`. -/
def readIntel (startBit bitLength : UInt16) (data : List UInt8) : Exec Nat :=
  (List.range bitLength.toNat).foldlM
    (fun raw i => do
      let index ← addU 16 startBit.toNat i
      let bit ← fieldBit data index
      let shifted ← shlU 32 bit i
      return raw ||| shifted)
    0

/-- The field of a payload that a parameter is: some bits in a row of the
payload as a little-endian number. -/
def field (startBit bitLength : UInt16) (data : List UInt8) : Nat :=
  littleEndian data / 2 ^ startBit.toNat % 2 ^ bitLength.toNat

theorem fieldBit_ok {data : List UInt8} {index : Nat} (h : index < 8 * data.length) :
    fieldBit data index = .ok ((littleEndian data).testBit index).toNat := by
  have hbyte : index / 8 < data.length := by omega
  have hget : data.getD (index / 8) 0 = data[index / 8] := by
    rw [List.getD_eq_getElem?_getD, List.getElem?_eq_getElem hbyte, Option.getD_some]
  unfold fieldBit
  rw [elemAt_ok hbyte, ok_bind, testBit_littleEndian, hget, Nat.toNat_testBit, Nat.and_one_is_mod,
    Nat.shiftRight_eq_div_pow]
  rfl

/-- One bit, at a position within the type of its index. -/
theorem readIntel_step {data : List UInt8} {start n raw : Nat} (hstart : start + n < 2 ^ 16)
    (hdata : start + n < 8 * data.length) (hn : n < 32) :
    (do
      let index ← addU 16 start n
      let bit ← fieldBit data index
      let shifted ← shlU 32 bit n
      return raw ||| shifted : Exec Nat)
      = .ok (raw ||| ((littleEndian data).testBit (start + n)).toNat <<< n) := by
  have hfits : ((littleEndian data).testBit (start + n)).toNat <<< n < 2 ^ 32 := by
    rw [Nat.shiftLeft_eq]
    have hpow : 2 ^ n < 2 ^ 32 := Nat.pow_lt_pow_right (by decide) hn
    cases (littleEndian data).testBit (start + n) with
    | false => exact (Nat.zero_mul _).trans_lt (by decide)
    | true => exact (Nat.one_mul _).trans_lt hpow
  rw [addU_ok hstart, ok_bind, fieldBit_ok hdata, ok_bind, shlU_ok hn hfits, ok_bind]
  rfl

/-- The first `n` bits of a field. -/
theorem readIntel_bits {data : List UInt8} {start : Nat} (n : Nat) (hstart : start + n ≤ 2 ^ 16)
    (hdata : start + n ≤ 8 * data.length) (hn : n ≤ 32) :
    (List.range n).foldlM
      (fun raw i => do
        let index ← addU 16 start i
        let bit ← fieldBit data index
        let shifted ← shlU 32 bit i
        return raw ||| shifted)
      0 = (.ok (Nat.ofBits fun i : Fin n => (littleEndian data).testBit (start + i)) :
        Exec Nat) := by
  induction n with
  | zero => rfl
  | succ n ih =>
    rw [List.range_succ, List.foldlM_append, ih (by omega) (by omega) (by omega), ok_bind,
      List.foldlM_cons, readIntel_step (by omega) (by omega) (by omega), ok_bind]
    rw [ofBits_snoc fun i => (littleEndian data).testBit (start + i)]
    rfl

section Reading

variable {startBit bitLength : UInt16} {data : List UInt8}

/-- **The loop reads the field**, where every position of it is a `u16`. -/
theorem readIntel_ok (hpos : startBit.toNat + bitLength.toNat ≤ 65536)
    (hdata : startBit.toNat + bitLength.toNat ≤ 8 * data.length) (hlen : bitLength.toNat ≤ 32) :
    readIntel startBit bitLength data = .ok (field startBit bitLength data) := by
  unfold readIntel field
  rw [readIntel_bits _ hpos hdata hlen, ofBits_shift]

/-- **Otherwise it panics**: the position of some bit is no `u16`. -/
theorem readIntel_overflow (hpos : ¬ startBit.toNat + bitLength.toNat ≤ 65536)
    (hdata : startBit.toNat + bitLength.toNat ≤ 8 * data.length) (hlen : bitLength.toNat ≤ 32) :
    readIntel startBit bitLength data = .error .overflow := by
  -- the bits up to position 65535 are read, and the next one is not
  have hstart : startBit.toNat < 65536 := startBit.toNat_lt
  obtain ⟨rest, hrest⟩ : ∃ rest, bitLength.toNat = (65536 - startBit.toNat) + (rest + 1) :=
    ⟨bitLength.toNat - (65536 - startBit.toNat) - 1, by omega⟩
  unfold readIntel
  rw [hrest, List.range_add, List.foldlM_append,
    readIntel_bits (65536 - startBit.toNat) (by omega) (by omega) (by omega), ok_bind,
    List.range_succ_eq_map, List.map_cons, List.foldlM_cons, addU_overflow (by omega)]
  rfl

/-- The payload reaches the field exactly if it has a byte for each bit. -/
theorem reaches_iff (startBit bitLength : UInt16) {needed : Nat}
    (h : needed = (startBit.toNat + bitLength.toNat + 7) / 8) :
    ¬ data.length < needed ↔ startBit.toNat + bitLength.toNat ≤ 8 * data.length := by
  omega

end Reading

end Spn

/-! ## §4. Parameters. -/

/-- Where a parameter lies inside a payload. -/
structure Spn where
  /-- Bit offset from the start of the payload. -/
  startBit : UInt16
  /-- Field width in bits. -/
  bitLength : UInt16
  deriving Repr, DecidableEq

namespace Spn

/-- How many payload bytes a parameter needs. -/
def requiredLen (s : Spn) : Nat := (s.startBit.toNat + s.bitLength.toNat + 7) / 8

/-- Pull the raw field out of `data`, classified but not scaled. -/
def extract (s : Spn) (data : List UInt8) : Exec (Result RawValue) :=
  if s.bitLength.toNat = 0 ∨ s.bitLength.toNat > maxBitLength then
    .ok (.error (.valueOutOfRange "spn bit_length" s.bitLength.toNat))
  else if data.length < s.requiredLen then
    .ok (.error (.shortPayload s.requiredLen data.length))
  else do
    let raw ← readIntel s.startBit s.bitLength data
    return .ok (← classify raw s.bitLength.toNat)

section Extracting

variable {s : Spn} {data : List UInt8}

/-- A parameter of a width in use, read from a payload. -/
theorem extract_eq (h₁ : 0 < s.bitLength.toNat) (h₂ : s.bitLength.toNat ≤ maxBitLength) :
    s.extract data = if data.length < s.requiredLen then
        .ok (.error (.shortPayload s.requiredLen data.length))
      else do
        let raw ← readIntel s.startBit s.bitLength data
        return .ok (← classify raw s.bitLength.toNat) := by
  unfold extract
  rw [if_neg]
  omega

theorem extract_short (h₁ : 0 < s.bitLength.toNat) (h₂ : s.bitLength.toNat ≤ maxBitLength)
    (hdata : data.length < s.requiredLen) :
    s.extract data = .ok (.error (.shortPayload s.requiredLen data.length)) := by
  rw [extract_eq h₁ h₂, if_pos hdata]

/-- **A parameter is the field of the payload, classified**, where every
position of it is a `u16`. -/
theorem extract_ok (h₁ : 0 < s.bitLength.toNat) (h₂ : s.bitLength.toNat ≤ maxBitLength)
    (hdata : ¬ data.length < s.requiredLen)
    (hpos : s.startBit.toNat + s.bitLength.toNat ≤ 65536) :
    ∃ value, classify (field s.startBit s.bitLength data) s.bitLength.toNat = .ok value
      ∧ s.extract data = .ok (.ok value) := by
  obtain ⟨value, hvalue⟩ := classify_ok (field s.startBit s.bitLength data) h₁ h₂
  refine ⟨value, hvalue, ?_⟩
  have hreach := (reaches_iff s.startBit s.bitLength rfl).mp hdata
  rw [extract_eq h₁ h₂, if_neg hdata, readIntel_ok hpos hreach h₂, ok_bind, hvalue]
  rfl

/-- Otherwise extracting it panics. -/
theorem extract_overflow (h₁ : 0 < s.bitLength.toNat) (h₂ : s.bitLength.toNat ≤ maxBitLength)
    (hdata : ¬ data.length < s.requiredLen)
    (hpos : ¬ s.startBit.toNat + s.bitLength.toNat ≤ 65536) :
    s.extract data = .error .overflow := by
  rw [extract_eq h₁ h₂, if_neg hdata, readIntel_overflow hpos ((reaches_iff _ _ rfl).mp hdata) h₂]
  rfl

end Extracting

end Spn

end SaeJ1939
