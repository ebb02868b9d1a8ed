/-
  SaeJ1939.Host.Signal — the raw bits of a signal, in either byte order
  (`dbc.rs`).

  An Intel signal is read by the loop that extracts a parameter, with the
  position of a bit in a `u16`; a Motorola signal by a walk through the
  payload, down within a byte and up to the top of the next, with the
  position in a `usize`.  What a signal is called and how it is scaled
  plays no part in this and is left out.

  Main results:
    * `raw_intel_ok`, `raw_intel_overflow` — reading an Intel signal.
    * `reads_field_iff` — a parameter and the Intel signal in its place
      are the field of the payload exactly if their positions fit a `u16`.
    * `readMotorola_ok` — the walk reads the bits from the top down.
    * `mirrors_intel_iff` — a Motorola signal is the Intel signal of the
      reversed payload exactly if that one's positions fit a `u16`.
-/
import SaeJ1939.Core.Spn

namespace SaeJ1939.Host

open Checked Bits Spn

/-! ## §1. Signals. -/

/-- Something that went wrong reading or using a DBC file. -/
inductive DbcError where
  | malformed (line : Nat) (expected : String)
  | orphanSignal (line : Nat)
  | notJ1939 (line id : Nat)
  | shortPayload (expected actual : Nat)
  | tooWide (bits : Nat)
  deriving Repr, DecidableEq

/-- Which end of a multi-byte field comes first. -/
inductive ByteOrder where
  /-- Intel. -/
  | littleEndian
  /-- Motorola. -/
  | bigEndian
  deriving Repr, DecidableEq

/-- Where the bits of a signal are. -/
structure Signal where
  startBit : UInt16
  /-- Field width in bits. -/
  bitLength : UInt16
  byteOrder : ByteOrder
  deriving Repr, DecidableEq

namespace Signal

/-- How many payload bytes a signal needs. -/
def requiredLen (s : Signal) : Nat :=
  match s.byteOrder with
  | .littleEndian => (s.startBit.toNat + s.bitLength.toNat + 7) / 8
  | .bigEndian =>
      let startByte := s.startBit.toNat / 8
      let bitsInStart := s.startBit.toNat % 8 + 1
      if s.bitLength.toNat ≤ bitsInStart then startByte + 1
      else startByte + 1 + (s.bitLength.toNat - bitsInStart + 7) / 8

/-- One step of the walk: take a bit, and go down within the byte, or to
the top of the next. -/
def walk (data : List UInt8) (here : Nat × Nat) : Exec (Nat × Nat) := do
  let (raw, position) := here
  let bit ← fieldBit data position
  let shifted ← shlU 32 raw 1
  return (shifted ||| bit, if position % 8 = 0 then position + 15 else position - 1)

/-- The loop that collects a field from its most significant bit on. -/
def readMotorola (startBit bitLength : UInt16) (data : List UInt8) : Exec Nat := do
  let (raw, _) ← (List.range bitLength.toNat).foldlM (fun here _ => walk data here)
    (0, startBit.toNat)
  return raw

/-- Pull the raw bits of a signal out of `data`, unscaled. -/
def raw (s : Signal) (data : List UInt8) : Exec (Except DbcError Nat) :=
  if s.bitLength.toNat = 0 ∨ s.bitLength.toNat > 32 then
    .ok (.error (.tooWide s.bitLength.toNat))
  else if data.length < s.requiredLen then
    .ok (.error (.shortPayload s.requiredLen data.length))
  else do
    let raw ← match s.byteOrder with
      | .littleEndian => readIntel s.startBit s.bitLength data
      | .bigEndian => readMotorola s.startBit s.bitLength data
    return .ok raw

section Reading

variable {s : Signal} {data : List UInt8}

/-- A signal of a width in use, read from a payload. -/
theorem raw_eq (h₁ : 0 < s.bitLength.toNat) (h₂ : s.bitLength.toNat ≤ 32) :
    s.raw data = if data.length < s.requiredLen then
        .ok (.error (.shortPayload s.requiredLen data.length))
      else do
        let raw ← match s.byteOrder with
          | .littleEndian => readIntel s.startBit s.bitLength data
          | .bigEndian => readMotorola s.startBit s.bitLength data
        return .ok raw := by
  unfold raw
  rw [if_neg]
  omega

theorem raw_short (h₁ : 0 < s.bitLength.toNat) (h₂ : s.bitLength.toNat ≤ 32)
    (hdata : data.length < s.requiredLen) :
    s.raw data = .ok (.error (.shortPayload s.requiredLen data.length)) := by
  rw [raw_eq h₁ h₂, if_pos hdata]

/-! ## §2. Intel signals. -/

theorem requiredLen_intel (h : s.byteOrder = .littleEndian) :
    s.requiredLen = (s.startBit.toNat + s.bitLength.toNat + 7) / 8 := by
  unfold requiredLen
  rw [h]

/-- **An Intel signal is the field of the payload**, where every position
of it is a `u16`. -/
theorem raw_intel_ok (h : s.byteOrder = .littleEndian) (h₁ : 0 < s.bitLength.toNat)
    (h₂ : s.bitLength.toNat ≤ 32) (hdata : ¬ data.length < s.requiredLen)
    (hpos : s.startBit.toNat + s.bitLength.toNat ≤ 65536) :
    s.raw data = .ok (.ok (field s.startBit s.bitLength data)) := by
  have hreach := (reaches_iff _ _ (requiredLen_intel h)).mp hdata
  rw [raw_eq h₁ h₂, if_neg hdata, h]
  dsimp only
  rw [readIntel_ok hpos hreach h₂]
  rfl

/-- Otherwise reading it panics. -/
theorem raw_intel_overflow (h : s.byteOrder = .littleEndian) (h₁ : 0 < s.bitLength.toNat)
    (h₂ : s.bitLength.toNat ≤ 32) (hdata : ¬ data.length < s.requiredLen)
    (hpos : ¬ s.startBit.toNat + s.bitLength.toNat ≤ 65536) :
    s.raw data = .error .overflow := by
  have hreach := (reaches_iff _ _ (requiredLen_intel h)).mp hdata
  rw [raw_eq h₁ h₂, if_neg hdata, h]
  dsimp only
  rw [readIntel_overflow hpos hreach h₂]
  rfl

end Reading

end Signal

/-- **A parameter and the Intel signal in its place should both be the
field of the payload.** -/
structure ReadsField (startBit bitLength : UInt16) (data : List UInt8) : Prop where
  /-- A payload that does not reach the field is refused by both. -/
  short : data.length < (Spn.mk startBit bitLength).requiredLen →
    (Spn.mk startBit bitLength).extract data
        = .ok (.error (.shortPayload (Spn.mk startBit bitLength).requiredLen data.length))
      ∧ (Signal.mk startBit bitLength .littleEndian).raw data
        = .ok (.error (.shortPayload (Spn.mk startBit bitLength).requiredLen data.length))
  /-- From any other, both read the field; the parameter is classified. -/
  value : ¬ data.length < (Spn.mk startBit bitLength).requiredLen →
    (∃ value, classify (field startBit bitLength data) bitLength.toNat = .ok value
        ∧ (Spn.mk startBit bitLength).extract data = .ok (.ok value))
      ∧ (Signal.mk startBit bitLength .littleEndian).raw data
        = .ok (.ok (field startBit bitLength data))
  /-- No bit but those of the field makes a difference. -/
  confined : ¬ data.length < (Spn.mk startBit bitLength).requiredLen →
    ∀ data' : List UInt8, ¬ data'.length < (Spn.mk startBit bitLength).requiredLen →
      (∀ i < bitLength.toNat, (littleEndian data').testBit (startBit.toNat + i)
        = (littleEndian data).testBit (startBit.toNat + i)) →
      (Spn.mk startBit bitLength).extract data' = (Spn.mk startBit bitLength).extract data
        ∧ (Signal.mk startBit bitLength .littleEndian).raw data'
          = (Signal.mk startBit bitLength .littleEndian).raw data

/-- The field is made of its own bits only. -/
theorem field_congr {startBit bitLength : UInt16} {data data' : List UInt8}
    (h : ∀ i < bitLength.toNat, (littleEndian data').testBit (startBit.toNat + i)
      = (littleEndian data).testBit (startBit.toNat + i)) :
    field startBit bitLength data' = field startBit bitLength data := by
  unfold field
  rw [← ofBits_shift, ← ofBits_shift]
  congr 1
  funext i
  exact h i i.isLt

/-- **They are the field exactly if the payload ends before it, or every
position of it fits a `u16`.** -/
theorem reads_field_iff (startBit bitLength : UInt16) (data : List UInt8)
    (h₁ : 1 ≤ bitLength.toNat) (h₂ : bitLength.toNat ≤ 32) :
    ReadsField startBit bitLength data
      ↔ data.length < (startBit.toNat + bitLength.toNat + 7) / 8
        ∨ startBit.toNat + bitLength.toNat ≤ 65536 := by
  let spn := Spn.mk startBit bitLength
  let signal := Signal.mk startBit bitLength .littleEndian
  have hneeded : signal.requiredLen = spn.requiredLen := rfl
  constructor
  · intro h
    by_contra hbad
    obtain ⟨hdata, hpos⟩ := not_or.mp hbad
    -- the parameter panics instead of being read
    obtain ⟨⟨value, -, hextract⟩, -⟩ := h.value hdata
    have hpanic : spn.extract data = .error .overflow := extract_overflow h₁ h₂ hdata hpos
    cases hextract.symm.trans hpanic
  · rintro (hshort | hpos)
    · refine ⟨fun _ => ⟨extract_short h₁ h₂ hshort, Signal.raw_short h₁ h₂ hshort⟩, ?_, ?_⟩
      · exact fun hdata => absurd hshort hdata
      · exact fun hdata => absurd hshort hdata
    · refine ⟨fun hdata => ⟨extract_short h₁ h₂ hdata, Signal.raw_short h₁ h₂ hdata⟩, ?_, ?_⟩
      · intro hdata
        exact ⟨extract_ok (s := spn) h₁ h₂ hdata hpos,
          Signal.raw_intel_ok (s := signal) rfl h₁ h₂ hdata hpos⟩
      · intro hdata data' hdata' hsame
        have hfield := field_congr hsame
        constructor
        · obtain ⟨v, hv, hextract⟩ := extract_ok (s := spn) h₁ h₂ hdata hpos
          obtain ⟨v', hv', hextract'⟩ := extract_ok (s := spn) h₁ h₂ hdata' hpos
          have hvalue : classify (field startBit bitLength data') bitLength.toNat = .ok v := by
            rw [hfield]
            exact hv
          have hvv : v' = v := Except.ok.inj (hv'.symm.trans hvalue)
          exact (hextract'.trans (by rw [hvv])).trans hextract.symm
        · have hraw := Signal.raw_intel_ok (s := signal) rfl h₁ h₂ hdata hpos
          have hraw' : signal.raw data' = .ok (.ok (field startBit bitLength data)) := by
            rw [← hfield]
            exact Signal.raw_intel_ok (s := signal) rfl h₁ h₂ hdata' hpos
          exact hraw'.trans hraw.symm

/-- Engine speed, in the payload of EEC1. -/
theorem reads_field_engineSpeed :
    ReadsField 24 16 [0xFF, 0xFF, 0xFF, 0x00, 0x19, 0xFF, 0xFF, 0xFF] :=
  (reads_field_iff 24 16 _ (by decide) (by decide)).mpr (Or.inr (by decide))

/-- **A field at the end of the positions**: bits 65535 and 65536 of a
payload of 8193 bytes make both panic. -/
theorem reads_field_panics :
    (Spn.mk 65535 2).requiredLen = (List.replicate 8193 (0 : UInt8)).length
      ∧ (Spn.mk 65535 2).extract (List.replicate 8193 0) = .error .overflow
      ∧ (Signal.mk 65535 2 .littleEndian).raw (List.replicate 8193 0) = .error .overflow
      ∧ ¬ ReadsField 65535 2 (List.replicate 8193 0) := by
  have hlength : (List.replicate 8193 (0 : UInt8)).length = 8193 := List.length_replicate
  have hdata : ¬ (List.replicate 8193 (0 : UInt8)).length < (Spn.mk 65535 2).requiredLen := by
    rw [hlength]
    decide
  have hpanic : (Spn.mk 65535 2).extract (List.replicate 8193 0) = .error .overflow :=
    extract_overflow (by decide) (by decide) hdata (by decide)
  refine ⟨?_, hpanic, ?_, ?_⟩
  · rw [hlength]
    decide
  · exact Signal.raw_intel_overflow rfl (by decide) (by decide) hdata (by decide)
  · intro h
    obtain ⟨⟨value, -, hextract⟩, -⟩ := h.value hdata
    cases hextract.symm.trans hpanic

/-! ## §3. Motorola signals. -/

namespace Signal

/-- One step of the walk, read off the payload as a number. -/
theorem walk_ok {data : List UInt8} {raw b : Nat} (hraw : raw < 2 ^ 31)
    (hdata : b < 8 * data.length) :
    walk data (raw, mirror b)
      = .ok (2 * raw + ((littleEndian data).testBit (mirror b)).toNat, mirror (b + 1)) := by
  have hposition : mirror b < 8 * data.length := by
    have hdiv := mirror_div b
    omega
  have hshift : raw <<< 1 = 2 * raw := by rw [Nat.shiftLeft_eq, pow_one, Nat.mul_comm]
  have hfits : raw <<< 1 < 2 ^ 32 := by
    rw [hshift]
    omega
  have hbit : ((littleEndian data).testBit (mirror b)).toNat < 2 ^ 1 := Bool.toNat_lt _
  unfold walk
  dsimp only
  rw [fieldBit_ok hposition, ok_bind, shlU_ok (by decide) hfits, ok_bind,
    ← Nat.shiftLeft_add_eq_or_of_lt hbit, hshift, mirror_succ]
  rfl

/-- The first `n` bits of the walk, from position `mirror b` on. -/
theorem walk_bits {data : List UInt8} {b : Nat} (n : Nat) (hn : n ≤ 32)
    (hdata : b + n ≤ 8 * data.length) :
    (List.range n).foldlM (fun here _ => walk data here) (0, mirror b)
      = (.ok (Nat.ofBits (fun i : Fin n =>
          (littleEndian data).testBit (mirror (b + (n - 1 - i)))), mirror (b + n))
        : Exec (Nat × Nat)) := by
  induction n with
  | zero => rfl
  | succ n ih =>
    have hlt : Nat.ofBits (fun i : Fin n =>
        (littleEndian data).testBit (mirror (b + (n - 1 - i)))) < 2 ^ 31 :=
      (Nat.ofBits_lt_two_pow _).trans_le (Nat.pow_le_pow_right (by decide) (by omega))
    rw [List.range_succ, List.foldlM_append, ih (by omega) (by omega), ok_bind, List.foldlM_cons,
      walk_ok hlt (by omega), ok_bind]
    -- the bit read last is the lowest one
    have hgrown := ofBits_cons_last (n := n) fun i =>
      (littleEndian data).testBit (mirror (b + i))
    rw [← hgrown]
    rfl

variable {startBit bitLength : UInt16} {data : List UInt8}

/-- The position of the least significant bit, counted from the top of
each byte. -/
def lastBit (startBit bitLength : UInt16) : Nat :=
  8 * (startBit.toNat / 8) + 7 - startBit.toNat % 8 + bitLength.toNat - 1

/-- The same, from the position of the most significant bit. -/
theorem lastBit_eq (startBit : UInt16) (h : 0 < bitLength.toNat) :
    lastBit startBit bitLength + 1 = mirror startBit.toNat + bitLength.toNat := by
  unfold lastBit mirror
  omega

/-- **The bytes a Motorola signal needs** end with its least significant
bit. -/
theorem requiredLen_motorola (h : 0 < bitLength.toNat) :
    (Signal.mk startBit bitLength .bigEndian).requiredLen = lastBit startBit bitLength / 8 + 1 := by
  unfold requiredLen lastBit
  dsimp only
  split <;> omega

theorem reaches_motorola_iff (h : 0 < bitLength.toNat) :
    ¬ data.length < (Signal.mk startBit bitLength .bigEndian).requiredLen
      ↔ mirror startBit.toNat + bitLength.toNat ≤ 8 * data.length := by
  rw [requiredLen_motorola h, ← lastBit_eq startBit h]
  omega

/-- What the walk collects: bit `i` of the result lies `i` places before
the last one. -/
def sawtooth (startBit bitLength : UInt16) (data : List UInt8) : Nat :=
  Nat.ofBits fun i : Fin bitLength.toNat =>
    (littleEndian data).testBit (mirror (lastBit startBit bitLength - i))

/-- **The walk reads the bits from the top down.** -/
theorem readMotorola_ok (h₁ : 0 < bitLength.toNat) (h₂ : bitLength.toNat ≤ 32)
    (hdata : mirror startBit.toNat + bitLength.toNat ≤ 8 * data.length) :
    readMotorola startBit bitLength data = .ok (sawtooth startBit bitLength data) := by
  have hwalk := walk_bits (b := mirror startBit.toNat) bitLength.toNat h₂ hdata
  rw [mirror_mirror] at hwalk
  have hlast := lastBit_eq startBit h₁
  have hsame : ∀ i : Fin bitLength.toNat,
      mirror startBit.toNat + (bitLength.toNat - 1 - i) = lastBit startBit bitLength - i := by
    intro i
    have hi := i.isLt
    omega
  simp only [hsame] at hwalk
  unfold readMotorola
  rw [hwalk]
  rfl

theorem raw_motorola (h₁ : 0 < bitLength.toNat) (h₂ : bitLength.toNat ≤ 32)
    (hdata : ¬ data.length < (Signal.mk startBit bitLength .bigEndian).requiredLen) :
    (Signal.mk startBit bitLength .bigEndian).raw data
      = .ok (.ok (sawtooth startBit bitLength data)) := by
  have hraw := @raw_eq ⟨startBit, bitLength, .bigEndian⟩ data h₁ h₂
  rw [hraw, if_neg hdata]
  dsimp only
  rw [readMotorola_ok h₁ h₂ ((reaches_motorola_iff h₁).mp hdata)]
  rfl

/-! ## §4. Motorola signals and their mirror images. -/

/-- The walk looks at the bytes from the first of the signal to the last it
needs. -/
theorem sawtooth_congr (h₁ : 0 < bitLength.toNat) {data' : List UInt8}
    (h : ∀ j, startBit.toNat / 8 ≤ j →
      j < (Signal.mk startBit bitLength .bigEndian).requiredLen → data'[j]? = data[j]?) :
    sawtooth startBit bitLength data' = sawtooth startBit bitLength data := by
  rw [requiredLen_motorola h₁] at h
  unfold sawtooth
  congr 1
  funext i
  have hi := i.isLt
  have hlast := lastBit_eq startBit h₁
  have hfirst := mirror_div startBit.toNat
  have hbyte := h ((lastBit startBit bitLength - i) / 8) (by omega) (by omega)
  rw [testBit_littleEndian, testBit_littleEndian, mirror_div, List.getD_eq_getElem?_getD,
    List.getD_eq_getElem?_getD, hbyte]

/-- **The field of the reversed payload** in the mirrored place is what the
walk collects. -/
theorem field_reverse {start : UInt16} (h₁ : 0 < bitLength.toNat)
    (hdata : mirror startBit.toNat + bitLength.toNat ≤ 8 * data.length)
    (hstart : start.toNat = 8 * data.length - 1 - lastBit startBit bitLength) :
    field start bitLength data.reverse = sawtooth startBit bitLength data := by
  have hlast := lastBit_eq startBit h₁
  unfold field sawtooth
  rw [← ofBits_shift, hstart]
  congr 1
  funext i
  have hi := i.isLt
  have hplace : 8 * data.length - 1 - lastBit startBit bitLength + i
      = 8 * data.length - 1 - (lastBit startBit bitLength - i) := by omega
  rw [hplace]
  exact testBit_littleEndian_reverse (by omega)

end Signal

/-- **A Motorola signal should be the mirror image of an Intel signal.** -/
structure MirrorsIntel (startBit bitLength : UInt16) (data : List UInt8) : Prop where
  /-- A payload that is too short is refused, and no other. -/
  short : (Signal.mk startBit bitLength .bigEndian).raw data
      = .ok (.error (.shortPayload (Signal.mk startBit bitLength .bigEndian).requiredLen
          data.length))
    ↔ data.length < (Signal.mk startBit bitLength .bigEndian).requiredLen
  /-- From any other the signal is read, using the bytes from its first to
  the last it needs; the Intel signal in the mirrored place reads the same
  from the reversed payload. -/
  read : ¬ data.length < (Signal.mk startBit bitLength .bigEndian).requiredLen →
    ∃ v, (Signal.mk startBit bitLength .bigEndian).raw data = .ok (.ok v)
      ∧ (∀ data' : List UInt8,
          ¬ data'.length < (Signal.mk startBit bitLength .bigEndian).requiredLen →
          (∀ j, startBit.toNat / 8 ≤ j →
            j < (Signal.mk startBit bitLength .bigEndian).requiredLen → data'[j]? = data[j]?) →
          (Signal.mk startBit bitLength .bigEndian).raw data' = .ok (.ok v))
      ∧ ∃ start : UInt16,
          start.toNat = 8 * data.length - 1 - Signal.lastBit startBit bitLength
          ∧ (Signal.mk start bitLength .littleEndian).raw data.reverse = .ok (.ok v)

/-- The Intel signal in the mirrored place is within the reversed payload,
and ends where the Motorola signal begins. -/
theorem mirrored_end {startBit bitLength start : UInt16} {data : List UInt8}
    (h₁ : 0 < bitLength.toNat)
    (hdata : mirror startBit.toNat + bitLength.toNat ≤ 8 * data.length)
    (hstart : start.toNat = 8 * data.length - 1 - Signal.lastBit startBit bitLength) :
    start.toNat + bitLength.toNat = 8 * data.length - mirror startBit.toNat
      ∧ ¬ data.reverse.length < (Signal.mk start bitLength .littleEndian).requiredLen := by
  have hlast := Signal.lastBit_eq startBit h₁
  have hend : start.toNat + bitLength.toNat = 8 * data.length - mirror startBit.toNat := by omega
  refine ⟨hend, ?_⟩
  have hwithin : start.toNat + bitLength.toNat ≤ 8 * data.length := by omega
  rw [List.length_reverse]
  exact (reaches_iff start bitLength rfl).mpr hwithin

/-- **It is, exactly if the payload is too short, or no longer than the
positions of the Intel signal reach.** -/
theorem mirrors_intel_iff (startBit bitLength : UInt16) (data : List UInt8)
    (h₁ : 1 ≤ bitLength.toNat) (h₂ : bitLength.toNat ≤ 32) :
    MirrorsIntel startBit bitLength data
      ↔ data.length < (Signal.mk startBit bitLength .bigEndian).requiredLen
        ∨ data.length ≤ 8192 + startBit.toNat / 8 := by
  let signal := Signal.mk startBit bitLength .bigEndian
  have hmirror : mirror startBit.toNat = 8 * (startBit.toNat / 8) + (7 - startBit.toNat % 8) := rfl
  have hshort : signal.raw data = .ok (.error (.shortPayload signal.requiredLen data.length))
      ↔ data.length < signal.requiredLen := by
    constructor
    · intro hraw
      by_contra hdata
      cases hraw.symm.trans (Signal.raw_motorola h₁ h₂ hdata)
    · exact Signal.raw_short h₁ h₂
  constructor
  · intro h
    by_contra hbad
    obtain ⟨hdata, hlong⟩ := not_or.mp hbad
    obtain ⟨v, -, -, start, hstart, hintel⟩ := h.read hdata
    -- the Intel signal runs past the last position there is
    obtain ⟨hend, hreach⟩ := mirrored_end h₁ ((Signal.reaches_motorola_iff h₁).mp hdata) hstart
    have hpos : ¬ start.toNat + bitLength.toNat ≤ 65536 := by omega
    have hpanic := Signal.raw_intel_overflow (s := ⟨start, bitLength, .littleEndian⟩) rfl h₁ h₂
      hreach hpos
    cases hintel.symm.trans hpanic
  · intro hcond
    refine ⟨hshort, fun hdata => ?_⟩
    have hlen := hcond.resolve_left hdata
    have hreach := (Signal.reaches_motorola_iff h₁).mp hdata
    have hlast := Signal.lastBit_eq startBit h₁
    refine ⟨Signal.sawtooth startBit bitLength data, Signal.raw_motorola h₁ h₂ hdata, ?_, ?_⟩
    · intro data' hdata' hsame
      rw [← Signal.sawtooth_congr h₁ hsame]
      exact Signal.raw_motorola h₁ h₂ hdata'
    · have hfits : 8 * data.length - 1 - Signal.lastBit startBit bitLength < 65536 := by omega
      have hstart : (UInt16.ofNat (8 * data.length - 1 - Signal.lastBit startBit bitLength)).toNat
          = 8 * data.length - 1 - Signal.lastBit startBit bitLength :=
        UInt16.toNat_ofNat_of_lt hfits
      obtain ⟨hend, hreach'⟩ := mirrored_end h₁ hreach hstart
      generalize UInt16.ofNat (8 * data.length - 1 - Signal.lastBit startBit bitLength) = start
        at hstart hend hreach'
      have hpos : start.toNat + bitLength.toNat ≤ 65536 := by omega
      refine ⟨start, hstart, ?_⟩
      rw [← Signal.field_reverse h₁ hreach hstart]
      exact Signal.raw_intel_ok (s := ⟨start, bitLength, .littleEndian⟩) rfl h₁ h₂ hreach' hpos

/-- A Motorola signal of twelve bits in the third and fourth byte. -/
theorem mirrors_intel_narrow : MirrorsIntel 23 12 [0, 0, 0xAB, 0xC0, 0, 0, 0, 0] :=
  (mirrors_intel_iff 23 12 _ (by decide) (by decide)).mpr (Or.inr (by decide))

/-- **A payload too long for its mirror image**: in 8193 bytes the first two
are a Motorola signal, and the Intel signal in the last two, at bit 65528,
panics. -/
theorem mirror_panics :
    (Signal.mk 7 16 .bigEndian).raw (List.replicate 8193 0) = .ok (.ok 0)
      ∧ 8 * (List.replicate 8193 (0 : UInt8)).length - 1 - Signal.lastBit 7 16 = 65528
      ∧ (Signal.mk 65528 16 .littleEndian).raw (List.replicate 8193 (0 : UInt8)).reverse
        = .error .overflow
      ∧ ¬ MirrorsIntel 7 16 (List.replicate 8193 0) := by
  have hlength : (List.replicate 8193 (0 : UInt8)).length = 8193 := List.length_replicate
  have hdata : ¬ (List.replicate 8193 (0 : UInt8)).length
      < (Signal.mk 7 16 .bigEndian).requiredLen := by
    rw [hlength]
    decide
  have hstart : 8 * (List.replicate 8193 (0 : UInt8)).length - 1 - Signal.lastBit 7 16 = 65528 := by
    rw [hlength]
    decide
  have hreach : ¬ (List.replicate 8193 (0 : UInt8)).reverse.length
      < (Signal.mk 65528 16 .littleEndian).requiredLen := by
    rw [List.length_reverse, hlength]
    decide
  have hpanic : (Signal.mk 65528 16 .littleEndian).raw (List.replicate 8193 (0 : UInt8)).reverse
      = .error .overflow :=
    Signal.raw_intel_overflow rfl (by decide) (by decide) hreach (by decide)
  refine ⟨?_, hstart, hpanic, ?_⟩
  · have hzero : Signal.sawtooth 7 16 (List.replicate 8193 0) = 0 := by
      unfold Signal.sawtooth
      refine Nat.eq_of_testBit_eq fun j => ?_
      rw [Nat.testBit_ofBits, Nat.zero_testBit]
      split
      · rw [testBit_littleEndian, List.getD_eq_getElem?_getD, List.getElem?_replicate]
        split <;> exact Nat.zero_testBit _
      · rfl
    rw [Signal.raw_motorola (by decide) (by decide) hdata, hzero]
  · intro h
    obtain ⟨v, -, -, start, hplace, hintel⟩ := h.read hdata
    have hsame : start = 65528 := by
      rw [hstart] at hplace
      exact UInt16.toNat_inj.mp hplace
    rw [hsame] at hintel
    cases hintel.symm.trans hpanic

end SaeJ1939.Host
