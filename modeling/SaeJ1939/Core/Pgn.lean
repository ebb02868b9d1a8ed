/-
  SaeJ1939.Core.Pgn — parameter group numbers (`pgn.rs`).

  A PGN is an 18-bit label whose low byte counts only for PDU2
  (broadcast) groups; for PDU1 (destination-specific) groups that byte of
  the identifier is the destination address and is cleared.  A `Pgn`
  carries both facts, so every `Pgn` is normalised.

  Main results:
    * `normalise_eq` — the mask as arithmetic.
    * `Pgn.newMasked_raw` — masking a PGN's own raw value gives it back.
    * `Pgn.low_byte_of_pdu1` — the free byte of a PDU1 group is zero.
-/
import SaeJ1939.Core.Types

namespace SaeJ1939

namespace Pgn

/-- The largest valid PGN value (18 bits). -/
def max : Nat := 0x0003FFFF

/-- The lowest PDU format value that selects PDU2 addressing. -/
def pdu2FormatMin : Nat := 0xF0

/-- Clear the PDU-specific byte of a PDU1 PGN, leaving PDU2 PGNs
untouched. -/
def normalise (raw : Nat) : Nat :=
  if (raw >>> 8) % 256 < pdu2FormatMin then raw &&& 0x0003FF00 else raw

/-! ## §1. The mask as arithmetic. -/

theorem and_clear_low_byte {raw : Nat} (h : raw ≤ max) :
    raw &&& 0x0003FF00 = raw / 256 * 256 := by
  have hm : (0x0003FF00 : Nat) = (2 ^ 10 - 1) <<< 8 := rfl
  have hs : raw &&& ((2 ^ 10 - 1) <<< 8) = ((raw >>> 8) &&& (2 ^ 10 - 1)) <<< 8 := by
    apply Nat.eq_of_testBit_eq
    intro i
    simp only [Nat.testBit_and, Nat.testBit_shiftLeft, Nat.testBit_shiftRight]
    by_cases hi : 8 ≤ i
    · have : 8 + (i - 8) = i := by omega
      simp [hi, this]
    · simp [hi]
  unfold max at h
  rw [hm, hs, Nat.and_two_pow_sub_one_eq_mod, Nat.shiftLeft_eq, Nat.shiftRight_eq_div_pow]
  omega

theorem normalise_eq {raw : Nat} (h : raw ≤ max) :
    normalise raw = if raw / 256 % 256 < 240 then raw / 256 * 256 else raw := by
  rw [normalise, and_clear_low_byte h, Nat.shiftRight_eq_div_pow]
  rfl

theorem normalise_le {raw : Nat} (h : raw ≤ max) : normalise raw ≤ max := by
  rw [normalise_eq h]
  split <;> omega

theorem normalise_idem {raw : Nat} (h : raw ≤ max) : normalise (normalise raw) = normalise raw := by
  rw [normalise_eq (normalise_le h), normalise_eq h]
  by_cases hf : raw / 256 % 256 < 240
  · rw [if_pos hf, if_pos (by omega)]
    omega
  · rw [if_neg hf, if_neg hf]

theorem and_max_le (raw : Nat) : raw &&& max ≤ max := Nat.and_le_right

end Pgn

/-! ## §2. Parameter group numbers. -/

/-- A parameter group number, always normalised. -/
structure Pgn where
  raw : Nat
  raw_le : raw ≤ Pgn.max
  normal : Pgn.normalise raw = raw
  deriving DecidableEq

namespace Pgn

/-- Build a PGN from a raw value, masking it to 18 bits. -/
def newMasked (raw : Nat) : Pgn where
  raw := normalise (raw &&& max)
  raw_le := normalise_le (and_max_le raw)
  normal := normalise_idem (and_max_le raw)

/-- The PDU Format byte, bits 15..8. -/
def pduFormat (p : Pgn) : Nat := (p.raw >>> 8) % 256

/-- Whether this is a destination-specific parameter group. -/
def isPdu1 (p : Pgn) : Bool := p.pduFormat < pdu2FormatMin

/-- Whether this is a broadcast parameter group. -/
def isPdu2 (p : Pgn) : Bool := !p.isPdu1

theorem ext_raw {p q : Pgn} (h : p.raw = q.raw) : p = q := by
  cases p; cases q
  cases h
  rfl

theorem and_max {raw : Nat} (h : raw ≤ max) : raw &&& max = raw := by
  have : max = 2 ^ 18 - 1 := rfl
  rw [this] at h ⊢
  rw [Nat.and_two_pow_sub_one_eq_mod]
  omega

/-- **Masking a PGN's raw value gives the PGN back.** -/
@[simp] theorem newMasked_raw (p : Pgn) : newMasked p.raw = p := by
  apply ext_raw
  show normalise (p.raw &&& max) = p.raw
  rw [and_max p.raw_le, p.normal]

theorem raw_lt (p : Pgn) : p.raw < 2 ^ 18 := Nat.lt_succ_of_le p.raw_le

theorem isPdu1_iff {p : Pgn} : p.isPdu1 = true ↔ p.raw / 256 % 256 < 240 := by
  simp [isPdu1, pduFormat, pdu2FormatMin, Nat.shiftRight_eq_div_pow]

/-- **The free byte of a PDU1 group is zero.** -/
theorem low_byte_of_pdu1 {p : Pgn} (h : p.isPdu1 = true) : p.raw % 256 = 0 := by
  have hn := p.normal
  rw [normalise_eq p.raw_le, if_pos (isPdu1_iff.mp h)] at hn
  omega

/-- Adding a PDU-specific byte to a PDU1 group and normalising gives the
group back. -/
theorem newMasked_add {p : Pgn} (h : p.isPdu1 = true) {ps : Nat} (hps : ps < 256) :
    newMasked (p.raw + ps) = p := by
  have hlow := low_byte_of_pdu1 h
  have hlt := p.raw_lt
  have hf := isPdu1_iff.mp h
  have hle : p.raw + ps ≤ max := by unfold max; omega
  apply ext_raw
  show normalise ((p.raw + ps) &&& max) = p.raw
  rw [and_max hle, normalise_eq hle, if_pos (by omega)]
  omega

/-! ## §3. Well-known parameter groups. -/

/-- Request: ask another ECU for a parameter group. -/
def request : Pgn := newMasked 0x00EA00

/-- The answer to a request or a command. -/
def acknowledgement : Pgn := newMasked 0x00E800

/-- Transport protocol, connection management. -/
def tpCm : Pgn := newMasked 0x00EC00

/-- Transport protocol, data transfer. -/
def tpDt : Pgn := newMasked 0x00EB00

/-- Extended transport protocol, connection management. -/
def etpCm : Pgn := newMasked 0x00C800

/-- Extended transport protocol, data transfer. -/
def etpDt : Pgn := newMasked 0x00C700

/-- Address Claimed: an ECU announcing its NAME and address. -/
def addressClaimed : Pgn := newMasked 0x00EE00

/-- Commanded Address: a tool moving an ECU to another address. -/
def commandedAddress : Pgn := newMasked 0x00FED8

/-- Active diagnostic trouble codes. -/
def dm1 : Pgn := newMasked 0x00FECA

/-- Previously active diagnostic trouble codes. -/
def dm2 : Pgn := newMasked 0x00FECB

/-- Clear the previously active trouble codes. -/
def dm3 : Pgn := newMasked 0x00FECC

/-- Diagnostic readiness. -/
def dm5 : Pgn := newMasked 0x00FECE

/-- Clear the active trouble codes. -/
def dm11 : Pgn := newMasked 0x00FED3

/-- The versions of an ECU's software. -/
def softwareIdentification : Pgn := newMasked 0x00FEDA

/-- Stop and start broadcasts. -/
def dm13 : Pgn := newMasked 0x00DF00

/-- A memory access request. -/
def dm14 : Pgn := newMasked 0x00D900

/-- A memory access response. -/
def dm15 : Pgn := newMasked 0x00D800

/-- A binary data transfer. -/
def dm16 : Pgn := newMasked 0x00D700

/-- Manufacturer-specific, for one ECU. -/
def proprietaryA : Pgn := newMasked 0x00EF00

/-- The first group that is manufacturer-specific and for everybody. -/
def proprietaryBStart : Pgn := newMasked 0x00FF00

def proprietaryBEnd : Pgn := newMasked 0x00FFFF

/-- The first group of the same range on data page 1. -/
def proprietaryB2Start : Pgn := newMasked 0x01FF00

def proprietaryB2End : Pgn := newMasked 0x01FFFF

/-- Whether a group is manufacturer-specific and for everybody. -/
def isProprietaryB (p : Pgn) : Bool :=
  (p.raw ≥ proprietaryBStart.raw && p.raw ≤ proprietaryBEnd.raw)
    || (p.raw ≥ proprietaryB2Start.raw && p.raw ≤ proprietaryB2End.raw)

end Pgn

end SaeJ1939
