/-
  SaeJ1939.Host.Decoding — what a signal of a DBC file means (`dbc.rs`,
  `Signal::decode`), and what a built-in parameter does (`spn.rs`).

  The raw bits are classified by the rules of the core crate and scaled,
  or, if the file says that they are signed, extended to a signed number
  and scaled.  Only what the code asks of a float is known of floats.

  Main results:
    * `signExtend_ok` — the bits above the field are filled by its sign.
    * `agree_of_place` — an unsigned signal is decoded like the parameter
      in its place.
    * `decode_reads_field` — all of it, for every signal and payload.
-/
import Mathlib.Data.Nat.Bitwise
import SaeJ1939.Host.Dbc

namespace SaeJ1939.Host.Dbc

open Checked Spn

/-! ## §1. The methods. -/

/-- What is used of a float besides: scaling, and printing. -/
class Measure (φ : Type) where
  ofNat : Nat → φ
  ofInt : Int → φ
  mul : φ → φ → φ
  add : φ → φ → φ
  display : φ → List Char

/-- What a signal says. -/
inductive Value (φ : Type) where
  /-- A measurement, in its unit. -/
  | valid (value : φ)
  /-- The sender reports a fault. -/
  | error
  | notAvailable
  | reserved
  deriving DecidableEq

variable {φ : Type} [Measure φ]

/-- `as i32`. -/
def asI32 (raw : Nat) : Int := (BitVec.ofNat 32 raw).toInt

namespace Signal

/-- Interpret raw bits as a two's-complement value of this width. -/
def signExtend (bitLength raw : Nat) : Exec Int :=
  if bitLength ≥ 32 then .ok (asI32 raw)
  else do
    let signBit ← shlU 32 1 (← subU bitLength 1)
    if raw &&& signBit = 0 then return asI32 raw
    else
      -- fill the bits above the field with ones
      let field ← subU (← shlU 32 1 bitLength) 1
      return asI32 (raw ||| (2 ^ 32 - 1 - field))

/-- `raw * factor + offset`. -/
def scaled (s : Signal φ) (raw : φ) : φ := Measure.add (Measure.mul raw s.factor) s.offset

/-- A class of raw values, in the unit of the signal. -/
def ofRaw (s : Signal φ) : RawValue → Value φ
  | .valid raw => .valid (s.scaled (Measure.ofNat raw))
  | .error => .error
  | .notAvailable => .notAvailable
  | .reserved => .reserved

/-- Decode a signal into its unit, or the status it reports. -/
def decode (s : Signal φ) (data : List UInt8) : Exec (Except DbcError (Value φ)) := do
  match ← s.raw data with
  | .error e => return .error e
  | .ok raw =>
      if s.signed then
        -- the reserved ranges are of unsigned values
        return .ok (.valid (s.scaled (Measure.ofInt (← signExtend s.bitLength.toNat raw))))
      else return .ok (s.ofRaw (← classify raw s.bitLength.toNat))

/-- Whether a signal is an enumeration rather than a measurement. -/
def isEnumerated (s : Signal φ) : Bool := !s.valueNames.isEmpty

/-- A signal in words: the name of its value, or the measurement. -/
def describe (s : Signal φ) (data : List UInt8) : Exec (Except DbcError (List Char)) := do
  match ← s.raw data with
  | .error e => return .error e
  | .ok raw =>
      match s.valueName raw with
      | some name => return .ok name
      | none =>
          match ← s.decode data with
          | .error e => return .error e
          | .ok (.valid value) =>
              if s.unit.isEmpty then return .ok (Measure.display value)
              else return .ok (Measure.display value ++ ' ' :: s.unit)
          | .ok .error => return .ok "error".toList
          | .ok .notAvailable => return .ok "not available".toList
          | .ok .reserved => return .ok "reserved".toList

end Signal

/-- Decode every signal of a message; one that cannot be decoded is
returned with its error. -/
def Message.decode (m : Message φ) (data : List UInt8) :
    List (List Char × Exec (Except DbcError (Value φ))) :=
  m.signals.map fun signal => (signal.name, signal.decode data)

/-- A built-in parameter, with its scale. -/
structure Parameter (φ : Type) extends Spn where
  /-- Units per bit. -/
  resolution : φ
  /-- Added after scaling. -/
  offset : φ

namespace Parameter

/-- `raw * resolution + offset`. -/
def scaled (p : Parameter φ) (raw : φ) : φ := Measure.add (Measure.mul raw p.resolution) p.offset

/-- A class of raw values, in the unit of the parameter. -/
def ofRaw (p : Parameter φ) : RawValue → Value φ
  | .valid raw => .valid (p.scaled (Measure.ofNat raw))
  | .error => .error
  | .notAvailable => .notAvailable
  | .reserved => .reserved

/-- Pull the field out of `data` and scale it (`Spn::decode`). -/
def decode (p : Parameter φ) (data : List UInt8) : Exec (Result (Value φ)) := do
  match ← p.extract data with
  | .error e => return .error e
  | .ok value => return .ok (p.ofRaw value)

end Parameter

/-! ## §2. Signed fields. -/

/-- A number below a power of two and the bits above it. -/
theorem or_high {raw n : Nat} (hn : n ≤ 32) (hraw : raw < 2 ^ n) :
    raw ||| (2 ^ 32 - 1 - (2 ^ n - 1)) = raw + (2 ^ 32 - 2 ^ n) := by
  have hpos : 0 < 2 ^ n := Nat.two_pow_pos n
  have hsplit : (2 : Nat) ^ 32 = 2 ^ n * 2 ^ (32 - n) := by
    rw [← pow_add]
    congr 1
    omega
  have hhigh : 2 ^ 32 - 1 - (2 ^ n - 1) = 2 ^ n * (2 ^ (32 - n) - 1) := by
    rw [Nat.mul_sub_one, ← hsplit]
    omega
  rw [hhigh, Nat.or_comm, ← Nat.two_pow_add_eq_or_of_lt hraw, Nat.add_comm]
  congr 1
  rw [Nat.mul_sub_one, ← hsplit]

/-- The sign of a field is its top bit. -/
theorem and_sign_eq_zero_iff {raw n : Nat} (hraw : raw < 2 ^ (n + 1)) :
    raw &&& 2 ^ n = 0 ↔ raw < 2 ^ n := by
  have hpow : (2 : Nat) ^ (n + 1) = 2 * 2 ^ n := by rw [pow_succ, Nat.mul_comm]
  have hpos : 0 < 2 ^ n := Nat.two_pow_pos n
  rw [Nat.and_two_pow, Nat.testBit_eq_decide_div_mod_eq]
  by_cases hlow : raw < 2 ^ n
  · rw [Nat.div_eq_of_lt hlow]
    simp [hlow]
  · have hone : raw / 2 ^ n = 1 := by
      refine Nat.div_eq_of_lt_le ?_ ?_ <;> omega
    rw [hone]
    simp [hlow]

/-- A number of a width, as a signed one. -/
theorem toInt_ofNat_of_lt {raw n : Nat} (hraw : raw < 2 ^ n) :
    (BitVec.ofNat n raw).toInt = if 2 * raw < 2 ^ n then (raw : Int) else raw - 2 ^ n := by
  rw [BitVec.toInt_eq_toNat_cond, BitVec.toNat_ofNat, Nat.mod_eq_of_lt hraw]
  push_cast
  rfl

/-- **The sign fills the bits above the field**: the result is the field
as a two's-complement number of its own width. -/
theorem signExtend_ok {raw n : Nat} (h₁ : 0 < n) (h₂ : n ≤ 32) (hraw : raw < 2 ^ n) :
    Signal.signExtend n raw = .ok (BitVec.ofNat n raw).toInt := by
  unfold Signal.signExtend asI32
  by_cases hwide : n ≥ 32
  · obtain rfl : n = 32 := by omega
    rw [if_pos hwide]
  · rw [if_neg hwide]
    obtain ⟨k, rfl⟩ : ∃ k, n = k + 1 := ⟨n - 1, by omega⟩
    have hpow : (2 : Nat) ^ (k + 1) = 2 * 2 ^ k := by rw [pow_succ, Nat.mul_comm]
    have hlt : (2 : Nat) ^ (k + 1) ≤ 2 ^ 31 := Nat.pow_le_pow_right (by decide) (by omega)
    have hsign : (1 <<< k : Nat) < 2 ^ 32 := by
      rw [Nat.one_shiftLeft]
      omega
    have hone : (1 <<< (k + 1) : Nat) < 2 ^ 32 := by
      rw [Nat.one_shiftLeft]
      omega
    rw [subU_ok (Nat.le_add_left 1 k), ok_bind, Nat.add_sub_cancel, shlU_ok (by omega) hsign,
      ok_bind, Nat.one_shiftLeft, toInt_ofNat_of_lt hraw]
    by_cases hpositive : raw < 2 ^ k
    · rw [if_pos ((and_sign_eq_zero_iff hraw).mpr hpositive), if_pos (by omega),
        toInt_ofNat_of_lt (by omega), if_pos (by omega)]
      rfl
    · have hfilled : raw + (2 ^ 32 - 2 ^ (k + 1)) < 2 ^ 32 := by omega
      rw [if_neg fun h => hpositive ((and_sign_eq_zero_iff hraw).mp h), shlU_ok (by omega) hone,
        ok_bind, Nat.one_shiftLeft, subU_ok (Nat.two_pow_pos _), ok_bind,
        or_high (by omega) hraw, toInt_ofNat_of_lt hfilled, if_neg (by omega), if_neg (by omega),
        Nat.cast_add, Nat.cast_sub (by omega)]
      refine congrArg Except.ok ?_
      push_cast
      ring

/-! ## §3. Decoding. -/

/-- **What is read fits its field**, which has a width in use. -/
theorem bounds_of_raw {t : Host.Signal} {data : List UInt8} {raw : Nat}
    (h : t.raw data = .ok (.ok raw)) :
    0 < t.bitLength.toNat ∧ t.bitLength.toNat ≤ 32 ∧ raw < 2 ^ t.bitLength.toNat := by
  by_cases hwidth : t.bitLength.toNat = 0 ∨ t.bitLength.toNat > 32
  · unfold Host.Signal.raw at h
    rw [if_pos hwidth] at h
    cases h
  have h₁ : 0 < t.bitLength.toNat := by omega
  have h₂ : t.bitLength.toNat ≤ 32 := by omega
  refine ⟨h₁, h₂, ?_⟩
  by_cases hdata : t.requiredLen ≤ data.length
  · have hdata := Nat.not_lt.mpr hdata
    obtain ⟨startBit, bitLength, order⟩ := t
    cases order with
    | littleEndian =>
      by_cases hpos : startBit.toNat + bitLength.toNat ≤ 65536
      · rw [Host.Signal.raw_intel_ok rfl h₁ h₂ hdata hpos] at h
        cases h
        exact Nat.mod_lt _ (Nat.two_pow_pos _)
      · rw [Host.Signal.raw_intel_overflow rfl h₁ h₂ hdata hpos] at h
        cases h
    | bigEndian =>
      rw [Host.Signal.raw_motorola h₁ h₂ hdata] at h
      cases h
      exact Nat.ofBits_lt_two_pow _
  · rw [Host.Signal.raw_short h₁ h₂ (Nat.not_le.mp hdata)] at h
    cases h

/-- **Whatever is made of what is read fails as reading it fails**, and
only then. -/
theorem fails_alike {α β : Type} {read : Exec (Except DbcError α)}
    {made : Exec (Except DbcError β)} (herror : ∀ p, read = .error p → made = .error p)
    (hrefused : ∀ e, read = .ok (.error e) → made = .ok (.error e))
    (hmade : ∀ a, read = .ok (.ok a) → ∃ b, made = .ok (.ok b)) :
    (∀ p, made = .error p ↔ read = .error p)
      ∧ ∀ e, made = .ok (.error e) ↔ read = .ok (.error e) := by
  cases hread : read with
  | error p =>
    rw [herror p hread]
    exact ⟨fun p => by simp, fun e => by simp⟩
  | ok r =>
    cases r with
    | error e =>
      rw [hrefused e hread]
      exact ⟨fun p => by simp, fun e => by simp⟩
    | ok a =>
      obtain ⟨b, hb⟩ := hmade a hread
      rw [hb]
      exact ⟨fun p => by simp, fun e => by simp⟩

namespace Signal

variable {s : Signal φ} {data : List UInt8} {raw : Nat}

theorem decode_error {p : Panic} (h : s.raw data = .error p) : s.decode data = .error p := by
  unfold decode
  rw [h]
  rfl

theorem decode_refused {e : DbcError} (h : s.raw data = .ok (.error e)) :
    s.decode data = .ok (.error e) := by
  unfold decode
  rw [h]
  rfl

/-- A signed signal is the two's-complement number in its field. -/
theorem decode_signed (h : s.raw data = .ok (.ok raw)) (hsigned : s.signed = true) :
    s.decode data = .ok (.ok (.valid (s.scaled
      (Measure.ofInt (BitVec.ofNat s.bitLength.toNat raw).toInt)))) := by
  obtain ⟨h₁, h₂, hraw⟩ := bounds_of_raw h
  unfold decode
  rw [h, ok_bind]
  dsimp only
  rw [if_pos hsigned, signExtend_ok h₁ h₂ hraw]
  rfl

/-- Any other signal is classified. -/
theorem decode_unsigned (h : s.raw data = .ok (.ok raw)) (hsigned : s.signed = false) :
    ∃ v, classify raw s.bitLength.toNat = .ok v ∧ s.decode data = .ok (.ok (s.ofRaw v)) := by
  obtain ⟨h₁, h₂, -⟩ := bounds_of_raw h
  obtain ⟨v, hv⟩ := classify_ok raw h₁ h₂
  refine ⟨v, hv, ?_⟩
  unfold decode
  rw [h, ok_bind]
  dsimp only
  rw [hsigned, if_neg Bool.false_ne_true, hv]
  rfl

/-- What is read can be decoded. -/
theorem decode_of_raw (h : s.raw data = .ok (.ok raw)) : ∃ v, s.decode data = .ok (.ok v) := by
  cases hsigned : s.signed with
  | true => exact ⟨_, decode_signed h hsigned⟩
  | false =>
    obtain ⟨v, -, hdecode⟩ := decode_unsigned h hsigned
    exact ⟨_, hdecode⟩

/-- And it can be put in words. -/
theorem describe_of_raw (h : s.raw data = .ok (.ok raw)) :
    ∃ text, s.describe data = .ok (.ok text) := by
  obtain ⟨v, hdecode⟩ := decode_of_raw h
  unfold describe
  rw [h, ok_bind]
  dsimp only
  cases s.valueName raw with
  | some name => exact ⟨name, rfl⟩
  | none =>
    dsimp only
    rw [hdecode, ok_bind]
    cases v with
    | valid value =>
      dsimp only
      split
      next => exact ⟨_, rfl⟩
      next => exact ⟨_, rfl⟩
    | error => exact ⟨_, rfl⟩
    | notAvailable => exact ⟨_, rfl⟩
    | reserved => exact ⟨_, rfl⟩

theorem describe_error {p : Panic} (h : s.raw data = .error p) : s.describe data = .error p := by
  unfold describe
  rw [h]
  rfl

theorem describe_refused {e : DbcError} (h : s.raw data = .ok (.error e)) :
    s.describe data = .ok (.error e) := by
  unfold describe
  rw [h]
  rfl

end Signal

/-- **A parameter and a signal that agree on a payload**: they panic alike,
both are refused, or both are of one class, each on its own scale. -/
def Agree {ψ : Type} [Measure ψ] (p : Parameter ψ) (s : Signal φ) (data : List UInt8) : Prop :=
  match p.decode data, s.decode data with
  | .error e, .error e' => e = e'
  | .ok (.error _), .ok (.error _) => True
  | .ok (.ok u), .ok (.ok v) => ∃ c, u = p.ofRaw c ∧ v = s.ofRaw c
  | _, _ => False

/-- **A parameter and the unsigned signal in its place agree**, whether the
payload reaches the field or not. -/
theorem agree_of_place {ψ : Type} [Measure ψ] {p : Parameter ψ} {s : Signal φ} (data : List UInt8)
    (hplace : p.toSpn = ⟨s.startBit, s.bitLength⟩) (hsigned : s.signed = false)
    (horder : s.byteOrder = .littleEndian) : Agree p s data := by
  let place : Spn := ⟨s.startBit, s.bitLength⟩
  have hdecode : p.decode data = (place.extract data >>= fun r =>
      match r with
      | .error e => return .error e
      | .ok value => return .ok (p.ofRaw value)) := by
    unfold Parameter.decode
    rw [hplace]
  unfold Agree
  rw [hdecode]
  by_cases hwidth : s.bitLength.toNat = 0 ∨ s.bitLength.toNat > 32
  · have hextract : place.extract data
        = .ok (.error (.valueOutOfRange "spn bit_length" s.bitLength.toNat)) := if_pos hwidth
    rw [hextract, Signal.decode_refused (if_pos hwidth)]
    trivial
  have h₁ : 0 < s.bitLength.toNat := by omega
  have h₂ : s.bitLength.toNat ≤ 32 := by omega
  -- both need the same number of bytes
  have hneeded : s.requiredLen = place.requiredLen := Host.Signal.requiredLen_intel horder
  by_cases hdata : data.length < place.requiredLen
  · rw [Spn.extract_short h₁ h₂ hdata,
      Signal.decode_refused (Host.Signal.raw_short h₁ h₂ (hneeded ▸ hdata))]
    trivial
  · have hreached : ¬ data.length < s.requiredLen := hneeded ▸ hdata
    by_cases hpos : s.startBit.toNat + s.bitLength.toNat ≤ 65536
    · obtain ⟨value, hvalue, hextract⟩ := Spn.extract_ok (s := place) h₁ h₂ hdata hpos
      have hraw := Host.Signal.raw_intel_ok horder h₁ h₂ hreached hpos
      obtain ⟨v, hv, hsignal⟩ := Signal.decode_unsigned hraw hsigned
      -- the class of one field is one class
      have hsame : value = v := Except.ok.inj (hvalue.symm.trans hv)
      rw [hextract, hsignal]
      exact ⟨v, congrArg p.ofRaw hsame, rfl⟩
    · rw [Spn.extract_overflow h₁ h₂ hdata hpos,
        Signal.decode_error (Host.Signal.raw_intel_overflow horder h₁ h₂ hreached hpos)]
      rfl

/-- **Decoding a signal reads its field and nothing fails but that**: the
value is the field, as a signed number of its width, or classified, as the
parameter in its place is. -/
theorem decode_reads_field (s : Signal φ) (data : List UInt8) :
    ((∀ p, s.decode data = .error p ↔ s.raw data = .error p)
      ∧ ∀ e, s.decode data = .ok (.error e) ↔ s.raw data = .ok (.error e))
    ∧ ((∀ p, s.describe data = .error p ↔ s.raw data = .error p)
      ∧ ∀ e, s.describe data = .ok (.error e) ↔ s.raw data = .ok (.error e))
    ∧ (∀ raw, s.raw data = .ok (.ok raw) → s.signed = true →
        ∃ value : Int, value % 2 ^ s.bitLength.toNat = raw
          ∧ -2 ^ s.bitLength.toNat ≤ 2 * value ∧ 2 * value < 2 ^ s.bitLength.toNat
          ∧ s.decode data = .ok (.ok (.valid (s.scaled (Measure.ofInt value)))))
    ∧ (∀ raw, s.raw data = .ok (.ok raw) → s.signed = false →
        ∃ v, classify raw s.bitLength.toNat = .ok v ∧ s.decode data = .ok (.ok (s.ofRaw v)))
    ∧ (s.signed = false → s.byteOrder = .littleEndian →
        ∀ (ψ : Type) [Measure ψ] (p : Parameter ψ), p.toSpn = ⟨s.startBit, s.bitLength⟩ →
          Agree p s data) := by
  refine ⟨?_, ?_, ?_, ?_, fun hsigned horder ψ _ p hplace =>
    agree_of_place data hplace hsigned horder⟩
  · exact fails_alike (fun _ => Signal.decode_error) (fun _ => Signal.decode_refused)
      fun _ => Signal.decode_of_raw
  · exact fails_alike (fun _ => Signal.describe_error) (fun _ => Signal.describe_refused)
      fun _ => Signal.describe_of_raw
  · intro raw hraw hsigned
    obtain ⟨-, -, hlt⟩ := bounds_of_raw hraw
    refine ⟨(BitVec.ofNat s.bitLength.toNat raw).toInt, ?_, ?_, ?_,
      Signal.decode_signed hraw hsigned⟩
    · rw [toInt_ofNat_of_lt hlt]
      have hlt' : (raw : Int) < 2 ^ s.bitLength.toNat := by exact_mod_cast hlt
      have hraw' : (raw : Int) % 2 ^ s.bitLength.toNat = raw :=
        Int.emod_eq_of_lt (Int.natCast_nonneg raw) hlt'
      split
      next => exact hraw'
      next => rw [Int.sub_emod_right, hraw']
    · exact BitVec.le_two_mul_toInt
    · exact BitVec.two_mul_toInt_lt
  · intro raw hraw hsigned
    exact Signal.decode_unsigned hraw hsigned

end SaeJ1939.Host.Dbc
