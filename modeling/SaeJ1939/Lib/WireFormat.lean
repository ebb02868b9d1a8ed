/-
  SaeJ1939.Lib.WireFormat — values that are written as words and read back.

  A format writes every value and reads every word.  It need not be one to
  one: a word may have bits that carry nothing, and a value may not fit.
  If whatever is read is also written faithfully, the values that survive
  and the words in normal form correspond one to one.

  Main results:
    * `Carries.bijOn` — the values a format carries are its normal words.
    * `ofLe24_bytes` — a word and its bytes, least significant first.
-/
import Mathlib.Tactic
import Mathlib.Data.Set.Function

namespace WireFormat

/-! ## §1. Formats. -/

/-- A way to write values as words, and to read any word. -/
structure Format (V W : Type) where
  encode : V → W
  decode : W → V

namespace Format

variable {V W : Type}

/-- The value is read as it was written. -/
def Survives (F : Format V W) (v : V) : Prop := F.decode (F.encode v) = v

/-- The word that says the same as `w` and nothing else. -/
def normal (F : Format V W) (w : W) : W := F.encode (F.decode w)

/-- Values that survive are written differently. -/
theorem encode_injOn (F : Format V W) : Set.InjOn F.encode {v | F.Survives v} := by
  intro v hv v' hv' hsame
  have hread : F.decode (F.encode v) = v := hv
  rw [← hread, hsame]
  exact hv'

end Format

/-! ## §2. What a format carries. -/

variable {V W : Type} {F : Format V W} {P : V → Prop}

/-- **The values a format carries** are those with `P`: they are the ones
that survive, and nothing else is ever read. -/
structure Carries (F : Format V W) (P : V → Prop) : Prop where
  survives_iff : ∀ v, F.Survives v ↔ P v
  decoded : ∀ w, P (F.decode w)

/-- To know what is left of a value that is written and read is enough. -/
theorem Carries.of_read {left : V → V} (hread : ∀ v, F.decode (F.encode v) = left v)
    (hleft : ∀ v, left v = v ↔ P v) (hdecoded : ∀ w, P (F.decode w)) : Carries F P := by
  refine ⟨fun v => ?_, hdecoded⟩
  unfold Format.Survives
  rw [hread, hleft]

/-- **The values a format carries correspond one to one to its normal
words.** -/
theorem Carries.bijOn (h : Carries F P) : Set.BijOn F.encode {v | P v} (Set.range F.normal) := by
  refine ⟨fun v hv => ?_, fun v hv v' hv' => ?_, ?_⟩
  · exact ⟨F.encode v, congrArg F.encode ((h.survives_iff v).mpr hv)⟩
  · exact F.encode_injOn ((h.survives_iff v).mpr hv) ((h.survives_iff v').mpr hv')
  · rintro _ ⟨w, rfl⟩
    exact ⟨F.decode w, h.decoded w, rfl⟩

/-! ## §3. Words and their bytes. -/

/-- `u16::from_le_bytes`. -/
def ofLe16 (b₀ b₁ : UInt8) : UInt16 := b₀.toUInt16 ||| (b₁.toUInt16 <<< 8)

/-- Three bytes of a wider word. -/
def ofLe24 (b₀ b₁ b₂ : UInt8) : UInt32 :=
  b₀.toUInt32 ||| (b₁.toUInt32 <<< 8) ||| (b₂.toUInt32 <<< 16)

/-- `u32::from_le_bytes`. -/
def ofLe32 (b₀ b₁ b₂ b₃ : UInt8) : UInt32 :=
  b₀.toUInt32 ||| (b₁.toUInt32 <<< 8) ||| (b₂.toUInt32 <<< 16) ||| (b₃.toUInt32 <<< 24)

theorem ofLe16_bytes (x : UInt16) : ofLe16 x.toUInt8 (x >>> 8).toUInt8 = x := by
  unfold ofLe16
  apply UInt16.toBitVec_inj.mp
  apply BitVec.eq_of_getLsbD_eq
  intro i hi
  interval_cases i <;> simp [-UInt16.toUInt16_toUInt8]

/-- **Three bytes of a word** are what is left of it below bit 24. -/
theorem ofLe24_bytes (x : UInt32) :
    ofLe24 x.toUInt8 (x >>> 8).toUInt8 (x >>> 16).toUInt8 = x &&& 0xFFFFFF := by
  unfold ofLe24
  apply UInt32.toBitVec_inj.mp
  apply BitVec.eq_of_getLsbD_eq
  intro i hi
  interval_cases i <;> simp [-UInt32.toUInt32_toUInt8]

theorem ofLe32_bytes (x : UInt32) :
    ofLe32 x.toUInt8 (x >>> 8).toUInt8 (x >>> 16).toUInt8 (x >>> 24).toUInt8 = x := by
  unfold ofLe32
  apply UInt32.toBitVec_inj.mp
  apply BitVec.eq_of_getLsbD_eq
  intro i hi
  interval_cases i <;> simp [-UInt32.toUInt32_toUInt8]

/-- Bytes that are put together can be taken apart. -/
theorem bytes_ofLe32 (b₀ b₁ b₂ b₃ : UInt8) :
    (ofLe32 b₀ b₁ b₂ b₃).toUInt8 = b₀ ∧ (ofLe32 b₀ b₁ b₂ b₃ >>> 8).toUInt8 = b₁
      ∧ (ofLe32 b₀ b₁ b₂ b₃ >>> 16).toUInt8 = b₂ ∧ (ofLe32 b₀ b₁ b₂ b₃ >>> 24).toUInt8 = b₃ := by
  unfold ofLe32
  refine ⟨?_, ?_, ?_, ?_⟩ <;>
    · apply UInt8.toBitVec_inj.mp
      apply BitVec.eq_of_getLsbD_eq
      intro i hi
      interval_cases i <;> simp

theorem bytes_ofLe16 (b₀ b₁ : UInt8) :
    (ofLe16 b₀ b₁).toUInt8 = b₀ ∧ (ofLe16 b₀ b₁ >>> 8).toUInt8 = b₁ := by
  unfold ofLe16
  refine ⟨?_, ?_⟩ <;>
    · apply UInt8.toBitVec_inj.mp
      apply BitVec.eq_of_getLsbD_eq
      intro i hi
      interval_cases i <;> simp

theorem ofLe24_le (b₀ b₁ b₂ : UInt8) : ofLe24 b₀ b₁ b₂ ≤ 0xFFFFFF := by
  have h₀ := b₀.toNat_lt
  have h₁ := b₁.toNat_lt
  have h₂ := b₂.toNat_lt
  rw [UInt32.le_iff_toNat_le]
  show _ ≤ 2 ^ 24 - 1
  refine Nat.le_sub_one_of_lt ?_
  unfold ofLe24
  simp only [UInt32.toNat_or, UInt32.toNat_shiftLeft, UInt8.toNat_toUInt32]
  refine Nat.or_lt_two_pow (Nat.or_lt_two_pow (by omega) ?_) ?_
  · refine Nat.lt_of_le_of_lt (Nat.mod_le _ _) ?_
    rw [Nat.shiftLeft_eq]
    show b₁.toNat * 2 ^ 8 < _
    omega
  · refine Nat.lt_of_le_of_lt (Nat.mod_le _ _) ?_
    rw [Nat.shiftLeft_eq]
    show b₂.toNat * 2 ^ 16 < _
    omega

/-! ## §4. The low bits of a word. -/

/-- Low bits are all of a number exactly if it is no larger than they can
be. -/
theorem and_ones_iff (k x : Nat) : x &&& (2 ^ k - 1) = x ↔ x ≤ 2 ^ k - 1 := by
  have hpos : 0 < 2 ^ k := Nat.two_pow_pos k
  rw [Nat.and_two_pow_sub_one_eq_mod]
  constructor
  · intro h
    have := Nat.mod_lt x hpos
    omega
  · exact fun h => Nat.mod_eq_of_lt (by omega)

/-- A mask of low bits is below the bound of its word. -/
theorem ones_mod {k width : Nat} (hk : k ≤ width) : (2 ^ k - 1) % 2 ^ width = 2 ^ k - 1 := by
  have hpow : 2 ^ k ≤ 2 ^ width := Nat.pow_le_pow_right (by decide) hk
  have hpos : 0 < 2 ^ k := Nat.two_pow_pos k
  exact Nat.mod_eq_of_lt (by omega)

theorem and_ones8_iff {k : Nat} (hk : k ≤ 8) (x : UInt8) :
    x &&& UInt8.ofNat (2 ^ k - 1) = x ↔ x ≤ UInt8.ofNat (2 ^ k - 1) := by
  rw [← UInt8.toNat_inj, UInt8.le_iff_toNat_le, UInt8.toNat_and, UInt8.toNat_ofNat', ones_mod hk]
  exact and_ones_iff k x.toNat

theorem and_ones16_iff {k : Nat} (hk : k ≤ 16) (x : UInt16) :
    x &&& UInt16.ofNat (2 ^ k - 1) = x ↔ x ≤ UInt16.ofNat (2 ^ k - 1) := by
  rw [← UInt16.toNat_inj, UInt16.le_iff_toNat_le, UInt16.toNat_and, UInt16.toNat_ofNat',
    ones_mod hk]
  exact and_ones_iff k x.toNat

theorem and_ones32_iff {k : Nat} (hk : k ≤ 32) (x : UInt32) :
    x &&& UInt32.ofNat (2 ^ k - 1) = x ↔ x ≤ UInt32.ofNat (2 ^ k - 1) := by
  rw [← UInt32.toNat_inj, UInt32.le_iff_toNat_le, UInt32.toNat_and, UInt32.toNat_ofNat',
    ones_mod hk]
  exact and_ones_iff k x.toNat

/-- There are few bytes of a few bits. -/
theorem and_ones8_mem {k : Nat} (hk : k ≤ 8) (x : UInt8) :
    x &&& UInt8.ofNat (2 ^ k - 1) ∈ (List.range (2 ^ k)).map UInt8.ofNat := by
  refine List.mem_map.mpr ⟨(x &&& UInt8.ofNat (2 ^ k - 1)).toNat, ?_, UInt8.ofNat_toNat⟩
  have hpos : 0 < 2 ^ k := Nat.two_pow_pos k
  have hle : (x &&& UInt8.ofNat (2 ^ k - 1)).toNat ≤ 2 ^ k - 1 := by
    rw [UInt8.toNat_and, UInt8.toNat_ofNat', ones_mod hk]
    exact Nat.and_le_right
  rw [List.mem_range]
  omega

theorem low_two (x : UInt8) : x &&& 0b11 ∈ [0, 1, 2, (3 : UInt8)] :=
  and_ones8_mem (k := 2) (by decide) x

theorem low_three (x : UInt8) : x &&& 0b111 ∈ [0, 1, 2, 3, 4, 5, 6, (7 : UInt8)] :=
  and_ones8_mem (k := 3) (by decide) x

theorem low_four (x : UInt8) : x &&& 0x0F
    ∈ [0, 1, 2, 3, 4, 5, 6, 7, 8, 9, 10, 11, 12, 13, 14, (15 : UInt8)] :=
  and_ones8_mem (k := 4) (by decide) x

end WireFormat
