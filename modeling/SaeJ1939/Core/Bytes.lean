/-
  SaeJ1939.Core.Bytes — little-endian fields of a payload.

  Every multi-byte field of a J1939 payload is little-endian.  `byteAt n k`
  is byte `k` of `n` (the source's `(n >> 8k) as u8`), and `le16`, `le24`,
  `le32` read two, three and four bytes back.
-/
import SaeJ1939.Core.Types

namespace SaeJ1939

/-- A full eight-byte payload. -/
abbrev Payload := Fin 8 → UInt8

/-- A payload has a byte 0. -/
instance neZero_eight : NeZero 8 := ⟨by decide⟩

/-- So have the seven bytes behind a sequence number. -/
instance neZero_seven : NeZero 7 := ⟨by decide⟩

/-- The value J1939 specifies for unused payload bytes. -/
def fill : UInt8 := 0xFF

/-- Byte `k` of `n`, least significant first: `(n >> 8k) as u8`. -/
def byteAt (n k : Nat) : UInt8 := UInt8.ofNat (n >>> (8 * k))

/-- `u16::from_le_bytes`. -/
def le16 (b₀ b₁ : UInt8) : Nat := b₀.toNat + 256 * b₁.toNat

/-- Three little-endian bytes, as the source assembles them. -/
def le24 (b₀ b₁ b₂ : UInt8) : Nat := b₀.toNat ||| (b₁.toNat <<< 8) ||| (b₂.toNat <<< 16)

/-- `u32::from_le_bytes`. -/
def le32 (b₀ b₁ b₂ b₃ : UInt8) : Nat :=
  b₀.toNat + 256 * b₁.toNat + 65536 * b₂.toNat + 16777216 * b₃.toNat

/-- Masking two overlaid fields masks each of them. -/
theorem byte_or_and (x y mask : UInt8) : (x ||| y) &&& mask = (x &&& mask) ||| (y &&& mask) :=
  UInt8.toBitVec_inj.mp BitVec.and_or_distrib_right

theorem byteAt_toNat (n k : Nat) : (byteAt n k).toNat = n / 256 ^ k % 256 := by
  rw [byteAt, UInt8.toNat_ofNat', Nat.shiftRight_eq_div_pow, pow_mul]
  norm_num

theorem le24_eq (b₀ b₁ b₂ : UInt8) :
    le24 b₀ b₁ b₂ = b₀.toNat + 256 * b₁.toNat + 65536 * b₂.toNat := by
  have h₀ := b₀.toNat_lt
  have h₁ := b₁.toNat_lt
  have h₀₁ : b₀.toNat ||| (b₁.toNat <<< 8) = b₁.toNat <<< 8 + b₀.toNat := by
    rw [Nat.or_comm, Nat.shiftLeft_add_eq_or_of_lt h₀]
  have hlt : b₁.toNat <<< 8 + b₀.toNat < 2 ^ 16 := by
    rw [Nat.shiftLeft_eq]
    omega
  rw [le24, h₀₁, Nat.or_comm, ← Nat.shiftLeft_add_eq_or_of_lt hlt, Nat.shiftLeft_eq,
    Nat.shiftLeft_eq]
  omega

theorem le24_lt (b₀ b₁ b₂ : UInt8) : le24 b₀ b₁ b₂ < 2 ^ 24 := by
  have h₀ := b₀.toNat_lt
  have h₁ := b₁.toNat_lt
  have h₂ := b₂.toNat_lt
  rw [le24_eq]
  omega

theorem le16_byteAt {n : Nat} (h : n < 2 ^ 16) : le16 (byteAt n 0) (byteAt n 1) = n := by
  rw [le16, byteAt_toNat, byteAt_toNat]
  omega

theorem le24_byteAt {n : Nat} (h : n < 2 ^ 24) :
    le24 (byteAt n 0) (byteAt n 1) (byteAt n 2) = n := by
  rw [le24_eq, byteAt_toNat, byteAt_toNat, byteAt_toNat]
  omega

theorem le32_byteAt {n : Nat} (h : n < 2 ^ 32) :
    le32 (byteAt n 0) (byteAt n 1) (byteAt n 2) (byteAt n 3) = n := by
  rw [le32, byteAt_toNat, byteAt_toNat, byteAt_toNat, byteAt_toNat]
  omega

/-- A one-byte field read back. -/
theorem toNat_ofNat_byte {n : Nat} (h : n < 256) : (UInt8.ofNat n).toNat = n := by
  rw [UInt8.toNat_ofNat']
  omega

end SaeJ1939
