/-
  SaeJ1939.Lib.Bits — bytes read as one number.

  A list of bytes, least significant first, is a number whose bits are
  those of the bytes in turn.  A field of it is some bits in a row.  Read
  from the other end the same bytes are another number; a position seen
  from there is mirrored within each byte.

  Main results:
    * `testBit_littleEndian` — where a bit of the number lies.
    * `ofBits_shift` — some bits in a row are a quotient and a remainder.
    * `testBit_littleEndian_reverse` — the bits of the reversed bytes are
      those of the bytes, in mirrored positions.
    * `ofBits_snoc`, `ofBits_cons_last` — a number grown by a bit, at its
      top or at its bottom.
-/
import Mathlib.Data.Nat.Digits.Defs
import Mathlib.Tactic

namespace Bits

/-! ## §1. Bytes, least significant first. -/

/-- The number whose bytes these are, least significant first. -/
def littleEndian (bs : List UInt8) : Nat := Nat.ofDigits 256 (bs.map UInt8.toNat)

theorem littleEndian_cons (b : UInt8) (bs : List UInt8) :
    littleEndian (b :: bs) = b.toNat + 256 * littleEndian bs := rfl

/-- **Bit `i` lies in byte `i / 8`**, at position `i % 8`. -/
theorem testBit_littleEndian (bs : List UInt8) (i : Nat) :
    (littleEndian bs).testBit i = (bs.getD (i / 8) 0).toNat.testBit (i % 8) := by
  induction bs generalizing i with
  | nil =>
    show Nat.testBit 0 i = Nat.testBit 0 (i % 8)
    rw [Nat.zero_testBit, Nat.zero_testBit]
  | cons b bs ih =>
    have hb : b.toNat < 2 ^ 8 := b.toNat_lt
    have hsplit : littleEndian (b :: bs) = 2 ^ 8 * littleEndian bs + b.toNat := by
      rw [littleEndian_cons, Nat.add_comm]
      norm_num
    rw [hsplit, Nat.testBit_two_pow_mul_add _ hb]
    by_cases hi : i < 8
    · rw [if_pos hi, Nat.div_eq_of_lt hi, Nat.mod_eq_of_lt hi]
      rfl
    · -- a bit of one of the bytes that follow
      have hdiv : i / 8 = (i - 8) / 8 + 1 := by omega
      have hmod : i % 8 = (i - 8) % 8 := by omega
      rw [if_neg hi, ih (i - 8), hdiv, hmod]
      rfl

/-! ## §2. Some bits in a row. -/

/-- **Some bits in a row** are what is left of the number when those below
are shifted out and those above are cut off. -/
theorem ofBits_shift (x start n : Nat) :
    Nat.ofBits (fun i : Fin n => x.testBit (start + i)) = x / 2 ^ start % 2 ^ n := by
  rw [← Nat.shiftRight_eq_div_pow, ← Nat.ofBits_testBit]
  congr 1
  funext i
  rw [Nat.testBit_shiftRight]

/-- A number grown by a bit at its top. -/
theorem ofBits_snoc {n : Nat} (f : Nat → Bool) :
    Nat.ofBits (fun i : Fin (n + 1) => f i)
      = Nat.ofBits (fun i : Fin n => f i) ||| (f n).toNat <<< n := by
  refine Nat.eq_of_testBit_eq fun j => ?_
  rw [Nat.testBit_or, Nat.testBit_shiftLeft, Nat.testBit_ofBits, Nat.testBit_ofBits]
  rcases Nat.lt_trichotomy j n with hlt | rfl | hgt
  · rw [dif_pos (Nat.lt_succ_of_lt hlt), dif_pos hlt, decide_eq_false (Nat.not_le.mpr hlt),
      Bool.false_and, Bool.or_false]
  · rw [dif_pos (Nat.lt_succ_self j), dif_neg (Nat.lt_irrefl j), Nat.sub_self]
    cases f j <;> simp
  · rw [dif_neg (Nat.not_lt.mpr hgt), dif_neg (Nat.not_lt.mpr (Nat.le_of_lt hgt))]
    have hpow : 2 ^ 1 ≤ 2 ^ (j - n) := Nat.pow_le_pow_right Nat.two_pos (Nat.sub_pos_of_lt hgt)
    have hzero : (f n).toNat.testBit (j - n) = false :=
      Nat.testBit_lt_two_pow (Nat.lt_of_lt_of_le (Bool.toNat_lt _) hpow)
    rw [hzero, Bool.and_false, Bool.or_false]

/-- A number grown by a bit at its bottom, its bits named from the top. -/
theorem ofBits_cons_last {n : Nat} (f : Nat → Bool) :
    Nat.ofBits (fun i : Fin (n + 1) => f (n - i))
      = 2 * Nat.ofBits (fun i : Fin n => f (n - 1 - i)) + (f n).toNat := by
  rw [Nat.ofBits_succ]
  have hrest : (fun i : Fin (n + 1) => f (n - i)) ∘ Fin.succ = fun i : Fin n => f (n - 1 - i) := by
    funext i
    show f (n - (i.val + 1)) = f (n - 1 - i.val)
    congr 1
    omega
  rw [hrest]
  rfl

/-! ## §3. The same bytes from the other end. -/

/-- A position counted from the top of each byte, not from its bottom. -/
def mirror (i : Nat) : Nat := 8 * (i / 8) + (7 - i % 8)

theorem mirror_div (i : Nat) : mirror i / 8 = i / 8 := by
  unfold mirror
  omega

theorem mirror_mod (i : Nat) : mirror i % 8 = 7 - i % 8 := by
  unfold mirror
  omega

theorem mirror_mirror (i : Nat) : mirror (mirror i) = i := by
  unfold mirror
  omega

/-- One step on from the top to the bottom of a byte is one step down, or a
jump to the top of the next byte. -/
theorem mirror_succ (i : Nat) :
    mirror (i + 1) = if mirror i % 8 = 0 then mirror i + 15 else mirror i - 1 := by
  unfold mirror
  split <;> omega

/-- **The bits of the reversed bytes** are those of the bytes, counted from
the other end. -/
theorem testBit_littleEndian_reverse {bs : List UInt8} {i : Nat} (h : i < 8 * bs.length) :
    (littleEndian bs.reverse).testBit (8 * bs.length - 1 - i)
      = (littleEndian bs).testBit (mirror i) := by
  have hindex : i / 8 < bs.length := by omega
  have hdiv : (8 * bs.length - 1 - i) / 8 = bs.length - 1 - i / 8 := by omega
  have hmod : (8 * bs.length - 1 - i) % 8 = 7 - i % 8 := by omega
  rw [testBit_littleEndian, testBit_littleEndian, hdiv, hmod, mirror_div, mirror_mod]
  congr 2
  rw [List.getD_eq_getElem?_getD, List.getD_eq_getElem?_getD, List.getElem?_reverse (by omega)]
  congr 3
  omega

end Bits
