/-
  SaeJ1939.Lib.BitFields — fields of a word.

  A field of a word is `width` of its bits, from bit `shift` on.  Writing
  it clears those bits and puts in as many bits of a value; whatever else
  the value holds is masked away.

  Main results:
    * `getLsbD_write` — writing a field changes the bits of it only.
    * `read_write` — what was written is read, masked to the width.
    * `read_write_of_disjoint` — no other field is touched.
-/
import Mathlib.Tactic

namespace BitFields

variable {w : Nat}

/-! ## §1. Reading and writing. -/

/-- The low `width` bits set. -/
def ones (w width : Nat) : BitVec w := (1#w <<< width) - 1#w

/-- The field of `width` bits from `shift` on. -/
def read (shift width : Nat) (x : BitVec w) : BitVec w := (x >>> shift) &&& ones w width

/-- Write `value` to the field of `width` bits from `shift` on. -/
def write (shift width : Nat) (x value : BitVec w) : BitVec w :=
  let mask := ones w width <<< shift
  (x &&& ~~~mask) ||| ((value <<< shift) &&& mask)

/-! ## §2. Bit by bit. -/

theorem ones_eq (width : Nat) : ones w width = BitVec.ofNat w (2 ^ width - 1) := by
  by_cases hw : w = 0
  · subst hw
    exact Subsingleton.elim _ _
  · have hone : 1 < 2 ^ w := Nat.one_lt_two_pow hw
    have hshift : 1#w <<< width = BitVec.ofNat w (2 ^ width) := by
      apply BitVec.eq_of_toNat_eq
      rw [BitVec.toNat_shiftLeft, BitVec.toNat_ofNat, BitVec.toNat_ofNat, Nat.shiftLeft_eq,
        Nat.mod_eq_of_lt hone, Nat.one_mul]
    rw [ones, hshift, BitVec.ofNat_sub_ofNat_of_le _ _ hone Nat.one_le_two_pow]

theorem getLsbD_ones (width i : Nat) :
    (ones w width).getLsbD i = (decide (i < width) && decide (i < w)) := by
  rw [ones_eq, BitVec.getLsbD_ofNat, Nat.testBit_two_pow_sub_one, Bool.and_comm]

theorem getLsbD_read (shift width i : Nat) (x : BitVec w) :
    (read shift width x).getLsbD i = (decide (i < width) && x.getLsbD (shift + i)) := by
  rw [read, BitVec.getLsbD_and, BitVec.getLsbD_ushiftRight, getLsbD_ones]
  by_cases hi : i < w
  · simp [hi, Bool.and_comm]
  · rw [BitVec.getLsbD_of_ge x (shift + i) (by omega)]
    simp

/-- **Writing a field changes the bits of it only.** -/
theorem getLsbD_write {shift width : Nat} (x value : BitVec w) {i : Nat} (hi : i < w) :
    (write shift width x value).getLsbD i
      = if shift ≤ i ∧ i < shift + width then value.getLsbD (i - shift) else x.getLsbD i := by
  have hmask : (ones w width <<< shift).getLsbD i
      = decide (shift ≤ i ∧ i < shift + width) := by
    rw [BitVec.getLsbD_shiftLeft, getLsbD_ones]
    by_cases hs : shift ≤ i
    · have h₁ : i - shift < w := by omega
      have h₂ : (i - shift < width) = (i < shift + width) := by
        rw [eq_iff_iff]
        omega
      simp [hi, hs, h₁, h₂]
    · simp [hi, hs]
  rw [write, BitVec.getLsbD_or, BitVec.getLsbD_and, BitVec.getLsbD_and, BitVec.getLsbD_not, hmask,
    BitVec.getLsbD_shiftLeft]
  by_cases hin : shift ≤ i ∧ i < shift + width
  · simp [hi, hin.1, hin.2]
  · simp [hi, hin]

/-! ## §3. Fields after a write. -/

/-- **What was written is read**, masked to the width of the field. -/
theorem read_write {shift width : Nat} (h : shift + width ≤ w) (x value : BitVec w) :
    read shift width (write shift width x value) = value &&& ones w width := by
  apply BitVec.eq_of_getLsbD_eq
  intro i hi
  rw [getLsbD_read, BitVec.getLsbD_and, getLsbD_ones]
  by_cases hlt : i < width
  · rw [getLsbD_write x value (by omega), if_pos (by omega), Nat.add_sub_cancel_left]
    simp [hlt, hi]
  · simp [hlt]

/-- A value widened to the word, masked and cut back is the value masked. -/
theorem setWidth_and_ones {v : Nat} (h : v ≤ w) (width : Nat) (value : BitVec v) :
    (value.setWidth w &&& ones w width).setWidth v = value &&& ones v width := by
  apply BitVec.eq_of_getLsbD_eq
  intro i hi
  have hw : i < w := Nat.lt_of_lt_of_le hi h
  rw [BitVec.getLsbD_setWidth, BitVec.getLsbD_and, BitVec.getLsbD_and, BitVec.getLsbD_setWidth,
    getLsbD_ones, getLsbD_ones]
  simp [hi, hw]

/-- **No other field is touched.** -/
theorem read_write_of_disjoint {shift width shift' width' : Nat} (h : shift + width ≤ w)
    (hd : shift + width ≤ shift' ∨ shift' + width' ≤ shift) (x value : BitVec w) :
    read shift width (write shift' width' x value) = read shift width x := by
  apply BitVec.eq_of_getLsbD_eq
  intro i hi
  rw [getLsbD_read, getLsbD_read]
  by_cases hlt : i < width
  · rw [getLsbD_write x value (by omega), if_neg (by omega)]
  · simp [hlt]

end BitFields
