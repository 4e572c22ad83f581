import Mathlib.Data.BitVec
import Mathlib.Tactic.Common
/-!
# Fields of bit vectors

Concatenation read as arithmetic and as shifts, for taking instruction words
apart and putting them together.
-/

namespace Zelda.Lib.Bits

/-- A concatenation as a number. -/
theorem toNat_append {m n : Nat} (x : BitVec m) (y : BitVec n) :
    (x ++ y).toNat = x.toNat * 2 ^ n + y.toNat := by
  rw [BitVec.toNat_append, Nat.shiftLeft_eq, Nat.mul_comm, ← Nat.two_pow_add_eq_or_of_lt y.isLt]

/-- The field of `width` bits from bit `low` on. -/
theorem field_eq {n width : Nat} {x : BitVec n} {low : Nat} {y : BitVec width}
    (h : x.toNat / 2 ^ low % 2 ^ width = y.toNat) : (x >>> low).setWidth width = y := by
  apply BitVec.eq_of_toNat_eq
  rw [BitVec.toNat_setWidth, BitVec.toNat_ushiftRight, Nat.shiftRight_eq_div_pow, h]

/-- The same field taken with a mask. -/
theorem masked_eq {n width : Nat} {x mask : BitVec n} {low : Nat} {y : BitVec width}
    (hmask : mask.toNat = 2 ^ width - 1) (hwidth : width ≤ n)
    (h : x.toNat / 2 ^ low % 2 ^ width = y.toNat) : (x >>> low) &&& mask = y.setWidth n := by
  have hlt : y.toNat < 2 ^ n := Nat.lt_of_lt_of_le y.isLt (Nat.pow_le_pow_right (by decide) hwidth)
  apply BitVec.eq_of_toNat_eq
  rw [BitVec.toNat_and, BitVec.toNat_ushiftRight, Nat.shiftRight_eq_div_pow, hmask,
    Nat.and_two_pow_sub_one_eq_mod, h, BitVec.toNat_setWidth, Nat.mod_eq_of_lt hlt]

/-- Zero extension of a concatenation, with the upper part shifted into place. -/
theorem setWidth_append {m n w : Nat} (x : BitVec m) (y : BitVec n) :
    (x ++ y).setWidth w = (x.setWidth w <<< n) ||| y.setWidth w := by
  apply BitVec.eq_of_getLsbD_eq
  intro i hi
  simp only [BitVec.getLsbD_setWidth, BitVec.getLsbD_append, BitVec.getLsbD_or,
    BitVec.getLsbD_shiftLeft, hi, decide_true, Bool.true_and]
  by_cases hlt : i < n
  · simp [hlt]
  · have hy : y.getLsbD i = false := BitVec.getLsbD_of_ge y i (by omega)
    have hx : i - n < w := by omega
    simp [hlt, hy, hx]

end Zelda.Lib.Bits
