import Mathlib.Data.BitVec
import Mathlib.Data.List.Basic
import Mathlib.Tactic.Common
/-!
# Buffers of a fixed size

An allocation as a list: copies into it and out of it that stay inside,
strings up to a terminator, and the padding that rounds an offset up to a
multiple of four.
-/

namespace Zelda.Lib.ByteBuffer

section Copies

variable {α : Type}

/-- Copy `items` to `offset`; `none` if that leaves the buffer. -/
def writeAt (buffer : List α) (offset : Nat) (items : List α) : Option (List α) :=
  if offset + items.length ≤ buffer.length then
    some (buffer.take offset ++ items ++ buffer.drop (offset + items.length))
  else
    none

/-- The `n` items at `offset`; `none` if they leave the buffer. -/
def readAt (buffer : List α) (offset n : Nat) : Option (List α) :=
  if offset + n ≤ buffer.length then some ((buffer.drop offset).take n) else none

/-- The items from `offset` up to the first terminator; `none` if there is none. -/
def stringAt [DecidableEq α] (nul : α) (buffer : List α) (offset : Nat) : Option (List α) :=
  if nul ∈ buffer.drop offset then some ((buffer.drop offset).takeWhile (· ≠ nul)) else none

theorem writeAt_append (front old back : List α) {items : List α}
    (hlength : items.length = old.length) :
    writeAt (front ++ old ++ back) front.length items = some (front ++ items ++ back) := by
  unfold writeAt
  rw [if_pos]
  · simp [hlength]
  · simp only [List.length_append]
    omega

/-- A copy to the end of what has been written takes its room from the fill behind it. -/
theorem writeAt_fill (written : List α) (fill : α) {room : Nat} {items : List α}
    (hroom : items.length ≤ room) :
    writeAt (written ++ List.replicate room fill) written.length items =
      some (written ++ items ++ List.replicate (room - items.length) fill) := by
  have hsplit : written ++ List.replicate room fill =
      written ++ List.replicate items.length fill ++
        List.replicate (room - items.length) fill := by
    rw [List.append_assoc, List.replicate_append_replicate, Nat.add_sub_cancel' hroom]
  rw [hsplit]
  exact writeAt_append written _ _ (List.length_replicate ..).symm

theorem readAt_append (front items back : List α) :
    readAt (front ++ items ++ back) front.length items.length = some items := by
  unfold readAt
  rw [if_pos]
  · simp
  · simp only [List.length_append]
    omega

theorem readAt_self (items : List α) : readAt items 0 items.length = some items := by
  have hread := readAt_append [] items []
  rwa [List.nil_append, List.append_nil] at hread

theorem stringAt_append [DecidableEq α] {nul : α} (front back : List α) {items : List α}
    (hitems : nul ∉ items) :
    stringAt nul (front ++ items ++ nul :: back) front.length = some items := by
  have hdrop : (front ++ items ++ nul :: back).drop front.length = items ++ nul :: back := by
    rw [List.append_assoc, List.drop_left]
  have htake : (items ++ nul :: back).takeWhile (· ≠ nul) = items := by
    rw [List.takeWhile_append_of_pos]
    · simp
    · intro a ha
      simpa using fun h : a = nul => hitems (h ▸ ha)
  unfold stringAt
  rw [hdrop, htake, if_pos]
  simp

end Copies

/-! ## Padding -/

/-- How far it is from `n` to the next multiple of four. -/
def padding (n : Nat) : Nat :=
  (4 - n % 4) % 4

theorem add_padding_mod (n : Nat) : (n + padding n) % 4 = 0 := by
  unfold padding
  omega

/-- What is aligned already does not count. -/
theorem padding_add_of_mod {m : Nat} (hm : m % 4 = 0) (n : Nat) : padding (m + n) = padding n := by
  unfold padding
  omega

section Align

variable {w : Nat}

theorem toNat_ofNat_of_lt {n : Nat} (h : n < 2 ^ w) : (BitVec.ofNat w n).toNat = n := by
  rw [BitVec.toNat_ofNat, Nat.mod_eq_of_lt h]

theorem and_not_eq_sub (x mask : BitVec w) : x &&& ~~~mask = x - (x &&& mask) := by
  have hdisjoint : (x &&& ~~~mask) &&& (x &&& mask) = 0#w := by
    apply BitVec.eq_of_getElem_eq
    intro i hi
    rw [BitVec.getElem_zero, BitVec.getElem_and, BitVec.getElem_and, BitVec.getElem_and,
      BitVec.getElem_not]
    cases mask[i] <;> simp
  have hjoin : (x &&& ~~~mask) ||| (x &&& mask) = x := by
    apply BitVec.eq_of_getElem_eq
    intro i hi
    rw [BitVec.getElem_or, BitVec.getElem_and, BitVec.getElem_and, BitVec.getElem_not]
    cases mask[i] <;> simp
  rw [eq_sub_iff_add_eq, BitVec.add_eq_or_of_and_eq_zero _ _ hdisjoint, hjoin]

/-- Rounding up with the mask `3`, as far as the width allows. -/
theorem align_four (hw : 2 ≤ w) (x : BitVec w) :
    (if x &&& 3#w ≠ 0 then (x &&& ~~~3#w) + 4#w else x) =
      x + BitVec.ofNat w (padding x.toNat) := by
  have hthree : (3#w).toNat = 2 ^ 2 - 1 := by
    rw [BitVec.toNat_ofNat]
    apply Nat.mod_eq_of_lt
    calc 3 < 2 ^ 2 := by decide
      _ ≤ 2 ^ w := Nat.pow_le_pow_right (by decide) hw
  have hlow : x &&& 3#w = BitVec.ofNat w (x.toNat % 4) := by
    apply BitVec.eq_of_toNat_eq
    rw [BitVec.toNat_and, hthree, Nat.and_two_pow_sub_one_eq_mod, BitVec.toNat_ofNat]
    symm
    apply Nat.mod_eq_of_lt
    exact (Nat.mod_le _ _).trans_lt x.isLt
  have hzero : x &&& 3#w = 0 ↔ x.toNat % 4 = 0 := by
    rw [← BitVec.toNat_inj, BitVec.toNat_and, hthree, Nat.and_two_pow_sub_one_eq_mod]
    simp
  by_cases hmod : x.toNat % 4 = 0
  · rw [if_neg (not_not.mpr (hzero.mpr hmod)), padding, hmod]
    simp
  · have hpad : padding x.toNat = 4 - x.toNat % 4 := by
      unfold padding
      omega
    rw [if_pos (fun h => hmod (hzero.mp h)), and_not_eq_sub, hlow, hpad,
      ← BitVec.ofNat_sub_ofNat_of_le _ _ (by omega) (by omega), sub_add_eq_add_sub,
      add_sub_assoc]

end Align

end Zelda.Lib.ByteBuffer
