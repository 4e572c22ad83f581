import Mathlib.Data.BitVec
import Mathlib.Tactic.Ring
/-!
# Little-endian byte stores

Multi-byte loads and stores over a byte-indexed memory.
-/

namespace Zelda.Lib.Bytes

/-- The `n` bytes at `offset`, least significant first. -/
def loadBytes (mem : Nat → BitVec 8) (offset : Nat) : Nat → Nat
  | 0 => 0
  | n + 1 => (mem offset).toNat + 256 * loadBytes mem (offset + 1) n

/-- Overwrite `n` bytes at `offset` with the low bytes of `value`. -/
def storeBytes (mem : Nat → BitVec 8) (offset n value : Nat) : Nat → BitVec 8 :=
  fun k =>
    if offset ≤ k ∧ k < offset + n then BitVec.ofNat 8 (value / 256 ^ (k - offset)) else mem k

theorem loadBytes_congr {mem mem' : Nat → BitVec 8} {offset n : Nat}
    (h : ∀ k, offset ≤ k → k < offset + n → mem k = mem' k) :
    loadBytes mem offset n = loadBytes mem' offset n := by
  induction n generalizing offset with
  | zero => rfl
  | succ n ih =>
      have hfirst := h offset (Nat.le_refl _) (by omega)
      have hrest : loadBytes mem (offset + 1) n = loadBytes mem' (offset + 1) n := by
        apply ih
        intro k hk hk'
        exact h k (by omega) (by omega)
      rw [loadBytes, loadBytes, hfirst, hrest]

/-- Two memories that agree on `n` bytes, at different places. -/
theorem loadBytes_shift {mem mem' : Nat → BitVec 8} {offset offset' n : Nat}
    (h : ∀ i, i < n → mem (offset + i) = mem' (offset' + i)) :
    loadBytes mem offset n = loadBytes mem' offset' n := by
  induction n generalizing offset offset' with
  | zero => rfl
  | succ n ih =>
      have hfirst : mem offset = mem' offset' := h 0 (by omega)
      have hrest : loadBytes mem (offset + 1) n = loadBytes mem' (offset' + 1) n := by
        apply ih
        intro i hi
        have hi' := h (i + 1) (by omega)
        rwa [← Nat.add_assoc, ← Nat.add_assoc, Nat.add_right_comm, Nat.add_right_comm offset'] at hi'
      rw [loadBytes, loadBytes, hfirst, hrest]

theorem loadBytes_lt (mem : Nat → BitVec 8) (offset n : Nat) :
    loadBytes mem offset n < 256 ^ n := by
  induction n generalizing offset with
  | zero => simp [loadBytes]
  | succ n ih =>
      have hbyte := (mem offset).isLt
      have hrest := ih (offset + 1)
      rw [loadBytes, pow_succ]
      omega

/-- Equal numbers have equal bytes. -/
theorem eq_of_loadBytes_eq {mem mem' : Nat → BitVec 8} {offset offset' n : Nat}
    (h : loadBytes mem offset n = loadBytes mem' offset' n) {i : Nat} (hi : i < n) :
    mem (offset + i) = mem' (offset' + i) := by
  induction n generalizing offset offset' i with
  | zero => omega
  | succ n ih =>
      rw [loadBytes, loadBytes] at h
      have hlt := (mem offset).isLt
      have hlt' := (mem' offset').isLt
      cases i with
      | zero => exact BitVec.eq_of_toNat_eq (by simp only [Nat.add_zero]; omega)
      | succ i =>
          have hrest : loadBytes mem (offset + 1) n = loadBytes mem' (offset' + 1) n := by omega
          have hbyte := ih hrest (Nat.lt_of_succ_lt_succ hi)
          rwa [Nat.add_right_comm, Nat.add_right_comm offset'] at hbyte

theorem loadBytes_zero (offset n : Nat) : loadBytes (fun _ => 0) offset n = 0 := by
  induction n generalizing offset with
  | zero => rfl
  | succ n ih =>
      rw [loadBytes, ih]
      rfl

/-- A store leaves every other byte alone. -/
theorem storeBytes_of_not_mem {mem : Nat → BitVec 8} {offset n value k : Nat}
    (h : ¬(offset ≤ k ∧ k < offset + n)) : storeBytes mem offset n value k = mem k :=
  if_neg h

/-- Byte `i` of what a store left behind. -/
theorem storeBytes_add {mem : Nat → BitVec 8} {offset n value i : Nat} (hi : i < n) :
    storeBytes mem offset n value (offset + i) = BitVec.ofNat 8 (value / 256 ^ i) := by
  rw [storeBytes, if_pos (by omega), Nat.add_sub_cancel_left]

/-- The bytes below `n` of a truncated value are those of the value. -/
theorem ofNat_mod_div {value n i : Nat} (hi : i < n) :
    BitVec.ofNat 8 (value % 256 ^ n / 256 ^ i) = BitVec.ofNat 8 (value / 256 ^ i) := by
  obtain ⟨k, rfl⟩ : ∃ k, n = i + (k + 1) := ⟨n - i - 1, by omega⟩
  apply BitVec.eq_of_toNat_eq
  rw [BitVec.toNat_ofNat, BitVec.toNat_ofNat, pow_add, Nat.mod_mul_right_div_self]
  exact Nat.mod_mod_of_dvd _ ⟨256 ^ k, pow_succ' 256 k⟩

theorem loadBytes_storeBytes_disjoint {mem : Nat → BitVec 8} {offset n value offset' n' : Nat}
    (h : offset + n ≤ offset' ∨ offset' + n' ≤ offset) :
    loadBytes (storeBytes mem offset n value) offset' n' = loadBytes mem offset' n' := by
  apply loadBytes_congr
  intro k hk hk'
  apply storeBytes_of_not_mem
  omega

/-- Reading back a store gives the stored value, truncated to the bytes written. -/
theorem loadBytes_storeBytes (mem : Nat → BitVec 8) (offset n value : Nat) :
    loadBytes (storeBytes mem offset n value) offset n = value % 256 ^ n := by
  induction n generalizing offset mem value with
  | zero => simp [loadBytes, Nat.mod_one]
  | succ n ih =>
      have hrest : loadBytes (storeBytes mem offset (n + 1) value) (offset + 1) n =
          loadBytes (storeBytes mem (offset + 1) n (value / 256)) (offset + 1) n := by
        apply loadBytes_congr
        intro k hk hk'
        have hsub : k - offset = k - (offset + 1) + 1 := by omega
        rw [storeBytes, storeBytes, if_pos (by omega), if_pos (by omega), hsub, pow_succ',
          Nat.div_div_eq_div_mul]
      have hfirst : (storeBytes mem offset (n + 1) value offset).toNat = value % 256 := by
        rw [storeBytes, if_pos (by omega)]
        simp
      rw [loadBytes, hrest, ih, hfirst, pow_succ', Nat.mod_mul]

end Zelda.Lib.Bytes
