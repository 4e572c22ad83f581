import Zelda.Vmm.Hart
/-!
# Strings

A string of C is what stands before its terminator.
-/

namespace Zelda.Vmm

/-- A `const char *`: what stands before its terminator. -/
structure CString where
  bytes : List Byte
  noNul : 0 ∉ bytes

def CString.strlen (s : CString) : Nat :=
  s.bytes.length

/-- Adjacent literals. -/
def CString.append (s t : CString) : CString where
  bytes := s.bytes ++ t.bytes
  noNul := by
    rw [List.mem_append, not_or]
    exact ⟨s.noNul, t.noNul⟩

/-- The byte of a character; the program's own strings are ASCII, and only another gets `'?'`. -/
def asciiByte (c : Char) : Byte :=
  if 0 < c.toNat ∧ c.toNat < 128 then BitVec.ofNat 8 c.toNat else 0x3f

theorem asciiByte_ne_zero (c : Char) : asciiByte c ≠ 0 := by
  intro hzero
  unfold asciiByte at hzero
  split at hzero
  case isTrue hrange =>
    have hnat := congrArg BitVec.toNat hzero
    rw [BitVec.toNat_ofNat, Nat.mod_eq_of_lt (by omega)] at hnat
    exact absurd hnat hrange.1.ne'
  case isFalse => exact absurd hzero (by decide)

def ascii (s : List Char) : List Byte :=
  s.map asciiByte

theorem not_mem_ascii (s : List Char) : 0 ∉ ascii s := by
  intro hmem
  obtain ⟨c, -, hzero⟩ := List.mem_map.mp hmem
  exact asciiByte_ne_zero c hzero

/-- A string literal. -/
def literal (s : String) : CString where
  bytes := ascii s.toList
  noNul := not_mem_ascii s.toList

end Zelda.Vmm
