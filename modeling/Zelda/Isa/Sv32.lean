import Zelda.Vmm.Hart
/-!
# Sv32 address translation

The two-level walk of the privileged architecture manual, without the
permission, user, accessed and dirty bits of an entry.  Physical addresses are
taken modulo `2 ^ 32`.
-/

namespace Zelda.Isa.Sv32

open Zelda.Vmm

def LEVELS : Nat := 2
def PAGESIZE : Nat := 2 ^ 12
def PTESIZE : Nat := 4

/-! ## Page-table entries -/

def v (pte : Word) : Bool := pte.getLsbD 0
def r (pte : Word) : Bool := pte.getLsbD 1
def w (pte : Word) : Bool := pte.getLsbD 2
def x (pte : Word) : Bool := pte.getLsbD 3

/-- The physical page number of an entry, both fields of it. -/
def ppn (pte : Word) : Nat := pte.toNat / 2 ^ 10

/-- Field `i` of the virtual page number. -/
def vpn (va : Word) (i : Nat) : Nat := va.toNat / 2 ^ (12 + 10 * i) % 2 ^ 10

def physical (address : Nat) : Word := BitVec.ofNat 32 address

/-! ## The walk -/

/-- A leaf entry found at a level. -/
structure Leaf where
  level : Nat
  ppn : Nat
  deriving DecidableEq, Repr

/-- The first address of the page. -/
def Leaf.base (leaf : Leaf) : Word :=
  physical (leaf.ppn * PAGESIZE)

/-- Where the page puts a virtual address. -/
def Leaf.address (leaf : Leaf) (va : Word) : Word :=
  physical (leaf.ppn * PAGESIZE + va.toNat % 2 ^ (12 + 10 * leaf.level))

/--
The steps of the algorithm with `i` levels left and the table in page `a`;
`none` is a page fault.  `readPte` has no value where an entry cannot be read.
-/
def walk (readPte : Word → Option Word) (va : Word) : Nat → Nat → Option Leaf
  | 0, _ => none
  | i + 1, a =>
      match readPte (physical (a * PAGESIZE + vpn va i * PTESIZE)) with
      | none => none
      | some pte =>
          if v pte = false ∨ (r pte = false ∧ w pte = true) then none
          else if r pte = true ∨ x pte = true then
            -- a superpage must be aligned to its size
            if ppn pte % 2 ^ (10 * i) = 0 then some { level := i, ppn := ppn pte } else none
          else
            walk readPte va i (ppn pte)

/-- Translation under a `satp` whose mode is Sv32. -/
def translate (readPte : Word → Option Word) (satp va : Word) : Option Leaf :=
  walk readPte va LEVELS (satp.toNat % 2 ^ 22)

end Zelda.Isa.Sv32
