import Zelda.Vmm.Trap
/-!
# Address translation

The direct-mapped TLB, the two-level page-table walk that fills it, and the
paged memory accesses built on both.
-/

namespace Zelda.Vmm

open Zelda.Lib.Bytes

def PAGE_MASK_4K : Word := 0xfffff000
def PAGE_MASK_4M : Word := 0xffc00000

/-! ## TLB -/

namespace Tlb

/-- The slot of `VA_TO_4K_TLB_ENTRY`. -/
def slot4K (tlb : Tlb) (va : Word) : Word :=
  (va >>> 12) &&& (tlb.cap - 1)

/-- The slot of `VA_TO_4M_TLB_ENTRY`. -/
def slot4M (tlb : Tlb) (va : Word) : Word :=
  (va >>> 22) &&& (tlb.cap - 1)

/-- `VA_TO_TLB_ENTRY`. -/
def vaToTlbEntry (tlb : Tlb) (va : Word) : Option TlbEntry :=
  let entry := tlb.entries (tlb.slot4K va)
  let entry := if entry.entryValid then entry else tlb.entries (tlb.slot4M va)
  if entry.entryValid then some entry else none

/-- `invalidate_tlb`. -/
def invalidate (tlb : Tlb) : Tlb :=
  { tlb with
    entries := fun idx =>
      if idx < tlb.cap then { tlb.entries idx with entryValid := false } else tlb.entries idx }

def install (tlb : Tlb) (slot : Word) (entry : TlbEntry) : Tlb :=
  { tlb with entries := Function.update tlb.entries slot entry }

end Tlb

/-! ## Page walk -/

/-- A page-table entry's `valid` bit. -/
def pteValid (pte : Word) : Bool :=
  pte.getLsbD 0

/-- Whether `read`, `write` or `execute` is set. -/
def pteIsLeaf (pte : Word) : Bool :=
  pte.getLsbD 1 || pte.getLsbD 2 || pte.getLsbD 3

/--
`pte_at` and the read through the pointer it returns: `none` for a failed
assertion in the region lookup, `some none` where the source returns `NULL`.
-/
def pteAt (vm : Vm) (pa : Word) : Option (Option Word) :=
  match searchPmRegionCallback vm.pmrOps pa with
  | none => none
  | some none => some none
  | some (some pmr) =>
      if pmr.ops = .ram then
        some (some (BitVec.ofNat 32 (loadBytes vm.mainMem.bytes (pmr.offset pa) 4)))
      else
        some none

/--
`walk_page_table`: the return code and the TLB afterwards, or `none` where an
assertion fails.
-/
def walkPageTable (vm : Vm) (va : Word) (tlb : Tlb) : Option (Int × Tlb) :=
  let satp := vm.hart.csrBlob CSR_ADDRESS_SATP
  if satp &&& 0x80000000 = 0 then none
  else
    let level1Base := satp <<< 12
    let level1EntryOffset := ((va >>> 22) &&& 0x3ff) * 4
    match pteAt vm (level1Base + level1EntryOffset) with
    | none => none
    | some none => some (-3, tlb)
    | some (some level1Pte) =>
        if ¬pteValid level1Pte then some (-1, tlb)
        else
          let level1Ppn := level1Pte >>> 10
          if pteIsLeaf level1Pte then
            let pa := (level1Ppn <<< 12) &&& PAGE_MASK_4M
            match searchPmRegionCallback vm.pmrOps pa with
            | none => none
            | some none => some (-4, tlb)
            | some (some pmr) =>
                some (0, tlb.install (tlb.slot4M va)
                  { vaTag := va &&& PAGE_MASK_4M
                    paTag := pa
                    pageMask := PAGE_MASK_4M
                    entryValid := true
                    pmr := pmr
                    ghostSatp := satp })
          else
            let level2Base := level1Ppn <<< 12
            let level2EntryOffset := ((va >>> 12) &&& 0x3ff) * 4
            match pteAt vm (level2Base + level2EntryOffset) with
            | none => none
            | some none => some (-3, tlb)
            | some (some level2Pte) =>
                if ¬pteValid level2Pte then some (-2, tlb)
                else
                  let level2Ppn := level2Pte >>> 10
                  let pa := (level2Ppn <<< 12) &&& PAGE_MASK_4K
                  match searchPmRegionCallback vm.pmrOps pa with
                  | none => none
                  | some none => some (-4, tlb)
                  | some (some pmr) =>
                      some (0, tlb.install (tlb.slot4K va)
                        { vaTag := va &&& PAGE_MASK_4K
                          paTag := pa
                          pageMask := PAGE_MASK_4K
                          entryValid := true
                          pmr := pmr
                          ghostSatp := satp })

/-! ## Paged accesses -/

/-- Which of the hart's two TLBs an access goes through. -/
inductive TlbSide
  | itlb
  | dtlb
  deriving DecidableEq, Repr

namespace Hart

def tlb (h : Hart) : TlbSide → Tlb
  | .itlb => h.itlb
  | .dtlb => h.dtlb

def setTlb (h : Hart) (side : TlbSide) (tlb : Tlb) : Hart :=
  match side with
  | .itlb => { h with itlb := tlb }
  | .dtlb => { h with dtlb := tlb }

/-- The paging test every access makes. -/
def pagingOn (h : Hart) : Bool :=
  h.privilegeLevel < PRIVILEGE_LEVEL_MACHINE &&
    h.csrBlob CSR_ADDRESS_SATP &&& 0x80000000 != 0

end Hart

/-- The physical address an access through `entry` uses. -/
def TlbEntry.physical (entry : TlbEntry) (va : Word) : Word :=
  entry.paTag ||| (va &&& ~~~entry.pageMask)

/--
The common part of `vmread`, `vmwrite` and `mmu_instruction_read32`: look up,
walk on a miss, look up again, and raise `fault` when there is still no entry.
-/
def translateAddress (side : TlbSide) (fault : Nat) (va : Word) : VmM TlbEntry := do
  let vm ← get
  match (vm.hart.tlb side).vaToTlbEntry va with
  | some entry => pure entry
  | none =>
      match walkPageTable vm va (vm.hart.tlb side) with
      | none => throw .exit
      | some (_, tlb) =>
          set { vm with hart := vm.hart.setTlb side tlb }
          match tlb.vaToTlbEntry va with
          | some entry => pure entry
          | none => raiseExceptionWithTvalue fault va

/-- `vmread8/16/32`. -/
def vmread (va : Word) (size : AccessSize) : VmM DWord := do
  let vm ← get
  if vm.hart.pagingOn then
    let entry ← translateAddress .dtlb EXCEPTION_LOAD_PAGE_FAULT va
    entry.pmr.pmrRead (entry.physical va) size
  else
    directRead va size

/-- `vmwrite8/16/32`. -/
def vmwrite (va : Word) (size : AccessSize) (value : DWord) : VmM Unit := do
  let vm ← get
  if vm.hart.pagingOn then
    let entry ← translateAddress .dtlb EXCEPTION_STORE_PAGE_FAULT va
    entry.pmr.pmrWrite (entry.physical va) size value
  else
    directWrite va size value

/-- `mmu_read32_aligned`. -/
def mmuRead32Aligned (location : Word) : VmM Word := do
  if location &&& 0x3 ≠ 0 then
    raiseExceptionWithTvalue EXCEPTION_LOAD_ADDRESS_MISALIGN location
  else
    let value ← vmread location .b4
    pure (value.setWidth 32)

/-- `mmu_write32_aligned`; it reports a misaligned store with the load cause. -/
def mmuWrite32Aligned (location value : Word) : VmM Unit := do
  if location &&& 0x3 ≠ 0 then
    raiseExceptionWithTvalue EXCEPTION_LOAD_ADDRESS_MISALIGN location
  else
    vmwrite location .b4 (value.setWidth 64)

/-- `mmu_instruction_read32`. -/
def mmuInstructionRead32 (instructionVa : Word) : VmM Word := do
  let vm ← get
  if vm.hart.pagingOn then
    let entry ← translateAddress .itlb EXCEPTION_INSTRUCTION_PAGE_FAULT instructionVa
    let value ← entry.pmr.pmrRead (entry.physical instructionVa) .b4
    pure (value.setWidth 32)
  else
    let value ← directRead instructionVa .b4
    pure (value.setWidth 32)

end Zelda.Vmm
