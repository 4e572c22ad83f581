import Zelda.Proofs.MemoryInstructions
import Zelda.Vmm.Init
/-!
# The causes of memory traps

What a trap handler is told about a failed fetch, load, store or atomic
operation, against the causes the instruction set assigns.  The aligned
accessors know one cause for a misaligned address, and the read-modify-write
operations fault in their load.
-/

namespace Zelda.Proofs.FaultCauses

open Zelda.Vmm
open Zelda.Isa (LoadOp StoreOp RmwOp)
open Zelda.Lib.Effect
open Zelda.Lib.X86
open Zelda.Proofs.Frames
open Zelda.Proofs.Templates
open Zelda.Proofs.MemoryInstructions

/-! ## What the instruction set asks for -/

/-- An access of the guest: the fetch of an instruction, or what the instruction does. -/
inductive Access
  | fetch (pc : Word)
  | data (i : MemoryInstr)
  deriving DecidableEq, Repr

namespace Access

def address (h : Hart) : Access → Word
  | fetch pc => pc
  | data i => i.address h

/-- The access ends in a trap, with the vmm re-entered in `t`. -/
def TrapsTo (hc : HostCode) (c : Cpu) (vm t : Vm) : Access → Prop
  | fetch pc => mmuInstructionRead32 pc vm = .error .trap t
  | data i => i.run hc c vm = .error .trap t

def isAmo : Access → Bool
  | data (.amo ..) => true
  | _ => false

/-- A conditional store or a read-modify-write operation. -/
def isAtomicStore : Access → Bool
  | data (.sc ..) | data (.amo ..) => true
  | _ => false

/-- The cause of a trap at `va`, by kind of access. -/
def isaCause (va : Word) : Access → Word
  | fetch _ => 12
  | data (.load ..) => 13
  | data (.lr ..) => if Misaligned va then 4 else 13
  | data (.store ..) => 15
  | data (.sc ..) | data (.amo ..) => if Misaligned va then 6 else 15

/--
Whatever trap the access raises is reported as the instruction set asks, and a
misaligned atomic store raises one.
-/
def ClassifiedAsIsa (hc : HostCode) (c : Cpu) (vm : Vm) (a : Access) : Prop :=
  (∀ t, a.TrapsTo hc c vm t →
    trapCause t.hart = a.isaCause (a.address vm.hart) ∧ trapTval t.hart = a.address vm.hart) ∧
  (a.isAtomicStore → Misaligned (a.address vm.hart) → ∃ t, a.TrapsTo hc c vm t)

/-! ## What the vmm reports -/

section Reports

variable {vm t : Vm} {va : Word}

/-- The trap of an exception is the one asked for when its cause is. -/
theorem reported_iff {cause : Nat} {expected : Word} (h : t = excepted vm cause va) :
    (trapCause t.hart = expected ∧ trapTval t.hart = va) ↔ BitVec.ofNat 32 cause = expected := by
  obtain ⟨hcause, -, htval⟩ := excepted_handler vm cause va
  rw [h, hcause, htval]
  simp

theorem isaCause_of_atomicStore {a : Access} (h : a.isAtomicStore = true) :
    a.isaCause va = if Misaligned va then 6 else 15 := by
  cases a with
  | fetch pc => cases h
  | data i =>
      cases i with
      | load l rd rs1 offset => cases h
      | store st rs1 rs2 offset => cases h
      | lr rd rs1 rs2 => cases h
      | sc rd rs1 rs2 => rfl
      | amo op rd rs1 rs2 => rfl

/-- No atomic store is to be reported with the cause the aligned accessors have. -/
theorem isaCause_ne_misalign {a : Access} (h : a.isAtomicStore = true) :
    a.isaCause va ≠ BitVec.ofNat 32 EXCEPTION_LOAD_ADDRESS_MISALIGN := by
  rw [isaCause_of_atomicStore h]
  by_cases hmis : Misaligned va
  · rw [if_pos hmis]
    decide
  · rw [if_neg hmis]
    decide

end Reports

variable {hc : HostCode} {c : Cpu} {vm : Vm}

theorem fetch_classified (pc : Word) : ClassifiedAsIsa hc c vm (fetch pc) := by
  constructor
  · intro t htrap
    have hframe := mmuInstructionRead32_frame pc vm
    rw [wp_of_error htrap] at hframe
    obtain ⟨-, ht⟩ := hframe rfl
    exact (reported_iff ht).mpr rfl
  · intro h
    cases h

theorem load_classified {l : LoadOp} {rd rs1 : RegIndex} {offset : Word}
    (hready : Ready hc c) : ClassifiedAsIsa hc c vm (data (.load l rd rs1 offset)) := by
  constructor
  · intro t htrap
    obtain ⟨-, ht⟩ := MemoryInstr.load_trap_iff.mp ((MemoryInstr.run_trap_iff hready).mp htrap)
    exact (reported_iff ht).mpr rfl
  · intro h
    cases h

theorem store_classified {st : StoreOp} {rs1 rs2 : RegIndex} {offset : Word}
    (hready : Ready hc c) : ClassifiedAsIsa hc c vm (data (.store st rs1 rs2 offset)) := by
  constructor
  · intro t htrap
    obtain ⟨-, ht⟩ := MemoryInstr.store_trap_iff.mp ((MemoryInstr.run_trap_iff hready).mp htrap)
    exact (reported_iff ht).mpr rfl
  · intro h
    cases h

theorem lr_classified {rd rs1 rs2 : RegIndex} (hready : Ready hc c) :
    ClassifiedAsIsa hc c vm (data (.lr rd rs1 rs2)) := by
  constructor
  · intro t htrap
    have hread := MemoryInstr.lr_trap_iff.mp ((MemoryInstr.run_trap_iff hready).mp htrap)
    show trapCause t.hart = (if Misaligned (vm.hart.registers rs1) then 4 else 13) ∧
      trapTval t.hart = vm.hart.registers rs1
    rcases mmuRead32Aligned_trap_iff.mp hread with ⟨hmis, ht⟩ | ⟨haligned, -, ht⟩
    · rw [if_pos hmis]
      exact (reported_iff ht).mpr rfl
    · rw [if_neg haligned]
      exact (reported_iff ht).mpr rfl
  · intro h
    cases h

/-- A conditional store at an aligned address is reported as a store. -/
theorem sc_classified_iff {rd rs1 rs2 : RegIndex} (hready : Ready hc c) :
    ClassifiedAsIsa hc c vm (data (.sc rd rs1 rs2)) ↔ ¬Misaligned (vm.hart.registers rs1) := by
  constructor
  · rintro ⟨hreported, htraps⟩ hmis
    obtain ⟨t, htrap⟩ := htraps rfl hmis
    have hwrite :=
      (MemoryInstr.sc_trap_iff.mp ((MemoryInstr.run_trap_iff hready).mp htrap)).2
    rw [mmuWrite32Aligned_of_misaligned hmis] at hwrite
    cases hwrite
    exact isaCause_ne_misalign rfl ((reported_iff rfl).mp (hreported _ htrap)).symm
  · intro haligned
    constructor
    · intro t htrap
      have hwrite :=
        (MemoryInstr.sc_trap_iff.mp ((MemoryInstr.run_trap_iff hready).mp htrap)).2
      have hisa : isaCause (address vm.hart (data (.sc rd rs1 rs2))) (data (.sc rd rs1 rs2)) = 15 :=
        if_neg haligned
      rw [hisa]
      rcases mmuWrite32Aligned_trap_iff.mp hwrite with ⟨hmis, -⟩ | ⟨-, -, ht⟩
      · exact absurd hmis haligned
      · exact (reported_iff ht).mpr rfl
    · intro _ hmis
      exact absurd hmis haligned

/-- A read-modify-write operation is reported as a load, whatever goes wrong. -/
theorem amo_classified_iff {op : RmwOp} {rd rs1 rs2 : RegIndex} (hready : Ready hc c) :
    ClassifiedAsIsa hc c vm (data (.amo op rd rs1 rs2)) ↔
      ¬Misaligned (vm.hart.registers rs1) ∧ ¬DataFault vm (vm.hart.registers rs1) := by
  have htrap_iff : ∀ t, TrapsTo hc c vm t (data (.amo op rd rs1 rs2)) ↔
      mmuRead32Aligned (vm.hart.registers rs1) vm = .error .trap t := by
    intro t
    exact (MemoryInstr.run_trap_iff hready).trans MemoryInstr.amo_trap_iff
  constructor
  · rintro ⟨hreported, -⟩
    have haligned : ¬Misaligned (vm.hart.registers rs1) := by
      intro hmis
      have htrap := (htrap_iff _).mpr (mmuRead32Aligned_of_misaligned hmis)
      exact isaCause_ne_misalign rfl ((reported_iff rfl).mp (hreported _ htrap)).symm
    refine ⟨haligned, fun hfault => ?_⟩
    have htrap := (htrap_iff _).mpr (mmuRead32Aligned_trap_iff.mpr (.inr ⟨haligned, hfault, rfl⟩))
    have hcause := (reported_iff rfl).mp (hreported _ htrap)
    have hisa : isaCause (address vm.hart (data (.amo op rd rs1 rs2)))
        (data (.amo op rd rs1 rs2)) = 15 := if_neg haligned
    rw [hisa] at hcause
    exact absurd hcause (by decide)
  · rintro ⟨haligned, hfault⟩
    constructor
    · intro t htrap
      rcases mmuRead32Aligned_trap_iff.mp ((htrap_iff t).mp htrap) with ⟨hmis, -⟩ | ⟨-, hdata, -⟩
      · exact absurd hmis haligned
      · exact absurd hdata hfault
    · intro _ hmis
      exact absurd hmis haligned

/--
Memory traps are reported as the instruction set asks for, except that a
conditional store or a read-modify-write operation is not at a misaligned
address, nor a read-modify-write operation at an address with no translation.
-/
theorem classifiedAsIsa_iff (hc : HostCode) {c : Cpu} (hready : Ready hc c) (vm : Vm)
    (a : Access) :
    ClassifiedAsIsa hc c vm a ↔
      ¬(a.isAtomicStore ∧ Misaligned (a.address vm.hart)) ∧
        ¬(a.isAmo ∧ DataFault vm (a.address vm.hart)) := by
  cases a with
  | fetch pc => simp [fetch_classified, isAtomicStore, isAmo]
  | data i =>
      cases i with
      | load l rd rs1 offset => simp [load_classified hready, isAtomicStore, isAmo]
      | store st rs1 rs2 offset => simp [store_classified hready, isAtomicStore, isAmo]
      | lr rd rs1 rs2 => simp [lr_classified hready, isAtomicStore, isAmo]
      | sc rd rs1 rs2 =>
          simp [sc_classified_iff hready, isAtomicStore, isAmo, address, MemoryInstr.address]
      | amo op rd rs1 rs2 =>
          simp [amo_classified_iff hready, isAtomicStore, isAmo, address, MemoryInstr.address]

end Access

/-- The machine at reset with `x1` set. -/
def pointerVm (location : Word) : Vm :=
  { virtualMachineInit (fun _ => 0) (fun _ => 0) with hart := initialHart.setReg 1 location }

theorem classifiedAsIsa_aligned_amoadd :
    Access.ClassifiedAsIsa evenHostCode (entryCpu evenHostCode) (pointerVm 0x80000000)
      (.data (.amo .add 3 1 2)) := by
  apply (Access.classifiedAsIsa_iff evenHostCode (ready_entryCpu evenHostCode) _ _).mpr
  constructor
  · rintro ⟨-, hmis⟩
    exact hmis rfl
  · rintro ⟨-, hfault⟩
    cases hfault.pagingOn

/-- `amoadd.w x3, x2, (x1)` at an odd address is reported as a misaligned load. -/
theorem misaligned_amoadd_reported_as_load :
    ¬∀ (hc : HostCode) (c : Cpu) (vm : Vm) (a : Access), Ready hc c →
      Access.ClassifiedAsIsa hc c vm a := by
  intro h
  have hreported := (h evenHostCode (entryCpu evenHostCode) (pointerVm 0x80000001)
    (.data (.amo .add 3 1 2)) (ready_entryCpu evenHostCode)).1
  have haccess : (MemoryInstr.amo .add 3 1 2).access (pointerVm 0x80000001) =
      .error .trap (excepted (pointerVm 0x80000001) EXCEPTION_LOAD_ADDRESS_MISALIGN 0x80000001) := rfl
  have hcause := (hreported _ (MemoryInstr.run_of_error (ready_entryCpu evenHostCode) haccess)).1
  rw [(excepted_handler _ _ _).1] at hcause
  revert hcause
  decide

end Zelda.Proofs.FaultCauses
