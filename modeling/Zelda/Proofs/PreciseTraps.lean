import Zelda.Proofs.MemoryInstructions
import Zelda.Proofs.Sv32Walk
/-!
# Precise data traps

A load, store or atomic operation that traps has done nothing yet, so that it
can be executed again once the handler has repaired the mapping.  The
conditional store is the exception: it clears its destination first.
-/

namespace Zelda.Proofs.PreciseTraps

open Zelda.Vmm
open Zelda.Isa (LoadOp StoreOp RmwOp)
open Zelda.Lib.Effect
open Zelda.Lib.X86
open Zelda.Proofs.Frames
open Zelda.Proofs.Templates
open Zelda.Proofs.MemoryInstructions

/-! ## Precision -/

/--
The machine the handler of the trap in `t` returns to, where `u` is the
machine with the mapping in place from the start: `handler` is what is done to
memory, and the level, the CSRs and the TLBs are as in `u`.
-/
def returned (handler : HostMem → HostMem) (t u : Vm) : Vm :=
  { u with
    hart := { u.hart with registers := t.hart.registers, pc := trapEpc t.hart }
    mainMem := handler t.mainMem
    reservations := t.reservations
    nextPointer := t.nextPointer }

/-- `u` is `vm` with the mapping repaired by `handler`. -/
structure Repaired (handler : HostMem → HostMem) (vm u : Vm) : Prop where
  registers : u.hart.registers = vm.hart.registers
  pc : u.hart.pc = vm.hart.pc
  mainMem : u.mainMem = handler vm.mainMem
  reservations : u.reservations = vm.reservations
  nextPointer : u.nextPointer = vm.nextPointer

/-- Nothing but the trap has happened between `vm` and `t`. -/
structure Untouched (vm t : Vm) : Prop where
  registers : t.hart.registers = vm.hart.registers
  outside : t = { vm with hart := t.hart }
  epc : trapEpc t.hart = vm.hart.pc

/--
A trap of the instruction leaves the registers and everything outside the hart
as they were, saves the instruction's own address, and the instruction can be
executed again as if there had been no fault.
-/
def Precise (hc : HostCode) (c : Cpu) (vm : Vm) (i : MemoryInstr) : Prop :=
  ∀ t, i.run hc c vm = .error .trap t →
    Untouched vm t ∧
      ∀ handler u, Repaired handler vm u → i.run hc c (returned handler t u) = i.run hc c u

/-- What is untouched can be executed again. -/
theorem returned_eq {handler : HostMem → HostMem} {vm t u : Vm} (ht : Untouched vm t)
    (hu : Repaired handler vm u) : returned handler t u = u := by
  have hmem : t.mainMem = vm.mainMem := by rw [ht.outside]
  have hres : t.reservations = vm.reservations := by rw [ht.outside]
  have hnext : t.nextPointer = vm.nextPointer := by rw [ht.outside]
  unfold returned
  rw [ht.registers, ht.epc, hmem, hres, hnext, ← hu.registers, ← hu.pc, ← hu.mainMem,
    ← hu.reservations, ← hu.nextPointer]

theorem excepted_registers (vm : Vm) (cause : Nat) (tval : Word) :
    (excepted vm cause tval).hart.registers = vm.hart.registers :=
  takeTrap_registers vm.hart _ _ tval

theorem untouched_excepted (vm : Vm) (cause : Nat) (tval : Word) :
    Untouched vm (excepted vm cause tval) where
  registers := excepted_registers vm cause tval
  outside := rfl
  epc := (excepted_handler vm cause tval).2.1

/-- An instruction that traps only in the state it started from is precise. -/
theorem precise_of_excepted {hc : HostCode} {c : Cpu} {vm : Vm} {i : MemoryInstr}
    (h : ∀ t, i.run hc c vm = .error .trap t → ∃ cause tval, t = excepted vm cause tval) :
    Precise hc c vm i := by
  intro t htrap
  obtain ⟨cause, tval, rfl⟩ := h t htrap
  have huntouched := untouched_excepted vm cause tval
  refine ⟨huntouched, fun handler u hu => ?_⟩
  rw [returned_eq huntouched hu]

/-! ## The instructions -/

section Instructions

variable {hc : HostCode} {c : Cpu} {vm : Vm} {rd rs1 rs2 : RegIndex} {offset : Word}

theorem load_precise {l : LoadOp} (hready : Ready hc c) :
    Precise hc c vm (.load l rd rs1 offset) := by
  apply precise_of_excepted
  intro t htrap
  obtain ⟨-, ht⟩ := MemoryInstr.load_trap_iff.mp ((MemoryInstr.run_trap_iff hready).mp htrap)
  exact ⟨_, _, ht⟩

theorem store_precise {st : StoreOp} (hready : Ready hc c) :
    Precise hc c vm (.store st rs1 rs2 offset) := by
  apply precise_of_excepted
  intro t htrap
  obtain ⟨-, ht⟩ := MemoryInstr.store_trap_iff.mp ((MemoryInstr.run_trap_iff hready).mp htrap)
  exact ⟨_, _, ht⟩

theorem exists_excepted_of_read {t : Vm} {va : Word}
    (h : mmuRead32Aligned va vm = .error .trap t) : ∃ cause tval, t = excepted vm cause tval := by
  rcases mmuRead32Aligned_trap_iff.mp h with ⟨-, ht⟩ | ⟨-, -, ht⟩
  · exact ⟨_, _, ht⟩
  · exact ⟨_, _, ht⟩

theorem lr_precise (hready : Ready hc c) : Precise hc c vm (.lr rd rs1 rs2) := by
  apply precise_of_excepted
  intro t htrap
  apply exists_excepted_of_read
  exact MemoryInstr.lr_trap_iff.mp ((MemoryInstr.run_trap_iff hready).mp htrap)

theorem amo_precise {op : RmwOp} (hready : Ready hc c) : Precise hc c vm (.amo op rd rs1 rs2) := by
  apply precise_of_excepted
  intro t htrap
  apply exists_excepted_of_read
  exact MemoryInstr.amo_trap_iff.mp ((MemoryInstr.run_trap_iff hready).mp htrap)

/-- Where a translation is missing does not depend on the registers. -/
theorem dataFault_setReg (rd : RegIndex) (value : Word) {va : Word} :
    DataFault { vm with hart := vm.hart.setReg rd value } va ↔ DataFault vm va :=
  ⟨fun h => ⟨h.pagingOn, h.missed, h.walk⟩, fun h => ⟨h.pagingOn, h.missed, h.walk⟩⟩

/-- The store of a conditional store traps in the state with `rd` cleared. -/
theorem sc_trap_cleared {t : Vm} (h : (MemoryInstr.sc rd rs1 rs2).access vm = .error .trap t) :
    ∃ cause tval, t = excepted { vm with hart := vm.hart.setReg rd 0x0 } cause tval := by
  rcases mmuWrite32Aligned_trap_iff.mp (MemoryInstr.sc_trap_iff.mp h).2 with
    ⟨-, ht⟩ | ⟨-, -, ht⟩
  · exact ⟨_, _, ht⟩
  · exact ⟨_, _, ht⟩

theorem exists_sc_trap_iff :
    (∃ t, (MemoryInstr.sc rd rs1 rs2).access vm = .error .trap t) ↔
      (vm.matchingReservation (vm.hart.registers rs1)).isSome ∧
        (Misaligned (vm.hart.registers rs1) ∨ DataFault vm (vm.hart.registers rs1)) := by
  simp only [MemoryInstr.sc_trap_iff, exists_and_left]
  apply and_congr_right
  intro _
  constructor
  · rintro ⟨t, htrap⟩
    rcases mmuWrite32Aligned_trap_iff.mp htrap with ⟨hmis, -⟩ | ⟨-, hfault, -⟩
    · exact .inl hmis
    · exact .inr ((dataFault_setReg rd 0x0).mp hfault)
  · intro h
    by_cases hmis : Misaligned (vm.hart.registers rs1)
    · exact ⟨_, mmuWrite32Aligned_of_misaligned hmis⟩
    · have hfault := (dataFault_setReg rd 0x0).mpr (h.resolve_left hmis)
      exact ⟨_, mmuWrite32Aligned_trap_iff.mpr (.inr ⟨hmis, hfault, rfl⟩)⟩

theorem setReg_of_eq {h : Hart} {value : Word} (heq : h.registers rd = value) :
    h.setReg rd value = h := by
  unfold Hart.setReg
  rw [← heq, Function.update_eq_self]

theorem sc_precise_iff (hready : Ready hc c) :
    Precise hc c vm (.sc rd rs1 rs2) ↔
      ¬((vm.matchingReservation (vm.hart.registers rs1)).isSome ∧
        (Misaligned (vm.hart.registers rs1) ∨ DataFault vm (vm.hart.registers rs1)) ∧
        vm.hart.registers rd ≠ 0) := by
  constructor
  · rintro hprecise ⟨hslot, hfault, hrd⟩
    obtain ⟨t, htrap⟩ := exists_sc_trap_iff.mpr ⟨hslot, hfault⟩
    obtain ⟨cause, tval, ht⟩ := sc_trap_cleared htrap
    have hregs := (hprecise t (MemoryInstr.run_of_error hready htrap)).1.registers
    rw [ht, excepted_registers] at hregs
    have hzero := congrFun hregs rd
    simp only [Hart.setReg, Function.update_self] at hzero
    exact hrd hzero.symm
  · intro hno
    apply precise_of_excepted
    intro t htrap
    have haccess := (MemoryInstr.run_trap_iff hready).mp htrap
    obtain ⟨hslot, hfault⟩ := exists_sc_trap_iff.mp ⟨t, haccess⟩
    have hrd : vm.hart.registers rd = 0 := by
      by_contra hne
      exact hno ⟨hslot, hfault, hne⟩
    obtain ⟨cause, tval, ht⟩ := sc_trap_cleared haccess
    rw [setReg_of_eq hrd] at ht
    exact ⟨cause, tval, ht⟩

end Instructions

/--
A conditional store that holds a reservation on the address, cannot store
there, and would have to give up a nonzero destination for the trap.
-/
def ClearsDestination (vm : Vm) : MemoryInstr → Prop
  | .sc rd rs1 _ =>
      (vm.matchingReservation (vm.hart.registers rs1)).isSome ∧
        (Misaligned (vm.hart.registers rs1) ∨ DataFault vm (vm.hart.registers rs1)) ∧
        vm.hart.registers rd ≠ 0
  | _ => False

/-- Data traps are precise but for the destination of a conditional store. -/
theorem precise_iff (hc : HostCode) {c : Cpu} (hready : Ready hc c) (vm : Vm) (i : MemoryInstr) :
    Precise hc c vm i ↔ ¬ClearsDestination vm i := by
  cases i with
  | load l rd rs1 offset => simp [load_precise hready, ClearsDestination]
  | store st rs1 rs2 offset => simp [store_precise hready, ClearsDestination]
  | lr rd rs1 rs2 => simp [lr_precise hready, ClearsDestination]
  | sc rd rs1 rs2 => exact sc_precise_iff hready
  | amo op rd rs1 rs2 => simp [amo_precise hready, ClearsDestination]

/-- A supervisor whose page at zero is gone, with a reservation on it. -/
def reservedVm : Vm :=
  let vm := Sv32Walk.rootEntryVm 0
  { vm with
    hart := vm.hart.setReg 3 7
    reservations := Function.update vm.reservations 0 { addr := 0, valid := true, hartid := 0 } }

theorem dataFault_reservedVm : DataFault reservedVm 0 where
  pagingOn := by decide
  missed := by decide
  walk := walkPageTable_fails_iff.mpr ⟨-1, by decide +kernel⟩

theorem precise_store_on_missing_page :
    Precise evenHostCode (entryCpu evenHostCode) reservedVm (.store .sw 1 3 0) := by
  apply (precise_iff evenHostCode (ready_entryCpu evenHostCode) _ _).mpr
  exact fun h => h

/-- `sc.w x3, x2, (x1)` on the missing page loses what was in `x3`. -/
theorem conditional_store_clears_destination :
    ¬∀ (hc : HostCode) (c : Cpu) (vm : Vm) (i : MemoryInstr), Ready hc c → Precise hc c vm i := by
  intro h
  have hready := ready_entryCpu evenHostCode
  have hprecise := h evenHostCode _ reservedVm (.sc 3 1 2) hready
  apply (sc_precise_iff hready).mp hprecise
  refine ⟨by decide +kernel, .inr dataFault_reservedVm, by decide⟩

end Zelda.Proofs.PreciseTraps
