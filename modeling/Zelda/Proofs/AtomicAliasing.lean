import Zelda.Proofs.FaultCauses
import Zelda.Proofs.LittleEndian
/-!
# Read-modify-write operations

The slow paths keep the loaded word in `rd` between the load and the store.
They copy both sources first, and `x0` is cleared only after the store, so no
choice of registers is special.
-/

namespace Zelda.Proofs.AtomicAliasing

open Zelda.Vmm
open Zelda.Isa (RmwOp)
open Zelda.Lib.Effect
open Zelda.Lib.Bytes
open Zelda.Lib.X86
open Zelda.Proofs.DataAccess
open Zelda.Proofs.LittleEndian
open Zelda.Proofs.MemoryInstructions
open Zelda.Proofs.MemoryTemplates
open Zelda.Proofs.Templates

/-! ## The addressed word -/

/-- The word at `va` is in main memory, from byte `offset` on. -/
structure WordInRam (vm : Vm) (va : Word) (offset : Nat) : Prop where
  translates : ramOffset vm va = some offset
  fits : offset + 4 ≤ vm.mainMem.size

/-- The word at a place in main memory. -/
def wordAt (mem : HostMem) (offset : Nat) : Word :=
  BitVec.ofNat 32 (loadBytes mem.bytes offset 4)

/-- What a read-modify-write operation is to leave behind. -/
structure Performed (op : RmwOp) (rd rs2 : RegIndex) (offset : Nat) (s t : Vm) : Prop where
  word : wordAt t.mainMem offset = op.combine (wordAt s.mainMem offset) (s.hart.registers rs2)
  loaded : t.hart.registers rd = if rd = 0 then 0 else wordAt s.mainMem offset
  registers : ∀ r, r ≠ rd → t.hart.registers r = s.hart.registers r
  memory : ∀ o, ¬(offset ≤ o ∧ o < offset + 4) → t.mainMem.bytes o = s.mainMem.bytes o
  size : t.mainMem.size = s.mainMem.size
  devices : SameDevices s t
  pc : t.hart.pc = s.hart.pc + 4

/-! ## The slow path -/

section Slowpath

variable {vm : Vm} {va : Word} {offset : Nat}

theorem setWidth_ofNat_loadBytes (mem : HostMem) (offset : Nat) :
    (BitVec.ofNat 64 (loadBytes mem.bytes offset 4)).setWidth 32 = wordAt mem offset := by
  have hlt := loadBytes_lt mem.bytes offset 4
  apply BitVec.eq_of_toNat_eq
  rw [wordAt, BitVec.toNat_setWidth, BitVec.toNat_ofNat, BitVec.toNat_ofNat]
  omega

theorem mmuRead32Aligned_ram (haligned : ¬Misaligned va) (h : WordInRam vm va offset) :
    mmuRead32Aligned va vm = .ok (wordAt vm.mainMem offset) (touched vm va) := by
  have hfits : offset + AccessSize.b4.bytes ≤ vm.mainMem.size := h.fits
  rw [mmuRead32Aligned_of_aligned haligned, bind_apply_ok (vmread_ram h.translates hfits)]
  exact congrArg (fun w => EStateM.Result.ok w (touched vm va))
    (setWidth_ofNat_loadBytes vm.mainMem offset)

/-- The state in which the store is made: the load has filled the TLB and written `rd`. -/
def loadedInto (vm : Vm) (va : Word) (rd : RegIndex) (value : Word) : Vm :=
  { touched vm va with hart := (touched vm va).hart.setReg rd value }

/-- Writing `rd` moves no translation, whatever register it is. -/
theorem target_loadedInto {pmr : PmRegion} {pa : Word} (h : target vm va = .region pmr pa)
    (rd : RegIndex) (value : Word) : target (loadedInto vm va rd value) va = .region pmr pa :=
  target_touched h

theorem touched_loadedInto {pmr : PmRegion} {pa : Word} (h : target vm va = .region pmr pa)
    (rd : RegIndex) (value : Word) :
    touched (loadedInto vm va rd value) va = loadedInto vm va rd value := by
  by_cases hpaging : vm.hart.pagingOn = true
  · obtain ⟨entry, hlook, -⟩ := touched_lookup h hpaging
    have hlook' : (loadedInto vm va rd value).hart.dtlb.vaToTlbEntry va = some entry := hlook
    exact touched_of_hit hlook'
  · have hoff : ¬(loadedInto vm va rd value).hart.pagingOn = true := by
      show ¬(touched vm va).hart.pagingOn = true
      rw [touched_pagingOn]
      exact hpaging
    exact if_neg hoff

theorem wordInRam_loadedInto (h : WordInRam vm va offset) (rd : RegIndex) (value : Word) :
    WordInRam (loadedInto vm va rd value) va offset := by
  have hmem : (loadedInto vm va rd value).mainMem = vm.mainMem := touched_mainMem vm va
  obtain ⟨pmr, pa, htarget, hram, rfl, hlt⟩ := ramOffset_eq_some h.translates
  constructor
  · unfold ramOffset
    rw [target_loadedInto htarget, hmem]
    exact if_pos ⟨hram, hlt⟩
  · rw [hmem]
    exact h.fits

/-- The machine after the store of `value`. -/
def rewritten (vm : Vm) (va : Word) (rd : RegIndex) (offset : Nat) (loaded value : Word) : Vm :=
  { loadedInto vm va rd loaded with
    mainMem := { vm.mainMem with
      bytes := storeBytes vm.mainMem.bytes offset 4 value.toNat } }

theorem mmuWrite32Aligned_loadedInto (haligned : ¬Misaligned va) (h : WordInRam vm va offset)
    (rd : RegIndex) (loaded value : Word) :
    mmuWrite32Aligned va value (loadedInto vm va rd loaded) =
      .ok () (rewritten vm va rd offset loaded value) := by
  have hword := wordInRam_loadedInto h rd loaded
  have hfits : offset + AccessSize.b4.bytes ≤ (loadedInto vm va rd loaded).mainMem.size :=
    hword.fits
  have hmem : (loadedInto vm va rd loaded).mainMem = vm.mainMem := touched_mainMem vm va
  have hvalue : (value.setWidth 64).toNat = value.toNat := by
    have hlt := value.isLt
    rw [BitVec.toNat_setWidth]
    omega
  obtain ⟨pmr, pa, htarget, -⟩ := ramOffset_eq_some h.translates
  rw [mmuWrite32Aligned_of_aligned haligned, vmwrite_ram hword.translates, if_pos hfits]
  unfold stored
  rw [touched_loadedInto htarget, hmem, hvalue]
  rfl

/-- Load and store see the same word, and `rd` carries it from one to the other. -/
theorem amoSlowpath_ram (combine : Word → Word → Word) {rd rs1 rs2 : RegIndex}
    (haligned : ¬Misaligned (vm.hart.registers rs1))
    (h : WordInRam vm (vm.hart.registers rs1) offset) :
    amoSlowpath combine rs1 rs2 rd vm =
      .ok () (rewritten vm (vm.hart.registers rs1) rd offset (wordAt vm.mainMem offset)
        (combine (wordAt vm.mainMem offset) (vm.hart.registers rs2))) := by
  have hslow : amoSlowpath combine rs1 rs2 rd vm =
      (mmuRead32Aligned (vm.hart.registers rs1) >>= fun loaded => do
        regWrite rd loaded
        let s ← get
        mmuWrite32Aligned (vm.hart.registers rs1)
          (combine (s.hart.registers rd) (vm.hart.registers rs2))) vm := rfl
  have hback : (loadedInto vm (vm.hart.registers rs1) rd (wordAt vm.mainMem offset)).hart.registers
      rd = wordAt vm.mainMem offset := Function.update_self _ _ _
  rw [hslow, bind_apply_ok (mmuRead32Aligned_ram haligned h)]
  show mmuWrite32Aligned (vm.hart.registers rs1)
    (combine ((loadedInto vm (vm.hart.registers rs1) rd (wordAt vm.mainMem offset)).hart.registers
      rd) (vm.hart.registers rs2)) (loadedInto vm (vm.hart.registers rs1) rd _) = _
  rw [hback]
  exact mmuWrite32Aligned_loadedInto haligned h rd _ _

end Slowpath

/-! ## The block -/

theorem wordAt_storeBytes (mem : HostMem) (offset : Nat) (value : Word) :
    wordAt { mem with bytes := storeBytes mem.bytes offset 4 value.toNat } offset = value := by
  have hlt := value.isLt
  apply BitVec.eq_of_toNat_eq
  rw [wordAt, loadBytes_storeBytes, BitVec.toNat_ofNat]
  omega

theorem performed_rewritten {vm : Vm} (hzero : vm.hart.registers 0 = 0) (op : RmwOp)
    (va : Word) (rd rs2 : RegIndex) (offset : Nat) :
    Performed op rd rs2 offset vm
      { rewritten vm va rd offset (wordAt vm.mainMem offset)
          (op.combine (wordAt vm.mainMem offset) (vm.hart.registers rs2)) with
        hart := proceeded ((loadedInto vm va rd (wordAt vm.mainMem offset)).hart.setReg 0 0) } := by
  have hregs : (touched vm va).hart.registers = vm.hart.registers :=
    touched_field (fun t => t.hart.registers) (fun _ => rfl) va
  have hpc : (touched vm va).hart.pc = vm.hart.pc :=
    touched_field (fun t => t.hart.pc) (fun _ => rfl) va
  have hdevices := touched_sameDevices vm va
  constructor
  case word => exact wordAt_storeBytes vm.mainMem offset _
  case loaded =>
    show Function.update (Function.update (touched vm va).hart.registers rd _) 0 0 rd = _
    by_cases hrd : rd = 0
    · rw [if_pos hrd, hrd, Function.update_self]
    · rw [if_neg hrd, Function.update_of_ne hrd, Function.update_self]
  case registers =>
    intro r hr
    show Function.update (Function.update (touched vm va).hart.registers rd _) 0 0 r = _
    by_cases hr0 : r = 0
    · rw [hr0, Function.update_self, hzero]
    · rw [Function.update_of_ne hr0, Function.update_of_ne hr, hregs]
  case memory =>
    intro o ho
    exact storeBytes_of_not_mem ho
  case size => rfl
  case devices => exact ⟨hdevices.bootrom, hdevices.clint, hdevices.plic, hdevices.uart⟩
  case pc =>
    show (touched vm va).hart.pc + 4 = _
    rw [hpc]

/-- The block the translator emits for an operation, whatever its operands. -/
theorem translate_emits_amo {word : Word} (hopcode : opcodeOf word = RISCV_OPCODE_AMO) (pc : Word)
    (op : RmwOp)
    (hfunct5 : (instructionDecodingPerType word .R).funct7 >>> 2 = op.funct5.setWidth 7) :
    ∃ e, Vmm.translate word pc = some e ∧
      (MemoryInstr.amo op (instructionDecodingPerType word .R).rdIndex
        (instructionDecodingPerType word .R).rs1Index
        (instructionDecodingPerType word .R).rs2Index).Emits e := by
  have hmem : op.funct5.setWidth 7 ∈ amoFunct5s := by
    cases op <;> decide
  have hwide : (op.funct5.setWidth 7 : BitVec 7).setWidth 32 = op.funct5.setWidth 32 := by
    cases op <;> decide
  have htranslate : Vmm.translate word pc =
      some (riscvAmoTranslator (instructionDecodingPerType word .R)) := by
    unfold Vmm.translate
    simp only [hopcode]
    show riscvAmoInstructionsTranslationEntry word = _
    unfold riscvAmoInstructionsTranslationEntry
    simp only
    rw [hfunct5, if_pos hmem]
  refine ⟨_, htranslate, MemoryInstr.emits_amoTranslator rfl ?_ hfunct5⟩
  rw [hwide]
  rfl

/--
A read-modify-write operation on a word of main memory combines the old word
with the old `rs2`, delivers the old word and touches nothing else, whichever
of its registers coincide and whichever are `x0`.
-/
theorem amo_performed (op : RmwOp) (rd rs1 rs2 : RegIndex) {hc : HostCode} {c : Cpu}
    (hready : Ready hc c) {vm : Vm} (hzero : vm.hart.registers 0 = 0)
    (haligned : ¬Misaligned (vm.hart.registers rs1)) {offset : Nat}
    (hram : WordInRam vm (vm.hart.registers rs1) offset) :
    (∃ c' t, (MemoryInstr.amo op rd rs1 rs2).run hc c vm = .ok (.fallThrough, c') t ∧
      Performed op rd rs2 offset vm t) ∧
    ∀ word pc dec, opcodeOf word = RISCV_OPCODE_AMO →
      dec = instructionDecodingPerType word .R → dec.funct7 >>> 2 = op.funct5.setWidth 7 →
      dec.rdIndex = rd → dec.rs1Index = rs1 → dec.rs2Index = rs2 →
      ∃ e, Vmm.translate word pc = some e ∧ (MemoryInstr.amo op rd rs1 rs2).Emits e := by
  constructor
  · have hslow : amoSlowpath (fun rd rs2 => op.combine rd rs2) rs1 rs2 rd vm = .ok () _ :=
      amoSlowpath_ram _ haligned hram
    have haccess : (MemoryInstr.amo op rd rs1 rs2).access vm = .ok _ _ := bind_apply_ok hslow
    obtain ⟨c', hrun⟩ := MemoryInstr.run_of_ok hready haccess
    exact ⟨c', _, hrun, performed_rewritten hzero op _ rd rs2 offset⟩
  · intro word pc dec hopcode hdec hfunct5 hrd hrs1 hrs2
    subst hdec hrd hrs1 hrs2
    exact translate_emits_amo hopcode pc op hfunct5

/-- `amoadd.w x1, x1, (x1)` on the first word of main memory. -/
theorem amo_performed_one_register :
    ∃ c' t, (MemoryInstr.amo .add 1 1 1).run evenHostCode (entryCpu evenHostCode)
        (FaultCauses.pointerVm 0x80000000) = .ok (.fallThrough, c') t ∧
      Performed .add 1 1 0 (FaultCauses.pointerVm 0x80000000) t := by
  have haligned : ¬Misaligned ((FaultCauses.pointerVm 0x80000000).hart.registers 1) := by decide
  have hram : WordInRam (FaultCauses.pointerVm 0x80000000)
      ((FaultCauses.pointerVm 0x80000000).hart.registers 1) 0 := by
    constructor
    · decide +kernel
    · decide
  exact (amo_performed .add 1 1 1 (ready_entryCpu evenHostCode) rfl haligned hram).1

end Zelda.Proofs.AtomicAliasing
