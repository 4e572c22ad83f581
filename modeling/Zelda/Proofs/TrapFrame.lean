import Zelda.Firmware.Entry
import Zelda.Proofs.Decode
import Zelda.Proofs.SbiCalls
import Zelda.Proofs.TrapNesting
/-!
# The frame of a firmware trap

The vector saves the interrupted registers in a frame on the firmware stack and
restores them from it.  `sp` travels through `mscratch`, which holds the stack
top again after each half of the vector.
-/

namespace Zelda.Proofs.TrapFrame

open Zelda.Vmm
open Zelda.Firmware
open Zelda.Isa
open Zelda.Lib.Bytes
open Zelda.Lib.Effect
open Zelda.Proofs.Frames
open Zelda.Proofs.CsrAccess
open Zelda.Proofs.SbiCalls

/-! ## Instructions -/

/-- `csrw` of a register that can be written. -/
theorem run_csrw_entry {address : CsrAddress} {csr : CsrEntry} {write : Word → Vm → Vm}
    (h : csrEntryAt address = some csr) (hwrite : csr.write = some write) (rs : RegIndex) (s : Vm) :
    (EntryInstr.csrw address rs).run s = .ok () (write (s.hart.registers rs &&& csr.wpriMask) s) := by
  obtain ⟨hopcode, hdec⟩ := Decode.decode_iType rs 0 1 RISCV_OPCODE_SUPERVISOR_LEVEL address
  have himm : (address.setWidth 32).setWidth 12 = address := by
    rw [BitVec.setWidth_setWidth_of_le _ (by decide), BitVec.setWidth_eq]
  unfold EntryInstr.run riscvGenericCsrCallback EntryInstr.csrWord
  simp only [hopcode, hdec, himm, h]
  show (csrWrite csr (s.hart.registers rs &&& csr.wpriMask) : VmM Unit) s = _
  unfold csrWrite
  rw [hwrite]
  rfl

section Csr

variable (s : Vm) (rd rs : RegIndex)

theorem and_wpriMaskAll (value : Word) : value &&& WPRI_MASK_ALL = value :=
  BitVec.and_allOnes

theorem csrRead_mscratch :
    csrRead mscratchCsrEntry s = .ok (s.hart.csrBlob CSR_ADDRESS_MSCRATCH) s := by
  show EStateM.Result.ok (s.hart.csrBlob CSR_ADDRESS_MSCRATCH &&& WPRI_MASK_ALL) s = _
  rw [and_wpriMaskAll]

/-- The register callback of a word built from its fields. -/
theorem csrCallback_eq (funct3 : BitVec 3) :
    opcodeOf (EntryInstr.csrWord CSR_ADDRESS_MSCRATCH rs funct3 rd) =
        RISCV_OPCODE_SUPERVISOR_LEVEL ∧
      instructionDecodingPerType (EntryInstr.csrWord CSR_ADDRESS_MSCRATCH rs funct3 rd) .I =
        { rdIndex := rd, funct3 := funct3, rs1Index := rs, imm := 0x340 } :=
  Decode.decode_iType rs rd funct3 RISCV_OPCODE_SUPERVISOR_LEVEL CSR_ADDRESS_MSCRATCH

theorem run_csrrw (hrd : rd ≠ 0) :
    (EntryInstr.csrrw rd CSR_ADDRESS_MSCRATCH rs).run s = .ok () { s with
      hart := (s.hart.setReg rd (s.hart.csrBlob CSR_ADDRESS_MSCRATCH)).setCsrBlob
        CSR_ADDRESS_MSCRATCH (s.hart.registers rs) } := by
  obtain ⟨hopcode, hdec⟩ := csrCallback_eq rd rs 1
  unfold EntryInstr.run riscvGenericCsrCallback
  simp only [hopcode, hdec]
  show (do
    if rd ≠ 0 then
      let valueToRead ← csrRead mscratchCsrEntry
      modifyHart fun h => h.setReg rd valueToRead
    csrWrite mscratchCsrEntry (s.hart.registers rs &&& WPRI_MASK_ALL) : VmM Unit) s = _
  rw [if_pos hrd, bind_apply_ok (csrRead_mscratch s), and_wpriMaskAll]
  rfl

theorem run_csrw :
    (EntryInstr.csrw CSR_ADDRESS_MSCRATCH rs).run s = .ok () { s with
      hart := s.hart.setCsrBlob CSR_ADDRESS_MSCRATCH (s.hart.registers rs) } := by
  have hmscratch : csrEntryAt CSR_ADDRESS_MSCRATCH = some mscratchCsrEntry := rfl
  have hmask : s.hart.registers rs &&& mscratchCsrEntry.wpriMask = s.hart.registers rs :=
    and_wpriMaskAll _
  rw [run_csrw_entry hmscratch rfl, hmask]
  rfl

theorem run_csrr :
    (EntryInstr.csrr rd CSR_ADDRESS_MSCRATCH).run s = .ok () { s with
      hart := s.hart.setReg rd (s.hart.csrBlob CSR_ADDRESS_MSCRATCH) } := by
  obtain ⟨hopcode, hdec⟩ := csrCallback_eq rd 0 2
  unfold EntryInstr.run riscvGenericCsrCallback
  simp only [hopcode, hdec]
  show (do
    let valueToRead ← csrRead mscratchCsrEntry
    modifyHart fun h => h.setReg rd valueToRead : VmM Unit) s = _
  rw [bind_apply_ok (csrRead_mscratch s)]
  rfl

end Csr

/-! ## The stack -/

/-- Where the linker put the top of a hart's firmware stack: in ROM, with room for a frame. -/
structure StackTop (top : Word) : Prop where
  room : 128 ≤ top.toNat
  rom : top.toNat ≤ 0x400000

/-- Machine mode on the firmware's memory map. -/
structure OnRom (vm : Vm) : Prop where
  pmrOps : vm.pmrOps = platformRegions
  machine : vm.hart.privilegeLevel = PRIVILEGE_LEVEL_MACHINE
  size : vm.bootrom.size = 0x400000

/-- The word of ROM at an offset. -/
def romWord (vm : Vm) (offset : Nat) : Word :=
  BitVec.ofNat 32 (loadBytes vm.bootrom.bytes offset 4)

/-- The frame at an address, as the handler sees it. -/
def frameAt (vm : Vm) (address : Word) : TrapFrame :=
  fun register => romWord vm (address.toNat + 4 * register.toNat)

def setRomWord (vm : Vm) (offset : Nat) (value : Word) : Vm :=
  { vm with
    bootrom := { vm.bootrom with bytes := storeBytes vm.bootrom.bytes offset 4 value.toNat } }

theorem romWord_setRomWord (vm : Vm) (offset : Nat) (value : Word) :
    romWord (setRomWord vm offset value) offset = value := by
  show BitVec.ofNat 32 (loadBytes (storeBytes vm.bootrom.bytes offset 4 value.toNat) offset 4) = value
  rw [loadBytes_storeBytes]
  apply BitVec.eq_of_toNat_eq
  rw [BitVec.toNat_ofNat]
  have := value.isLt
  omega

theorem romWord_setRomWord_of_disjoint (vm : Vm) {offset offset' : Nat} (value : Word)
    (h : offset + 4 ≤ offset' ∨ offset' + 4 ≤ offset) :
    romWord (setRomWord vm offset value) offset' = romWord vm offset' := by
  show BitVec.ofNat 32
    (loadBytes (storeBytes vm.bootrom.bytes offset 4 value.toNat) offset' 4) = _
  rw [loadBytes_storeBytes_disjoint h]
  rfl

section Rom

variable {address : Word} {size : AccessSize} (haddress : address.toNat + size.bytes ≤ 0x400000)
include haddress

theorem rom_bounds : bootromRegion.addrLow ≤ address ∧ address < bootromRegion.addrHigh := by
  have hpos : 0 < size.bytes := by cases size <;> decide
  constructor
  · exact Nat.zero_le _
  · rw [BitVec.lt_def]
    show address.toNat < 0x400000
    omega

theorem rom_offset : bootromRegion.offset address = address.toNat := by
  unfold PmRegion.offset
  show (address.setWidth 64 - 0#64).toNat = _
  rw [BitVec.sub_zero, BitVec.toNat_setWidth]
  omega

variable {s : Vm} (hs : OnRom s)
include hs

theorem rom_inside :
    ¬bootromRegion.addrHigh.toNat < address.toNat + size.bytes ∧
      bootromRegion.offset address + size.bytes ≤ s.bootrom.size := by
  rw [rom_offset haddress, hs.size]
  show ¬0x400000 < address.toNat + size.bytes ∧ address.toNat + size.bytes ≤ 0x400000
  omega

theorem vmread_rom : vmread address size s =
    .ok (BitVec.ofNat 64 (loadBytes s.bootrom.bytes address.toNat size.bytes)) s := by
  obtain ⟨hlow, hhigh⟩ := rom_bounds haddress
  obtain ⟨hfits, hbacked⟩ := rom_inside haddress hs
  have hmem : bootromRegion ∈ platformRegions := by decide
  have hload : s.bootrom.load (bootromRegion.offset address) size =
      some (BitVec.ofNat 64 (loadBytes s.bootrom.bytes address.toNat size.bytes)) := by
    unfold HostMem.load
    rw [if_pos hbacked, rom_offset haddress]
  rw [vmread_machine hs.pmrOps hs.machine hmem hlow hhigh]
  show bootromRead bootromRegion address size s = _
  unfold bootromRead
  rw [bind_apply_ok (get_apply s), if_neg hfits, hload]
  rfl

end Rom

section RomWords

variable {address : Word} (haddress : address.toNat + AccessSize.b4.bytes ≤ 0x400000)
  {s : Vm} (hs : OnRom s)
include haddress hs

theorem vmwrite_romWord (value : Word) :
    vmwrite address .b4 (value.setWidth 64) s = .ok () (setRomWord s address.toNat value) := by
  obtain ⟨hlow, hhigh⟩ := rom_bounds haddress
  obtain ⟨hfits, hbacked⟩ := rom_inside haddress hs
  have hmem : bootromRegion ∈ platformRegions := by decide
  have hvalue : (value.setWidth 64).toNat = value.toNat := by
    rw [BitVec.toNat_setWidth]
    exact Nat.mod_eq_of_lt (Nat.lt_trans value.isLt (by decide))
  have hstore : s.bootrom.store (bootromRegion.offset address) .b4 (value.setWidth 64) =
      some { s.bootrom with bytes := storeBytes s.bootrom.bytes address.toNat 4 value.toNat } := by
    unfold HostMem.store
    rw [if_pos hbacked, rom_offset haddress, hvalue]
    rfl
  rw [vmwrite_machine hs.pmrOps hs.machine hmem hlow hhigh]
  show bootromWrite bootromRegion address .b4 (value.setWidth 64) s = _
  unfold bootromWrite
  rw [bind_apply_ok (get_apply s), if_neg hfits, hstore]
  rfl

theorem vmread_romWord :
    ∃ value : DWord, vmread address .b4 s = .ok value s ∧
      value.setWidth 32 = romWord s address.toNat := by
  refine ⟨_, vmread_rom haddress hs, ?_⟩
  apply BitVec.eq_of_toNat_eq
  unfold romWord
  rw [BitVec.toNat_setWidth, BitVec.toNat_ofNat, BitVec.toNat_ofNat]
  have := loadBytes_lt s.bootrom.bytes address.toNat 4
  show loadBytes s.bootrom.bytes address.toNat 4 % 2 ^ 64 % 2 ^ 32 = _
  omega

end RomWords

/-! ## Saving and restoring -/

/-- No instruction of the vector fails. -/
def Fails (_ : Abort) (_ : Vm) : Prop :=
  False

theorem runAll_cons (i : EntryInstr) (code : List EntryInstr) :
    EntryInstr.runAll (i :: code) = (do i.run; EntryInstr.runAll code) := rfl

theorem wp_runAll_append (first second : List EntryInstr) {Q : Unit → Vm → Prop} {s : Vm}
    (h : Wp (EntryInstr.runAll first) (fun _ t => Wp (EntryInstr.runAll second) Q Fails t) Fails s) :
    Wp (EntryInstr.runAll (first ++ second)) Q Fails s := by
  induction first generalizing s with
  | nil => exact h
  | cons i code ih =>
      rw [runAll_cons, wp_bind] at h
      rw [List.cons_append, runAll_cons, wp_bind]
      exact wp_mono h (fun _ t ht => ih ht) fun _ _ he => he

theorem wp_runAll_cons {i : EntryInstr} {code : List EntryInstr} {Q : Unit → Vm → Prop} {s t : Vm}
    (hrun : i.run s = .ok () t) (h : Wp (EntryInstr.runAll code) Q Fails t) :
    Wp (EntryInstr.runAll (i :: code)) Q Fails s := by
  rw [runAll_cons, wp_bind, wp_of_ok hrun]
  exact h

section Frame

variable {base : Word} (hbase : base.toNat + 128 ≤ 0x400000)
include hbase

theorem slot_address (register : RegIndex) :
    (base + (slot register).signExtend 32).toNat = base.toNat + 4 * register.toNat := by
  have hslot : ∀ r : RegIndex, ((slot r).signExtend 32).toNat = 4 * r.toNat := by decide
  have := register.isLt
  rw [BitVec.toNat_add, hslot]
  omega

theorem slot_fits (register : RegIndex) :
    (base + (slot register).signExtend 32).toNat + 4 ≤ 0x400000 := by
  have := register.isLt
  rw [slot_address hbase]
  omega

theorem run_sw {s : Vm} (hs : OnRom s) (hsp : s.hart.registers REG_SP = base) (rs slotOf : RegIndex) :
    (EntryInstr.sw rs (slot slotOf) REG_SP).run s =
      .ok () (setRomWord s (base.toNat + 4 * slotOf.toNat) (s.hart.registers rs)) := by
  show vmwrite (s.hart.registers REG_SP + (slot slotOf).signExtend 32) .b4
    ((s.hart.registers rs).setWidth 64) s = _
  rw [hsp, vmwrite_romWord (slot_fits hbase slotOf) hs, slot_address hbase]

theorem run_lw {s : Vm} (hs : OnRom s) (hsp : s.hart.registers REG_SP = base) (rd slotOf : RegIndex) :
    (EntryInstr.lw rd (slot slotOf) REG_SP).run s =
      .ok () { s with hart := s.hart.setReg rd (frameAt s base slotOf) } := by
  obtain ⟨value, hread, hvalue⟩ := vmread_romWord (slot_fits hbase slotOf) hs
  rw [slot_address hbase] at hvalue
  show (do
    let value ← vmread (s.hart.registers REG_SP + (slot slotOf).signExtend 32) .b4
    modifyHart fun h => h.setReg rd (value.setWidth 32) : VmM Unit) s = _
  rw [hsp, bind_apply_ok hread, hvalue]
  rfl

omit hbase in
theorem frameAt_setRomWord (s : Vm) (register : RegIndex) (value : Word) :
    frameAt (setRomWord s (base.toNat + 4 * register.toNat) value) base =
      Function.update (frameAt s base) register value := by
  funext other
  by_cases heq : other = register
  · subst heq
    rw [Function.update_self]
    exact romWord_setRomWord s _ value
  · rw [Function.update_of_ne heq]
    have hne : other.toNat ≠ register.toNat := fun h => heq (BitVec.eq_of_toNat_eq h)
    exact romWord_setRomWord_of_disjoint s value (by omega)

omit hbase in
/-- Writing one place and then the rest of a list is writing the whole list. -/
theorem ite_mem_update (before after : TrapFrame) (register : RegIndex)
    (registers : List RegIndex) (other : RegIndex) :
    (if other ∈ registers then after other
      else Function.update before register (after register) other) =
      if other ∈ register :: registers then after other else before other := by
  by_cases hmem : other ∈ registers
  · rw [if_pos hmem, if_pos (List.mem_cons_of_mem _ hmem)]
  · rw [if_neg hmem]
    by_cases heq : other = register
    · subst heq
      rw [Function.update_self, if_pos (List.mem_cons_self ..)]
    · rw [Function.update_of_ne heq, if_neg]
      simp only [List.mem_cons, not_or]
      exact ⟨heq, hmem⟩

/-- What a sequence of stores to the frame leaves. -/
structure Saved (base : Word) (registers : List RegIndex) (s t : Vm) : Prop where
  rest : t = { s with bootrom := t.bootrom }
  size : t.bootrom.size = s.bootrom.size
  slots : ∀ register, frameAt t base register =
    if register ∈ registers then s.hart.registers register else frameAt s base register

theorem wp_saves {s : Vm} (hs : OnRom s) (hsp : s.hart.registers REG_SP = base)
    (registers : List RegIndex) (hnodup : registers.Nodup) :
    Wp (EntryInstr.runAll (registers.map fun register => .sw register (slot register) REG_SP))
      (fun _ t => Saved base registers s t) Fails s := by
  induction registers generalizing s with
  | nil => exact ⟨rfl, rfl, fun _ => rfl⟩
  | cons register registers ih =>
      obtain ⟨hfresh, hrest⟩ := List.nodup_cons.mp hnodup
      refine wp_runAll_cons (run_sw hbase hs hsp register register) ?_
      have hstored : OnRom (setRomWord s (base.toNat + 4 * register.toNat)
          (s.hart.registers register)) := ⟨hs.pmrOps, hs.machine, hs.size⟩
      refine wp_mono (ih hstored hsp hrest) ?_ fun _ _ h => h
      rintro _ t ⟨hframe, hsize, hslots⟩
      refine ⟨hframe, hsize, fun other => ?_⟩
      rw [hslots other, frameAt_setRomWord]
      exact ite_mem_update ..

/-- What a sequence of loads from the frame leaves. -/
structure Restored (base : Word) (registers : List RegIndex) (s t : Vm) : Prop where
  rest : t = { s with hart := { s.hart with registers := t.hart.registers } }
  loaded : ∀ register, t.hart.registers register =
    if register ∈ registers then frameAt s base register else s.hart.registers register

theorem wp_restores {s : Vm} (hs : OnRom s) (hsp : s.hart.registers REG_SP = base)
    (registers : List RegIndex) (hkeeps : REG_SP ∉ registers) :
    Wp (EntryInstr.runAll (registers.map fun register => .lw register (slot register) REG_SP))
      (fun _ t => Restored base registers s t) Fails s := by
  induction registers generalizing s with
  | nil => exact ⟨rfl, fun _ => rfl⟩
  | cons register registers ih =>
      rw [List.mem_cons, not_or] at hkeeps
      refine wp_runAll_cons (run_lw hbase hs hsp register register) ?_
      have hloaded : OnRom { s with hart := s.hart.setReg register (frameAt s base register) } :=
        ⟨hs.pmrOps, hs.machine, hs.size⟩
      have hsp' : (s.hart.setReg register (frameAt s base register)).registers REG_SP = base :=
        (Function.update_of_ne hkeeps.1 _ _).trans hsp
      refine wp_mono (ih hloaded hsp' hkeeps.2) ?_ fun _ _ h => h
      rintro _ t ⟨hframe, hregs⟩
      refine ⟨hframe, fun other => ?_⟩
      rw [hregs other]
      exact ite_mem_update ..

end Frame

/-! ## The two halves of the vector -/

theorem run_addi (s : Vm) (rd rs : RegIndex) (imm : BitVec 12) :
    (EntryInstr.addi rd rs imm).run s =
      .ok () { s with hart := s.hart.setReg rd (s.hart.registers rs + imm.signExtend 32) } := rfl

theorem run_mv (s : Vm) (rd rs : RegIndex) :
    (EntryInstr.mv rd rs).run s =
      .ok () { s with hart := s.hart.setReg rd (s.hart.registers rs) } := by
  have hzero : s.hart.registers rs + 0 = s.hart.registers rs := BitVec.add_zero _
  show EStateM.Result.ok () { s with hart := s.hart.setReg rd (s.hart.registers rs + 0) } = _
  rw [hzero]

/-- The frame a trap is saved in. -/
def frameBase (top : Word) : Word :=
  top - 128

theorem frameBase_fits {top : Word} (htop : StackTop top) :
    (frameBase top).toNat + 128 = top.toNat := by
  have hroom := htop.room
  have hlt := top.isLt
  unfold frameBase
  rw [BitVec.toNat_sub]
  show (2 ^ 32 - 128 + top.toNat) % 2 ^ 32 + 128 = top.toNat
  omega

theorem frameBase_down (top : Word) : top + (-128 : BitVec 12).signExtend 32 = frameBase top := by
  unfold frameBase
  rw [BitVec.sub_eq_add_neg]
  rfl

theorem frameBase_up (top : Word) : frameBase top + (128 : BitVec 12).signExtend 32 = top := by
  unfold frameBase
  show top - 128#32 + 128#32 = top
  rw [BitVec.sub_add_cancel]

/-- The machine when the handler is called. -/
structure Entered (top : Word) (s t : Vm) : Prop where
  rest : t = { s with hart := { s.hart with registers := t.hart.registers }, bootrom := t.bootrom }
  size : t.bootrom.size = s.bootrom.size
  sp : t.hart.registers REG_SP = frameBase top
  a0 : t.hart.registers REG_A0 = frameBase top
  saved : ∀ register, register ≠ 0 →
    frameAt t (frameBase top) register = s.hart.registers register

theorem mem_savedRegisters (register : RegIndex) :
    register ∈ savedRegisters ↔ register ≠ 0 ∧ register ≠ REG_SP := by
  revert register
  decide

theorem registers_setReg (h : Hart) (index : RegIndex) (value : Word) :
    (h.setReg index value).registers = Function.update h.registers index value := rfl

theorem registers_setCsrBlob (h : Hart) (address : CsrAddress) (value : Word) :
    (h.setCsrBlob address value).registers = h.registers := rfl

/-- The machine with `sp` at the frame and the interrupted `sp` in `mscratch`. -/
def parked (top : Word) (s : Vm) : Vm :=
  { s with
    hart := { s.hart with
      registers := Function.update s.hart.registers REG_SP (frameBase top)
      csrBlob := Function.update s.hart.csrBlob CSR_ADDRESS_MSCRATCH (s.hart.registers REG_SP) } }

theorem wp_park {top : Word} {s : Vm} (hscratch : s.hart.csrBlob CSR_ADDRESS_MSCRATCH = top) :
    Wp (EntryInstr.runAll [.csrrw REG_SP CSR_ADDRESS_MSCRATCH REG_SP, .addi REG_SP REG_SP (-128)])
      (fun _ t => t = parked top s) Fails s := by
  refine wp_runAll_cons (run_csrrw s REG_SP REG_SP (by decide)) ?_
  refine wp_runAll_cons (run_addi _ REG_SP REG_SP (-128)) ?_
  have hsp : ((s.hart.setReg REG_SP (s.hart.csrBlob CSR_ADDRESS_MSCRATCH)).setCsrBlob
      CSR_ADDRESS_MSCRATCH (s.hart.registers REG_SP)).registers REG_SP = top := by
    rw [registers_setCsrBlob, registers_setReg, Function.update_self, hscratch]
  show _ = _
  rw [hsp, frameBase_down]
  simp only [parked, Hart.setReg, Hart.setCsrBlob, Function.update_idem]

theorem wp_record {top : Word} (htop : StackTop top) {s : Vm} (hs : OnRom s)
    (hsp : s.hart.registers REG_SP = frameBase top) :
    Wp (EntryInstr.runAll [.csrr REG_T0 CSR_ADDRESS_MSCRATCH, .sw REG_T0 (slot REG_SP) REG_SP,
        .addi REG_T0 REG_SP 128, .csrw CSR_ADDRESS_MSCRATCH REG_T0, .mv REG_A0 REG_SP])
      (fun _ t =>
        t = { setRomWord s ((frameBase top).toNat + 4 * REG_SP.toNat)
            (s.hart.csrBlob CSR_ADDRESS_MSCRATCH) with
          hart := { s.hart with
            registers := t.hart.registers
            csrBlob := Function.update s.hart.csrBlob CSR_ADDRESS_MSCRATCH top } } ∧
        t.hart.registers REG_SP = frameBase top ∧ t.hart.registers REG_A0 = frameBase top)
      Fails s := by
  have hbase : (frameBase top).toNat + 128 ≤ 0x400000 := by
    rw [frameBase_fits htop]
    exact htop.rom
  refine wp_runAll_cons (run_csrr s REG_T0) ?_
  have hsp1 : (s.hart.setReg REG_T0 (s.hart.csrBlob CSR_ADDRESS_MSCRATCH)).registers REG_SP =
      frameBase top := by
    rw [registers_setReg, Function.update_of_ne (by decide), hsp]
  refine wp_runAll_cons (run_sw hbase (s := { s with
    hart := s.hart.setReg REG_T0 (s.hart.csrBlob CSR_ADDRESS_MSCRATCH) })
    ⟨hs.pmrOps, hs.machine, hs.size⟩ hsp1 REG_T0 REG_SP) ?_
  refine wp_runAll_cons (run_addi _ REG_T0 REG_SP 128) ?_
  refine wp_runAll_cons (run_csrw _ REG_T0) ?_
  refine wp_runAll_cons (run_mv _ REG_A0 REG_SP) ?_
  have hne : REG_SP ≠ REG_T0 := by decide
  have hne' : REG_SP ≠ REG_A0 := by decide
  simp only [EntryInstr.runAll, wp_pure, setRomWord, Hart.setReg, Hart.setCsrBlob,
    Function.update_self, Function.update_of_ne hne, Function.update_of_ne hne', hsp, frameBase_up,
    and_self]

/-- The first half: the registers go to the frame and `mscratch` back to the top. -/
theorem fwTrapEntry_spec {top : Word} (htop : StackTop top) {s : Vm} (hs : OnRom s)
    (hscratch : s.hart.csrBlob CSR_ADDRESS_MSCRATCH = top) :
    Wp (EntryInstr.runAll fwTrapEntry) (fun _ t => Entered top s t) Fails s := by
  have hbase : (frameBase top).toNat + 128 ≤ 0x400000 := by
    rw [frameBase_fits htop]
    exact htop.rom
  unfold fwTrapEntry
  refine wp_runAll_append _ _ (wp_runAll_append _ _ ?_)
  refine wp_mono (wp_park hscratch) ?_ fun _ _ h => h
  rintro _ _ rfl
  have hparked : OnRom (parked top s) := ⟨hs.pmrOps, hs.machine, hs.size⟩
  have hsp : (parked top s).hart.registers REG_SP = frameBase top := by
    show Function.update s.hart.registers REG_SP (frameBase top) REG_SP = _
    rw [Function.update_self]
  refine wp_mono (wp_saves hbase hparked hsp savedRegisters (by decide)) ?_ fun _ _ h => h
  intro _ u hsaved
  have hu : OnRom u := by
    rw [hsaved.rest]
    exact ⟨hs.pmrOps, hs.machine, hsaved.size.trans hs.size⟩
  have hhart : u.hart = (parked top s).hart := by rw [hsaved.rest]
  have husp : u.hart.registers REG_SP = frameBase top := by
    rw [hhart]
    exact hsp
  have hublob : u.hart.csrBlob =
      Function.update s.hart.csrBlob CSR_ADDRESS_MSCRATCH (s.hart.registers REG_SP) := by
    rw [hhart]
    rfl
  have hscratch' : u.hart.csrBlob CSR_ADDRESS_MSCRATCH = s.hart.registers REG_SP := by
    rw [hublob, Function.update_self]
  refine wp_mono (wp_record htop hu husp) ?_ fun _ _ h => h
  rintro _ t ⟨hrest, htsp, hta0⟩
  have hframe : frameAt t (frameBase top) =
      Function.update (frameAt u (frameBase top)) REG_SP (s.hart.registers REG_SP) := by
    rw [← hscratch', ← frameAt_setRomWord, hrest]
    rfl
  refine ⟨?_, ?_, htsp, hta0, ?_⟩
  · -- `mscratch` holds the top as it did at the trap
    have hback : Function.update u.hart.csrBlob CSR_ADDRESS_MSCRATCH top = s.hart.csrBlob := by
      rw [hublob, ← hscratch, Function.update_idem, Function.update_eq_self]
    rw [hrest, hback, hsaved.rest]
    rfl
  · rw [hrest]
    exact hsaved.size
  · intro register hnonzero
    rw [hframe]
    by_cases heq : register = REG_SP
    · rw [heq, Function.update_self]
    · rw [Function.update_of_ne heq, hsaved.slots,
        if_pos ((mem_savedRegisters register).mpr ⟨hnonzero, heq⟩)]
      show Function.update s.hart.registers REG_SP _ register = _
      rw [Function.update_of_ne heq]

/-- The machine right before the `mret`. -/
structure Left (top : Word) (s t : Vm) : Prop where
  rest : t = { s with
    hart := { s.hart with
      registers := t.hart.registers
      csrBlob := Function.update s.hart.csrBlob CSR_ADDRESS_MSCRATCH top } }
  loaded : ∀ register, register ≠ 0 →
    t.hart.registers register = frameAt s (frameBase top) register

/-- The machine with the interrupted `sp` fetched back into `mscratch`. -/
def fetched (s : Vm) (sp : Word) : Vm :=
  { s with
    hart := { s.hart with
      registers := Function.update s.hart.registers REG_T0 sp
      csrBlob := Function.update s.hart.csrBlob CSR_ADDRESS_MSCRATCH sp } }

theorem wp_fetch {top : Word} (htop : StackTop top) {s : Vm} (hs : OnRom s)
    (hsp : s.hart.registers REG_SP = frameBase top) :
    Wp (EntryInstr.runAll [.lw REG_T0 (slot REG_SP) REG_SP, .csrw CSR_ADDRESS_MSCRATCH REG_T0])
      (fun _ t => t = fetched s (frameAt s (frameBase top) REG_SP)) Fails s := by
  have hbase : (frameBase top).toNat + 128 ≤ 0x400000 := by
    rw [frameBase_fits htop]
    exact htop.rom
  refine wp_runAll_cons (run_lw hbase hs hsp REG_T0 REG_SP) ?_
  refine wp_runAll_cons (run_csrw _ REG_T0) ?_
  simp only [EntryInstr.runAll, wp_pure, fetched, Hart.setReg, Hart.setCsrBlob,
    Function.update_self]

theorem wp_swapBack (top : Word) {s : Vm} (hs : OnRom s)
    (hsp : s.hart.registers REG_SP = frameBase top)
    (hmpp : s.hart.status.mpp = PRIVILEGE_LEVEL_USER ∨
      s.hart.status.mpp = PRIVILEGE_LEVEL_SUPERVISOR ∨
      s.hart.status.mpp = PRIVILEGE_LEVEL_MACHINE) :
    Wp (EntryInstr.runAll [.addi REG_SP REG_SP 128, .csrrw REG_SP CSR_ADDRESS_MSCRATCH REG_SP,
        .mret])
      (fun _ t => ∃ u : Vm, u = { s with
          hart := { s.hart with
            registers := Function.update s.hart.registers REG_SP
              (s.hart.csrBlob CSR_ADDRESS_MSCRATCH)
            csrBlob := Function.update s.hart.csrBlob CSR_ADDRESS_MSCRATCH top } } ∧
        t = { u with hart := u.hart.returnFromMmode }) Fails s := by
  refine wp_runAll_cons (run_addi s REG_SP REG_SP 128) ?_
  refine wp_runAll_cons (run_csrrw _ REG_SP REG_SP (by decide)) ?_
  refine wp_runAll_cons (TrapNesting.mretCallback_apply hs.machine hmpp) ?_
  refine ⟨_, ?_, rfl⟩
  simp only [Hart.setReg, Hart.setCsrBlob, Function.update_self, Function.update_idem, hsp,
    frameBase_up]

/-- The second half: the frame goes back to the registers and `mscratch` to the top. -/
theorem fwTrapExit_spec {top : Word} (htop : StackTop top) {s : Vm} (hs : OnRom s)
    (hsp : s.hart.registers REG_SP = frameBase top)
    (hmpp : s.hart.status.mpp = PRIVILEGE_LEVEL_USER ∨
      s.hart.status.mpp = PRIVILEGE_LEVEL_SUPERVISOR ∨
      s.hart.status.mpp = PRIVILEGE_LEVEL_MACHINE) :
    Wp (EntryInstr.runAll fwTrapExit)
      (fun _ t => ∃ u, Left top s u ∧ t = { u with hart := u.hart.returnFromMmode }) Fails s := by
  have hbase : (frameBase top).toNat + 128 ≤ 0x400000 := by
    rw [frameBase_fits htop]
    exact htop.rom
  let sp := frameAt s (frameBase top) REG_SP
  unfold fwTrapExit
  refine wp_runAll_append _ _ (wp_runAll_append _ _ ?_)
  refine wp_mono (wp_fetch htop hs hsp) ?_ fun _ _ h => h
  rintro _ _ rfl
  have hfetched : OnRom (fetched s sp) := ⟨hs.pmrOps, hs.machine, hs.size⟩
  have hfsp : (fetched s sp).hart.registers REG_SP = frameBase top := by
    show Function.update s.hart.registers REG_T0 sp REG_SP = _
    rw [Function.update_of_ne (by decide), hsp]
  refine wp_mono (wp_restores hbase hfetched hfsp savedRegisters (by decide)) ?_ fun _ _ h => h
  intro _ v hrestored
  have hv : OnRom v := by
    rw [hrestored.rest]
    exact ⟨hs.pmrOps, hs.machine, hs.size⟩
  have hvsp : v.hart.registers REG_SP = frameBase top := by
    rw [hrestored.loaded, if_neg (by decide), hfsp]
  have hvmpp : v.hart.status.mpp = s.hart.status.mpp := by
    rw [hrestored.rest]
    rfl
  have hvblob : v.hart.csrBlob = Function.update s.hart.csrBlob CSR_ADDRESS_MSCRATCH sp := by
    rw [hrestored.rest]
    rfl
  refine wp_mono (wp_swapBack top hv hvsp (by rw [hvmpp]; exact hmpp)) ?_ fun _ _ h => h
  rintro _ t ⟨u, hu, ht⟩
  refine ⟨u, ⟨?_, ?_⟩, ht⟩
  · rw [hu, hvblob, Function.update_idem, hrestored.rest]
    rfl
  · intro register hnonzero
    have hregs : u.hart.registers =
        Function.update v.hart.registers REG_SP (v.hart.csrBlob CSR_ADDRESS_MSCRATCH) := by
      rw [hu]
    rw [hregs, hvblob, Function.update_self]
    by_cases heq : register = REG_SP
    · rw [heq, Function.update_self]
    · rw [Function.update_of_ne heq, hrestored.loaded,
        if_pos ((mem_savedRegisters register).mpr ⟨hnonzero, heq⟩)]
      rfl

end Zelda.Proofs.TrapFrame
