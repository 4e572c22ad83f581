import Mathlib.Tactic.FinCases
import Zelda.Proofs.CsrViews
import Zelda.Proofs.MemoryTemplates
import Zelda.Vmm.Init
/-!
# CSR instructions as read-modify-writes

For a register whose callbacks agree with its mask, the six instruction forms
move the old value to `rd` and leave the operand, the union or the difference
to be read next.
-/

namespace Zelda.Proofs.CsrInstructions

open Zelda.Vmm
open Zelda.Lib.Effect
open Zelda.Lib.X86
open Zelda.Proofs.Templates
open Zelda.Proofs.MemoryTemplates
open Zelda.Proofs.CsrAccess
open Zelda.Proofs.CsrViews

/-! ## Registers that read back what was written -/

/-- The callbacks of a register, where a read under the mask returns what was written under it. -/
structure ReadsBack (csr : CsrEntry) (write : Word → Vm → Vm) (read : Vm → Word) : Prop where
  write_eq : csr.write = some write
  read_eq : csr.read = some fun vm => (read vm, vm)
  /-- A write leaves the integer registers alone. -/
  registers : ∀ value vm, (write value vm).hart.registers = vm.hart.registers
  /-- A read does not look at the integer registers or the pc. -/
  frame : ∀ vm registers pc,
    read { vm with hart := { vm.hart with registers := registers, pc := pc } } = read vm
  back : ∀ value vm,
    read (write (value &&& csr.wpriMask) vm) &&& csr.wpriMask = value &&& csr.wpriMask

theorem readsBack_blob (address : CsrAddress) (mask : Word) :
    ReadsBack (blobCsrEntry address mask) (blobWrite address)
      fun vm => vm.hart.csrBlob address where
  write_eq := rfl
  read_eq := rfl
  registers _ _ := rfl
  frame _ _ _ := rfl
  back value vm := by
    show Function.update vm.hart.csrBlob address (value &&& mask) address &&& mask = value &&& mask
    rw [Function.update_self, BitVec.and_assoc, BitVec.and_self]

theorem readsBack_mie :
    ReadsBack mieCsrEntry (fun value vm => { vm with hart := { vm.hart with ienable := value } })
      fun vm => vm.hart.ienable where
  write_eq := rfl
  read_eq := rfl
  registers _ _ := rfl
  frame _ _ _ := rfl
  back value vm := by
    show value &&& mieCsrEntry.wpriMask &&& mieCsrEntry.wpriMask = _
    rw [BitVec.and_assoc, BitVec.and_self]

theorem readsBack_mideleg :
    ReadsBack midelegCsrEntry
      (fun value vm => { vm with hart := { vm.hart with idelegation := value } })
      fun vm => vm.hart.idelegation where
  write_eq := rfl
  read_eq := rfl
  registers _ _ := rfl
  frame _ _ _ := rfl
  back value vm := by
    show value &&& midelegCsrEntry.wpriMask &&& midelegCsrEntry.wpriMask = _
    rw [BitVec.and_assoc, BitVec.and_self]

theorem readsBack_satp :
    ReadsBack satpCsrEntry
      (fun value vm =>
        let hart := vm.hart.setCsrBlob CSR_ADDRESS_SATP value
        let hart := { hart with itlb := hart.itlb.invalidate, dtlb := hart.dtlb.invalidate }
        { vm with hart := hart.flushTranslationCache })
      fun vm => vm.hart.csrBlob CSR_ADDRESS_SATP where
  write_eq := rfl
  read_eq := rfl
  registers _ _ := rfl
  frame _ _ _ := rfl
  back value vm := by
    show Function.update vm.hart.csrBlob CSR_ADDRESS_SATP (value &&& WPRI_MASK_ALL)
      CSR_ADDRESS_SATP &&& WPRI_MASK_ALL = _
    rw [Function.update_self, BitVec.and_assoc, BitVec.and_self]
    rfl

theorem getLsbD_statusBit (flag : Bool) {n i : Nat} (hn : n < 32) :
    (statusBit flag n).getLsbD i = (decide (i = n) && flag) := by
  rw [statusBit, BitVec.getLsbD_shiftLeft, BitVec.getLsbD_setWidth]
  by_cases hi : i = n
  · subst hi
    simp [hn]
  · by_cases hlt : i < n
    · simp [hi, hlt]
    · have hsub : i - n ≠ 0 := by omega
      simp [hi, hsub]

/-- The fields a word written to `mstatus` is taken apart into. -/
def statusOf (value : Word) : Status where
  uie := value.getLsbD 0
  sie := value.getLsbD 1
  mie := value.getLsbD 3
  upie := value.getLsbD 4
  spie := value.getLsbD 5
  mpie := value.getLsbD 7
  spp := (value >>> 8).setWidth 1
  mpp := (value >>> 11).setWidth 2

theorem mstatusWord_statusOf (value : Word) :
    mstatusWord (statusOf value) &&& 0x19aa = value &&& 0x19aa := by
  apply BitVec.eq_of_getLsbD_eq
  intro i hi
  simp only [mstatusWord, statusOf, BitVec.getLsbD_and, BitVec.getLsbD_or]
  repeat rw [getLsbD_statusBit _ (by decide)]
  interval_cases i <;> simp

theorem readsBack_mstatus :
    ReadsBack mstatusCsrEntry
      (fun value vm => { vm with hart := { vm.hart with status := statusOf value } })
      fun vm => mstatusWord vm.hart.status where
  write_eq := rfl
  read_eq := rfl
  registers _ _ := rfl
  frame _ _ _ := rfl
  back value vm := by
    have h := mstatusWord_statusOf (value &&& 0x19aa)
    rw [BitVec.and_assoc, BitVec.and_self] at h
    exact h

/-- The fields of a word written to `sstatus`. -/
def withSstatus (value : Word) (status : Status) : Status :=
  { status with
    uie := value.getLsbD 0
    sie := value.getLsbD 1
    upie := value.getLsbD 4
    spie := value.getLsbD 5
    spp := (value >>> 8).setWidth 1 }

/-- The word `sstatus` shows for a status. -/
def sstatusWord (status : Status) : Word :=
  statusBit status.uie 0 ||| statusBit status.sie 1 ||| statusBit status.upie 4 |||
    statusBit status.spie 5 ||| (status.spp.setWidth 32 <<< 8)

theorem sstatusWord_withSstatus (value : Word) (status : Status) :
    sstatusWord (withSstatus value status) &&& 0x133 = value &&& 0x133 := by
  apply BitVec.eq_of_getLsbD_eq
  intro i hi
  simp only [sstatusWord, withSstatus, BitVec.getLsbD_and, BitVec.getLsbD_or]
  repeat rw [getLsbD_statusBit _ (by decide)]
  interval_cases i <;> simp

theorem readsBack_sstatus :
    ReadsBack sstatusCsrEntry
      (fun value vm =>
        { vm with hart := { vm.hart with status := withSstatus value vm.hart.status } })
      fun vm => sstatusWord vm.hart.status where
  write_eq := rfl
  read_eq := rfl
  registers _ _ := rfl
  frame _ _ _ := rfl
  back value vm := by
    have h := sstatusWord_withSstatus (value &&& 0x133) vm.hart.status
    rw [BitVec.and_assoc, BitVec.and_self] at h
    exact h

/-- The three interrupt bits the supervisor can enable. -/
def withSie (value ienable : Word) : Word :=
  copyBit (copyBit (copyBit ienable value 1) value 5) value 9

/-- The word `sie` shows. -/
def sieWord (ienable : Word) : Word :=
  bitInPlace ienable 0 ||| bitInPlace ienable 1 ||| bitInPlace ienable 4 |||
    bitInPlace ienable 5 ||| bitInPlace ienable 8 ||| bitInPlace ienable 9

theorem sieWord_withSie (value ienable : Word) :
    sieWord (withSie value ienable) &&& 0x222 = value &&& 0x222 := by
  apply BitVec.eq_of_getLsbD_eq
  intro i hi
  rw [BitVec.getLsbD_and, BitVec.getLsbD_and]
  by_cases hmask : (0x222 : Word).getLsbD i = true
  · rw [hmask, Bool.and_true, Bool.and_true]
    simp only [sieWord, BitVec.getLsbD_or]
    repeat rw [getLsbD_bitInPlace _ (by decide)]
    unfold withSie
    repeat rw [getLsbD_copyBit _ _ (by decide) (by decide)]
    rcases exposed_cases hi hmask with rfl | rfl | rfl <;> simp
  · rw [Bool.not_eq_true] at hmask
    rw [hmask, Bool.and_false, Bool.and_false]

theorem readsBack_sie :
    ReadsBack sieCsrEntry
      (fun value vm => { vm with hart := { vm.hart with ienable := withSie value vm.hart.ienable } })
      fun vm => sieWord vm.hart.ienable where
  write_eq := rfl
  read_eq := rfl
  registers _ _ := rfl
  frame _ _ _ := rfl
  back value vm := by
    have h := sieWord_withSie (value &&& 0x222) vm.hart.ienable
    rw [BitVec.and_assoc, BitVec.and_self] at h
    exact h

/-- The registers all of whose masked bits the guest can write. -/
def fullyWritable : List (CsrAddress × CsrEntry) :=
  [ (CSR_ADDRESS_MSTATUS, mstatusCsrEntry),
    (CSR_ADDRESS_MIE, mieCsrEntry),
    (CSR_ADDRESS_MIDELEG, midelegCsrEntry),
    (CSR_ADDRESS_MEDELEG, medelegCsrEntry),
    (CSR_ADDRESS_MTVEC, mtvecCsrEntry),
    (CSR_ADDRESS_MSCRATCH, mscratchCsrEntry),
    (CSR_ADDRESS_MEPC, mepcCsrEntry),
    (CSR_ADDRESS_MCAUSE, mcauseCsrEntry),
    (CSR_ADDRESS_MTVAL, mtvalCsrEntry),
    (0x306, mcounterenCsrEntry),
    (CSR_ADDRESS_SSTATUS, sstatusCsrEntry),
    (CSR_ADDRESS_SIE, sieCsrEntry),
    (CSR_ADDRESS_SATP, satpCsrEntry),
    (CSR_ADDRESS_STVEC, stvecCsrEntry),
    (CSR_ADDRESS_SSCRATCH, sscratchCsrEntry),
    (CSR_ADDRESS_SEPC, sepcCsrEntry),
    (CSR_ADDRESS_SCAUSE, scauseCsrEntry),
    (CSR_ADDRESS_STVAL, stvalCsrEntry),
    (0x106, scounterenCsrEntry),
    (0x310, blobCsrEntry 0x310 WPRI_MASK_ALL),
    (0x30A, blobCsrEntry 0x30A WPRI_MASK_ALL),
    (0x31A, blobCsrEntry 0x31A WPRI_MASK_ALL),
    (0x10A, blobCsrEntry 0x10A WPRI_MASK_ALL) ] ++
  (List.finRange 16).map (fun idx : Fin 16 =>
    (0x3b0 + BitVec.ofNat 12 idx.val, pmpaddrCsrEntry idx)) ++
  (List.finRange 4).map (fun idx : Fin 4 =>
    (0x3a0 + BitVec.ofNat 12 idx.val, pmpcfgCsrEntry idx))

theorem fullyWritable_spec : ∀ entry ∈ fullyWritable,
    csrEntryAt entry.1 = some entry.2 ∧ ∃ write read, ReadsBack entry.2 write read := by
  have hblob : ∀ {address : CsrAddress} {mask : Word},
      csrEntryAt address = some (blobCsrEntry address mask) →
      csrEntryAt address = some (blobCsrEntry address mask) ∧
        ∃ write read, ReadsBack (blobCsrEntry address mask) write read :=
    fun h => ⟨h, _, _, readsBack_blob _ _⟩
  unfold fullyWritable
  simp only [List.forall_mem_append, List.forall_mem_cons, List.forall_mem_map]
  refine ⟨⟨⟨⟨rfl, _, _, readsBack_mstatus⟩, ⟨rfl, _, _, readsBack_mie⟩,
    ⟨rfl, _, _, readsBack_mideleg⟩, hblob rfl, hblob rfl, hblob rfl, hblob rfl, hblob rfl, hblob rfl,
    hblob rfl, ⟨rfl, _, _, readsBack_sstatus⟩, ⟨rfl, _, _, readsBack_sie⟩,
    ⟨rfl, _, _, readsBack_satp⟩, hblob rfl, hblob rfl, hblob rfl, hblob rfl, hblob rfl, hblob rfl,
    hblob rfl, hblob rfl, hblob rfl, hblob rfl, fun _ h => nomatch h⟩, ?_⟩, ?_⟩
  · intro idx _
    apply hblob
    fin_cases idx <;> rfl
  · intro idx _
    apply hblob
    fin_cases idx <;> rfl

/-! ## The callback -/

/-- `funct3` of the six forms. -/
def csrForms : List (BitVec 3) := [0x1, 0x2, 0x3, 0x5, 0x6, 0x7]

/-- The swapping forms; the others set or clear bits. -/
def isSwap (instruction : Word) : Bool :=
  (fields instruction).funct3 == 0x1 || (fields instruction).funct3 == 0x5

/-- The machine after the old value has gone to `rd`; a swap with `x0` does not read. -/
def observedVm (instruction : Word) (csr : CsrEntry) (vm : Vm) : Vm :=
  if isSwap instruction ∧ (fields instruction).rdIndex = 0 then vm
  else { vm with hart := vm.hart.setReg (fields instruction).rdIndex (readValue csr vm) }

/-- The machine after the callback; setting or clearing with `x0` or zero does not write. -/
def accessedVm (instruction : Word) (csr : CsrEntry) (write : Word → Vm → Vm) (vm : Vm) : Vm :=
  if isSwap instruction = false ∧ (fields instruction).rs1Index = 0 then
    observedVm instruction csr vm
  else
    write (combined instruction csr vm &&& csr.wpriMask) (observedVm instruction csr vm)

section Callback

variable {instruction : Word} {csr : CsrEntry} {write : Word → Vm → Vm} {read : Vm → Word}

theorem ReadsBack.readValue_eq (h : ReadsBack csr write read) (vm : Vm) :
    readValue csr vm = read vm &&& csr.wpriMask := by
  unfold readValue
  rw [h.read_eq]

theorem ReadsBack.csrRead_apply (h : ReadsBack csr write read) (vm : Vm) :
    csrRead csr vm = .ok (readValue csr vm) vm := by
  unfold csrRead
  rw [h.readValue_eq, h.read_eq]
  rfl

theorem ReadsBack.csrWrite_apply (h : ReadsBack csr write read) (value : Word) (vm : Vm) :
    csrWrite csr value vm = .ok () (write value vm) := by
  unfold csrWrite
  rw [h.write_eq]
  rfl

/-- Everything a CSR instruction does to a register that reads back. -/
theorem ReadsBack.callback_wp (h : ReadsBack csr write read)
    (hopcode : opcodeOf instruction = RISCV_OPCODE_SUPERVISOR_LEVEL)
    (hfunct3 : (fields instruction).funct3 ∈ csrForms)
    (hcsr : csrEntryAt (csrAddress instruction) = some csr) (vm : Vm) :
    Wp (riscvGenericCsrCallback instruction)
      (fun _ t => t = accessedVm instruction csr write vm) (fun _ _ => False) vm := by
  have hcsr' : csrEntryAt ((instructionDecodingPerType instruction .I).imm.setWidth 12) = some csr :=
    hcsr
  unfold riscvGenericCsrCallback assert
  rw [wp_bind, hopcode, if_pos (by decide), wp_pure]
  simp only [hcsr']
  rw [wp_bind, wp_get]
  -- the six forms, in pairs of register and immediate operand
  split
  case h_1 hform | h_2 hform =>
    have hswap : isSwap instruction = true := by
      unfold isSwap
      rw [hform]
      decide
    have hvalue : (if (fields instruction).funct3 = 0x1 then
        vm.hart.registers (fields instruction).rs1Index
        else (fields instruction).rs1Index.setWidth 32) = combined instruction csr vm := by
      unfold combined csrOperand
      rw [hform]
      rfl
    have haccessed : accessedVm instruction csr write vm =
        write (combined instruction csr vm &&& csr.wpriMask) (observedVm instruction csr vm) := by
      unfold accessedVm
      simp [hswap]
    split
    · rename_i hrd
      have hobserved : observedVm instruction csr vm =
          { vm with hart := vm.hart.setReg (fields instruction).rdIndex (readValue csr vm) } := by
        unfold observedVm
        rw [if_neg fun hzero => hrd hzero.2]
      rw [wp_bind, wp_of_ok (h.csrRead_apply vm), wp_bind]
      show Wp _ _ _ { vm with hart := vm.hart.setReg (fields instruction).rdIndex (readValue csr vm) }
      rw [hvalue, wp_of_ok (h.csrWrite_apply _ _), haccessed, hobserved]
    · rename_i hrd
      have hobserved : observedVm instruction csr vm = vm := by
        unfold observedVm
        rw [if_pos ⟨hswap, not_not.mp hrd⟩]
      rw [hvalue, wp_of_ok (h.csrWrite_apply _ _), haccessed, hobserved]
  case h_3 hform | h_4 hform | h_5 hform | h_6 hform =>
    have hswap : isSwap instruction = false := by
      unfold isSwap
      rw [hform]
      decide
    have hobserved : observedVm instruction csr vm =
        { vm with hart := vm.hart.setReg (fields instruction).rdIndex (readValue csr vm) } := by
      unfold observedVm
      simp [hswap]
    rw [wp_bind, wp_of_ok (h.csrRead_apply vm), wp_bind]
    show Wp _ _ _ { vm with hart := vm.hart.setReg (fields instruction).rdIndex (readValue csr vm) }
    rw [← hobserved]
    split
    · rename_i hrs1
      have haccessed : accessedVm instruction csr write vm =
          write (combined instruction csr vm &&& csr.wpriMask) (observedVm instruction csr vm) :=
        if_neg fun hzero => hrs1 hzero.2
      rw [wp_of_ok (h.csrWrite_apply _ _), haccessed]
      unfold combined csrOperand
      rw [hform]
      rfl
    · rename_i hrs1
      have haccessed : accessedVm instruction csr write vm = observedVm instruction csr vm :=
        if_pos ⟨hswap, not_not.mp hrs1⟩
      exact haccessed.symm
  case h_7 h1 h5 h2 h6 h3 h7 =>
    simp only [csrForms, List.mem_cons, List.not_mem_nil, or_false] at hfunct3
    rcases hfunct3 with hf | hf | hf | hf | hf | hf
    · exact h1 hf
    · exact h2 hf
    · exact h3 hf
    · exact h5 hf
    · exact h6 hf
    · exact h7 hf

end Callback

/-! ## The instructions -/

theorem execWp_genericCsr {hc : HostCode} {param : Nat → Word} {c : Cpu} {vm : Vm}
    {Q : End × Cpu → Vm → Prop} {E : Abort → Vm → Prop} (hready : Ready hc c)
    (h : Wp (riscvGenericCsrCallback (param 0))
      (fun _ t => ∀ c', Q (.toMonitor, c') { t with hart := proceeded (t.hart.setReg 0 0) }) E vm) :
    ExecWp (hostEnv hc) param (templateBody .genericCsr) c Q E vm := by
  unfold templateBody
  simp only [List.append_assoc, List.cons_append, List.nil_append, execWp_movq, execWp_movl,
    Operand.value]
  set c₁ := (c.set .rdi (c.get .r12)).set32 .rsi (param 0)
  have hready₁ : Ready hc c₁ := (hready.set rfl _).set rfl _
  have hrdi : (pushed c₁).rdi = hc.hartBase := hready.r12
  have hrsi : (pushed c₁).get32 .rsi = param 0 := get32_of_get rfl
  rw [execWp_callVmm]
  unfold callVmmFn
  rw [if_neg (not_not.mpr hrdi)]
  simp only [wp_bind, hrsi, wp_pure]
  refine wp_mono h ?_ fun _ _ he => he
  intro _ t ht
  have hready₂ := hready₁.afterCall (hc.clobber .riscvGenericCsrCallback (pushed c₁))
    (hc.clobber .riscvGenericCsrCallback (pushed c₁) .rax)
  rw [execWp_resetZeroRegister hready₂, execWp_proceedToNextInstruction hready₂, trapToVmm,
    execWp_jmpMonitor]
  exact ht _

/-- What a CSR instruction from `vm` to `t` has to have done. -/
structure ReadModifyWrite (instruction : Word) (csr : CsrEntry) (vm t : Vm) : Prop where
  rd : (fields instruction).rdIndex ≠ 0 →
    t.hart.registers (fields instruction).rdIndex = readValue csr vm
  others : ∀ index, index ≠ (fields instruction).rdIndex →
    t.hart.registers index = vm.hart.registers index
  zero : t.hart.registers 0 = 0
  /-- Setting or clearing with `x0` or a zero immediate writes nothing. -/
  silent : isSwap instruction = false → (fields instruction).rs1Index = 0 →
    t = { vm with
      hart := { vm.hart with registers := t.hart.registers, pc := vm.hart.pc + 4 } }
  /-- What the next read returns. -/
  next : readValue csr t = combined instruction csr vm &&& csr.wpriMask

section Instruction

variable {instruction : Word} {csr : CsrEntry} {write : Word → Vm → Vm} {read : Vm → Word} {vm : Vm}

theorem observedVm_registers_of_ne {index : RegIndex} (h : index ≠ (fields instruction).rdIndex) :
    (observedVm instruction csr vm).hart.registers index = vm.hart.registers index := by
  unfold observedVm
  split
  · rfl
  · exact Function.update_of_ne h _ _

theorem observedVm_registers_rd (h : (fields instruction).rdIndex ≠ 0) :
    (observedVm instruction csr vm).hart.registers (fields instruction).rdIndex =
      readValue csr vm := by
  unfold observedVm
  rw [if_neg fun hzero => h hzero.2]
  exact Function.update_self _ _ _

theorem ReadsBack.accessedVm_registers (h : ReadsBack csr write read) :
    (accessedVm instruction csr write vm).hart.registers =
      (observedVm instruction csr vm).hart.registers := by
  unfold accessedVm
  split
  · rfl
  · exact h.registers _ _

/-- The operand of an instruction that does not write is zero. -/
theorem csrOperand_of_zero (hzero : vm.hart.registers 0 = 0)
    (hrs1 : (fields instruction).rs1Index = 0) : csrOperand instruction vm = 0 := by
  unfold csrOperand
  rw [hrs1]
  split
  · rfl
  · exact hzero

theorem ReadsBack.readValue_of_frame (h : ReadsBack csr write read) (vm : Vm)
    (registers : RegIndex → Word) (pc : Word) :
    readValue csr { vm with hart := { vm.hart with registers := registers, pc := pc } } =
      readValue csr vm := by
  rw [h.readValue_eq, h.readValue_eq, h.frame]

theorem ReadsBack.readValue_observedVm (h : ReadsBack csr write read) :
    readValue csr (observedVm instruction csr vm) = readValue csr vm := by
  unfold observedVm
  split
  · rfl
  · exact h.readValue_of_frame vm _ vm.hart.pc

/-- What the callback leaves to be read. -/
theorem ReadsBack.readValue_accessedVm (h : ReadsBack csr write read)
    (hzero : vm.hart.registers 0 = 0) :
    readValue csr (accessedVm instruction csr write vm) =
      combined instruction csr vm &&& csr.wpriMask := by
  unfold accessedVm
  split
  · rename_i hsilent
    obtain ⟨hswap, hrs1⟩ := hsilent
    have hcombined : combined instruction csr vm = readValue csr vm := by
      unfold combined
      rw [csrOperand_of_zero hzero hrs1]
      split
      · rename_i hform
        simp [isSwap, hform] at hswap
      · rename_i hform
        simp [isSwap, hform] at hswap
      · exact BitVec.or_zero
      · exact BitVec.or_zero
      · exact BitVec.and_allOnes
    rw [hcombined, h.readValue_observedVm, h.readValue_eq, BitVec.and_assoc, BitVec.and_self]
  · rw [h.readValue_eq, h.back]

/-- The machine at the end of the block. -/
def retiredVm (instruction : Word) (csr : CsrEntry) (write : Word → Vm → Vm) (vm : Vm) : Vm :=
  let t := accessedVm instruction csr write vm
  { t with hart := proceeded (t.hart.setReg 0 0) }

theorem ReadsBack.readModifyWrite (h : ReadsBack csr write read)
    (hzero : vm.hart.registers 0 = 0) :
    ReadModifyWrite instruction csr vm (retiredVm instruction csr write vm) where
  rd hrd := by
    show Function.update _ 0 0 _ = _
    rw [Function.update_of_ne hrd, h.accessedVm_registers, observedVm_registers_rd hrd]
  others index hindex := by
    show Function.update _ 0 0 _ = _
    by_cases hx0 : index = 0
    · rw [hx0, Function.update_self, hzero]
    · rw [Function.update_of_ne hx0, h.accessedVm_registers, observedVm_registers_of_ne hindex]
  zero := by
    show Function.update (accessedVm instruction csr write vm).hart.registers 0 0 0 = 0
    rw [Function.update_self]
  silent hswap hrs1 := by
    have haccessed : accessedVm instruction csr write vm = observedVm instruction csr vm :=
      if_pos ⟨hswap, hrs1⟩
    unfold retiredVm
    rw [haccessed]
    unfold observedVm
    split <;> rfl
  next := by
    rw [← h.readValue_accessedVm hzero]
    exact h.readValue_of_frame _ _ _

end Instruction

/--
The six CSR instructions are atomic read-modify-writes on every register whose
masked bits are all writable.
-/
theorem csr_instruction_atomic (hc : HostCode) {c : Cpu} (hready : Ready hc c)
    {param : Nat → Word} {instruction : Word} (hparam : param 0 = instruction)
    (hopcode : opcodeOf instruction = RISCV_OPCODE_SUPERVISOR_LEVEL)
    (hfunct3 : (fields instruction).funct3 ∈ csrForms) {csr : CsrEntry}
    (hcsr : (csrAddress instruction, csr) ∈ fullyWritable) {vm : Vm}
    (hzero : vm.hart.registers 0 = 0) :
    ∃ c' t, runBlock hc .genericCsr param c vm = .ok (.toMonitor, c') t ∧
      ReadModifyWrite instruction csr vm t := by
  obtain ⟨hentry, write, read, hback⟩ := fullyWritable_spec _ hcsr
  have hwp : Wp (runBlock hc .genericCsr param c)
      (fun r t => r.1 = .toMonitor ∧ t = retiredVm instruction csr write vm)
      (fun _ _ => False) vm := by
    apply runBlock_wp hready
    intro c' hready'
    apply execWp_genericCsr hready'
    rw [hparam]
    refine wp_mono (hback.callback_wp hopcode hfunct3 hentry vm) ?_ fun _ _ he => he
    intro _ t ht _
    rw [ht]
    exact ⟨rfl, rfl⟩
  unfold Wp at hwp
  cases hrun : runBlock hc .genericCsr param c vm with
  | error e t =>
      rw [hrun] at hwp
      exact hwp.elim
  | ok r t =>
      rw [hrun] at hwp
      obtain ⟨e, c'⟩ := r
      obtain ⟨rfl, rfl⟩ := hwp
      exact ⟨c', _, rfl, hback.readModifyWrite hzero⟩

/-- The machine at reset. -/
def resetVm : Vm :=
  virtualMachineInit (fun _ => 0) fun _ => 0

/-- `csrrs x1, mstatus, x1`. -/
theorem csr_instruction_atomic_csrrs_mstatus :
    ∃ c' t, runBlock evenHostCode .genericCsr (fun _ => 0x3000a0f3) (entryCpu evenHostCode) resetVm =
        .ok (.toMonitor, c') t ∧
      ReadModifyWrite 0x3000a0f3 mstatusCsrEntry resetVm t := by
  have hmem : (csrAddress 0x3000a0f3, mstatusCsrEntry) ∈ fullyWritable := by
    have haddress : csrAddress 0x3000a0f3 = CSR_ADDRESS_MSTATUS := by decide
    rw [haddress]
    apply List.mem_append_left
    apply List.mem_append_left
    exact List.mem_cons_self
  have hopcode : opcodeOf 0x3000a0f3 = RISCV_OPCODE_SUPERVISOR_LEVEL := by decide
  have hfunct3 : (fields 0x3000a0f3).funct3 ∈ csrForms := by decide
  have hzero : resetVm.hart.registers 0 = 0 := rfl
  exact @csr_instruction_atomic evenHostCode _ (ready_entryCpu evenHostCode) (fun _ => 0x3000a0f3)
    0x3000a0f3 rfl hopcode hfunct3 mstatusCsrEntry hmem resetVm hzero

end Zelda.Proofs.CsrInstructions
