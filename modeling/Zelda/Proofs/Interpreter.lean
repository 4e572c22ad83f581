import Zelda.Isa.Encodings
import Zelda.Proofs.CsrInstructions
import Zelda.Proofs.MulDiv
import Zelda.Proofs.ZeroRegister
/-!
# Blocks against a plain interpreter

An interpreter executes one decoded instruction at a time on the machine, with
no host code in between.  Every block a translator can emit does what the
interpreter does, down to the state in which it traps or faults.
-/

namespace Zelda.Proofs.Interpreter

open Zelda.Isa
open Zelda.Vmm
open Zelda.Lib.Effect
open Zelda.Lib.X86
open Zelda.Proofs.Decode
open Zelda.Proofs.Instructions
open Zelda.Proofs.MemoryTemplates
open Zelda.Proofs.MulDiv
open Zelda.Proofs.Prefetch
open Zelda.Proofs.Templates

/-! ## The interpreter -/

/-- What an emitted block stands for. -/
inductive Operation
  | lui | auipc | jal | jalr
  | opImm (op : ImmOp)
  | shiftImm (op : ShiftOp)
  | opReg (op : RegOp)
  | mulDiv (op : MulDivOp)
  | branch (op : BranchOp)
  | load (l : LoadOp)
  | store (st : StoreOp)
  | amo
  | fence | fenceI | sfenceVma
  | system (op : SystemOp)
  | csr
  deriving DecidableEq, Repr

def operationOf : Indicator → Operation
  | .lui => .lui
  | .auipc => .auipc
  | .jal => .jal
  | .jalr => .jalr
  | .addi => .opImm .addi
  | .slti => .opImm .slti
  | .sltiu => .opImm .sltiu
  | .xori => .opImm .xori
  | .ori => .opImm .ori
  | .andi => .opImm .andi
  | .slli => .shiftImm .sll
  | .srli => .shiftImm .srl
  | .srai => .shiftImm .sra
  | .add => .opReg .add
  | .sub => .opReg .sub
  | .sll => .opReg (.shift .sll)
  | .slt => .opReg .slt
  | .sltu => .opReg .sltu
  | .xor => .opReg .xor
  | .srl => .opReg (.shift .srl)
  | .sra => .opReg (.shift .sra)
  | .or => .opReg .or
  | .and => .opReg .and
  | .mul => .mulDiv .mul
  | .mulh => .mulDiv .mulh
  | .mulhsu => .mulDiv .mulhsu
  | .mulhu => .mulDiv .mulhu
  | .div => .mulDiv .div
  | .divu => .mulDiv .divu
  | .rem => .mulDiv .rem
  | .remu => .mulDiv .remu
  | .beq => .branch .beq
  | .bne => .branch .bne
  | .blt => .branch .blt
  | .bge => .branch .bge
  | .bltu => .branch .bltu
  | .bgeu => .branch .bgeu
  | .lb => .load .lb
  | .lh => .load .lh
  | .lw => .load .lw
  | .lbu => .load .lbu
  | .lhu => .load .lhu
  | .sb => .store .sb
  | .sh => .store .sh
  | .sw => .store .sw
  | .amo => .amo
  | .fence => .fence
  | .fenceI => .fenceI
  | .ebreak => .system .ebreak
  | .ecall => .system .ecall
  | .mret => .system .mret
  | .sret => .system .sret
  | .sfenceVma => .sfenceVma
  | .wfi => .system .wfi
  | .genericCsr => .csr

/--
One instruction.  The operands are those the decoder delivers: register
indices, sign-extended immediates, and link and target addresses.  A division
the host refuses ends the process.
-/
def Operation.interpret (operand : Nat → Word) : Operation → VmM Unit
  | .lui => modifyHart fun h => retired h ((operand 1).setWidth 5) (operand 0 <<< 12)
  | .auipc =>
      modifyHart fun h => retired h ((operand 1).setWidth 5) ((operand 0 <<< 12) + operand 2)
  | .jal => modifyHart fun h => jumped h ((operand 0).setWidth 5) (operand 1) (operand 2)
  | .jalr => modifyHart fun h =>
      jumped h ((operand 0).setWidth 5) (operand 1)
        ((h.registers ((operand 2).setWidth 5) + operand 3) &&& ~~~1#32)
  | .opImm op => modifyHart fun h =>
      retired h ((operand 2).setWidth 5) (op.eval (h.registers ((operand 1).setWidth 5)) (operand 0))
  | .shiftImm op => modifyHart fun h =>
      retired h ((operand 2).setWidth 5)
        (op.eval (h.registers ((operand 1).setWidth 5)) ((operand 0).setWidth 5))
  | .opReg op => modifyHart fun h =>
      retired h ((operand 2).setWidth 5)
        (op.eval (h.registers ((operand 0).setWidth 5)) (h.registers ((operand 1).setWidth 5)))
  | .mulDiv op => do
      let vm ← get
      let a := vm.hart.registers ((operand 0).setWidth 5)
      let b := vm.hart.registers ((operand 1).setWidth 5)
      if Guarded a b op then modifyHart fun h => retired h ((operand 2).setWidth 5) (op.eval a b)
      else throw .hostFault
  | .branch op => modifyHart fun h =>
      { h with
        pc :=
          if op.taken (h.registers ((operand 0).setWidth 5)) (h.registers ((operand 1).setWidth 5))
          then operand 2
          else h.pc + 4 }
  | .load l => do
      let vm ← get
      let value ← vmread (vm.hart.registers ((operand 1).setWidth 5) + operand 0) l.size
      modifyHart fun h => retired h ((operand 2).setWidth 5) (l.widen value)
  | .store st => do
      let vm ← get
      vmwrite (vm.hart.registers ((operand 1).setWidth 5) + operand 0) st.size
        (st.narrow (vm.hart.registers ((operand 2).setWidth 5)))
      modifyHart proceeded
  | .amo => do
      amoInstructionSlowpath ((operand 0).setWidth 5) ((operand 1).setWidth 5)
        ((operand 2).setWidth 5) (operand 3)
      modifyHart fun h => proceeded (h.setReg 0 0)
  | .fence => modifyHart proceeded
  | .fenceI => modifyHart fun h => proceeded h.flushTranslationCache
  | .sfenceVma => modifyHart fun h => proceeded h.sfenceVma
  | .system .ecall => do
      ecallCallback
      modifyHart proceeded
  | .system .ebreak => do
      ebreakCallback
      modifyHart proceeded
  | .system .wfi => do
      wfiCallback
      modifyHart proceeded
  | .system .mret => mretCallback
  | .system .sret => sretCallback
  | .csr => do
      riscvGenericCsrCallback (operand 0)
      modifyHart fun h => proceeded (h.setReg 0 0)

/-- A decoded instruction, executed. -/
def interpret (e : Emitted) : VmM Unit :=
  (operationOf e.indicator).interpret fun k => e.params.getD k 0

/-- The way a block of this kind is left. -/
def endOf (indicator : Indicator) : End :=
  if indicator.fallsThrough then .fallThrough else .toMonitor

/-! ## Blocks without calls -/

section Blocks

variable {hc : HostCode} {param : Nat → Word} {c : Cpu} {vm : Vm} {rs1 rs2 rd : RegIndex}

/-- The code ends as `m` does, in the same state. -/
abbrev Follows (hc : HostCode) (param : Nat → Word) (code : Code) (c : Cpu) (vm : Vm)
    (m : VmM Unit) : Prop :=
  ExecWp (hostEnv hc) param code c (fun _ t => m vm = .ok () t) (fun a t => m vm = .error a t) vm

theorem follows_of_runsTo {code : Code} {h : Hart} {m : VmM Unit}
    (hrun : RunsTo hc param code c vm h) (hm : m vm = .ok () { vm with hart := h }) :
    Follows hc param code c vm m :=
  execWp_of_runsTo hrun fun _ => hm

/-- A callee, and what is done to the hart behind it. -/
theorem wp_then {α : Type} {m : VmM α} {f : α → Hart → Hart} :
    Wp m
      (fun a t => (m >>= fun a => modifyHart (f a)) vm = .ok () { t with hart := f a t.hart })
      (fun e t => (m >>= fun a => modifyHart (f a)) vm = .error e t) vm := by
  apply wp_of_runs
  · intro a t hok
    rw [bind_apply_ok hok]
    rfl
  · intro e t herror
    rw [bind_apply_error herror]

theorem setWidth_indexParam (index : RegIndex) : (indexParam index).setWidth 5 = index := by
  rw [indexParam, BitVec.setWidth_setWidth_of_le _ (by decide), BitVec.setWidth_eq]

variable (hready : Ready hc c)
include hready

section Register

variable (h0 : param 0 = indexParam rs1) (h1 : param 1 = indexParam rs2)
  (h2 : param 2 = indexParam rd)
include h0 h1 h2

theorem follows_opReg (op : RegOp) :
    Follows hc param (templateBody (regIndicator op)) c vm
      (modifyHart fun h => retired h rd (op.eval (h.registers rs1) (h.registers rs2))) := by
  cases op with
  | add =>
      refine follows_of_runsTo (runsTo_commutativeOp hready h0 h1 h2 .add) ?_
      simp only [RegOp.eval, BitVec.add_comm, Alu.apply]
      rfl
  | sub => exact follows_of_runsTo (runsTo_sub hready h0 h1 h2) rfl
  | slt =>
      refine follows_of_runsTo (runsTo_compareOp hready h0 h1 h2 .l) ?_
      simp only [RegOp.eval, ← holds_l]
      rfl
  | sltu => exact follows_of_runsTo (runsTo_compareOp hready h0 h1 h2 .b) rfl
  | xor =>
      refine follows_of_runsTo (runsTo_commutativeOp hready h0 h1 h2 .xor) ?_
      simp only [RegOp.eval, BitVec.xor_comm, Alu.apply]
      rfl
  | or =>
      refine follows_of_runsTo (runsTo_commutativeOp hready h0 h1 h2 .or) ?_
      simp only [RegOp.eval, BitVec.or_comm, Alu.apply]
      rfl
  | and =>
      refine follows_of_runsTo (runsTo_commutativeOp hready h0 h1 h2 .and) ?_
      simp only [RegOp.eval, BitVec.and_comm, Alu.apply]
      rfl
  | shift op =>
      cases op with
      | sll => exact follows_of_runsTo (runsTo_shiftOp hready h0 h1 h2 .shl) rfl
      | srl => exact follows_of_runsTo (runsTo_shiftOp hready h0 h1 h2 .shr) rfl
      | sra => exact follows_of_runsTo (runsTo_shiftOp hready h0 h1 h2 .sar) rfl

end Register

section Immediate

variable (h1 : param 1 = indexParam rs1) (h2 : param 2 = indexParam rd)
include h1 h2

theorem follows_opImm (op : ImmOp) :
    Follows hc param (templateBody (immIndicator op)) c vm
      (modifyHart fun h => retired h rd (op.eval (h.registers rs1) (param 0))) := by
  cases op with
  | addi => exact follows_of_runsTo (runsTo_addi hready h1 h2) rfl
  | slti =>
      refine follows_of_runsTo (runsTo_compareImmediateOp hready h1 h2 .l) ?_
      simp only [ImmOp.eval, ← holds_l]
      rfl
  | sltiu => exact follows_of_runsTo (runsTo_compareImmediateOp hready h1 h2 .b) rfl
  | xori => exact follows_of_runsTo (runsTo_logicalImmediateOp hready h1 h2 .xor) rfl
  | ori => exact follows_of_runsTo (runsTo_logicalImmediateOp hready h1 h2 .or) rfl
  | andi => exact follows_of_runsTo (runsTo_logicalImmediateOp hready h1 h2 .and) rfl

theorem follows_shiftImm (op : ShiftOp) :
    Follows hc param (templateBody (shiftImmIndicator op)) c vm
      (modifyHart fun h => retired h rd (op.eval (h.registers rs1) ((param 0).setWidth 5))) := by
  cases op with
  | sll => exact follows_of_runsTo (runsTo_shiftImmediateOp hready h1 h2 .shl) rfl
  | srl => exact follows_of_runsTo (runsTo_shiftImmediateOp hready h1 h2 .shr) rfl
  | sra => exact follows_of_runsTo (runsTo_shiftImmediateOp hready h1 h2 .sar) rfl

end Immediate

theorem follows_mulDiv (op : MulDivOp) (h0 : param 0 = indexParam rs1)
    (h1 : param 1 = indexParam rs2) (h2 : param 2 = indexParam rd) :
    Follows hc param (templateBody (mulDivIndicator op)) c vm (do
      let vm ← get
      let a := vm.hart.registers rs1
      let b := vm.hart.registers rs2
      if Guarded a b op then modifyHart fun h => retired h rd (op.eval a b)
      else throw .hostFault) := by
  have hparams : ParamsOf param (mulDivEmitted op rd rs1 rs2) := by
    intro j w hw
    match j with
    | 0 => exact h0.trans (Option.some.inj hw)
    | 1 => exact h1.trans (Option.some.inj hw)
    | 2 => exact h2.trans (Option.some.inj hw)
  apply execWp_mulDiv op hready hparams
  · intro hguarded _
    rw [bind_apply_ok (get_apply vm)]
    simp only [if_pos hguarded]
    rfl
  · intro hrefused
    rw [bind_apply_ok (get_apply vm)]
    simp only [if_neg hrefused]
    rfl

/-! ## Blocks with calls -/

theorem follows_load (l : LoadOp) (h1 : param 1 = indexParam rs1) (h2 : param 2 = indexParam rd) :
    Follows hc param (templateBody (loadIndicator l)) c vm (do
      let vm ← get
      let value ← vmread (vm.hart.registers rs1 + param 0) l.size
      modifyHart fun h => retired h rd (l.widen value)) := by
  apply execWp_load l hready h1 h2
  rw [bind_apply_ok (get_apply vm)]
  exact wp_mono wp_then (fun _ _ hok _ => hok) fun _ _ herror => herror

theorem follows_store (st : StoreOp) (h1 : param 1 = indexParam rs1)
    (h2 : param 2 = indexParam rs2) :
    Follows hc param (templateBody (storeIndicator st)) c vm (do
      let vm ← get
      vmwrite (vm.hart.registers rs1 + param 0) st.size (st.narrow (vm.hart.registers rs2))
      modifyHart proceeded) := by
  apply execWp_store st hready h1 h2
  rw [bind_apply_ok (get_apply vm)]
  exact wp_mono wp_then (fun _ _ hok _ => hok) fun _ _ herror => herror

theorem follows_amo (h0 : param 0 = indexParam rs1) (h1 : param 1 = indexParam rs2)
    (h2 : param 2 = indexParam rd) :
    Follows hc param (templateBody .amo) c vm (do
      amoInstructionSlowpath rs1 rs2 rd (param 3)
      modifyHart fun h => proceeded (h.setReg 0 0)) := by
  apply execWp_amo hready h0 h1 h2
  exact wp_mono wp_then (fun _ _ hok _ => hok) fun _ _ herror => herror

theorem follows_csr :
    Follows hc param (templateBody .genericCsr) c vm (do
      riscvGenericCsrCallback (param 0)
      modifyHart fun h => proceeded (h.setReg 0 0)) := by
  apply CsrInstructions.execWp_genericCsr hready
  exact wp_mono wp_then (fun _ _ hok _ => hok) fun _ _ herror => herror

/-- A call on the hart, and the way to the next instruction. -/
theorem follows_proceed {f : VmmFn} {m : VmM Unit} {rest : Code} (hf : hartCallee f = some m)
    (hrest : rest = endInstruction ∨ rest = trapToVmm) :
    Follows hc param (callOnHart f ++ (proceedToNextInstruction ++ rest)) c vm (do
      m
      modifyHart proceeded) := by
  apply execWp_callOnHart hready hf
  refine wp_mono wp_then ?_ fun _ _ herror => herror
  intro _ t hok c' hready'
  rw [execWp_proceedToNextInstruction hready']
  rcases hrest with rfl | rfl
  · rw [endInstruction, execWp_jmpEnd]
    exact hok
  · rw [trapToVmm, execWp_jmpMonitor]
    exact hok

/-- A call on the hart, and the way back to the vmm. -/
theorem follows_return {f : VmmFn} {m : VmM Unit} (hf : hartCallee f = some m) :
    Follows hc param (callOnHart f ++ trapToVmm) c vm m := by
  apply execWp_callOnHart hready hf
  apply wp_of_runs
  · intro _ t hok c' _
    rw [trapToVmm, execWp_jmpMonitor]
    exact hok
  · exact fun _ _ herror => herror

theorem follows_system {indicator : Indicator} (hmem : indicator ∈ systemIndicators)
    (operand : Nat → Word) :
    Follows hc param (templateBody indicator) c vm ((operationOf indicator).interpret operand) := by
  simp only [systemIndicators, List.mem_cons, List.not_mem_nil, or_false] at hmem
  rcases hmem with rfl | rfl | rfl | rfl | rfl | rfl | rfl | rfl
  · unfold Follows templateBody
    rw [execWp_proceedToNextInstruction hready, endInstruction, execWp_jmpEnd]
    rfl
  · exact follows_proceed (f := .flushTranslationCache) hready rfl (.inr rfl)
  · exact follows_proceed hready rfl (.inl rfl)
  · exact follows_proceed hready rfl (.inr rfl)
  · exact follows_return hready rfl
  · exact follows_return hready rfl
  · exact follows_proceed (f := .sfenceVmaCallback) hready rfl (.inr rfl)
  · exact follows_proceed hready rfl (.inr rfl)

/-! ## Every translated block -/

theorem follows_register {indicator : Indicator} (hmem : indicator ∈ registerIndicators)
    {dec : Decoding} (hparams : ParamsOf param (registerTranslator indicator dec)) :
    Follows hc param (templateBody indicator) c vm
      (interpret (registerTranslator indicator dec)) := by
  have h0 := hparams 0 _ rfl
  have h1 := hparams 1 _ rfl
  have h2 := hparams 2 _ rfl
  have hreg : ∀ op, Follows hc param (templateBody (regIndicator op)) c vm
      ((Operation.opReg op).interpret fun k =>
        (registerTranslator indicator dec).params.getD k 0) := by
    intro op
    have hfollows : Follows hc param _ c vm _ := follows_opReg hready h0 h1 h2 op
    rw [← setWidth_indexParam dec.rs1Index, ← setWidth_indexParam dec.rs2Index,
      ← setWidth_indexParam dec.rdIndex] at hfollows
    exact hfollows
  have hmulDiv : ∀ op, Follows hc param (templateBody (mulDivIndicator op)) c vm
      ((Operation.mulDiv op).interpret fun k =>
        (registerTranslator indicator dec).params.getD k 0) := by
    intro op
    have hfollows : Follows hc param _ c vm _ := follows_mulDiv hready op h0 h1 h2
    rw [← setWidth_indexParam dec.rs1Index, ← setWidth_indexParam dec.rs2Index,
      ← setWidth_indexParam dec.rdIndex] at hfollows
    exact hfollows
  simp only [registerIndicators, List.mem_cons, List.not_mem_nil, or_false] at hmem
  rcases hmem with rfl | rfl | rfl | rfl | rfl | rfl | rfl | rfl | rfl | rfl | rfl | rfl | rfl |
    rfl | rfl | rfl | rfl | rfl
  · exact hreg .add
  · exact hreg .sub
  · exact hreg (.shift .sll)
  · exact hreg .slt
  · exact hreg .sltu
  · exact hreg .xor
  · exact hreg (.shift .srl)
  · exact hreg (.shift .sra)
  · exact hreg .or
  · exact hreg .and
  · exact hmulDiv .mul
  · exact hmulDiv .mulh
  · exact hmulDiv .mulhsu
  · exact hmulDiv .mulhu
  · exact hmulDiv .div
  · exact hmulDiv .divu
  · exact hmulDiv .rem
  · exact hmulDiv .remu

theorem follows_immediate {indicator : Indicator} (hmem : indicator ∈ immediateIndicators)
    {imm : Word} {dec : Decoding}
    (hparams : ParamsOf param (immediateTranslator indicator imm dec)) :
    Follows hc param (templateBody indicator) c vm
      (interpret (immediateTranslator indicator imm dec)) := by
  have h0 := hparams 0 _ rfl
  have h1 := hparams 1 _ rfl
  have h2 := hparams 2 _ rfl
  have himm : ∀ op, Follows hc param (templateBody (immIndicator op)) c vm
      ((Operation.opImm op).interpret fun k =>
        (immediateTranslator indicator imm dec).params.getD k 0) := by
    intro op
    have hfollows : Follows hc param _ c vm _ := follows_opImm hready h1 h2 op
    rw [h0, ← setWidth_indexParam dec.rs1Index, ← setWidth_indexParam dec.rdIndex] at hfollows
    exact hfollows
  have hshift : ∀ op, Follows hc param (templateBody (shiftImmIndicator op)) c vm
      ((Operation.shiftImm op).interpret fun k =>
        (immediateTranslator indicator imm dec).params.getD k 0) := by
    intro op
    have hfollows : Follows hc param _ c vm _ := follows_shiftImm hready h1 h2 op
    rw [h0, ← setWidth_indexParam dec.rs1Index, ← setWidth_indexParam dec.rdIndex] at hfollows
    exact hfollows
  simp only [immediateIndicators, List.mem_cons, List.not_mem_nil, or_false] at hmem
  rcases hmem with rfl | rfl | rfl | rfl | rfl | rfl | rfl | rfl | rfl
  · exact himm .addi
  · exact himm .slti
  · exact himm .sltiu
  · exact himm .xori
  · exact himm .ori
  · exact himm .andi
  · exact hshift .sll
  · exact hshift .srl
  · exact hshift .sra

theorem follows_branch {indicator : Indicator} (hmem : indicator ∈ branchIndicators)
    {dec : Decoding} {address : Word}
    (hparams : ParamsOf param (branchTranslator indicator dec address)) :
    Follows hc param (templateBody indicator) c vm
      (interpret (branchTranslator indicator dec address)) := by
  have hbranch : ∀ op, Follows hc param (templateBody (branchIndicator op)) c vm
      ((Operation.branch op).interpret fun k =>
        (branchTranslator indicator dec address).params.getD k 0) := by
    intro op
    have hrun : RunsTo hc param _ c vm _ := runsTo_branchTemplate hready op (hparams 0 _ rfl) (hparams 1 _ rfl)
    rw [hparams 2 _ rfl, ← setWidth_indexParam dec.rs1Index,
      ← setWidth_indexParam dec.rs2Index] at hrun
    exact follows_of_runsTo hrun rfl
  simp only [branchIndicators, List.mem_cons, List.not_mem_nil, or_false] at hmem
  rcases hmem with rfl | rfl | rfl | rfl | rfl | rfl
  · exact hbranch .beq
  · exact hbranch .bne
  · exact hbranch .blt
  · exact hbranch .bge
  · exact hbranch .bltu
  · exact hbranch .bgeu

theorem follows_memoryLoad {indicator : Indicator} (hmem : indicator ∈ loadIndicators)
    {dec : Decoding} (hparams : ParamsOf param (loadTranslator indicator dec)) :
    Follows hc param (templateBody indicator) c vm
      (interpret (loadTranslator indicator dec)) := by
  have hload : ∀ l : LoadOp, Follows hc param (templateBody (loadIndicator l)) c vm
      ((Operation.load l).interpret fun k => (loadTranslator indicator dec).params.getD k 0) := by
    intro l
    have hfollows : Follows hc param _ c vm _ :=
      follows_load hready l (hparams 1 _ rfl) (hparams 2 _ rfl)
    rw [hparams 0 _ rfl, ← setWidth_indexParam dec.rs1Index,
      ← setWidth_indexParam dec.rdIndex] at hfollows
    exact hfollows
  simp only [loadIndicators, List.mem_cons, List.not_mem_nil, or_false] at hmem
  rcases hmem with rfl | rfl | rfl | rfl | rfl
  · exact hload .lb
  · exact hload .lh
  · exact hload .lw
  · exact hload .lbu
  · exact hload .lhu

theorem follows_memoryStore {indicator : Indicator} (hmem : indicator ∈ storeIndicators)
    {dec : Decoding} (hparams : ParamsOf param (storeTranslator indicator dec)) :
    Follows hc param (templateBody indicator) c vm
      (interpret (storeTranslator indicator dec)) := by
  have hstore : ∀ st : StoreOp, Follows hc param (templateBody (storeIndicator st)) c vm
      ((Operation.store st).interpret fun k =>
        (storeTranslator indicator dec).params.getD k 0) := by
    intro st
    have hfollows : Follows hc param _ c vm _ :=
      follows_store hready st (hparams 1 _ rfl) (hparams 2 _ rfl)
    rw [hparams 0 _ rfl, ← setWidth_indexParam dec.rs1Index,
      ← setWidth_indexParam dec.rs2Index] at hfollows
    exact hfollows
  simp only [storeIndicators, List.mem_cons, List.not_mem_nil, or_false] at hmem
  rcases hmem with rfl | rfl | rfl
  · exact hstore .sb
  · exact hstore .sh
  · exact hstore .sw

/-- The code behind the prologue does what the interpreter does. -/
theorem follows_translated {word address : Word} {e : Emitted}
    (htranslate : Vmm.translate word address = some e) (hparams : ParamsOf param e) :
    Follows hc param (templateBody e.indicator) c vm (interpret e) := by
  cases emission_translate htranslate with
  | lui =>
      have hrun : RunsTo hc param _ c vm _ := runsTo_lui hready (hparams 1 _ rfl)
      rw [hparams 0 _ rfl, ← setWidth_indexParam (instructionDecodingPerType word .U).rdIndex]
        at hrun
      exact follows_of_runsTo hrun rfl
  | auipc =>
      have hrun : RunsTo hc param _ c vm _ := runsTo_auipc hready (hparams 1 _ rfl)
      rw [hparams 0 _ rfl, hparams 2 _ rfl,
        ← setWidth_indexParam (instructionDecodingPerType word .U).rdIndex] at hrun
      exact follows_of_runsTo hrun rfl
  | jal =>
      have hrun : RunsTo hc param _ c vm _ := runsTo_jal hready (hparams 0 _ rfl)
      rw [hparams 1 _ rfl, hparams 2 _ rfl,
        ← setWidth_indexParam (instructionDecodingPerType word .UJ).rdIndex] at hrun
      exact follows_of_runsTo hrun rfl
  | jalr =>
      have hrun : RunsTo hc param _ c vm _ := runsTo_jalr hready (hparams 0 _ rfl) (hparams 2 _ rfl)
      rw [hparams 1 _ rfl, hparams 3 _ rfl,
        ← setWidth_indexParam (instructionDecodingPerType word .I).rdIndex,
        ← setWidth_indexParam (instructionDecodingPerType word .I).rs1Index] at hrun
      exact follows_of_runsTo hrun rfl
  | immediate mem imm dec => exact follows_immediate hready mem hparams
  | register mem dec => exact follows_register hready mem hparams
  | branch mem => exact follows_branch hready mem hparams
  | load mem dec => exact follows_memoryLoad hready mem hparams
  | store mem dec => exact follows_memoryStore hready mem hparams
  | amo dec =>
      have hfollows : Follows hc param _ c vm _ :=
        follows_amo hready (hparams 0 _ rfl) (hparams 1 _ rfl) (hparams 2 _ rfl)
      rw [hparams 3 _ rfl, ← setWidth_indexParam dec.rs1Index, ← setWidth_indexParam dec.rs2Index,
        ← setWidth_indexParam dec.rdIndex] at hfollows
      exact hfollows
  | system mem => exact follows_system hready mem _
  | csr =>
      have hfollows : Follows hc param _ c vm _ := follows_csr hready
      rw [hparams 0 _ rfl] at hfollows
      exact hfollows

omit hready in
theorem neverMonitor_template {indicator : Indicator} (h : indicator.fallsThrough = true) :
    neverMonitor (template indicator) = true := by
  cases indicator <;> first | decide | cases h

omit hready in
/-- A block that ends is left the way its kind is left. -/
theorem runBlock_ends (indicator : Indicator) :
    Wp (runBlock hc indicator param c) (fun r _ => r.1 = endOf indicator) (fun _ _ => True) vm := by
  unfold endOf
  cases hfalls : indicator.fallsThrough with
  | true => exact exec_fallThrough (neverMonitor_template hfalls) 0 c vm
  | false => exact FallThrough.runBlock_toMonitor hc hfalls param c vm

/--
A block that was translated from some word ends exactly as the interpreter does
on the instruction it stands for, and hands the context registers on.
-/
theorem runBlock_interprets {word address : Word} {e : Emitted}
    (htranslate : Vmm.translate word address = some e) (hparams : ParamsOf param e) :
    Wp (runBlock hc e.indicator param c)
      (fun r t => interpret e vm = .ok () t ∧ r.1 = endOf e.indicator ∧ Ready hc r.2)
      (fun a t => interpret e vm = .error a t) vm := by
  have hfollows : Wp (runBlock hc e.indicator param c) _ _ vm :=
    runBlock_wp hready fun c' hready' =>
      (follows_translated hready' htranslate hparams : Follows hc param _ c' vm (interpret e))
  have hends := wp_and (runBlock_ends e.indicator)
    (ZeroRegister.runBlock_ready hready e.indicator param vm)
  exact wp_mono (wp_and hfollows hends) (fun _ _ h => h) fun _ _ h => h.1

end Blocks

end Zelda.Proofs.Interpreter
