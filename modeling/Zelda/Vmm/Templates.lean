import Zelda.Lib.X86
import Zelda.Vmm.Hart
/-!
# Code templates

The host code each translator copies into the translation cache, instruction
by instruction.  The parameter words follow the code in the order of the
translator's parameter schema.
-/

namespace Zelda.Vmm

open Zelda.Lib.X86

/-- The vmm functions that translated code calls. -/
inductive VmmFn
  | enterVmmDbgShell
  | mmuRead8 | mmuRead16 | mmuRead32
  | mmuWrite8 | mmuWrite16 | mmuWrite32
  | amoInstructionSlowpath
  | flushTranslationCache
  | ebreakCallback
  | mretCallback
  | sretCallback
  | sfenceVmaCallback
  | ecallCallback
  | wfiCallback
  | riscvGenericCsrCallback
  deriving DecidableEq, Repr

abbrev Code := List (Insn VmmFn)

/-! ## Shared pieces -/

/-- `SAVE_GUEST_CONTEXT_SWITCH_REGS()`. -/
def saveGuestContextSwitchRegs : Code :=
  [.pushq .r15, .pushq .r14, .pushq .r13, .pushq .r12]

/-- `RESTORE_GUEST_CONTEXT_SWITCH_REGS()`. -/
def restoreGuestContextSwitchRegs : Code :=
  [.popq .r12, .popq .r13, .popq .r14, .popq .r15]

/-- `movq $f, %rax`, then the call with the context registers on the stack. -/
def callVmm (f : VmmFn) : Code :=
  saveGuestContextSwitchRegs ++ [.call f] ++ restoreGuestContextSwitchRegs

/-- `BEGIN_TRANSLATION(indicator)` with the native debugger compiled in. -/
def beginTranslation : Code :=
  [.movq .r12 .rdi, .movqImm 1 .rsi] ++ callVmm .enterVmmDbgShell

/-- Address of the guest register whose index is parameter `k`. -/
def guestRegAddress (k : Nat) (r : Reg) : Code :=
  [.movl (.param k) r, .shiftImm .shl 2 r, .addq .r15 r]

/-- Load the guest register whose index is parameter `k`, through `%rdx`. -/
def loadGuestReg (k : Nat) (dst : Reg) : Code :=
  guestRegAddress k .rdx ++ [.movlLoad .rdx dst]

/-- `RESET_ZERO_REGISTER()`. -/
def resetZeroRegister : Code :=
  [.movlStore (.imm 0) .r15]

/-- `PROCEED_TO_NEXT_INSTRUCTION()`. -/
def proceedToNextInstruction : Code :=
  [.addlStore 4 .r14]

/-- `END_INSTRUCTION(indicator)`. -/
def endInstruction : Code :=
  [.jmpEnd]

/-- `TRAP_TO_VMM(indicator)`. -/
def trapToVmm : Code :=
  [.jmpMonitor]

/-- Store `src` in the guest register of parameter `k` and fall through to the next block. -/
def retire (k : Nat) (src : Reg) : Code :=
  guestRegAddress k .rdx ++ [.movlStore (.reg src) .rdx] ++ resetZeroRegister ++
    proceedToNextInstruction ++ endInstruction

/-! ## Template families -/

/-- `add`, `and`, `or`, `xor`: `rs1` in `%esi`, `rs2` in `%eax`. -/
def commutativeOp (op : Alu) : Code :=
  loadGuestReg 0 .rsi ++ loadGuestReg 1 .rax ++ [.alu op (.reg .rsi) .rax] ++ retire 2 .rax

/-- `slt`, `sltu`. -/
def compareOp (cond : Cond) : Code :=
  [.alu .xor (.reg .rcx) .rcx] ++ loadGuestReg 0 .rsi ++ loadGuestReg 1 .rdi ++
    [.cmpl (.reg .rdi) .rsi, .setcc cond .rcx, .extend .movzbl .rcx] ++ retire 2 .rcx

/-- `sll`, `srl`, `sra`. -/
def shiftOp (op : Shift) : Code :=
  loadGuestReg 0 .rax ++ loadGuestReg 1 .rcx ++
    [.alu .and (.imm 0x1f) .rcx, .shiftCl op .rax] ++ retire 2 .rax

/-- `slti`, `sltiu`. -/
def compareImmediateOp (cond : Cond) : Code :=
  [.alu .xor (.reg .rcx) .rcx] ++ loadGuestReg 1 .rax ++
    [.cmpl (.param 0) .rax, .setcc cond .rcx, .extend .movzbl .rcx] ++ retire 2 .rcx

/-- `xori`, `ori`, `andi`. -/
def logicalImmediateOp (op : Alu) : Code :=
  [.alu .xor (.reg .rcx) .rcx] ++ loadGuestReg 1 .rax ++
    [.movl (.param 0) .rdx, .alu op (.reg .rdx) .rax] ++ retire 2 .rax

/-- `slli`, `srli`, `srai`. -/
def shiftImmediateOp (op : Shift) : Code :=
  [.alu .xor (.reg .rcx) .rcx] ++ loadGuestReg 1 .rax ++
    [.movl (.param 0) .rcx, .alu .and (.imm 0x1f) .rcx, .shiftCl op .rax] ++ retire 2 .rax

/-- The first half of every branch: operands in `%esi`, `%edi`, next pc in `%edx`. -/
def branchOperands : Code :=
  loadGuestReg 0 .rsi ++ loadGuestReg 1 .rdi ++
    [.movlLoad .r14 .rdx, .alu .add (.imm 4) .rdx]

/-- A branch compares and jumps over the taken target when `skipWhen` holds. -/
def branchOp (compare : Insn VmmFn) (skipWhen : Cond) : Code :=
  branchOperands ++
    [compare, .jcc skipWhen 1, .movl (.param 2) .rdx, .movlStore (.reg .rdx) .r14] ++ trapToVmm

/-- `rs1 + offset` in `%esi`. -/
def memoryLocation : Code :=
  loadGuestReg 1 .rsi ++ [.movl (.param 0) .rdx, .alu .add (.reg .rdx) .rsi]

/-- A load: call the reader, widen `%eax`, write `rd`. -/
def loadOp (reader : VmmFn) (widen : Code) : Code :=
  memoryLocation ++ [.movq .r12 .rdi] ++ callVmm reader ++ guestRegAddress 2 .rdx ++ widen ++
    [.movlStore (.reg .rax) .rdx] ++ resetZeroRegister ++ proceedToNextInstruction ++
    endInstruction

/-- A store: `rs2` narrowed in `%edx`, then call the writer. -/
def storeOp (writer : VmmFn) (narrow : Code) : Code :=
  memoryLocation ++ loadGuestReg 2 .rdx ++ narrow ++ [.movq .r12 .rdi] ++ callVmm writer ++
    proceedToNextInstruction ++ endInstruction

/-- Operand loads of the multiply and divide templates go through `%rsi`. -/
def loadOperand (k : Nat) (dst : Reg) : Code :=
  guestRegAddress k .rsi ++ [.movlLoad .rsi dst]

/-- Result stores of the multiply and divide templates go through `%rdi`. -/
def retireResult (src : Reg) : Code :=
  guestRegAddress 2 .rdi ++ [.movlStore (.reg src) .rdi] ++ resetZeroRegister ++
    proceedToNextInstruction ++ endInstruction

/-- `mul`, `mulh`, `mulhu`. -/
def multiplyOp (multiply : Insn VmmFn) (result : Reg) : Code :=
  loadOperand 0 .rdx ++ loadOperand 1 .rax ++ [multiply] ++ retireResult result

/-- `rs1` in `%edx:%eax`, extended by sign or by zero. -/
def signedDividend : Code :=
  loadOperand 0 .rax ++ [.movsxd .rax .rdx, .shrq 32 .rdx]

def unsignedDividend : Code :=
  loadOperand 0 .rax ++ [.alu .xor (.reg .rdx) .rdx]

/-- `div`, `divu`: a zero divisor gives all ones without dividing. -/
def divideOp (dividend : Code) (divide : Insn VmmFn) : Code :=
  dividend ++ loadOperand 1 .rbx ++
    [.movl (.reg .rbx) .r8, .cmpl (.imm 0) .r8, .jcc .ne 2, .movl (.imm 0xffffffff) .rax,
      .jmp 1, divide] ++ retireResult .rax

/-- `rem`, `remu`: the divisor is used as it is. -/
def remainderOp (dividend : Code) (divide : Insn VmmFn) : Code :=
  dividend ++ loadOperand 1 .rbx ++ [divide] ++ retireResult .rdx

/-- A privileged instruction that is one call on the hart. -/
def callOnHart (f : VmmFn) : Code :=
  [.movq .r12 .rdi] ++ callVmm f

/-! ## The templates -/

/-- The code between `BEGIN_TRANSLATION` and the parameter schema. -/
def templateBody : Indicator → Code
  | .lui =>
      [.movl (.param 0) .rax, .movl (.param 1) .rdx, .shiftImm .shl 12 .rax,
        .shiftImm .shl 2 .rdx, .addq .r15 .rdx, .movlStore (.reg .rax) .rdx] ++
        resetZeroRegister ++ proceedToNextInstruction ++ endInstruction
  | .auipc =>
      guestRegAddress 1 .rdx ++
        [.movl (.param 0) .rax, .shiftImm .shl 12 .rax, .movl (.param 2) .rcx,
          .alu .add (.reg .rcx) .rax, .movlStore (.reg .rax) .rdx] ++
        resetZeroRegister ++ proceedToNextInstruction ++ endInstruction
  | .jal =>
      guestRegAddress 0 .rdx ++
        [.movl (.param 1) .rax, .movlStore (.reg .rax) .rdx, .movl (.param 2) .rax,
          .movlStore (.reg .rax) .r14] ++ resetZeroRegister ++ trapToVmm
  | .jalr =>
      loadGuestReg 2 .rbx ++
        [.movl (.param 3) .rax, .alu .add (.reg .rax) .rbx, .btr 0 .rbx] ++
        guestRegAddress 0 .rdx ++
        [.movl (.param 1) .rax, .movlStore (.reg .rax) .rdx, .movlStore (.reg .rbx) .r14] ++
        resetZeroRegister ++ trapToVmm
  | .addi =>
      loadGuestReg 1 .rax ++ [.movl (.param 0) .rdx, .alu .add (.reg .rdx) .rax] ++ retire 2 .rax
  | .slti => compareImmediateOp .l
  | .sltiu => compareImmediateOp .b
  | .xori => logicalImmediateOp .xor
  | .ori => logicalImmediateOp .or
  | .andi => logicalImmediateOp .and
  | .slli => shiftImmediateOp .shl
  | .srli => shiftImmediateOp .shr
  | .srai => shiftImmediateOp .sar
  | .add => commutativeOp .add
  | .sub =>
      loadGuestReg 0 .rax ++ loadGuestReg 1 .rsi ++ [.alu .sub (.reg .rsi) .rax] ++ retire 2 .rax
  | .sll => shiftOp .shl
  | .slt => compareOp .l
  | .sltu => compareOp .b
  | .xor => commutativeOp .xor
  | .srl => shiftOp .shr
  | .sra => shiftOp .sar
  | .or => commutativeOp .or
  | .and => commutativeOp .and
  | .mul => multiplyOp (.imull .rdx) .rax
  | .mulh => multiplyOp (.imull .rdx) .rdx
  | .mulhu => multiplyOp (.mull .rdx) .rdx
  | .mulhsu =>
      loadOperand 0 .rax ++ [.movsxd .rax .rax] ++ loadOperand 1 .rdx ++
        [.imulq .rdx, .shrq 32 .rax] ++ retireResult .rax
  | .div => divideOp signedDividend (.idivl .rbx)
  | .divu => divideOp unsignedDividend (.divl .rbx)
  | .rem => remainderOp signedDividend (.idivl .rbx)
  | .remu => remainderOp unsignedDividend (.divl .rbx)
  | .beq => branchOp (.cmpl (.reg .rsi) .rdi) .ne
  | .bne => branchOp (.cmpl (.reg .rsi) .rdi) .e
  | .blt => branchOp (.cmpl (.reg .rdi) .rsi) .ge
  | .bge => branchOp (.cmpl (.reg .rdi) .rsi) .l
  | .bltu => branchOp (.cmpl (.reg .rdi) .rsi) .ae
  | .bgeu => branchOp (.cmpl (.reg .rdi) .rsi) .b
  | .lb => loadOp .mmuRead8 [.extend .movsbl .rax]
  | .lh => loadOp .mmuRead16 [.extend .movswl .rax]
  | .lw => loadOp .mmuRead32 []
  | .lbu => loadOp .mmuRead8 [.extend .movzbl .rax]
  | .lhu => loadOp .mmuRead16 [.extend .movzwl .rax]
  | .sb => storeOp .mmuWrite8 [.alu .and (.imm 0xff) .rdx]
  | .sh => storeOp .mmuWrite16 [.alu .and (.imm 0xffff) .rdx]
  | .sw => storeOp .mmuWrite32 []
  | .amo =>
      [.movq .r12 .rdi, .movl (.param 0) .rsi, .movl (.param 1) .rdx, .movl (.param 2) .rcx,
        .movl (.param 3) .r8] ++ callVmm .amoInstructionSlowpath ++ resetZeroRegister ++
        proceedToNextInstruction ++ endInstruction
  | .fence => proceedToNextInstruction ++ endInstruction
  | .fenceI => callOnHart .flushTranslationCache ++ proceedToNextInstruction ++ trapToVmm
  | .ebreak => callOnHart .ebreakCallback ++ proceedToNextInstruction ++ endInstruction
  | .ecall => callOnHart .ecallCallback ++ proceedToNextInstruction ++ trapToVmm
  | .mret => callOnHart .mretCallback ++ trapToVmm
  | .sret => callOnHart .sretCallback ++ trapToVmm
  | .sfenceVma => callOnHart .sfenceVmaCallback ++ proceedToNextInstruction ++ trapToVmm
  | .wfi => callOnHart .wfiCallback ++ proceedToNextInstruction ++ trapToVmm
  | .genericCsr =>
      [.movq .r12 .rdi, .movl (.param 0) .rsi] ++ callVmm .riscvGenericCsrCallback ++
        resetZeroRegister ++ proceedToNextInstruction ++ trapToVmm

/-- The whole block, without its parameter words. -/
def template (indicator : Indicator) : Code :=
  beginTranslation ++ templateBody indicator

/-- The number of `PARAM32()` words in the template's schema. -/
def Indicator.nrParams : Indicator → Nat
  | .lui => 2
  | .jalr | .amo => 4
  | .fence | .fenceI | .ebreak | .ecall | .mret | .sret | .sfenceVma | .wfi | .genericCsr => 1
  | _ => 3

/-- Whether the template ends with `END_INSTRUCTION` rather than `TRAP_TO_VMM`. -/
def Indicator.fallsThrough : Indicator → Bool
  | .jal | .jalr | .beq | .bne | .blt | .bge | .bltu | .bgeu | .fenceI | .ecall | .mret | .sret
  | .sfenceVma | .wfi | .genericCsr => false
  | _ => true

end Zelda.Vmm
