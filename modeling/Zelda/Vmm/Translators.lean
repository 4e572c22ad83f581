import Zelda.Vmm.Decoding
/-!
# The translators

Which template an instruction word gets, with which parameter words, and
whether the translation unit ends there.  An instruction no translator accepts
trips an assertion, here `none`.
-/

namespace Zelda.Vmm

/-- What a translator asks the cache to hold. -/
structure Emitted where
  indicator : Indicator
  params : List Word
  /-- `is_to_stop`; otherwise the next instruction to fetch is four bytes on. -/
  stop : Bool
  deriving DecidableEq, Repr

/-- A translator that ends with `next_instruction_to_fetch += 4`. -/
def emitNext (indicator : Indicator) (params : List Word) : Emitted :=
  { indicator := indicator, params := params, stop := false }

/-- A translator that ends with `is_to_stop = 1`. -/
def emitStop (indicator : Indicator) (params : List Word) : Emitted :=
  { indicator := indicator, params := params, stop := true }

/-- A register index as a parameter word. -/
def indexParam (index : RegIndex) : Word :=
  index.setWidth 32

/-! ## Upper immediates and jumps -/

def riscvLuiTranslator (instruction _pc : Word) : Emitted :=
  let dec := instructionDecodingPerType instruction .U
  emitNext .lui [dec.imm, indexParam dec.rdIndex]

def riscvAuipcTranslator (instruction pc : Word) : Emitted :=
  let dec := instructionDecodingPerType instruction .U
  emitNext .auipc [dec.imm, indexParam dec.rdIndex, pc]

def riscvJalTranslator (instruction pc : Word) : Emitted :=
  let dec := instructionDecodingPerType instruction .UJ
  emitStop .jal [indexParam dec.rdIndex, pc + 4, pc + signExtend32 (dec.imm <<< 1) 20]

def riscvJalrTranslator (instruction pc : Word) : Emitted :=
  let dec := instructionDecodingPerType instruction .I
  emitStop .jalr
    [indexParam dec.rdIndex, pc + 4, indexParam dec.rs1Index, signExtend32 dec.imm 11]

/-! ## Arithmetic -/

/-- The register-immediate translators, with the immediate as the template wants it. -/
def immediateTranslator (indicator : Indicator) (imm : Word) (dec : Decoding) : Emitted :=
  emitNext indicator [imm, indexParam dec.rs1Index, indexParam dec.rdIndex]

def riscvArithmeticImmediateInstructionsTranslationEntry (instruction : Word) :
    Option Emitted :=
  let dec := instructionDecodingPerType instruction .I
  let signed := signExtend32 dec.imm 11
  match dec.funct3 with
  | 0x0 => some (immediateTranslator .addi signed dec)
  | 0x1 => some (immediateTranslator .slli dec.imm dec)
  | 0x2 => some (immediateTranslator .slti signed dec)
  | 0x3 => some (immediateTranslator .sltiu signed dec)
  | 0x4 => some (immediateTranslator .xori signed dec)
  | 0x5 =>
      if dec.imm &&& 0x400 = 0 then some (immediateTranslator .srli dec.imm dec)
      else some (immediateTranslator .srai dec.imm dec)
  | 0x6 => some (immediateTranslator .ori signed dec)
  | 0x7 => some (immediateTranslator .andi signed dec)

/-- The register-register translators. -/
def registerTranslator (indicator : Indicator) (dec : Decoding) : Emitted :=
  emitNext indicator
    [indexParam dec.rs1Index, indexParam dec.rs2Index, indexParam dec.rdIndex]

/-- `funct7` selects between two translators; any third value fails an assertion. -/
def funct7Translator (zero twenty : Indicator) (dec : Decoding) : Option Emitted :=
  if dec.funct7 = 0x20 then some (registerTranslator twenty dec)
  else if dec.funct7 = 0 then some (registerTranslator zero dec)
  else none

def riscvArithmeticInstructionsClass0TranslationEntry (dec : Decoding) : Option Emitted :=
  match dec.funct3 with
  | 0x0 => funct7Translator .add .sub dec
  | 0x1 => some (registerTranslator .sll dec)
  | 0x2 => some (registerTranslator .slt dec)
  | 0x3 => some (registerTranslator .sltu dec)
  | 0x4 => some (registerTranslator .xor dec)
  | 0x5 => funct7Translator .srl .sra dec
  | 0x6 => some (registerTranslator .or dec)
  | 0x7 => some (registerTranslator .and dec)

def riscvMulDivInstructionsTranslationEntry (dec : Decoding) : Emitted :=
  match dec.funct3 with
  | 0x0 => registerTranslator .mul dec
  | 0x1 => registerTranslator .mulh dec
  | 0x2 => registerTranslator .mulhsu dec
  | 0x3 => registerTranslator .mulhu dec
  | 0x4 => registerTranslator .div dec
  | 0x5 => registerTranslator .divu dec
  | 0x6 => registerTranslator .rem dec
  | 0x7 => registerTranslator .remu dec

def riscvArithmeticInstructionsTranslationEntry (instruction : Word) : Option Emitted :=
  let dec := instructionDecodingPerType instruction .R
  if dec.funct7 &&& 0x3 = 0 then riscvArithmeticInstructionsClass0TranslationEntry dec
  else if dec.funct7 &&& 0x3 = 0x1 then some (riscvMulDivInstructionsTranslationEntry dec)
  else none

/-! ## Branches -/

def branchTranslator (indicator : Indicator) (dec : Decoding) (pc : Word) : Emitted :=
  emitStop indicator
    [indexParam dec.rs1Index, indexParam dec.rs2Index, pc + signExtend32 (dec.imm <<< 1) 12]

def riscvBranchInstructionsTranslationEntry (instruction pc : Word) : Option Emitted :=
  let dec := instructionDecodingPerType instruction .B
  match dec.funct3 with
  | 0x0 => some (branchTranslator .beq dec pc)
  | 0x1 => some (branchTranslator .bne dec pc)
  | 0x4 => some (branchTranslator .blt dec pc)
  | 0x5 => some (branchTranslator .bge dec pc)
  | 0x6 => some (branchTranslator .bltu dec pc)
  | 0x7 => some (branchTranslator .bgeu dec pc)
  | _ => none

/-! ## Memory -/

def loadTranslator (indicator : Indicator) (dec : Decoding) : Emitted :=
  emitNext indicator
    [signExtend32 dec.imm 11, indexParam dec.rs1Index, indexParam dec.rdIndex]

def riscvMemoryLoadInstructionsTranslationEntry (instruction : Word) : Option Emitted :=
  let dec := instructionDecodingPerType instruction .I
  match dec.funct3 with
  | 0x0 => some (loadTranslator .lb dec)
  | 0x1 => some (loadTranslator .lh dec)
  | 0x2 => some (loadTranslator .lw dec)
  | 0x4 => some (loadTranslator .lbu dec)
  | 0x5 => some (loadTranslator .lhu dec)
  | _ => none

def storeTranslator (indicator : Indicator) (dec : Decoding) : Emitted :=
  emitNext indicator
    [signExtend32 dec.imm 11, indexParam dec.rs1Index, indexParam dec.rs2Index]

def riscvMemoryStoreInstructionsTranslationEntry (instruction : Word) : Option Emitted :=
  let dec := instructionDecodingPerType instruction .S
  match dec.funct3 with
  | 0x0 => some (storeTranslator .sb dec)
  | 0x1 => some (storeTranslator .sh dec)
  | 0x2 => some (storeTranslator .sw dec)
  | _ => none

def riscvAmoTranslator (dec : Decoding) : Emitted :=
  emitNext .amo
    [indexParam dec.rs1Index, indexParam dec.rs2Index, indexParam dec.rdIndex,
      dec.funct7.setWidth 32 >>> 2]

/-- The `funct5` values `per_funct5_handlers` knows. -/
def amoFunct5s : List (BitVec 7) :=
  [0x0, 0x1, 0x2, 0x3, 0x4, 0x8, 0xc]

def riscvAmoInstructionsTranslationEntry (instruction : Word) : Option Emitted :=
  let dec := instructionDecodingPerType instruction .R
  if dec.funct7 >>> 2 ∈ amoFunct5s then some (riscvAmoTranslator dec) else none

/-! ## Fences and privileged instructions -/

def riscvFenceInstructionsTranslationEntry (instruction pc : Word) : Option Emitted :=
  let dec := instructionDecodingPerType instruction .S
  match dec.funct3 with
  | 0x0 => some (emitNext .fence [pc])
  | 0x1 => some (emitStop .fenceI [pc])
  | _ => none

def riscvFunct3000Translator (dec : Decoding) (pc : Word) : Option Emitted :=
  if (dec.imm >>> 5) &&& 0x7f = 0x9 then some (emitStop .sfenceVma [pc])
  else if dec.rs2Index = 0x5 then
    if dec.imm >>> 5 = 0x8 then some (emitStop .wfi [pc]) else none
  else if dec.rs2Index = 0x1 then some (emitNext .ebreak [pc])
  else if dec.rs2Index = 0x2 then
    if dec.imm >>> 5 = 0x18 then some (emitStop .mret [pc])
    else if dec.imm >>> 5 = 0x8 then some (emitStop .sret [pc])
    else none
  else if dec.rs2Index = 0x0 then some (emitStop .ecall [pc])
  else none

def riscvGenericCsrInstructionsTranslator (instruction : Word) : Emitted :=
  emitStop .genericCsr [instruction]

/-- Only `funct3 = 0` is decoded as S-type. -/
def riscvSupervisorLevelInstructionsTranslationEntry (instruction pc : Word) :
    Option Emitted :=
  let funct3 : BitVec 3 := (instruction >>> 12).setWidth 3
  if funct3 = 0 then riscvFunct3000Translator (instructionDecodingPerType instruction .S) pc
  else if funct3 = 4 then none
  else some (riscvGenericCsrInstructionsTranslator instruction)

/-! ## Dispatch -/

/-- The `translators` table of `translation_init`. -/
def translate (instruction pc : Word) : Option Emitted :=
  let opcode := opcodeOf instruction
  if opcode = RISCV_OPCODE_LUI then some (riscvLuiTranslator instruction pc)
  else if opcode = RISCV_OPCODE_AUIPC then some (riscvAuipcTranslator instruction pc)
  else if opcode = RISCV_OPCODE_JAL then some (riscvJalTranslator instruction pc)
  else if opcode = RISCV_OPCODE_JARL then some (riscvJalrTranslator instruction pc)
  else if opcode = RISCV_OPCODE_OP_IMM then
    riscvArithmeticImmediateInstructionsTranslationEntry instruction
  else if opcode = RISCV_OPCODE_STORE then
    riscvMemoryStoreInstructionsTranslationEntry instruction
  else if opcode = RISCV_OPCODE_LOAD then
    riscvMemoryLoadInstructionsTranslationEntry instruction
  else if opcode = RISCV_OPCODE_BRANCH then
    riscvBranchInstructionsTranslationEntry instruction pc
  else if opcode = RISCV_OPCODE_OP then
    riscvArithmeticInstructionsTranslationEntry instruction
  else if opcode = RISCV_OPCODE_FENCE then
    riscvFenceInstructionsTranslationEntry instruction pc
  else if opcode = RISCV_OPCODE_SUPERVISOR_LEVEL then
    riscvSupervisorLevelInstructionsTranslationEntry instruction pc
  else if opcode = RISCV_OPCODE_AMO then
    riscvAmoInstructionsTranslationEntry instruction
  else none

end Zelda.Vmm
