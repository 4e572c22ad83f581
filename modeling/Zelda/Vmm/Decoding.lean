import Zelda.Vmm.Hart
/-!
# Instruction decoding
-/

namespace Zelda.Vmm

/-- `enum RISCV_OPCODE`. -/
def RISCV_OPCODE_LUI : BitVec 7 := 0x37
def RISCV_OPCODE_AUIPC : BitVec 7 := 0x17
def RISCV_OPCODE_JAL : BitVec 7 := 0x6f
def RISCV_OPCODE_JARL : BitVec 7 := 0x67
def RISCV_OPCODE_BRANCH : BitVec 7 := 0x63
def RISCV_OPCODE_LOAD : BitVec 7 := 0x03
def RISCV_OPCODE_STORE : BitVec 7 := 0x23
def RISCV_OPCODE_OP_IMM : BitVec 7 := 0x13
def RISCV_OPCODE_OP : BitVec 7 := 0x33
def RISCV_OPCODE_FENCE : BitVec 7 := 0x0f
def RISCV_OPCODE_SUPERVISOR_LEVEL : BitVec 7 := 0x73
def RISCV_OPCODE_AMO : BitVec 7 := 0x2f

/-- `enum INSTRUCTION_ENCODING_TYPE`. -/
inductive EncodingType
  | U | UJ | I | S | B | R
  deriving DecidableEq, Repr

/-- `struct decoding`; fields an encoding does not have stay zero. -/
structure Decoding where
  funct3 : BitVec 3 := 0
  rdIndex : RegIndex := 0
  rs1Index : RegIndex := 0
  rs2Index : RegIndex := 0
  funct7 : BitVec 7 := 0
  imm : Word := 0
  deriving DecidableEq, Repr

/-- `intrs & 0x7f`. -/
def opcodeOf (instruction : Word) : BitVec 7 :=
  instruction.setWidth 7

/-- `instruction_decoding_per_type`. -/
def instructionDecodingPerType (intrs : Word) : EncodingType → Decoding
  | .U =>
      { rdIndex := (intrs >>> 7).setWidth 5
        imm := (intrs >>> 12) &&& 0xfffff }
  | .UJ =>
      { rdIndex := (intrs >>> 7).setWidth 5
        imm :=
          ((intrs >>> 21) &&& 0x3ff) |||
            (((intrs >>> 20) &&& 0x1) <<< 10) |||
            (((intrs >>> 12) &&& 0xff) <<< 11) |||
            (((intrs >>> 31) &&& 0x1) <<< 19) }
  | .I =>
      { rdIndex := (intrs >>> 7).setWidth 5
        funct3 := (intrs >>> 12).setWidth 3
        rs1Index := (intrs >>> 15).setWidth 5
        imm := (intrs >>> 20) &&& 0xfff }
  | .S =>
      { funct3 := (intrs >>> 12).setWidth 3
        rs1Index := (intrs >>> 15).setWidth 5
        rs2Index := (intrs >>> 20).setWidth 5
        imm := ((intrs >>> 7) &&& 0x1f) ||| (((intrs >>> 25) &&& 0x7f) <<< 5) }
  | .B =>
      { funct3 := (intrs >>> 12).setWidth 3
        rs1Index := (intrs >>> 15).setWidth 5
        rs2Index := (intrs >>> 20).setWidth 5
        imm :=
          ((intrs >>> 8) &&& 0xf) |||
            (((intrs >>> 25) &&& 0x3f) <<< 4) |||
            (((intrs >>> 7) &&& 0x1) <<< 10) |||
            (((intrs >>> 31) &&& 0x1) <<< 11) }
  | .R =>
      { funct3 := (intrs >>> 12).setWidth 3
        rdIndex := (intrs >>> 7).setWidth 5
        rs1Index := (intrs >>> 15).setWidth 5
        rs2Index := (intrs >>> 20).setWidth 5
        funct7 := (intrs >>> 25).setWidth 7 }

/-- The loop of `sign_extend32` from `bit` to 31: copy the sign into `n` more positions. -/
def signExtendLoop (sign : Word) (ret : Word) (bit : Nat) : Nat → Word
  | 0 => ret
  | n + 1 => signExtendLoop sign (ret ||| (sign <<< bit)) (bit + 1) n

/-- `sign_extend32`. -/
def signExtend32 (data : Word) (signBit : Nat) : Word :=
  signExtendLoop ((data >>> signBit) &&& 1) data signBit (32 - signBit)

end Zelda.Vmm
