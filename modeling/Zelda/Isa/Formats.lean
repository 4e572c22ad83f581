import Zelda.Isa.Rv32i
import Zelda.Vmm.Decoding
/-!
# Instruction formats

The six formats of the instruction set with their operands: the fields of a
word and the signed immediate it stands for.
-/

namespace Zelda.Isa

open Zelda.Vmm

def sType (imm : BitVec 12) (rs2 rs1 : RegIndex) (funct3 : BitVec 3) (opcode : BitVec 7) : Word :=
  imm.extractLsb' 5 7 ++ rs2 ++ rs1 ++ funct3 ++ imm.extractLsb' 0 5 ++ opcode

/-- What a format encodes; a format ignores the operands it does not have. -/
structure Operands where
  opcode : BitVec 7
  rd : RegIndex
  rs1 : RegIndex
  rs2 : RegIndex
  funct3 : BitVec 3
  funct7 : BitVec 7
  imm : Int
  deriving DecidableEq, Repr

/-- The immediates of a format. -/
def Representable : EncodingType → Int → Prop
  | .U, imm => -2 ^ 31 ≤ imm ∧ imm < 2 ^ 31 ∧ 2 ^ 12 ∣ imm
  | .I, imm | .S, imm => -2 ^ 11 ≤ imm ∧ imm < 2 ^ 11
  | .B, imm => -2 ^ 12 ≤ imm ∧ imm < 2 ^ 12 ∧ 2 ∣ imm
  | .UJ, imm => -2 ^ 20 ≤ imm ∧ imm < 2 ^ 20 ∧ 2 ∣ imm
  | .R, imm => imm = 0

/-- The word of a format; branches and jumps leave out the zero bit of their offset. -/
def Operands.encode (o : Operands) : EncodingType → Word
  | .U => uType (BitVec.ofInt 20 (o.imm / 2 ^ 12)) o.rd o.opcode
  | .I => iType (BitVec.ofInt 12 o.imm) o.rs1 o.funct3 o.rd o.opcode
  | .S => sType (BitVec.ofInt 12 o.imm) o.rs2 o.rs1 o.funct3 o.opcode
  | .B => bType (BitVec.ofInt 12 (o.imm / 2)) o.rs2 o.rs1 o.funct3 o.opcode
  | .UJ => jType (BitVec.ofInt 20 (o.imm / 2)) o.rd o.opcode
  | .R => rType o.funct7 o.rs2 o.rs1 o.funct3 o.rd o.opcode

/-- `sw x2, -4(x1)`. -/
example : ({ opcode := 0x23, rd := 0, rs1 := 1, rs2 := 2, funct3 := 2, funct7 := 0, imm := -4 } :
    Operands).encode .S = 0xfe20ae23 := by
  decide

end Zelda.Isa
