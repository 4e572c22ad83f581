import Zelda.Isa.Rv32a
import Zelda.Isa.Rv32m
/-!
# Instruction encodings

Which words encode which instruction of RV32IMA, Zifencei, Zicsr and the
privileged instructions: the fields each encoding fixes, as the manuals list
them.
-/

namespace Zelda.Isa

open Zelda.Vmm

inductive LoadOp
  | lb | lh | lw | lbu | lhu
  deriving DecidableEq, Repr

inductive StoreOp
  | sb | sh | sw
  deriving DecidableEq, Repr

/-- The privileged instructions without operands. -/
inductive SystemOp
  | ecall | ebreak | sret | mret | wfi
  deriving DecidableEq, Repr

inductive CsrOp
  | csrrw | csrrs | csrrc | csrrwi | csrrsi | csrrci
  deriving DecidableEq, Repr

inductive Mnemonic
  | lui | auipc | jal | jalr
  | branch (op : BranchOp)
  | load (op : LoadOp)
  | store (op : StoreOp)
  | opImm (op : ImmOp)
  | shiftImm (op : ShiftOp)
  | opReg (op : RegOp)
  | mulDiv (op : MulDivOp)
  | fence | fenceI
  | amo (op : AmoOp)
  | system (op : SystemOp)
  | sfenceVma
  | csr (op : CsrOp)
  deriving DecidableEq, Repr

def LoadOp.funct3 : LoadOp → BitVec 3
  | .lb => 0
  | .lh => 1
  | .lw => 2
  | .lbu => 4
  | .lhu => 5

def StoreOp.funct3 : StoreOp → BitVec 3
  | .sb => 0
  | .sh => 1
  | .sw => 2

/-- `funct7` of a privileged instruction. -/
def SystemOp.funct7 : SystemOp → BitVec 7
  | .ecall | .ebreak => 0x00
  | .sret | .wfi => 0x08
  | .mret => 0x18

/-- The `rs2` field of a privileged instruction. -/
def SystemOp.rs2 : SystemOp → RegIndex
  | .ecall => 0
  | .ebreak => 1
  | .sret | .mret => 2
  | .wfi => 5

def CsrOp.funct3 : CsrOp → BitVec 3
  | .csrrw => 1
  | .csrrs => 2
  | .csrrc => 3
  | .csrrwi => 5
  | .csrrsi => 6
  | .csrrci => 7

/-! ## Fields -/

/-- An instruction word, taken apart as an R-type. -/
structure Fields where
  opcode : BitVec 7
  rd : RegIndex
  funct3 : BitVec 3
  rs1 : RegIndex
  rs2 : RegIndex
  funct7 : BitVec 7
  deriving DecidableEq, Repr

def fieldsOf (word : Word) : Fields where
  opcode := word.setWidth 7
  rd := (word >>> 7).setWidth 5
  funct3 := (word >>> 12).setWidth 3
  rs1 := (word >>> 15).setWidth 5
  rs2 := (word >>> 20).setWidth 5
  funct7 := (word >>> 25).setWidth 7

/-- Bits 31 to 27. -/
def Fields.funct5 (f : Fields) : BitVec 5 :=
  (f.funct7 >>> 2).setWidth 5

/-- The words with these fields encode the instruction. -/
def Mnemonic.Encodes (f : Fields) : Mnemonic → Prop
  | .lui => f.opcode = 0b0110111
  | .auipc => f.opcode = 0b0010111
  | .jal => f.opcode = 0b1101111
  | .jalr => f.opcode = 0b1100111 ∧ f.funct3 = 0
  | .branch op => f.opcode = 0b1100011 ∧ f.funct3 = op.funct3
  | .load op => f.opcode = 0b0000011 ∧ f.funct3 = op.funct3
  | .store op => f.opcode = 0b0100011 ∧ f.funct3 = op.funct3
  | .opImm op => f.opcode = 0b0010011 ∧ f.funct3 = op.funct3
  | .shiftImm op => f.opcode = 0b0010011 ∧ f.funct3 = op.funct3 ∧ f.funct7 = op.funct7
  | .opReg op => f.opcode = 0b0110011 ∧ f.funct3 = op.funct3 ∧ f.funct7 = op.funct7
  | .mulDiv op => f.opcode = 0b0110011 ∧ f.funct3 = op.funct3 ∧ f.funct7 = 1
  | .fence => f.opcode = 0b0001111 ∧ f.funct3 = 0
  | .fenceI => f.opcode = 0b0001111 ∧ f.funct3 = 1
  | .amo op =>
      f.opcode = 0b0101111 ∧ f.funct3 = 2 ∧ f.funct5 = op.funct5 ∧ (op = .lr → f.rs2 = 0)
  | .system op =>
      f.opcode = 0b1110011 ∧ f.funct3 = 0 ∧ f.funct7 = op.funct7 ∧ f.rs2 = op.rs2 ∧ f.rs1 = 0 ∧
        f.rd = 0
  | .sfenceVma => f.opcode = 0b1110011 ∧ f.funct3 = 0 ∧ f.funct7 = 0x09 ∧ f.rd = 0
  | .csr op => f.opcode = 0b1110011 ∧ f.funct3 = op.funct3

/-- `wfi` is `0x10500073`, and `lr.w x2, (x1)` is `0x1000a12f`. -/
example : (Mnemonic.system .wfi).Encodes (fieldsOf 0x10500073) := by
  simp only [Mnemonic.Encodes]
  decide

example : (Mnemonic.amo .lr).Encodes (fieldsOf 0x1000a12f) := by
  simp only [Mnemonic.Encodes]
  decide

end Zelda.Isa
