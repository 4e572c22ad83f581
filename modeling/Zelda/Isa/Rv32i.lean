import Zelda.Vmm.Hart
/-!
# RV32I computational and control-transfer instructions

The instructions, their encodings and their meaning as the RISC-V instruction
set manual defines them, independent of the emulator.
-/

namespace Zelda.Isa

open Zelda.Vmm

/-! ## Syntax -/

inductive ImmOp
  | addi | slti | sltiu | xori | ori | andi
  deriving DecidableEq, Repr

inductive ShiftOp
  | sll | srl | sra
  deriving DecidableEq, Repr

inductive RegOp
  | add | sub | slt | sltu | xor | or | and
  | shift (op : ShiftOp)
  deriving DecidableEq, Repr

inductive BranchOp
  | beq | bne | blt | bge | bltu | bgeu
  deriving DecidableEq, Repr

/-- Jump and branch offsets count half-words, as their encodings do. -/
inductive Instr
  | lui (rd : RegIndex) (imm : BitVec 20)
  | auipc (rd : RegIndex) (imm : BitVec 20)
  | opImm (op : ImmOp) (rd rs1 : RegIndex) (imm : BitVec 12)
  | shiftImm (op : ShiftOp) (rd rs1 : RegIndex) (shamt : BitVec 5)
  | opReg (op : RegOp) (rd rs1 rs2 : RegIndex)
  | branch (op : BranchOp) (rs1 rs2 : RegIndex) (offset : BitVec 12)
  | jal (rd : RegIndex) (offset : BitVec 20)
  | jalr (rd rs1 : RegIndex) (imm : BitVec 12)
  deriving DecidableEq, Repr

/-! ## Meaning -/

structure State where
  registers : RegIndex → Word
  pc : Word

namespace State

/-- A register write; `x0` stays zero. -/
def write (s : State) (rd : RegIndex) (value : Word) : RegIndex → Word :=
  if rd = 0 then s.registers else Function.update s.registers rd value

/-- Write `rd` and go on to the next instruction. -/
def writeNext (s : State) (rd : RegIndex) (value : Word) : State where
  registers := s.write rd value
  pc := s.pc + 4

end State

def ImmOp.eval (a imm : Word) : ImmOp → Word
  | .addi => a + imm
  | .slti => if a.slt imm then 1 else 0
  | .sltiu => if a.ult imm then 1 else 0
  | .xori => a ^^^ imm
  | .ori => a ||| imm
  | .andi => a &&& imm

def ShiftOp.eval (a : Word) (amount : BitVec 5) : ShiftOp → Word
  | .sll => a <<< amount.toNat
  | .srl => a >>> amount.toNat
  | .sra => a.sshiftRight amount.toNat

def RegOp.eval (a b : Word) : RegOp → Word
  | .add => a + b
  | .sub => a - b
  | .slt => if a.slt b then 1 else 0
  | .sltu => if a.ult b then 1 else 0
  | .xor => a ^^^ b
  | .or => a ||| b
  | .and => a &&& b
  | .shift op => op.eval a (b.setWidth 5)

def BranchOp.taken (a b : Word) : BranchOp → Bool
  | .beq => a == b
  | .bne => a != b
  | .blt => a.slt b
  | .bge => !a.slt b
  | .bltu => a.ult b
  | .bgeu => !a.ult b

/-- A jump to `target`, which must be a multiple of four. -/
def jumpTo (registers : RegIndex → Word) (target : Word) : Option State :=
  if target &&& 3 = 0 then some ⟨registers, target⟩ else none

/-- One instruction; `none` is an instruction-address-misaligned exception. -/
def Instr.step (s : State) : Instr → Option State
  | .lui rd imm => some (s.writeNext rd (imm ++ 0#12))
  | .auipc rd imm => some (s.writeNext rd (s.pc + (imm ++ 0#12)))
  | .opImm op rd rs1 imm => some (s.writeNext rd (op.eval (s.registers rs1) (imm.signExtend 32)))
  | .shiftImm op rd rs1 shamt => some (s.writeNext rd (op.eval (s.registers rs1) shamt))
  | .opReg op rd rs1 rs2 => some (s.writeNext rd (op.eval (s.registers rs1) (s.registers rs2)))
  | .branch op rs1 rs2 offset =>
      if op.taken (s.registers rs1) (s.registers rs2) then
        jumpTo s.registers (s.pc + (offset ++ 0#1).signExtend 32)
      else
        some ⟨s.registers, s.pc + 4⟩
  | .jal rd offset => jumpTo (s.write rd (s.pc + 4)) (s.pc + (offset ++ 0#1).signExtend 32)
  | .jalr rd rs1 imm =>
      jumpTo (s.write rd (s.pc + 4)) ((s.registers rs1 + imm.signExtend 32) &&& ~~~1#32)

/-! ## Encodings -/

def ImmOp.funct3 : ImmOp → BitVec 3
  | .addi => 0
  | .slti => 2
  | .sltiu => 3
  | .xori => 4
  | .ori => 6
  | .andi => 7

def ShiftOp.funct3 : ShiftOp → BitVec 3
  | .sll => 1
  | .srl | .sra => 5

def ShiftOp.funct7 : ShiftOp → BitVec 7
  | .sll | .srl => 0
  | .sra => 0x20

def RegOp.funct3 : RegOp → BitVec 3
  | .add | .sub => 0
  | .slt => 2
  | .sltu => 3
  | .xor => 4
  | .or => 6
  | .and => 7
  | .shift op => op.funct3

def RegOp.funct7 : RegOp → BitVec 7
  | .sub => 0x20
  | .shift op => op.funct7
  | _ => 0

def BranchOp.funct3 : BranchOp → BitVec 3
  | .beq => 0
  | .bne => 1
  | .blt => 4
  | .bge => 5
  | .bltu => 6
  | .bgeu => 7

def rType (funct7 : BitVec 7) (rs2 rs1 : RegIndex) (funct3 : BitVec 3) (rd : RegIndex)
    (opcode : BitVec 7) : Word :=
  funct7 ++ rs2 ++ rs1 ++ funct3 ++ rd ++ opcode

def iType (imm : BitVec 12) (rs1 : RegIndex) (funct3 : BitVec 3) (rd : RegIndex)
    (opcode : BitVec 7) : Word :=
  imm ++ rs1 ++ funct3 ++ rd ++ opcode

def uType (imm : BitVec 20) (rd : RegIndex) (opcode : BitVec 7) : Word :=
  imm ++ rd ++ opcode

/-- `offset` holds bits 12 to 1 of the immediate. -/
def bType (offset : BitVec 12) (rs2 rs1 : RegIndex) (funct3 : BitVec 3) (opcode : BitVec 7) :
    Word :=
  offset.extractLsb' 11 1 ++ offset.extractLsb' 4 6 ++ rs2 ++ rs1 ++ funct3 ++
    offset.extractLsb' 0 4 ++ offset.extractLsb' 10 1 ++ opcode

/-- `offset` holds bits 20 to 1 of the immediate. -/
def jType (offset : BitVec 20) (rd : RegIndex) (opcode : BitVec 7) : Word :=
  offset.extractLsb' 19 1 ++ offset.extractLsb' 0 10 ++ offset.extractLsb' 10 1 ++
    offset.extractLsb' 11 8 ++ rd ++ opcode

def Instr.encode : Instr → Word
  | .lui rd imm => uType imm rd 0b0110111
  | .auipc rd imm => uType imm rd 0b0010111
  | .opImm op rd rs1 imm => iType imm rs1 op.funct3 rd 0b0010011
  | .shiftImm op rd rs1 shamt => iType (op.funct7 ++ shamt) rs1 op.funct3 rd 0b0010011
  | .opReg op rd rs1 rs2 => rType op.funct7 rs2 rs1 op.funct3 rd 0b0110011
  | .branch op rs1 rs2 offset => bType offset rs2 rs1 op.funct3 0b1100011
  | .jal rd offset => jType offset rd 0b1101111
  | .jalr rd rs1 imm => iType imm rs1 0 rd 0b1100111

/-- `addi x1, x2, -1`, and `beq x1, x2, .-4`. -/
example : (Instr.opImm .addi 1 2 0xfff).encode = 0xfff10093 := by decide

example : (Instr.branch .beq 1 2 0xffe).encode = 0xfe208ee3 := by decide

end Zelda.Isa
