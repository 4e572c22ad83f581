import Zelda.Isa.Rv32i
/-!
# RV32M multiplication and division

The M extension over the integers, with the results the manual fixes for
division by zero and for signed overflow.
-/

namespace Zelda.Isa

open Zelda.Vmm

inductive MulDivOp
  | mul | mulh | mulhsu | mulhu
  | div | divu | rem | remu
  deriving DecidableEq, Repr

/-- The most negative word. -/
def INT_MIN : Word := 0x80000000

/-- Bits 63 to 32 of a product. -/
def highHalf (product : Int) : Word :=
  BitVec.ofInt 32 (product / 2 ^ 32)

def MulDivOp.eval (a b : Word) : MulDivOp → Word
  | .mul => BitVec.ofInt 32 (a.toInt * b.toInt)
  | .mulh => highHalf (a.toInt * b.toInt)
  | .mulhsu => highHalf (a.toInt * b.toNat)
  | .mulhu => highHalf (a.toNat * b.toNat)
  | .div =>
      if b = 0 then BitVec.allOnes 32
      else if a = INT_MIN ∧ b = BitVec.allOnes 32 then INT_MIN
      else BitVec.ofInt 32 (a.toInt.tdiv b.toInt)
  | .divu => if b = 0 then BitVec.allOnes 32 else BitVec.ofNat 32 (a.toNat / b.toNat)
  | .rem =>
      if b = 0 then a
      else if a = INT_MIN ∧ b = BitVec.allOnes 32 then 0
      else BitVec.ofInt 32 (a.toInt.tmod b.toInt)
  | .remu => if b = 0 then a else BitVec.ofNat 32 (a.toNat % b.toNat)

def MulDivOp.funct3 : MulDivOp → BitVec 3
  | .mul => 0
  | .mulh => 1
  | .mulhsu => 2
  | .mulhu => 3
  | .div => 4
  | .divu => 5
  | .rem => 6
  | .remu => 7

def MulDivOp.encode (op : MulDivOp) (rd rs1 rs2 : RegIndex) : Word :=
  rType 1 rs2 rs1 op.funct3 rd 0b0110011

/-- `-7 / 2` and `-7 mod 2` round toward zero. -/
example : MulDivOp.div.eval (-7) 2 = -3 ∧ MulDivOp.rem.eval (-7) 2 = -1 := by decide

end Zelda.Isa
