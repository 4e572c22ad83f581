import Zelda.Isa.Rv32i
/-!
# The atomic extension

The operations of RV32A, and what the read-modify-write ones among them that
the emulator implements put in memory.
-/

namespace Zelda.Isa

open Zelda.Vmm

/-- Read-modify-write operations other than the comparing ones. -/
inductive RmwOp
  | swap | add | xor | or | and
  deriving DecidableEq, Repr

inductive AmoOp
  | lr | sc
  | rmw (op : RmwOp)
  | amomin | amomax | amominu | amomaxu
  deriving DecidableEq, Repr

def RmwOp.funct5 : RmwOp → BitVec 5
  | .add => 0x00
  | .swap => 0x01
  | .xor => 0x04
  | .or => 0x08
  | .and => 0x0c

def AmoOp.funct5 : AmoOp → BitVec 5
  | .lr => 0x02
  | .sc => 0x03
  | .rmw op => op.funct5
  | .amomin => 0x10
  | .amomax => 0x14
  | .amominu => 0x18
  | .amomaxu => 0x1c

/-- What is stored, of the loaded word and `rs2`. -/
def RmwOp.combine (loaded rs2 : Word) : RmwOp → Word
  | .add => loaded + rs2
  | .swap => rs2
  | .xor => loaded ^^^ rs2
  | .or => loaded ||| rs2
  | .and => loaded &&& rs2

end Zelda.Isa
