import Zelda.Firmware.Sbi
import Zelda.Isa.Rv32i
/-!
# The machine-mode trap vector

`fw_trap_vector` of `entry.S`, instruction by instruction, around a call of the
compiled trap handler.
-/

namespace Zelda.Firmware

open Zelda.Vmm
open Zelda.Isa

def REG_RA : RegIndex := 1
def REG_SP : RegIndex := 2
def REG_T0 : RegIndex := 5

/-- The instructions the vector is written in. -/
inductive EntryInstr
  | csrrw (rd : RegIndex) (csr : CsrAddress) (rs : RegIndex)
  | csrr (rd : RegIndex) (csr : CsrAddress)
  | csrw (csr : CsrAddress) (rs : RegIndex)
  | addi (rd rs : RegIndex) (imm : BitVec 12)
  | mv (rd rs : RegIndex)
  | sw (rs : RegIndex) (offset : BitVec 12) (base : RegIndex)
  | lw (rd : RegIndex) (offset : BitVec 12) (base : RegIndex)
  | mret
  deriving DecidableEq, Repr

namespace EntryInstr

/-- The word of a `csrrw` or a `csrrs`. -/
def csrWord (csr : CsrAddress) (rs : RegIndex) (funct3 : BitVec 3) (rd : RegIndex) : Word :=
  iType csr rs funct3 rd RISCV_OPCODE_SUPERVISOR_LEVEL

def add (rd rs : RegIndex) (imm : Word) : VmM Unit :=
  modifyHart fun h => h.setReg rd (h.registers rs + imm)

def run : EntryInstr → VmM Unit
  | csrrw rd csr rs => riscvGenericCsrCallback (csrWord csr rs 1 rd)
  | csrr rd csr => riscvGenericCsrCallback (csrWord csr 0 2 rd)
  | csrw csr rs => riscvGenericCsrCallback (csrWord csr rs 1 0)
  | addi rd rs imm => add rd rs (imm.signExtend 32)
  | mv rd rs => add rd rs 0
  | sw rs offset base => do
      let h := (← get).hart
      vmwrite (h.registers base + offset.signExtend 32) .b4 ((h.registers rs).setWidth 64)
  | lw rd offset base => do
      let h := (← get).hart
      let value ← vmread (h.registers base + offset.signExtend 32) .b4
      modifyHart fun h => h.setReg rd (value.setWidth 32)
  | mret => mretCallback

/-- Straight-line code. -/
def runAll : List EntryInstr → VmM Unit
  | [] => pure ()
  | i :: code => do
      i.run
      runAll code

end EntryInstr

/-- The registers the vector moves to and from the frame directly: all but `x0` and `sp`. -/
def savedRegisters : List RegIndex :=
  [1, 3, 4, 5, 6, 7, 8, 9, 10, 11, 12, 13, 14, 15, 16, 17, 18, 19, 20, 21, 22, 23, 24, 25, 26, 27,
    28, 29, 30, 31]

/-- The frame slot of a register, `n*4(sp)`. -/
def slot (register : RegIndex) : BitVec 12 :=
  4 * register.setWidth 12

/-- The vector up to the call. -/
def fwTrapEntry : List EntryInstr :=
  [.csrrw REG_SP CSR_ADDRESS_MSCRATCH REG_SP, .addi REG_SP REG_SP (-128)] ++
  savedRegisters.map (fun register => .sw register (slot register) REG_SP) ++
  [.csrr REG_T0 CSR_ADDRESS_MSCRATCH, .sw REG_T0 (slot REG_SP) REG_SP,
    .addi REG_T0 REG_SP 128, .csrw CSR_ADDRESS_MSCRATCH REG_T0, .mv REG_A0 REG_SP]

/-- The vector after the call. -/
def fwTrapExit : List EntryInstr :=
  [.lw REG_T0 (slot REG_SP) REG_SP, .csrw CSR_ADDRESS_MSCRATCH REG_T0] ++
  savedRegisters.map (fun register => .lw register (slot register) REG_SP) ++
  [.addi REG_SP REG_SP 128, .csrrw REG_SP CSR_ADDRESS_MSCRATCH REG_SP, .mret]

/-- `fw_trap_vector`; the `jal` leaves its return address in `ra`. -/
def fwTrapVector (returnAddress : Word) (handler : VmM Unit) : VmM Unit := do
  EntryInstr.runAll fwTrapEntry
  modifyHart fun h => h.setReg REG_RA returnAddress
  handler
  EntryInstr.runAll fwTrapExit

end Zelda.Firmware
