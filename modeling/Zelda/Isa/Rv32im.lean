import Zelda.Isa.Encodings
import Zelda.Isa.Formats
/-!
# Programs in RV32IM

The instructions of the earlier modules and those that access memory, over one
byte-addressed little-endian memory, and runs of programs made of them.
-/

namespace Zelda.Isa

open Zelda.Vmm

/-! ## Memory -/

/-- The bytes of the address space. -/
abbrev Memory := Word → Byte

namespace Memory

def half (memory : Memory) (address : Word) : BitVec 16 :=
  memory (address + 1) ++ memory address

def word (memory : Memory) (address : Word) : Word :=
  memory (address + 3) ++ memory (address + 2) ++ memory (address + 1) ++ memory address

/-- The low `n` bytes of a value, stored from `address` on. -/
def store (memory : Memory) (address : Word) (n : Nat) (value : Word) : Memory := fun a =>
  if (a - address).toNat < n then value.extractLsb' (8 * (a - address).toNat) 8 else memory a

end Memory

/-- What a load puts into its register. -/
def LoadOp.eval (memory : Memory) (address : Word) : LoadOp → Word
  | .lb => (memory address).signExtend 32
  | .lh => (memory.half address).signExtend 32
  | .lw => memory.word address
  | .lbu => (memory address).setWidth 32
  | .lhu => (memory.half address).setWidth 32

def LoadOp.bytes : LoadOp → Nat
  | .lb | .lbu => 1
  | .lh | .lhu => 2
  | .lw => 4

def StoreOp.bytes : StoreOp → Nat
  | .sb => 1
  | .sh => 2
  | .sw => 4

/-! ## Instructions -/

inductive UserInstr
  | base (i : Instr)
  | mulDiv (op : MulDivOp) (rd rs1 rs2 : RegIndex)
  | load (op : LoadOp) (rd rs1 : RegIndex) (imm : BitVec 12)
  | store (op : StoreOp) (rs1 rs2 : RegIndex) (imm : BitVec 12)
  deriving DecidableEq, Repr

/-- The registers, the pc and the memory. -/
structure Machine where
  state : State
  memory : Memory

namespace UserInstr

def encode : UserInstr → Word
  | base i => i.encode
  | mulDiv op rd rs1 rs2 => op.encode rd rs1 rs2
  | load op rd rs1 imm => iType imm rs1 op.funct3 rd 0b0000011
  | store op rs1 rs2 imm => sType imm rs2 rs1 op.funct3 0b0100011

/-- One instruction; `none` is an instruction-address-misaligned exception. -/
def step (m : Machine) : UserInstr → Option Machine
  | base i => (i.step m.state).map fun state => { m with state }
  | mulDiv op rd rs1 rs2 =>
      some { m with
        state := m.state.writeNext rd (op.eval (m.state.registers rs1) (m.state.registers rs2)) }
  | load op rd rs1 imm =>
      some { m with
        state := m.state.writeNext rd
          (op.eval m.memory (m.state.registers rs1 + imm.signExtend 32)) }
  | store op rs1 rs2 imm =>
      some
        { state := { m.state with pc := m.state.pc + 4 }
          memory := m.memory.store (m.state.registers rs1 + imm.signExtend 32) op.bytes
            (m.state.registers rs2) }

end UserInstr

/-! ## Programs -/

/-- The instructions of a program, by address. -/
abbrev CodeMap := Word → Option UserInstr

/-- The machine after `n` instructions; `none` when the program leaves its code or traps. -/
def Machine.run (code : CodeMap) : Nat → Machine → Option Machine
  | 0, m => some m
  | n + 1, m => (code m.state.pc).bind fun i => (i.step m).bind (run code n)

theorem Machine.run_add (code : CodeMap) (a b : Nat) (m : Machine) :
    m.run code (a + b) = (m.run code a).bind (Machine.run code b) := by
  induction a generalizing m with
  | zero => rw [Nat.zero_add, Machine.run, Option.bind_some]
  | succ a ih =>
      rw [Nat.succ_add, Machine.run, Machine.run, Option.bind_assoc]
      congr 1
      funext i
      rw [Option.bind_assoc]
      congr 1
      funext m'
      exact ih m'

/-- A loop that counts in memory: `lw x1, (x2)`, `addi x1, x1, 1`, `sw x1, (x2)`. -/
example :
    let code : CodeMap := fun pc =>
      if pc = 0 then some (.load .lw 1 2 0)
      else if pc = 4 then some (.base (.opImm .addi 1 1 1))
      else if pc = 8 then some (.store .sw 2 1 0)
      else none
    ((Machine.mk ⟨fun _ => 0x80, 0⟩ fun _ => 0xff).run code 3).map (fun m => m.memory.word 0x80) =
      some 0 := by
  decide

end Zelda.Isa
