import Mathlib.Data.BitVec
import Zelda.Lib.Effect
/-!
# A fragment of the x86-64 instruction set

Straight-line code with forward jumps over an abstract memory and abstract
callees, enough to run hand-written code templates.  Sources stand before
destinations, as in AT&T syntax.  A 32-bit write clears the upper half of its
register.  Only `cmpl` leaves flags that a later condition may read.
-/

namespace Zelda.Lib.X86

open Zelda.Lib.Effect

/-! ## Syntax -/

inductive Reg
  | rax | rbx | rcx | rdx | rsi | rdi | r8 | r12 | r13 | r14 | r15
  deriving DecidableEq, Repr

/-- A 32-bit source: a register, an immediate, or a position-independent parameter word. -/
inductive Operand
  | reg (r : Reg)
  | imm (value : BitVec 32)
  | param (index : Nat)
  deriving DecidableEq, Repr

inductive Alu
  | add | sub | and | or | xor
  deriving DecidableEq, Repr

inductive Shift
  | shl | shr | sar
  deriving DecidableEq, Repr

inductive Cond
  | e | ne | l | ge | b | ae
  deriving DecidableEq, Repr

/-- Widening of a register's own low part to 32 bits. -/
inductive Extend
  | movzbl | movsbl | movzwl | movswl
  deriving DecidableEq, Repr

inductive Insn (φ : Type)
  | movl (src : Operand) (dst : Reg)
  /-- `movl (addr), dst` -/
  | movlLoad (addr dst : Reg)
  /-- `movl src, (addr)` -/
  | movlStore (src : Operand) (addr : Reg)
  /-- `addl $value, (addr)` -/
  | addlStore (value : BitVec 32) (addr : Reg)
  | movq (src dst : Reg)
  | movqImm (value : BitVec 64) (dst : Reg)
  | addq (src dst : Reg)
  | alu (op : Alu) (src : Operand) (dst : Reg)
  | shiftImm (op : Shift) (count : Nat) (dst : Reg)
  /-- Shift by `%cl`, of which the processor uses five bits. -/
  | shiftCl (op : Shift) (dst : Reg)
  | shrq (count : Nat) (dst : Reg)
  | cmpl (src : Operand) (dst : Reg)
  | setcc (cond : Cond) (dst : Reg)
  | extend (kind : Extend) (dst : Reg)
  | movsxd (src dst : Reg)
  | btr (bit : Nat) (dst : Reg)
  | imull (src : Reg)
  | mull (src : Reg)
  | imulq (src : Reg)
  | idivl (src : Reg)
  | divl (src : Reg)
  /-- Jump over the next `count` instructions. -/
  | jcc (cond : Cond) (count : Nat)
  | jmp (count : Nat)
  | pushq (src : Reg)
  | popq (dst : Reg)
  /-- Load a callee's address into `rax` and call it. -/
  | call (callee : φ)
  /-- Jump to the end of the block. -/
  | jmpEnd
  /-- Leave the block for the monitor. -/
  | jmpMonitor
  deriving DecidableEq, Repr

/-! ## Processor state -/

structure Flags where
  zf : Bool
  sf : Bool
  cf : Bool
  of : Bool
  deriving DecidableEq, Repr

/-- Flags of `a - b`. -/
def Flags.ofSub (a b : BitVec 32) : Flags where
  zf := a - b == 0
  sf := (a - b).msb
  cf := decide (a < b)
  of := decide ((a - b).toInt ≠ a.toInt - b.toInt)

def Cond.holds (f : Flags) : Cond → Bool
  | .e => f.zf
  | .ne => !f.zf
  | .l => f.sf != f.of
  | .ge => f.sf == f.of
  | .b => f.cf
  | .ae => !f.cf

structure Cpu where
  rax : BitVec 64
  rbx : BitVec 64
  rcx : BitVec 64
  rdx : BitVec 64
  rsi : BitVec 64
  rdi : BitVec 64
  r8 : BitVec 64
  r12 : BitVec 64
  r13 : BitVec 64
  r14 : BitVec 64
  r15 : BitVec 64
  flags : Option Flags
  stack : List (BitVec 64)

namespace Cpu

def get (c : Cpu) : Reg → BitVec 64
  | .rax => c.rax
  | .rbx => c.rbx
  | .rcx => c.rcx
  | .rdx => c.rdx
  | .rsi => c.rsi
  | .rdi => c.rdi
  | .r8 => c.r8
  | .r12 => c.r12
  | .r13 => c.r13
  | .r14 => c.r14
  | .r15 => c.r15

def set (c : Cpu) (r : Reg) (v : BitVec 64) : Cpu :=
  match r with
  | .rax => { c with rax := v }
  | .rbx => { c with rbx := v }
  | .rcx => { c with rcx := v }
  | .rdx => { c with rdx := v }
  | .rsi => { c with rsi := v }
  | .rdi => { c with rdi := v }
  | .r8 => { c with r8 := v }
  | .r12 => { c with r12 := v }
  | .r13 => { c with r13 := v }
  | .r14 => { c with r14 := v }
  | .r15 => { c with r15 := v }

def get32 (c : Cpu) (r : Reg) : BitVec 32 :=
  (c.get r).setWidth 32

/-- A 32-bit register write. -/
def set32 (c : Cpu) (r : Reg) (v : BitVec 32) : Cpu :=
  c.set r (v.setWidth 64)

def noFlags (c : Cpu) : Cpu :=
  { c with flags := none }

end Cpu

/-! ## Execution -/

/-- What surrounds the code: 32-bit memory, callees, and what a callee leaves in scratch registers. -/
structure Env (φ ε σ : Type) where
  load32 : BitVec 64 → σ → Option (BitVec 32)
  store32 : BitVec 64 → BitVec 32 → σ → Option σ
  /-- The returned value is what the callee leaves in `rax`. -/
  call : φ → Cpu → EStateM ε σ (BitVec 64)
  clobber : φ → Cpu → Reg → BitVec 64
  /-- Raised on an access or a computation the hardware refuses. -/
  fault : ε

/-- How a block is left. -/
inductive End
  | fallThrough
  | toMonitor
  deriving DecidableEq, Repr

/-- The effect of one instruction on control. -/
inductive Next
  | next (c : Cpu)
  | skip (count : Nat) (c : Cpu)
  | done (e : End) (c : Cpu)

section Semantics

variable {φ ε σ : Type} (env : Env φ ε σ) (param : Nat → BitVec 32)

def Operand.value (c : Cpu) : Operand → BitVec 32
  | .reg r => c.get32 r
  | .imm v => v
  | .param i => param i

def Alu.apply (op : Alu) (src dst : BitVec 32) : BitVec 32 :=
  match op with
  | .add => dst + src
  | .sub => dst - src
  | .and => dst &&& src
  | .or => dst ||| src
  | .xor => dst ^^^ src

def Shift.apply (op : Shift) (count : Nat) (dst : BitVec 32) : BitVec 32 :=
  match op with
  | .shl => dst <<< count
  | .shr => dst >>> count
  | .sar => dst.sshiftRight count

def Extend.apply (v : BitVec 64) : Extend → BitVec 32
  | .movzbl => (v.setWidth 8).setWidth 32
  | .movsbl => (v.setWidth 8).signExtend 32
  | .movzwl => (v.setWidth 16).setWidth 32
  | .movswl => (v.setWidth 16).signExtend 32

/-- Put a 64-bit product in `edx:eax`. -/
def Cpu.setEdxEax (c : Cpu) (product : BitVec 64) : Cpu :=
  (c.set32 .rax (product.setWidth 32)).set32 .rdx ((product >>> 32).setWidth 32)

/-- `edx:eax` as one signed or unsigned number. -/
def Cpu.edxEax (c : Cpu) : BitVec 64 :=
  (c.get32 .rdx).setWidth 64 <<< 32 ||| (c.get32 .rax).setWidth 64

/-- The registers a callee may change, after it has returned `result`. -/
def Cpu.afterCall (c : Cpu) (clobber : Reg → BitVec 64) (result : BitVec 64) : Cpu :=
  { c with
    rax := result
    rcx := clobber .rcx
    rdx := clobber .rdx
    rsi := clobber .rsi
    rdi := clobber .rdi
    r8 := clobber .r8
    flags := none }

def step (i : Insn φ) (c : Cpu) : EStateM ε σ Next :=
  match i with
  | .movl src dst => pure (.next (c.set32 dst (src.value param c)))
  | .movlLoad addr dst => do
      match env.load32 (c.get addr) (← get) with
      | some v => pure (.next (c.set32 dst v))
      | none => throw env.fault
  | .movlStore src addr => do
      match env.store32 (c.get addr) (src.value param c) (← get) with
      | some t => set t; pure (.next c)
      | none => throw env.fault
  | .addlStore v addr => do
      let s ← get
      match env.load32 (c.get addr) s with
      | some old =>
          match env.store32 (c.get addr) (old + v) s with
          | some t => set t; pure (.next c.noFlags)
          | none => throw env.fault
      | none => throw env.fault
  | .movq src dst => pure (.next (c.set dst (c.get src)))
  | .movqImm v dst => pure (.next (c.set dst v))
  | .addq src dst => pure (.next (c.set dst (c.get dst + c.get src)).noFlags)
  | .alu op src dst =>
      pure (.next (c.set32 dst (op.apply (src.value param c) (c.get32 dst))).noFlags)
  | .shiftImm op n dst => pure (.next (c.set32 dst (op.apply n (c.get32 dst))).noFlags)
  | .shiftCl op dst =>
      pure (.next (c.set32 dst (op.apply ((c.rcx.setWidth 5).toNat) (c.get32 dst))).noFlags)
  | .shrq n dst => pure (.next (c.set dst (c.get dst >>> n)).noFlags)
  | .cmpl src dst =>
      pure (.next { c with flags := some (Flags.ofSub (c.get32 dst) (src.value param c)) })
  | .setcc cond dst =>
      match c.flags with
      | some f =>
          let low : BitVec 64 := if cond.holds f then 1 else 0
          pure (.next (c.set dst ((c.get dst &&& ~~~0xff#64) ||| low)))
      | none => throw env.fault
  | .extend kind dst => pure (.next (c.set32 dst (kind.apply (c.get dst))))
  | .movsxd src dst => pure (.next (c.set dst ((c.get32 src).signExtend 64)))
  | .btr bit dst =>
      pure (.next (c.set32 dst (c.get32 dst &&& ~~~(1#32 <<< bit))).noFlags)
  | .imull src =>
      pure (.next (c.setEdxEax
        ((c.get32 .rax).signExtend 64 * (c.get32 src).signExtend 64)).noFlags)
  | .mull src =>
      pure (.next (c.setEdxEax ((c.get32 .rax).setWidth 64 * (c.get32 src).setWidth 64)).noFlags)
  | .imulq src =>
      let product : BitVec 128 := c.rax.signExtend 128 * (c.get src).signExtend 128
      pure (.next ((c.set .rax (product.setWidth 64)).set .rdx
        ((product >>> 64).setWidth 64)).noFlags)
  | .idivl src =>
      let divisor := (c.get32 src).toInt
      let quotient := c.edxEax.toInt.tdiv divisor
      if divisor = 0 ∨ quotient < -2 ^ 31 ∨ 2 ^ 31 ≤ quotient then throw env.fault
      else
        pure (.next ((c.set32 .rax (BitVec.ofInt 32 quotient)).set32 .rdx
          (BitVec.ofInt 32 (c.edxEax.toInt.tmod divisor))).noFlags)
  | .divl src =>
      let divisor := (c.get32 src).toNat
      let quotient := c.edxEax.toNat / divisor
      if divisor = 0 ∨ 2 ^ 32 ≤ quotient then throw env.fault
      else
        pure (.next ((c.set32 .rax (BitVec.ofNat 32 quotient)).set32 .rdx
          (BitVec.ofNat 32 (c.edxEax.toNat % divisor))).noFlags)
  | .jcc cond n =>
      match c.flags with
      | some f => pure (if cond.holds f then .skip n c else .next c)
      | none => throw env.fault
  | .jmp n => pure (.skip n c)
  | .pushq src => pure (.next { c with stack := c.get src :: c.stack })
  | .popq dst =>
      match c.stack with
      | v :: rest => pure (.next ({ c with stack := rest }.set dst v))
      | [] => throw env.fault
  | .call f => do
      let result ← env.call f c
      pure (.next (c.afterCall (env.clobber f c) result))
  | .jmpEnd => pure (.done .fallThrough c)
  | .jmpMonitor => pure (.done .toMonitor c)

/-- Run a block; the first argument counts instructions still to be jumped over. -/
def exec : Nat → List (Insn φ) → Cpu → EStateM ε σ (End × Cpu)
  | _, [], c => pure (.fallThrough, c)
  | skip + 1, _ :: rest, c => exec skip rest c
  | 0, i :: rest, c => do
      match ← step env param i c with
      | .next c => exec 0 rest c
      | .skip n c => exec n rest c
      | .done e c => pure (e, c)

end Semantics

end Zelda.Lib.X86
