import Zelda.Lib.ByteBuffer
import Zelda.Lib.Sha1
import Zelda.Vmm.Vm
/-!
# The SHA-1 of the boot ROM

`sha1.c`, with which the firmware prints a checksum of the device tree.  It
runs on a little-endian hart.  Memory behind a pointer is a list of bytes, and
an access outside it gives no result.
-/

namespace Zelda.Firmware

open Zelda.Vmm
open Zelda.Lib.ByteBuffer
open Zelda.Lib.Sha1 (State)

/-- `rol`. -/
def rol (value : Word) (bits : Nat) : Word :=
  (value <<< bits) ||| (value >>> (32 - bits))

/-- The `memcpy` of the file, whose size is an `int`. -/
def memcpy (dst : List Byte) (offset : Nat) (src : List Byte) (size : Word) :
    Option (List Byte) := do
  let bytes ← readAt src 0 size.toInt.toNat
  writeAt dst offset bytes

/-! ## Hashing a block -/

/-- The working variables of `SHA1Transform`. -/
inductive Var
  | a | b | c | d | e
  deriving DecidableEq, Repr

/-- Its locals: the working variables and the words of the block, `block->l`. -/
structure Locals where
  vars : Var → Word
  block : Nat → Word

/-- `blk0`: swap the bytes of a word in place. -/
def blk0 (i : Nat) (block : Nat → Word) : Word × (Nat → Word) :=
  let word := (rol (block i) 24 &&& 0xff00ff00) ||| (rol (block i) 8 &&& 0x00ff00ff)
  (word, Function.update block i word)

/-- `blk`: the next word of the schedule, in the place of the oldest. -/
def blk (i : Nat) (block : Nat → Word) : Word × (Nat → Word) :=
  let word := rol (block ((i + 13) &&& 15) ^^^ block ((i + 8) &&& 15) ^^^ block ((i + 2) &&& 15) ^^^
    block (i &&& 15)) 1
  (word, Function.update block (i &&& 15) word)

/-- The macros `R0` to `R4`: one round, on variables whose roles rotate. -/
def roundMacro (f : Word → Word → Word → Word) (expand : Nat → (Nat → Word) → Word × (Nat → Word))
    (constant : Word) (v w x y z : Var) (i : Nat) (s : Locals) : Locals :=
  let (word, block) := expand i s.block
  let sum := f (s.vars w) (s.vars x) (s.vars y) + word + constant + rol (s.vars v) 5
  let vars := Function.update s.vars z (s.vars z + sum)
  { vars := Function.update vars w (rol (vars w) 30), block }

def R0 : Var → Var → Var → Var → Var → Nat → Locals → Locals :=
  roundMacro (fun w x y => (w &&& (x ^^^ y)) ^^^ y) blk0 0x5a827999

def R1 : Var → Var → Var → Var → Var → Nat → Locals → Locals :=
  roundMacro (fun w x y => (w &&& (x ^^^ y)) ^^^ y) blk 0x5a827999

def R2 : Var → Var → Var → Var → Var → Nat → Locals → Locals :=
  roundMacro (fun w x y => w ^^^ x ^^^ y) blk 0x6ed9eba1

def R3 : Var → Var → Var → Var → Var → Nat → Locals → Locals :=
  roundMacro (fun w x y => ((w ||| x) &&& y) ||| (w &&& x)) blk 0x8f1bbcdc

def R4 : Var → Var → Var → Var → Var → Nat → Locals → Locals :=
  roundMacro (fun w x y => w ^^^ x ^^^ y) blk 0xca62c1d6

/-- The eighty rounds, unrolled. -/
def transformRounds : List (Locals → Locals) :=
  [R0 .a .b .c .d .e 0, R0 .e .a .b .c .d 1, R0 .d .e .a .b .c 2, R0 .c .d .e .a .b 3,
    R0 .b .c .d .e .a 4, R0 .a .b .c .d .e 5, R0 .e .a .b .c .d 6, R0 .d .e .a .b .c 7,
    R0 .c .d .e .a .b 8, R0 .b .c .d .e .a 9, R0 .a .b .c .d .e 10, R0 .e .a .b .c .d 11,
    R0 .d .e .a .b .c 12, R0 .c .d .e .a .b 13, R0 .b .c .d .e .a 14, R0 .a .b .c .d .e 15,
    R1 .e .a .b .c .d 16, R1 .d .e .a .b .c 17, R1 .c .d .e .a .b 18, R1 .b .c .d .e .a 19,
    R2 .a .b .c .d .e 20, R2 .e .a .b .c .d 21, R2 .d .e .a .b .c 22, R2 .c .d .e .a .b 23,
    R2 .b .c .d .e .a 24, R2 .a .b .c .d .e 25, R2 .e .a .b .c .d 26, R2 .d .e .a .b .c 27,
    R2 .c .d .e .a .b 28, R2 .b .c .d .e .a 29, R2 .a .b .c .d .e 30, R2 .e .a .b .c .d 31,
    R2 .d .e .a .b .c 32, R2 .c .d .e .a .b 33, R2 .b .c .d .e .a 34, R2 .a .b .c .d .e 35,
    R2 .e .a .b .c .d 36, R2 .d .e .a .b .c 37, R2 .c .d .e .a .b 38, R2 .b .c .d .e .a 39,
    R3 .a .b .c .d .e 40, R3 .e .a .b .c .d 41, R3 .d .e .a .b .c 42, R3 .c .d .e .a .b 43,
    R3 .b .c .d .e .a 44, R3 .a .b .c .d .e 45, R3 .e .a .b .c .d 46, R3 .d .e .a .b .c 47,
    R3 .c .d .e .a .b 48, R3 .b .c .d .e .a 49, R3 .a .b .c .d .e 50, R3 .e .a .b .c .d 51,
    R3 .d .e .a .b .c 52, R3 .c .d .e .a .b 53, R3 .b .c .d .e .a 54, R3 .a .b .c .d .e 55,
    R3 .e .a .b .c .d 56, R3 .d .e .a .b .c 57, R3 .c .d .e .a .b 58, R3 .b .c .d .e .a 59,
    R4 .a .b .c .d .e 60, R4 .e .a .b .c .d 61, R4 .d .e .a .b .c 62, R4 .c .d .e .a .b 63,
    R4 .b .c .d .e .a 64, R4 .a .b .c .d .e 65, R4 .e .a .b .c .d 66, R4 .d .e .a .b .c 67,
    R4 .c .d .e .a .b 68, R4 .b .c .d .e .a 69, R4 .a .b .c .d .e 70, R4 .e .a .b .c .d 71,
    R4 .d .e .a .b .c 72, R4 .c .d .e .a .b 73, R4 .b .c .d .e .a 74, R4 .a .b .c .d .e 75,
    R4 .e .a .b .c .d 76, R4 .d .e .a .b .c 77, R4 .c .d .e .a .b 78, R4 .b .c .d .e .a 79]

/-- The bytes of a block, seen as words by a little-endian hart. -/
def blockWords (block : List Byte) (i : Nat) : Word :=
  block.getD (4 * i + 3) 0 ++ block.getD (4 * i + 2) 0 ++ block.getD (4 * i + 1) 0 ++
    block.getD (4 * i) 0

/-- The working variables at first. -/
def workingVars (state : State) : Var → Word
  | .a => state.a
  | .b => state.b
  | .c => state.c
  | .d => state.d
  | .e => state.e

/-- `SHA1Transform`. -/
def sha1Transform (state : State) (buffer : List Byte) : Option State := do
  let block ← readAt buffer 0 64
  let s := transformRounds.foldl (fun s round => round s)
    { vars := workingVars state, block := blockWords block }
  pure
    { a := state.a + s.vars .a
      b := state.b + s.vars .b
      c := state.c + s.vars .c
      d := state.d + s.vars .d
      e := state.e + s.vars .e }

/-! ## Contexts -/

/-- `SHA1_CTX`. -/
structure Sha1Ctx where
  state : State
  count0 : Word
  count1 : Word
  buffer : List Byte
  deriving DecidableEq, Repr

/-- `SHA1Init`: the buffer stays as it is. -/
def sha1Init (context : Sha1Ctx) : Sha1Ctx :=
  { context with
    state :=
      { a := 0x67452301, b := 0xefcdab89, c := 0x98badcfe, d := 0x10325476, e := 0xc3d2e1f0 }
    count0 := 0
    count1 := 0 }

/-- The loop of `SHA1Update` over the whole blocks of `data`, in at most so many rounds. -/
def transformBlocks (data : List Byte) (len : Word) : Nat → State → Word → Option (State × Word)
  | 0, _, _ => none
  | rounds + 1, state, i =>
      if i + 63 < len then do
        let state ← sha1Transform state (data.drop i.toNat)
        transformBlocks data len rounds state (i + 64)
      else
        some (state, i)

/-- `SHA1Update`. -/
def sha1Update (context : Sha1Ctx) (data : List Byte) (len : Word) : Option Sha1Ctx := do
  let j := context.count0
  let count0 := context.count0 + (len <<< 3)
  let count1 := if count0 < j then context.count1 + 1 else context.count1
  let count1 := count1 + (len >>> 29)
  let j := (j >>> 3) &&& 63
  if 63 < j + len then
    let i := 64 - j
    let buffer ← memcpy context.buffer j.toNat data i
    let state ← sha1Transform context.state buffer
    let (state, i) ← transformBlocks data len (len.toNat / 64 + 2) state i
    let buffer ← memcpy buffer 0 (data.drop i.toNat) (len - i)
    pure { state, count0, count1, buffer }
  else
    let buffer ← memcpy context.buffer j.toNat data len
    pure { context with count0, count1, buffer }

/-- The loop of `SHA1Final` that pads with zeros, in at most so many rounds. -/
def padZeros : Nat → Sha1Ctx → Option Sha1Ctx
  | 0, _ => none
  | rounds + 1, context =>
      if context.count0 &&& 504 ≠ 448 then do
        let context ← sha1Update context [0] 1
        padZeros rounds context
      else
        some context

/-- The bytes of the counter, most significant first. -/
def finalcount (context : Sha1Ctx) : List Byte :=
  (List.range 8).map fun i =>
    let count := if i ≥ 4 then context.count0 else context.count1
    ((count >>> ((3 - (i &&& 3)) * 8)) &&& 255).setWidth 8

/-- `context->state[i]`. -/
def stateWord (state : State) : Nat → Word
  | 0 => state.a
  | 1 => state.b
  | 2 => state.c
  | 3 => state.d
  | _ => state.e

/-- A context of zeros. -/
def wipedCtx : Sha1Ctx :=
  { state := { a := 0, b := 0, c := 0, d := 0, e := 0 }
    count0 := 0
    count1 := 0
    buffer := List.replicate 64 0 }

/-- `SHA1Final`: the digest, and the context wiped. -/
def sha1Final (context : Sha1Ctx) : Option (List Byte × Sha1Ctx) := do
  let finalcount := finalcount context
  let context ← sha1Update context [0x80] 1
  let context ← padZeros 64 context
  let context ← sha1Update context finalcount 8
  let digest := (List.range 20).map fun i =>
    ((stateWord context.state (i >>> 2) >>> ((3 - (i &&& 3)) * 8)) &&& 255).setWidth 8
  pure (digest, wipedCtx)

/-- The loop of `SHA1`: an unsigned index against `len`, in at most so many rounds. -/
def sha1Bytes (str : List Byte) (len : Word) : Nat → Word → Sha1Ctx → Option Sha1Ctx
  | 0, _, _ => none
  | rounds + 1, ii, ctx =>
      if ii < len then do
        let ctx ← sha1Update ctx (str.drop ii.toNat) 1
        sha1Bytes str len rounds (ii + 1) ctx
      else
        some ctx

/-- `SHA1`, whose context is on the stack and uninitialised. -/
def sha1 (ctx : Sha1Ctx) (str : List Byte) (len : Word) : Option (List Byte) := do
  let ctx ← sha1Bytes str len (len.toNat + 1) 0 (sha1Init ctx)
  let (digest, _) ← sha1Final ctx
  pure (digest ++ [0])

end Zelda.Firmware
