import Zelda.Vmm.CString
import Zelda.Vmm.Mmu
/-!
# The console of the firmware

`uart.c` and `printk.c`.  The digits of a number are collected on a stack and
printed from its top.
-/

namespace Zelda.Firmware

open Zelda.Vmm

/-- A loop that is never left. -/
def hang {α : Type} : VmM α :=
  throw .exit

/-- What C leaves undefined. -/
def undefined {α : Type} : VmM α :=
  throw .hostFault

/-! ## The UART -/

def UART16550_BASE : Word := 0x10000000
def UART_REG_QUEUE : Word := 0
def UART_REG_LSR : Word := 5
def UART_REG_STATUS_RX : Byte := 0x01
def UART_REG_STATUS_TX : Byte := 0x20

def uartLoad (register : Word) : VmM Byte := do
  let value ← vmread (UART16550_BASE + register) .b1
  pure (value.setWidth 8)

/-- `uart16550_putchar`. -/
def uart16550Putchar (ch : Byte) : VmM Unit := do
  let lsr ← uartLoad UART_REG_LSR
  if lsr &&& UART_REG_STATUS_TX = 0 then hang
  else vmwrite (UART16550_BASE + UART_REG_QUEUE) .b1 (ch.setWidth 64)

/-- `uart16550_getchar`. -/
def uart16550Getchar : VmM Word := do
  let lsr ← uartLoad UART_REG_LSR
  if lsr &&& UART_REG_STATUS_RX ≠ 0 then
    let ch ← uartLoad UART_REG_QUEUE
    pure (ch.setWidth 32)
  else
    pure (-1)

/-- `uart_put_char` of one byte after the other. -/
def putBytes : List Byte → VmM Unit
  | [] => pure ()
  | ch :: text => do
      uart16550Putchar ch
      putBytes text

/-! ## Numbers -/

def DEFAULT_RESOLVE_STACK : Nat := 128

/-- The first loop of `resolve_int32`; the top of the stack is the head of the list. -/
def int32Stack : Nat → Word → List Byte → List Byte
  | 0, _, stack => stack
  | room + 1, qword, stack =>
      if qword = 0 then stack
      else int32Stack room (qword.sdiv 10) ((asciiByte '0' + (qword.srem 10).setWidth 8) :: stack)

/-- The digits that `lower` and `upper` hold. -/
def hexDigits (isLowercase : Bool) : List Byte :=
  ascii (if isLowercase then "0123456789abcdef" else "0123456789ABCDEF").toList

/-- The first loop of `resolve_hex_uint32`. -/
def hexStack (digits : List Byte) : Nat → Word → List Byte → List Byte
  | 0, _, stack => stack
  | room + 1, qword, stack =>
      if qword = 0 then stack
      else hexStack digits room (qword >>> 4) (digits.getD (qword &&& 0xf).toNat 0 :: stack)

/-- The rest of either: a zero where the loop has pushed nothing, and the stack from its top. -/
def printStack (stack : List Byte) : VmM Unit :=
  putBytes (if stack.isEmpty then [asciiByte '0'] else stack)

/-- `resolve_int32`. -/
def resolveInt32 (qword : Word) : VmM Unit :=
  if qword.slt 0 then pure ()
  else printStack (int32Stack DEFAULT_RESOLVE_STACK qword [])

/-- `resolve_hex_uint32`. -/
def resolveHexUint32 (qword : Word) (isLowercase : Bool) : VmM Unit :=
  printStack (hexStack (hexDigits isLowercase) DEFAULT_RESOLVE_STACK qword [])

/-- The case `'d'`; the least number has no negative. -/
def printInt32 (dword : Word) : VmM Unit := do
  if dword.slt 0 then
    uart16550Putchar (asciiByte '-')
    if dword = 0x80000000 then undefined else resolveInt32 (-dword)
  else
    resolveInt32 dword

/-! ## Formats -/

/-- What `va_arg` hands out. -/
inductive PrintkArg
  | word (value : Word)
  | string (text : CString)

/-- The cases of the switch over the character behind a `%`. -/
inductive Directive
  | string
  | char
  | decimal
  | hex (isLowercase : Bool)
  | other
  deriving DecidableEq, Repr

def Directive.ofByte (ch : Byte) : Directive :=
  if ch = asciiByte 's' then .string
  else if ch = asciiByte 'c' then .char
  else if ch = asciiByte 'd' then .decimal
  else if ch = asciiByte 'x' then .hex true
  else if ch = asciiByte 'X' then .hex false
  else .other

/-- One directive, up to the arguments it leaves; `va_arg` asks for the type of the next one. -/
def printDirective : Directive → List PrintkArg → VmM (List PrintkArg)
  | .string, .string text :: args => do
      putBytes text.bytes
      pure args
  | .char, .word value :: args => do
      uart16550Putchar (value.setWidth 8)
      pure args
  | .decimal, .word value :: args => do
      printInt32 value
      pure args
  | .hex isLowercase, .word value :: args => do
      resolveHexUint32 value isLowercase
      pure args
  | .other, args => pure args
  | _, _ => undefined

/-- `printk_mp_raw`; after a last `%` the loop runs past the terminator of the format. -/
def printkMpRaw : List Byte → List PrintkArg → VmM Unit
  | [], _ => pure ()
  | ch :: fmt, args =>
      if ch ≠ asciiByte '%' then do
        uart16550Putchar ch
        printkMpRaw fmt args
      else
        match fmt with
        | [] => undefined
        | directive :: fmt => do
            let args ← printDirective (Directive.ofByte directive) args
            printkMpRaw fmt args

/-- `printk_no_prefix`. -/
@[irreducible] def printkNoPrefix (fmt : CString) (args : List PrintkArg) : VmM Unit :=
  printkMpRaw fmt.bytes args

/-- The macro `printk`. -/
def printk (fmt : String) (args : List PrintkArg) : VmM Unit :=
  printkNoPrefix ((literal "BOOTROM: ").append (literal fmt)) args

end Zelda.Firmware
