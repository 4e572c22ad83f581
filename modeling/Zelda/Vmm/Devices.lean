import Zelda.Vmm.Hart
/-!
# The devices

CLINT, PLIC, UART and test finisher as state and register callbacks.  An MMIO
offset is `addr - base` in 32-bit arithmetic, as the callbacks compute it.
-/

namespace Zelda.Vmm

/-- The `access_size` argument of a region callback. -/
inductive AccessSize
  | b1 | b2 | b4 | b8
  deriving DecidableEq, Repr

def AccessSize.bytes : AccessSize → Nat
  | b1 => 1
  | b2 => 2
  | b4 => 4
  | b8 => 8

def MAX_NR_HARTS : Nat := 64

/-! ## CLINT -/

def CLINT_REG_MSIP : Nat := 0x0000
def CLINT_REG_MTIMECMP : Nat := 0x4000
def CLINT_REG_MTIME : Nat := 0xbff8

/-- `struct clint_state`; `clint_init` refuses more harts than the arrays hold. -/
structure Clint where
  base : Word
  nrHarts : Nat
  mtime : DWord
  mtimecmp : Nat → DWord
  msip : Nat → Word
  nrHarts_le : nrHarts ≤ MAX_NR_HARTS

namespace Clint

/-- `clint_advance_time`. -/
def advanceTime (c : Clint) (ticks : DWord) : Clint :=
  { c with mtime := c.mtime + ticks }

/-- The smallest armed `mtimecmp` among the first `n` harts. -/
def earliest (c : Clint) : Nat → DWord
  | 0 => BitVec.allOnes 64
  | n + 1 =>
      let best := c.earliest n
      if c.mtimecmp n < best then c.mtimecmp n else best

/-- `clint_skip_to_next_deadline`; the flag is the C return value. -/
def skipToNextDeadline (c : Clint) : Bool × Clint :=
  let earliest := c.earliest c.nrHarts
  if earliest = BitVec.allOnes 64 then
    (false, c)
  else if c.mtime < earliest then
    (true, { c with mtime := earliest })
  else
    (true, c)

/-- Replace the low or high half of a 64-bit register. -/
def setLow (old : DWord) (value : DWord) : DWord :=
  (old &&& ~~~0xffffffff#64) ||| (value &&& 0xffffffff#64)

def setHigh (old : DWord) (value : DWord) : DWord :=
  (old &&& 0xffffffff#64) ||| (value <<< 32)

/-- `clint_read`. -/
def read (c : Clint) (addr : Word) (size : AccessSize) : DWord :=
  let offset := (addr - c.base).toNat
  if CLINT_REG_MSIP ≤ offset ∧ offset < CLINT_REG_MSIP + 4 * MAX_NR_HARTS then
    let id := (offset - CLINT_REG_MSIP) / 4
    if id < c.nrHarts then (c.msip id).setWidth 64 else 0
  else if CLINT_REG_MTIMECMP ≤ offset ∧ offset < CLINT_REG_MTIMECMP + 8 * MAX_NR_HARTS then
    let id := (offset - CLINT_REG_MTIMECMP) / 8
    let cmp := if id < c.nrHarts then c.mtimecmp id else 0
    if size = .b8 then cmp
    else if offset / 4 % 2 = 1 then cmp >>> 32
    else cmp &&& 0xffffffff#64
  else if offset = CLINT_REG_MTIME then
    if size = .b8 then c.mtime else c.mtime &&& 0xffffffff#64
  else if offset = CLINT_REG_MTIME + 4 then
    c.mtime >>> 32
  else
    0

/-- `clint_write`. -/
def write (c : Clint) (addr : Word) (size : AccessSize) (value : DWord) : Clint :=
  let offset := (addr - c.base).toNat
  if CLINT_REG_MSIP ≤ offset ∧ offset < CLINT_REG_MSIP + 4 * MAX_NR_HARTS then
    let id := (offset - CLINT_REG_MSIP) / 4
    if id < c.nrHarts then
      { c with msip := Function.update c.msip id ((value &&& 1#64).setWidth 32) }
    else
      c
  else if CLINT_REG_MTIMECMP ≤ offset ∧ offset < CLINT_REG_MTIMECMP + 8 * MAX_NR_HARTS then
    let id := (offset - CLINT_REG_MTIMECMP) / 8
    if id < c.nrHarts then
      let cmp :=
        if size = .b8 then value
        else if offset / 4 % 2 = 1 then setHigh (c.mtimecmp id) value
        else setLow (c.mtimecmp id) value
      { c with mtimecmp := Function.update c.mtimecmp id cmp }
    else
      c
  else if offset = CLINT_REG_MTIME then
    { c with mtime := if size = .b8 then value else setLow c.mtime value }
  else if offset = CLINT_REG_MTIME + 4 then
    { c with mtime := setHigh c.mtime value }
  else
    c

end Clint

/-! ## PLIC -/

def PLIC_NR_SOURCES : Nat := 32
def PLIC_IRQ_UART0 : Nat := 10
def PLIC_REG_PENDING_BASE : Nat := 0x001000
def PLIC_REG_ENABLE_BASE : Nat := 0x002000
def PLIC_REG_ENABLE_STRIDE : Nat := 0x80
def PLIC_REG_CONTEXT_BASE : Nat := 0x200000
def PLIC_REG_CONTEXT_STRIDE : Nat := 0x1000
def PLIC_REG_CONTEXT_THRESHOLD : Nat := 0x0
def PLIC_REG_CONTEXT_CLAIM : Nat := 0x4

/-- `struct plic_state`. -/
structure Plic where
  base : Word
  nrContexts : Nat
  priority : Nat → Word
  asserted : Word
  pending : Word
  claimed : Word
  enable : Nat → Word
  threshold : Nat → Word

namespace Plic

def sourceBit (source : Nat) : Word :=
  1#32 <<< source

/-- `plic_set_pending`; its only caller passes the fixed in-range source `PLIC_IRQ_UART0`. -/
def setPending (p : Plic) (source : Nat) (asserted : Bool) : Plic :=
  if asserted then
    { p with
      asserted := p.asserted ||| sourceBit source
      pending := p.pending ||| sourceBit source }
  else
    { p with
      asserted := p.asserted &&& ~~~sourceBit source
      pending := p.pending &&& ~~~sourceBit source }

/-- One iteration of the loop of `plic_best_source`, over `(best, best_priority)`. -/
def bestStep (p : Plic) (context : Nat) (best : Nat × Word) (source : Nat) : Nat × Word :=
  let candidates := p.pending &&& ~~~p.claimed &&& p.enable context
  if candidates &&& sourceBit source = 0 then best
  else if p.priority source ≤ p.threshold context then best
  else if best.2 < p.priority source then (source, p.priority source)
  else best

/-- `plic_best_source`. -/
def bestSource (p : Plic) (context : Nat) : Nat :=
  ((List.range' 1 (PLIC_NR_SOURCES - 1)).foldl (p.bestStep context) (0, 0)).1

/-- `plic_claim`. -/
def claim (p : Plic) (context : Nat) : Word × Plic :=
  let source := p.bestSource context
  if source = 0 then (0, p)
  else (BitVec.ofNat 32 source, { p with claimed := p.claimed ||| sourceBit source })

/-- `plic_complete`. -/
def complete (p : Plic) (source : Word) : Plic :=
  if source = 0 ∨ PLIC_NR_SOURCES ≤ source.toNat then p
  else
    let bit := sourceBit source.toNat
    { p with
      claimed := p.claimed &&& ~~~bit
      pending :=
        if p.asserted &&& bit = 0 then p.pending &&& ~~~bit else p.pending ||| bit }

/-- `plic_mmio_read`. -/
def read (p : Plic) (addr : Word) : Word × Plic :=
  let offset := (addr - p.base).toNat
  if offset < 4 * PLIC_NR_SOURCES then
    (p.priority (offset / 4), p)
  else if PLIC_REG_PENDING_BASE ≤ offset ∧ offset < PLIC_REG_ENABLE_BASE then
    (if offset = PLIC_REG_PENDING_BASE then p.pending else 0, p)
  else if PLIC_REG_ENABLE_BASE ≤ offset ∧ offset < PLIC_REG_CONTEXT_BASE then
    let context := (offset - PLIC_REG_ENABLE_BASE) / PLIC_REG_ENABLE_STRIDE
    let word := (offset - PLIC_REG_ENABLE_BASE) % PLIC_REG_ENABLE_STRIDE / 4
    (if context < p.nrContexts ∧ word = 0 then p.enable context else 0, p)
  else if PLIC_REG_CONTEXT_BASE ≤ offset then
    let context := (offset - PLIC_REG_CONTEXT_BASE) / PLIC_REG_CONTEXT_STRIDE
    let reg := (offset - PLIC_REG_CONTEXT_BASE) % PLIC_REG_CONTEXT_STRIDE
    if context < p.nrContexts then
      if reg = PLIC_REG_CONTEXT_THRESHOLD then (p.threshold context, p)
      else if reg = PLIC_REG_CONTEXT_CLAIM then p.claim context
      else (0, p)
    else
      (0, p)
  else
    (0, p)

/-- `plic_mmio_write`. -/
def write (p : Plic) (addr : Word) (value : Word) : Plic :=
  let offset := (addr - p.base).toNat
  if offset < 4 * PLIC_NR_SOURCES then
    -- Source 0 has no priority register.
    if offset / 4 = 0 then p
    else { p with priority := Function.update p.priority (offset / 4) value }
  else if PLIC_REG_PENDING_BASE ≤ offset ∧ offset < PLIC_REG_ENABLE_BASE then
    p
  else if PLIC_REG_ENABLE_BASE ≤ offset ∧ offset < PLIC_REG_CONTEXT_BASE then
    let context := (offset - PLIC_REG_ENABLE_BASE) / PLIC_REG_ENABLE_STRIDE
    let word := (offset - PLIC_REG_ENABLE_BASE) % PLIC_REG_ENABLE_STRIDE / 4
    if context < p.nrContexts ∧ word = 0 then
      { p with enable := Function.update p.enable context value }
    else
      p
  else if PLIC_REG_CONTEXT_BASE ≤ offset then
    let context := (offset - PLIC_REG_CONTEXT_BASE) / PLIC_REG_CONTEXT_STRIDE
    let reg := (offset - PLIC_REG_CONTEXT_BASE) % PLIC_REG_CONTEXT_STRIDE
    if context < p.nrContexts then
      if reg = PLIC_REG_CONTEXT_THRESHOLD then
        { p with threshold := Function.update p.threshold context value }
      else if reg = PLIC_REG_CONTEXT_CLAIM then
        p.complete value
      else
        p
    else
      p
  else
    p

end Plic

/-! ## UART -/

def UART_16550_BASE : Word := 0x10000000
def UART_RX_FIFO_SIZE : Nat := 256
def UART_ESCAPE_CHAR : Byte := 0x01
def UART_LCR_DLAB : Byte := 0x80
def UART_IER_RX_AVAIL : Byte := 0x01
def UART_IER_THR_EMPTY : Byte := 0x02
def UART_IIR_NO_INT : Byte := 0x01
def UART_IIR_THR_EMPTY : Byte := 0x02
def UART_IIR_RX_AVAIL : Byte := 0x04
def UART_IIR_FIFO : Byte := 0xc0
def UART_LSR_DR : Byte := 0x01
def UART_LSR_THRE : Byte := 0x20
def UART_LSR_TEMT : Byte := 0x40
def UART_MSR_CTS : Byte := 0x10
def UART_MSR_DSR : Byte := 0x20
def UART_MSR_DCD : Byte := 0x80

/-- `struct uart_state`. -/
structure Uart where
  ier : Byte
  lcr : Byte
  mcr : Byte
  fcr : Byte
  scr : Byte
  dll : Byte
  dlm : Byte
  rxFifo : Nat → Byte
  rxHead : Nat
  rxTail : Nat
  consoleAttached : Bool
  escapeArmed : Bool

namespace Uart

/-- `uart_rx_empty`. -/
def rxEmpty (u : Uart) : Bool :=
  u.rxHead == u.rxTail

/-- `uart_rx_push`: a full fifo drops the character. -/
def rxPush (u : Uart) (ch : Byte) : Uart :=
  let next := (u.rxTail + 1) % UART_RX_FIFO_SIZE
  if next = u.rxHead then u
  else { u with rxFifo := Function.update u.rxFifo u.rxTail ch, rxTail := next }

/-- `uart_rx_pop`. -/
def rxPop (u : Uart) : Byte × Uart :=
  if u.rxEmpty then (0, u)
  else (u.rxFifo u.rxHead, { u with rxHead := (u.rxHead + 1) % UART_RX_FIFO_SIZE })

/--
The loop of `uart_poll_input` over the characters read from the terminal;
`none` when the operator asked the vmm to terminate.
-/
def receive (u : Uart) : List Byte → Option Uart
  | [] => some u
  | ch :: rest =>
      if u.escapeArmed then
        let u := { u with escapeArmed := false }
        if ch = 0x78 then none
        else if ch = UART_ESCAPE_CHAR then (u.rxPush UART_ESCAPE_CHAR).receive rest
        else (u.rxPush ch).receive rest
      else if ch = UART_ESCAPE_CHAR then
        { u with escapeArmed := true }.receive rest
      else
        (u.rxPush ch).receive rest

/-- `uart_interrupt_pending`. -/
def interruptPending (u : Uart) : Bool :=
  if u.ier &&& UART_IER_RX_AVAIL ≠ 0 ∧ ¬u.rxEmpty then true
  else if u.ier &&& UART_IER_THR_EMPTY ≠ 0 then true
  else false

/-- The register switch of `uart_mmio_read`. -/
def readReg (u : Uart) (reg : Nat) : Byte × Uart :=
  match reg with
  | 0 => if u.lcr &&& UART_LCR_DLAB ≠ 0 then (u.dll, u) else u.rxPop
  | 1 => (if u.lcr &&& UART_LCR_DLAB ≠ 0 then u.dlm else u.ier, u)
  | 2 =>
      let cause :=
        if u.ier &&& UART_IER_RX_AVAIL ≠ 0 ∧ ¬u.rxEmpty then UART_IIR_RX_AVAIL
        else if u.ier &&& UART_IER_THR_EMPTY ≠ 0 then UART_IIR_THR_EMPTY
        else UART_IIR_NO_INT
      (cause ||| UART_IIR_FIFO, u)
  | 3 => (u.lcr, u)
  | 4 => (u.mcr, u)
  | 5 =>
      let idle := UART_LSR_TEMT ||| UART_LSR_THRE
      (if u.rxEmpty then idle else idle ||| UART_LSR_DR, u)
  | 6 => (UART_MSR_CTS ||| UART_MSR_DSR ||| UART_MSR_DCD, u)
  | 7 => (u.scr, u)
  | _ => (0, u)

/-- The register switch of `uart_mmio_write`; the character is what reaches stdout. -/
def writeReg (u : Uart) (reg : Nat) (val : Byte) : Option Byte × Uart :=
  match reg with
  | 0 => if u.lcr &&& UART_LCR_DLAB ≠ 0 then (none, { u with dll := val }) else (some val, u)
  | 1 =>
      (none,
        if u.lcr &&& UART_LCR_DLAB ≠ 0 then { u with dlm := val }
        else { u with ier := val &&& 0x0f })
  | 2 =>
      (none,
        if val &&& 0x2 ≠ 0 then { u with fcr := val, rxHead := 0, rxTail := 0 }
        else { u with fcr := val })
  | 3 => (none, { u with lcr := val })
  | 4 => (none, { u with mcr := val })
  | 7 => (none, { u with scr := val })
  | _ => (none, u)

end Uart

/-! ## Test finisher -/

def SYSCON_PASS : Word := 0x5555
def SYSCON_FAIL : Word := 0x3333
def SYSCON_RESET : Word := 0x7777

/-- Whether `syscon_write` ends the process for this command. -/
def sysconStops (value : DWord) : Bool :=
  let command := value.setWidth 32 &&& 0xffff#32
  command == SYSCON_PASS || command == SYSCON_FAIL || command == SYSCON_RESET

end Zelda.Vmm
