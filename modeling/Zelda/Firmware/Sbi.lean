import Zelda.Firmware.Printk
import Zelda.Vmm.Csr
import Zelda.Vmm.Privileged
/-!
# The supervisor binary interface of the boot ROM

`sbi.c` on the machine it runs on.  A CSR macro is the instruction it expands
to, a volatile access a load or a store of the hart, and `struct trap_frame`
the array of registers it holds.
-/

namespace Zelda.Firmware

open Zelda.Vmm

/-! ## CSR macros -/

def csrAt (address : CsrAddress) : VmM CsrEntry :=
  match csrEntryAt address with
  | some csr => pure csr
  | none => throw .exit

/-- `read_csr`, a `csrrs` with `x0`. -/
def readCsr (address : CsrAddress) : VmM Word := do
  csrRead (← csrAt address)

/-- `write_csr`, a `csrrw` to `x0`. -/
def writeCsr (address : CsrAddress) (value : Word) : VmM Unit := do
  let csr ← csrAt address
  csrWrite csr (value &&& csr.wpriMask)

/-- `set_csr`, a `csrrs` to `x0`. -/
def setCsr (address : CsrAddress) (bits : Word) : VmM Unit := do
  let csr ← csrAt address
  let value ← csrRead csr
  csrWrite csr ((value ||| bits) &&& csr.wpriMask)

/-- `clear_csr`, a `csrrc` to `x0`. -/
def clearCsr (address : CsrAddress) (bits : Word) : VmM Unit := do
  let csr ← csrAt address
  let value ← csrRead csr
  csrWrite csr (value &&& ~~~bits &&& csr.wpriMask)

def MIP_SSIP : Word := 0x2
def MIP_STIP : Word := 0x20
def MIE_MSIE : Word := 0x8
def MIE_MTIE : Word := 0x80

def CSR_MHARTID : CsrAddress := 0xf14
def CSR_MVENDORID : CsrAddress := 0xf11
def CSR_MARCHID : CsrAddress := 0xf12
def CSR_MIMPID : CsrAddress := 0xf13

/-! ## The platform -/

def CLINT_BASE : Word := 0x02000000
def CLINT_MSIP_OFFSET : Word := 0x0000
def CLINT_MTIMECMP_OFFSET : Word := 0x4000
def SYSCON_BASE : Word := 0x00400000
def SYSCON_POWEROFF : Word := 0x00005555

/-- `*(volatile uint32_t *)address = value`. -/
def store32 (address value : Word) : VmM Unit :=
  vmwrite address .b4 (value.setWidth 64)

/-! ## Calls -/

/-- `struct trap_frame`. -/
abbrev TrapFrame := RegIndex → Word

def REG_A0 : RegIndex := 10
def REG_A1 : RegIndex := 11
def REG_A6 : RegIndex := 16
def REG_A7 : RegIndex := 17

def SBI_EXT_LEGACY_SET_TIMER : Word := 0x00
def SBI_EXT_LEGACY_CONSOLE_PUTCHAR : Word := 0x01
def SBI_EXT_LEGACY_CONSOLE_GETCHAR : Word := 0x02
def SBI_EXT_LEGACY_CLEAR_IPI : Word := 0x03
def SBI_EXT_LEGACY_SEND_IPI : Word := 0x04
def SBI_EXT_LEGACY_REMOTE_FENCE_I : Word := 0x05
def SBI_EXT_LEGACY_REMOTE_SFENCE_VMA : Word := 0x06
def SBI_EXT_LEGACY_REMOTE_SFENCE_VMA_ASID : Word := 0x07
def SBI_EXT_LEGACY_SHUTDOWN : Word := 0x08
def SBI_EXT_BASE : Word := 0x10
def SBI_EXT_TIME : Word := 0x54494d45
def SBI_EXT_IPI : Word := 0x00735049
def SBI_EXT_RFENCE : Word := 0x52464e43
def SBI_EXT_SRST : Word := 0x53525354

def SBI_BASE_GET_SPEC_VERSION : Word := 0x0
def SBI_BASE_GET_IMPL_ID : Word := 0x1
def SBI_BASE_GET_IMPL_VERSION : Word := 0x2
def SBI_BASE_PROBE_EXTENSION : Word := 0x3
def SBI_BASE_GET_MVENDORID : Word := 0x4
def SBI_BASE_GET_MARCHID : Word := 0x5
def SBI_BASE_GET_MIMPID : Word := 0x6

def SBI_SUCCESS : Word := 0
def SBI_ERR_NOT_SUPPORTED : Word := -2
def SBI_SPEC_VERSION : Word := 3
def SBI_IMPL_ID : Word := 8
def SBI_IMPL_VERSION : Word := 1

/-- `current_hartid`. -/
def currentHartid : VmM Word :=
  readCsr CSR_MHARTID

/-- `sbi_set_timer`. -/
def sbiSetTimer (next : DWord) : VmM Unit := do
  let mtimecmp := CLINT_BASE + CLINT_MTIMECMP_OFFSET + 8 * (← currentHartid)
  store32 (mtimecmp + 4) 0xffffffff
  store32 mtimecmp (next.setWidth 32)
  store32 (mtimecmp + 4) ((next >>> 32).setWidth 32)
  clearCsr CSR_ADDRESS_MIP MIP_STIP
  setCsr CSR_ADDRESS_MIE MIE_MTIE

/-- `sbi_send_ipi`. -/
def sbiSendIpi (hart : Word) : VmM Unit :=
  store32 (CLINT_BASE + CLINT_MSIP_OFFSET + 4 * hart) 1

/-- `sbi_shutdown`. -/
def sbiShutdown : VmM Unit := do
  printk "\r\nzelda: system halted\r\n" []
  store32 SYSCON_BASE SYSCON_POWEROFF
  hang

/-- The extensions `sbi_probe_extension` knows. -/
def probedExtensions : List Word :=
  [SBI_EXT_BASE, SBI_EXT_TIME, SBI_EXT_IPI, SBI_EXT_RFENCE, SBI_EXT_SRST,
    SBI_EXT_LEGACY_SET_TIMER, SBI_EXT_LEGACY_CONSOLE_PUTCHAR, SBI_EXT_LEGACY_CONSOLE_GETCHAR,
    SBI_EXT_LEGACY_CLEAR_IPI, SBI_EXT_LEGACY_SEND_IPI, SBI_EXT_LEGACY_REMOTE_FENCE_I,
    SBI_EXT_LEGACY_REMOTE_SFENCE_VMA, SBI_EXT_LEGACY_REMOTE_SFENCE_VMA_ASID,
    SBI_EXT_LEGACY_SHUTDOWN]

/-- `sbi_probe_extension`. -/
def sbiProbeExtension (extensionId : Word) : Word :=
  if extensionId ∈ probedExtensions then 1 else 0

/-- The deadline that rv32 splits across `a0` and `a1`. -/
def frameDeadline (frame : TrapFrame) : DWord :=
  (frame REG_A1).setWidth 64 <<< 32 ||| (frame REG_A0).setWidth 64

/-- The switch of `sbi_legacy_call`, up to the value returned. -/
def legacyResult (frame : TrapFrame) (extensionId : Word) : VmM Word := do
  if extensionId = SBI_EXT_LEGACY_SET_TIMER then
    sbiSetTimer (frameDeadline frame)
    pure 0
  else if extensionId = SBI_EXT_LEGACY_CONSOLE_PUTCHAR then
    uart16550Putchar ((frame REG_A0).setWidth 8)
    pure 0
  else if extensionId = SBI_EXT_LEGACY_CONSOLE_GETCHAR then
    uart16550Getchar
  else if extensionId = SBI_EXT_LEGACY_CLEAR_IPI then
    clearCsr CSR_ADDRESS_MIP MIP_SSIP
    pure 0
  else if extensionId = SBI_EXT_LEGACY_SEND_IPI then
    sbiSendIpi (← currentHartid)
    pure 0
  else if extensionId = SBI_EXT_LEGACY_REMOTE_FENCE_I then
    modifyHart Hart.flushTranslationCache
    pure 0
  else if extensionId = SBI_EXT_LEGACY_REMOTE_SFENCE_VMA ∨
      extensionId = SBI_EXT_LEGACY_REMOTE_SFENCE_VMA_ASID then
    sfenceVmaCallback
    pure 0
  else if extensionId = SBI_EXT_LEGACY_SHUTDOWN then
    sbiShutdown
    pure 0
  else
    pure SBI_ERR_NOT_SUPPORTED

/-- `sbi_legacy_call`. -/
def sbiLegacyCall (frame : TrapFrame) (extensionId : Word) : VmM TrapFrame := do
  let ret ← legacyResult frame extensionId
  pure (Function.update frame REG_A0 ret)

/-- The calls of `SBI_EXT_BASE`: an error code and a value. -/
def baseResult (frame : TrapFrame) (functionId : Word) : VmM (Word × Word) := do
  if functionId = SBI_BASE_GET_SPEC_VERSION then
    pure (SBI_SUCCESS, SBI_SPEC_VERSION)
  else if functionId = SBI_BASE_GET_IMPL_ID then
    pure (SBI_SUCCESS, SBI_IMPL_ID)
  else if functionId = SBI_BASE_GET_IMPL_VERSION then
    pure (SBI_SUCCESS, SBI_IMPL_VERSION)
  else if functionId = SBI_BASE_PROBE_EXTENSION then
    pure (SBI_SUCCESS, sbiProbeExtension (frame REG_A0))
  else if functionId = SBI_BASE_GET_MVENDORID then
    pure (SBI_SUCCESS, ← readCsr CSR_MVENDORID)
  else if functionId = SBI_BASE_GET_MARCHID then
    pure (SBI_SUCCESS, ← readCsr CSR_MARCHID)
  else if functionId = SBI_BASE_GET_MIMPID then
    pure (SBI_SUCCESS, ← readCsr CSR_MIMPID)
  else
    pure (SBI_ERR_NOT_SUPPORTED, 0)

/-- The loop over the bits of the hart mask. -/
def sendIpiLoop (mask base : Word) : List Nat → VmM Unit
  | [] => pure ()
  | bit :: bits => do
      if mask &&& (1#32 <<< bit) ≠ 0 then
        sbiSendIpi (base + BitVec.ofNat 32 bit)
      sendIpiLoop mask base bits

/-- The switch of `sbi_modern_call`, up to the error code and the value returned. -/
def modernResult (frame : TrapFrame) (extensionId functionId : Word) : VmM (Word × Word) := do
  if extensionId = SBI_EXT_BASE then
    baseResult frame functionId
  else if extensionId = SBI_EXT_TIME then
    if functionId = 0 then
      sbiSetTimer (frameDeadline frame)
      pure (SBI_SUCCESS, 0)
    else
      pure (SBI_ERR_NOT_SUPPORTED, 0)
  else if extensionId = SBI_EXT_IPI then
    if functionId = 0 then
      sendIpiLoop (frame REG_A0) (frame REG_A1) (List.range 32)
      pure (SBI_SUCCESS, 0)
    else
      pure (SBI_ERR_NOT_SUPPORTED, 0)
  else if extensionId = SBI_EXT_RFENCE then
    if functionId = 0 then
      modifyHart Hart.flushTranslationCache
      pure (SBI_SUCCESS, 0)
    else if functionId = 1 ∨ functionId = 2 then
      sfenceVmaCallback
      pure (SBI_SUCCESS, 0)
    else
      pure (SBI_ERR_NOT_SUPPORTED, 0)
  else if extensionId = SBI_EXT_SRST then
    if functionId = 0 then
      sbiShutdown
      pure (SBI_SUCCESS, 0)
    else
      pure (SBI_ERR_NOT_SUPPORTED, 0)
  else
    pure (SBI_ERR_NOT_SUPPORTED, 0)

/-- `sbi_modern_call`. -/
def sbiModernCall (frame : TrapFrame) (extensionId functionId : Word) : VmM TrapFrame := do
  let (error, value) ← modernResult frame extensionId functionId
  pure (Function.update (Function.update frame REG_A0 error) REG_A1 value)

/-- `sbi_dispatch`. -/
def sbiDispatch (frame : TrapFrame) : VmM TrapFrame :=
  if frame REG_A7 ≤ SBI_EXT_LEGACY_SHUTDOWN then
    sbiLegacyCall frame (frame REG_A7)
  else
    sbiModernCall frame (frame REG_A7) (frame REG_A6)

/-! ## Traps -/

def CAUSE_SUPERVISOR_ECALL : Word := 0x9
def IRQ_MACHINE_SOFTWARE : Word := 3
def IRQ_MACHINE_TIMER : Word := 7

/-- `fw_fatal`. -/
def fwFatal {α : Type} (what : CString) (mcause mepc mtval : Word) : VmM α := do
  printk "\r\n[firmware] unhandled %s\r\n" [.string what]
  printk "[firmware]   mcause 0x%x mepc 0x%x mtval 0x%x\r\n" [.word mcause, .word mepc, .word mtval]
  printk "[firmware] halting.\r\n" []
  hang

/-- `fw_handle_interrupt`. -/
def fwHandleInterrupt (cause : Word) : VmM Unit := do
  if cause = IRQ_MACHINE_TIMER then
    clearCsr CSR_ADDRESS_MIE MIE_MTIE
    setCsr CSR_ADDRESS_MIP MIP_STIP
  else if cause = IRQ_MACHINE_SOFTWARE then
    store32 (CLINT_BASE + CLINT_MSIP_OFFSET + 4 * (← currentHartid)) 0
    setCsr CSR_ADDRESS_MIP MIP_SSIP
  else
    fwFatal (literal "machine interrupt") cause (← readCsr CSR_ADDRESS_MEPC) 0

/-- `fw_trap_handler`. -/
def fwTrapHandler (frame : TrapFrame) : VmM TrapFrame := do
  let mcause ← readCsr CSR_ADDRESS_MCAUSE
  if mcause &&& 0x80000000 ≠ 0 then
    fwHandleInterrupt (mcause &&& 0xff)
    pure frame
  else if mcause = CAUSE_SUPERVISOR_ECALL then
    let frame ← sbiDispatch frame
    let mepc ← readCsr CSR_ADDRESS_MEPC
    writeCsr CSR_ADDRESS_MEPC (mepc + 4)
    pure frame
  else
    let mepc ← readCsr CSR_ADDRESS_MEPC
    fwFatal (literal "machine exception") mcause mepc (← readCsr CSR_ADDRESS_MTVAL)

/-- `sbi_init`, with the address of `fw_trap_vector`. -/
def sbiInit (fwTrapVector : Word) : VmM Unit := do
  writeCsr CSR_ADDRESS_MTVEC fwTrapVector
  writeCsr CSR_ADDRESS_MIE MIE_MSIE
  writeCsr CSR_ADDRESS_MIP 0

end Zelda.Firmware
