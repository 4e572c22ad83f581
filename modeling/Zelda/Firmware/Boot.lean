import Zelda.Firmware.Entry
import Zelda.Firmware.Printk
import Zelda.Firmware.Sha1
import Zelda.Vmm.BootInfo
/-!
# The way into the supervisor

`fw_main` of `init.c` with what it calls: `uart16550_init`, the banner,
`validate_dtb` and, instruction by instruction, `enter_supervisor` of `entry.S`.
-/

namespace Zelda.Firmware

open Zelda.Vmm

/-- `*(uint32_t *)address`. -/
def load32 (address : Word) : VmM Word := do
  let value ← vmread address .b4
  pure (value.setWidth 32)

/-! ## Console -/

def UART_REG_DLL : Word := 0
def UART_REG_IER : Word := 1
def UART_REG_DLM : Word := 1
def UART_REG_FCR : Word := 2
def UART_REG_LCR : Word := 3

def uartStore (register : Word) (value : Byte) : VmM Unit :=
  vmwrite (UART16550_BASE + register) .b1 (value.setWidth 64)

/-- `uart16550_init`. -/
def uart16550Init : VmM Unit := do
  uartStore UART_REG_IER 0x00
  uartStore UART_REG_LCR 0x80
  uartStore UART_REG_DLL 0x03
  uartStore UART_REG_DLM 0x00
  uartStore UART_REG_LCR 0x03
  uartStore UART_REG_FCR 0xc7

/-! ## Device tree -/

/-- The bytes `SHA1` reads, a load each. -/
def loadBlob (address : Word) : Nat → VmM (List Byte)
  | 0 => pure []
  | n + 1 => do
      let value ← vmread address .b1
      let rest ← loadBlob (address + 1) n
      pure (value.setWidth 8 :: rest)

theorem hexDigits_ne_zero : ∀ nibble : BitVec 4, (hexDigits true).getD nibble.toNat 0 ≠ 0 := by
  decide

/-- The loop that fills `hex_result`. -/
def hexResultBytes (result : List Byte) : List Byte :=
  (result.take 20).flatMap fun value =>
    [(hexDigits true).getD ((value >>> 4).setWidth 4).toNat 0,
      (hexDigits true).getD (value.setWidth 4).toNat 0]

/-- `hex_result`, with its terminator. -/
def hexResult (result : List Byte) : CString where
  bytes := hexResultBytes result
  noNul := by
    intro hmem
    obtain ⟨value, -, hdigit⟩ := List.mem_flatMap.mp hmem
    rcases List.mem_pair.mp hdigit with h | h
    · exact hexDigits_ne_zero _ h.symm
    · exact hexDigits_ne_zero _ h.symm

/-- `validate_dtb`; `ctx` is what the stack holds where `SHA1` puts its context. -/
def validateDtb (ctx : Sha1Ctx) (dtbAddress : Word) : VmM Unit := do
  let magic ← load32 dtbAddress
  if magic = bigEndian32 FDT_MAGIC then
    printk "device tree detected at 0x%x\n" [.word dtbAddress]
    let totalsize ← load32 (dtbAddress + 4)
    printk "device tree blob size: %d bytes\n" [.word (littleEndian32 totalsize)]
    let blob ← loadBlob dtbAddress (littleEndian32 totalsize).toNat
    match sha1 ctx blob (littleEndian32 totalsize) with
    | none => undefined
    | some result => printk "device tree blob sha1 checksum: %s\n" [.string (hexResult result)]
  else
    printk "\x1b[31mdevice tree not detected\n\x1b[0m" []

/-! ## Boot information -/

/-- `boot_info()->field`. -/
def bootInfo (field : BootInfoField) : VmM Word :=
  load32 (BitVec.ofNat 32 (ZELDA_BOOT_INFO_ADDRESS + field.offset))

/-- `banner`. -/
def banner : VmM Unit := do
  printk "\r\n" []
  printk "zelda machine mode firmware\r\n" []
  printk "  platform    : rv32ima, %d hart(s)\r\n" [.word (← bootInfo .nrHarts)]
  printk "  memory      : 0x%x + %d MiB\r\n"
    [.word (← bootInfo .memoryStart), .word ((← bootInfo .memorySize) >>> 20)]
  printk "  device tree : 0x%x\r\n" [.word (← bootInfo .dtbAddress)]
  printk "  kernel      : 0x%x\r\n" [.word (← bootInfo .kernelEntry)]
  if (← bootInfo .initrdStart) < (← bootInfo .initrdEnd) then
    printk "  initrd      : 0x%x - 0x%x\r\n"
      [.word (← bootInfo .initrdStart), .word (← bootInfo .initrdEnd)]
  printk "  sbi         : v0.3, extensions base/time/ipi/rfence/srst\r\n" []
  printk "\r\n" []

/-! ## Entering the supervisor -/

/-- The symbols of the linked firmware, and what its stack holds before `SHA1` runs. -/
structure FirmwareImage where
  fwTrapVector : Word
  fwStackTop : Word
  sha1Ctx : Sha1Ctx

def FW_STACK_SHIFT : Nat := 13
def REG_T1 : RegIndex := 6
def REG_A2 : RegIndex := 12

/-- `LOAD_ADDRESS`: `lui` with `%hi`, `addi` with `%lo`. -/
def loadAddress (reg : RegIndex) (sym : Word) : VmM Unit := do
  modifyHart fun h => h.setReg reg ((sym + 0x800) &&& 0xfffff000)
  EntryInstr.add reg reg ((sym.setWidth 12).signExtend 32)

/-- `enter_supervisor`, its arguments in `a0` to `a2`. -/
def enterSupervisor (image : FirmwareImage) (hartid dtb entry : Word) : VmM Unit := do
  modifyHart fun h => h.setReg REG_A0 hartid
  modifyHart fun h => h.setReg REG_A1 dtb
  modifyHart fun h => h.setReg REG_A2 entry
  (EntryInstr.csrw CSR_ADDRESS_MEPC REG_A2).run
  loadAddress REG_T0 image.fwStackTop
  (EntryInstr.csrr REG_T1 CSR_MHARTID).run
  modifyHart fun h => h.setReg REG_T1 (h.registers REG_T1 <<< FW_STACK_SHIFT)
  modifyHart fun h => h.setReg REG_T0 (h.registers REG_T0 - h.registers REG_T1)
  (EntryInstr.csrw CSR_ADDRESS_MSCRATCH REG_T0).run
  EntryInstr.mret.run

def MEDELEG_TO_SUPERVISOR : Word := 0xb1ff
def MIDELEG_TO_SUPERVISOR : Word := 0x222
def MSTATUS_MPIE : Word := 0x80
def MSTATUS_MPP_SHIFT : Nat := 11
def MSTATUS_MPP_MASK : Word := 3 <<< MSTATUS_MPP_SHIFT
def PRIVILEGE_SUPERVISOR : Word := 1

/-- `fw_main`, without the self tests of `FW_SELFTEST`. -/
def fwMain (image : FirmwareImage) : VmM Unit := do
  uart16550Init
  if (← bootInfo .magic) ≠ ZELDA_BOOT_INFO_MAGIC then
    printk "[firmware] no boot info at 0x%x, cannot continue\r\n"
      [.word (BitVec.ofNat 32 ZELDA_BOOT_INFO_ADDRESS)]
    hang
  else
    banner
    validateDtb image.sha1Ctx (← bootInfo .dtbAddress)
    sbiInit image.fwTrapVector
    writeCsr CSR_ADDRESS_MEDELEG MEDELEG_TO_SUPERVISOR
    writeCsr CSR_ADDRESS_MIDELEG MIDELEG_TO_SUPERVISOR
    let mstatus ← readCsr CSR_ADDRESS_MSTATUS
    let mstatus := mstatus &&& ~~~MSTATUS_MPP_MASK
    let mstatus := mstatus ||| PRIVILEGE_SUPERVISOR <<< MSTATUS_MPP_SHIFT
    let mstatus := mstatus ||| MSTATUS_MPIE
    writeCsr CSR_ADDRESS_MSTATUS mstatus
    printk "[firmware] entering supervisor at 0x%x\r\n\r\n" [.word (← bootInfo .kernelEntry)]
    enterSupervisor image (← readCsr CSR_MHARTID) (← bootInfo .dtbAddress)
      (← bootInfo .kernelEntry)

end Zelda.Firmware
