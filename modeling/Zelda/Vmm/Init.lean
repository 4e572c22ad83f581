import Zelda.Vmm.Translation
/-!
# The machine at power-on

The state `virtual_machine_init` builds from the shipped configuration: the
memory map of the platform, one hart in machine mode at the reset pc, empty
TLBs and an empty translation cache.
-/

namespace Zelda.Vmm

/-- The regions of the shipped configuration, in the order registration sorts them to. -/
def platformRegions : List PmRegion :=
  [ { addrLow := 0x00000000, addrHigh := 0x00400000, ops := .bootrom },
    { addrLow := 0x00400000, addrHigh := 0x00401000, ops := .syscon },
    { addrLow := 0x02000000, addrHigh := 0x02010000, ops := .clint },
    { addrLow := 0x0c000000, addrHigh := 0x10000000, ops := .plic },
    { addrLow := 0x10000000, addrHigh := 0x10000100, ops := .uart },
    { addrLow := 0x80000000, addrHigh := 0x90000000, ops := .ram } ]

/-- A TLB after `hart_tlb_init`. -/
def initialTlb : Tlb where
  cap := 0x4000
  entries := fun _ =>
    { vaTag := 0, paTag := 0, pageMask := 0, entryValid := false
      pmr := { addrLow := 0, addrHigh := 0, ops := .ram }, ghostSatp := 0 }
  cap_pos := by decide
  cap_lt := by decide

/-- `csr_registery_init`: every reset value but those of two identification registers is zero. -/
def initialCsrBlob (address : CsrAddress) : Word :=
  if address = 0x301 then 0x40141101
  else if address = 0xf11 then 0x60a
  else 0

/-- `hart_init` for hart 0. -/
def initialHart : Hart where
  registers := fun _ => 0
  pc := 0x4000
  hartId := 0
  pcMappings := []
  translationCache := fun _ => .empty
  translationCachePtr := 0
  csrBlob := initialCsrBlob
  idelegation := 0
  ienable := 0
  ipending := 0
  status :=
    { uie := false, sie := false, mie := false, upie := false, spie := false, mpie := false
      spp := 0, mpp := 0 }
  privilegeLevel := PRIVILEGE_LEVEL_MACHINE
  itlb := initialTlb
  dtlb := initialTlb
  tsc := 0
  ghostPrefetches := 0

/-- `clint_init`: no timer is armed. -/
def initialClint : Clint where
  base := 0x02000000
  nrHarts := 1
  mtime := 0
  mtimecmp := fun _ => BitVec.allOnes 64
  msip := fun _ => 0
  nrHarts_le := by decide

/-- `plic_init`. -/
def initialPlic : Plic where
  base := 0x0c000000
  nrContexts := 2
  priority := fun _ => 0
  asserted := 0
  pending := 0
  claimed := 0
  enable := fun _ => 0
  threshold := fun _ => 0

/-- `uart_init`. -/
def initialUart : Uart where
  ier := 0
  lcr := 0
  mcr := 0
  fcr := 0
  scr := 0
  dll := 3
  dlm := 0
  rxFifo := fun _ => 0
  rxHead := 0
  rxTail := 0
  consoleAttached := true
  escapeArmed := false

/-- `virtual_machine_init` with the given images in ROM and RAM. -/
def virtualMachineInit (rom ram : Nat → Byte) : Vm where
  hart := initialHart
  pmrOps := platformRegions
  mainMem := { bytes := ram, size := 0x10000000 }
  bootrom := { bytes := rom, size := 0x400000 }
  clint := initialClint
  plic := initialPlic
  uart := initialUart
  reservations := fun _ => { addr := 0, valid := false, hartid := 0 }
  nextPointer := 0
  pollCountdown := 0
  ticksPerTranslationUnit := 2
  hostInput := []
  hostOutput := []

/-- A build in which every block is 256 bytes long. -/
def evenHostCode : HostCode where
  blockSize := fun _ => 256
  jumperSize := 9
  hartBase := 0x500000
  translationCacheBase := 0x600000
  clobber := fun _ _ _ => 0
  scratch :=
    { rax := 0, rbx := 0, rcx := 0, rdx := 0, rsi := 0, rdi := 0, r8 := 0, r12 := 0, r13 := 0
      r14 := 0, r15 := 0, flags := none, stack := [] }
  params_lt := by intro i; cases i <;> decide
  jumperSize_pos := by decide
  block_fits := by intro i; decide

end Zelda.Vmm
